/-! Patterns on text: the basic regular expressions of line editors, with numbered groups, and the
wildcard patterns of the shell. Stars are greedy. -/
namespace PrecompiledHeaders.Shell

inductive Atom where
  | char (c : Char)
  | any
  | set (negated : Bool) (ranges : List (Char × Char))
  deriving DecidableEq, Repr

def Atom.holds : Atom → Char → Bool
  | .char d, c => c = d
  | .any, _ => true
  | .set negated ranges, c => (ranges.any fun r => r.1 ≤ c && c ≤ r.2) != negated

inductive Item where
  | one (a : Atom)
  | many (a : Atom)
  | opening (group : Nat)
  | closing (group : Nat)
  | lineStart
  | lineEnd
  deriving DecidableEq, Repr

abbrev Pattern := List Item

/-! ### Matching -/

/-- The texts of the groups; an open group holds what was left where it opened. -/
structure Groups where
  opened : List (Nat × List Char)
  closed : List (Nat × List Char)

def Groups.none : Groups := ⟨[], []⟩

def Groups.enter (g : Groups) (n : Nat) (left : List Char) : Groups :=
  { g with opened := (n, left) :: g.opened }

def Groups.leave (g : Groups) (n : Nat) (left : List Char) : Groups :=
  match g.opened.lookup n with
  | some start => { g with closed := (n, start.take (start.length - left.length)) :: g.closed }
  | .none => g

def Groups.text (g : Groups) (n : Nat) : List Char := (g.closed.lookup n).getD []

/-- What is left after a match at the head of `cs`, and the groups. -/
def matchHere (atStart : Bool) (items : Pattern) (cs : List Char) (g : Groups) :
    Option (List Char × Groups) :=
  match items with
  | [] => some (cs, g)
  | .opening n :: rest => matchHere atStart rest cs (g.enter n cs)
  | .closing n :: rest => matchHere atStart rest cs (g.leave n cs)
  | .lineStart :: rest => if atStart then matchHere atStart rest cs g else none
  | .lineEnd :: rest => if cs.isEmpty then matchHere atStart rest cs g else none
  | .one a :: rest =>
    match cs with
    | c :: more => if a.holds c then matchHere false rest more g else none
    | [] => none
  | .many a :: rest =>
    match cs with
    | c :: more =>
      if a.holds c then
        (matchHere false (.many a :: rest) more g).orElse fun _ =>
          matchHere atStart rest (c :: more) g
      else matchHere atStart rest (c :: more) g
    | [] => matchHere atStart rest [] g
termination_by items.length + cs.length

/-- The first match: what stands before it, what it takes, what is left, and the groups. -/
def findMatch (items : Pattern) :
    Bool → List Char → Option (List Char × List Char × List Char × Groups)
  | atStart, [] => (matchHere atStart items [] .none).map fun r => ([], [], [], r.2)
  | atStart, c :: more =>
    match matchHere atStart items (c :: more) .none with
    | some (rest, g) => some ([], (c :: more).take (more.length + 1 - rest.length), rest, g)
    | none => (findMatch items false more).map fun r => (c :: r.1, r.2)

def matchesWhole (items : Pattern) (cs : List Char) : Bool :=
  (matchHere true (items ++ [.lineEnd]) cs .none).isSome

/-! ### Reading -/

/-- The rest of a bracket expression; a closing bracket that stands first is a member. -/
def readRanges (first : Bool) (cs : List Char) : Option (List (Char × Char) × List Char) :=
  match cs with
  | [] => none
  | c :: rest =>
    if c = ']' && !first then some ([], rest)
    else match rest with
      | '-' :: d :: more =>
        if d = ']' then some ([(c, c), ('-', '-')], more)
        else (readRanges false more).map fun r => ((c, d) :: r.1, r.2)
      | [] => none
      | d :: more => (readRanges false (d :: more)).map fun r => ((c, c) :: r.1, r.2)
termination_by cs.length

def readSet (cs : List Char) : Option (Atom × List Char) :=
  match cs with
  | '^' :: rest => (readRanges true rest).map fun r => (.set true r.1, r.2)
  | '!' :: rest => (readRanges true rest).map fun r => (.set true r.1, r.2)
  | _ => (readRanges true cs).map fun r => (.set false r.1, r.2)

/-- An atom with the star behind it, if there is one. -/
def starred (a : Atom) (rest : List Char) : Pattern × List Char :=
  match rest with
  | '*' :: rest => ([.many a], rest)
  | '\\' :: '+' :: rest => ([.one a, .many a], rest)
  | _ => ([.one a], rest)

/-- A basic regular expression. `nested` are the groups that are open, `groups` counts them. -/
def readExpression : Nat → List Nat → Nat → List Char → Option Pattern
  | 0, _, _, _ => none
  | _ + 1, nested, _, [] => if nested.isEmpty then some [] else none
  | fuel + 1, nested, groups, '\\' :: '(' :: rest =>
    (readExpression fuel ((groups + 1) :: nested) (groups + 1) rest).map
      (.opening (groups + 1) :: ·)
  | fuel + 1, nested, groups, '\\' :: ')' :: rest =>
    match nested with
    | n :: nested => (readExpression fuel nested groups rest).map (.closing n :: ·)
    | [] => none
  | fuel + 1, nested, groups, '$' :: rest =>
    if rest.isEmpty then (readExpression fuel nested groups rest).map (.lineEnd :: ·)
    else (readExpression fuel nested groups (starred (.char '$') rest).2).map
      ((starred (.char '$') rest).1 ++ ·)
  | fuel + 1, nested, groups, c :: rest => do
    let (a, rest) ← (match c, rest with
      | '[', rest => readSet rest
      | '.', rest => some (.any, rest)
      | '\\', 'n' :: rest => some (.char '\n', rest)
      | '\\', d :: rest => some (.char d, rest)
      | c, rest => some (.char c, rest))
    let (items, rest) := starred a rest
    (readExpression fuel nested groups rest).map (items ++ ·)

def expression? (cs : List Char) : Option Pattern :=
  match cs with
  | '^' :: rest => (readExpression (rest.length + 1) [] 0 rest).map (.lineStart :: ·)
  | _ => readExpression (cs.length + 1) [] 0 cs

/-- A wildcard pattern; characters marked true stand for themselves. -/
def wildcards : List (Bool × Char) → Pattern
  | [] => []
  | (true, c) :: rest => .one (.char c) :: wildcards rest
  | (false, '*') :: rest => .many .any :: wildcards rest
  | (false, '?') :: rest => .one .any :: wildcards rest
  | (false, c) :: rest => .one (.char c) :: wildcards rest

end PrecompiledHeaders.Shell
