/-! Shell scripts: their parts and how they are read. A script that is not well formed is not read
at all. -/
namespace PrecompiledHeaders.Shell

inductive RedirectMode where
  | read
  | write
  | append
  /-- The channel becomes a copy of another one. -/
  | copy
  deriving DecidableEq, Repr

mutual

/-- A piece of a word. What comes from outside quotes is split at blanks. -/
inductive Piece where
  | text (quoted : Bool) (s : String)
  | parameter (quoted : Bool) (name : String)
  | result (quoted : Bool) (script : Script)

inductive Script where
  | nothing
  | simple (assignments : List (String × List Piece)) (words : List (List Piece))
  | redirect (script : Script) (channel : Nat) (mode : RedirectMode) (target : List Piece)
  | sequence (first second : Script)
  | both (first second : Script)
  | either (first second : Script)
  | negate (script : Script)
  | pipe (first second : Script)
  | subshell (script : Script)
  | choice (condition yes no : Script)
  /-- Without words, the arguments are taken. -/
  | each (name : String) (words : Option (List (List Piece))) (body : Script)
  | loop (negated : Bool) (condition body : Script)
  | cases (word : List Piece) (branches : List (List (List Piece) × Script))

end

instance : Inhabited Script := ⟨.nothing⟩

abbrev Word := List Piece

def Piece.isResult : Piece → Bool
  | .result _ _ => true
  | _ => false

def Piece.text? : Piece → Option String
  | .text _ s => some s
  | _ => none

/-- The text of a word in which nothing is to be expanded. -/
def Word.plainText? (w : Word) : Option String := (w.mapM Piece.text?).map String.join

/-! ### Characters -/

def isNameStart (c : Char) : Bool := c.isAlpha || c = '_'
def isNameChar (c : Char) : Bool := c.isAlphanum || c = '_'

def backquote : Char := '\x60'

def endsWord (c : Char) : Bool :=
  c = ' ' || c = '\t' || c = '\n' || c = ';' || c = '&' || c = '|' || c = '<' || c = '>'
    || c = '(' || c = ')'

/-- Blanks, joined lines and a comment. -/
def skipBlank : List Char → List Char
  | ' ' :: rest => skipBlank rest
  | '\t' :: rest => skipBlank rest
  | '\\' :: '\n' :: rest => skipBlank rest
  | '#' :: rest => rest.dropWhile (· ≠ '\n')
  | cs => cs

/-- Blanks, line ends and comments. -/
def skipLines : Nat → List Char → List Char
  | 0, cs => cs
  | fuel + 1, cs =>
    match skipBlank cs with
    | '\n' :: rest => skipLines fuel rest
    | cs => cs

/-- What follows the word `w`, if it stands here on its own. -/
def afterWord? (w : String) (cs : List Char) : Option (List Char) :=
  if w.toList.isPrefixOf cs then
    let rest := cs.drop w.length
    if rest.head?.all endsWord then some rest else none
  else none

/-- Whether a list of commands ends here. -/
def atEnd (cs : List Char) : Bool :=
  match cs with
  | [] | ')' :: _ => true
  | ';' :: ';' :: _ => true
  | _ => ["\x7d", "then", "do", "done", "fi", "else", "elif", "esac"].any
      fun w => (afterWord? w cs).isSome

/-- A single-quoted text behind its opening quote. -/
def singleQuoted? (cs : List Char) : Option (String × List Char) :=
  match cs.dropWhile (· ≠ '\'') with
  | _ :: rest => some (String.ofList (cs.takeWhile (· ≠ '\'')), rest)
  | [] => none

/-- The name of a variable behind its dollar sign, where it is not a bracketed one. -/
def variableName? (cs : List Char) : Option (String × List Char) :=
  match cs with
  | c :: rest =>
    if isNameStart c then
      some (String.ofList (cs.takeWhile isNameChar), cs.dropWhile isNameChar)
    else if c.isDigit || c = '@' || c = '*' || c = '#' || c = '?' || c = '$' || c = '!' then
      some (String.ofList [c], rest)
    else none
  | [] => none

/-- The channel number in front of a redirection. -/
def channelNumber (cs : List Char) : Option Nat × List Char :=
  match cs with
  | d :: '<' :: _ | d :: '>' :: _ =>
    if d.isDigit then (some (d.toNat - 48), cs.drop 1) else (none, cs)
  | _ => (none, cs)

/-- A redirection's channel and mode. -/
def redirection? (cs : List Char) : Option (Nat × RedirectMode × List Char) :=
  let (n, cs) := channelNumber cs
  match cs with
  | '>' :: '>' :: rest => some (n.getD 1, .append, rest)
  | '>' :: '&' :: rest => some (n.getD 1, .copy, rest)
  | '>' :: '|' :: rest => some (n.getD 1, .write, rest)
  | '>' :: rest => some (n.getD 1, .write, rest)
  | '<' :: '<' :: _ => none
  | '<' :: '&' :: rest => some (n.getD 0, .copy, rest)
  | '<' :: rest => some (n.getD 0, .read, rest)
  | _ => none

/-- The name of an assignment, with what follows its equals sign. -/
def assignment? (cs : List Char) : Option (String × List Char) :=
  match cs with
  | c :: _ =>
    match cs.dropWhile isNameChar with
    | '=' :: rest =>
      if isNameStart c then some (String.ofList (cs.takeWhile isNameChar), rest) else none
    | _ => none
  | [] => none

abbrev Redirection := Nat × RedirectMode × Word

def redirected (s : Script) (rs : List Redirection) : Script :=
  rs.foldr (fun r s => .redirect s r.1 r.2.1 r.2.2) s

/-- The text between backquotes, with the backslashes that they ask for taken away. -/
def backquoted? : List Char → Option (List Char × List Char)
  | [] => none
  | '\\' :: c :: rest =>
    (backquoted? rest).map fun r =>
      (if c = backquote || c = '\\' || c = '$' then (c :: r.1, r.2) else ('\\' :: c :: r.1, r.2))
  | c :: rest =>
    if c = backquote then some ([], rest)
    else (backquoted? rest).map fun r => (c :: r.1, r.2)

/-! ### Reading -/

mutual

/-- What a dollar sign stands for. -/
def dollar? (quoted : Bool) : Nat → List Char → Option (Piece × List Char)
  | 0, _ => none
  | fuel + 1, cs =>
    match cs with
    | '(' :: rest => do
      let (s, rest) ← list? fuel rest
      match rest with
      | ')' :: rest => return (.result quoted s, rest)
      | _ => none
    | '\x7b' :: rest => do
      let (name, rest) ← variableName? rest
      match rest with
      | '\x7d' :: rest => return (.parameter quoted name, rest)
      | _ => none
    | _ =>
      match variableName? cs with
      | some (name, rest) => some (.parameter quoted name, rest)
      | none => some (.text true "$", cs)

/-- The rest of a double-quoted text. -/
def doubleQuoted? : Nat → List Char → Option (List Piece × List Char)
  | 0, _ => none
  | fuel + 1, cs =>
    match cs with
    | [] => none
    | '"' :: rest => some ([], rest)
    | '\\' :: '\n' :: rest => doubleQuoted? fuel rest
    | '\\' :: c :: rest => do
      let (ps, rest) ← doubleQuoted? fuel rest
      let kept := if c = '$' || c = '"' || c = '\\' || c = backquote then [c] else ['\\', c]
      return (.text true (String.ofList kept) :: ps, rest)
    | '$' :: rest => do
      let (p, rest) ← dollar? true fuel rest
      let (ps, rest) ← doubleQuoted? fuel rest
      return (p :: ps, rest)
    | c :: rest =>
      if c = backquote then do
        let (inner, rest) ← backquoted? rest
        let (s, _) ← list? fuel inner
        let (ps, rest) ← doubleQuoted? fuel rest
        return (.result true s :: ps, rest)
      else do
        let (ps, rest) ← doubleQuoted? fuel rest
        return (.text true (String.ofList [c]) :: ps, rest)

/-- The pieces of a word, which may be none. -/
def word? : Nat → List Char → Option (Word × List Char)
  | 0, _ => none
  | fuel + 1, cs =>
    match cs with
    | [] => some ([], [])
    | '\'' :: rest => do
      let (s, rest) ← singleQuoted? rest
      let (ps, rest) ← word? fuel rest
      return (.text true s :: ps, rest)
    | '"' :: rest => do
      let (inner, rest) ← doubleQuoted? fuel rest
      let (ps, rest) ← word? fuel rest
      return (.text true "" :: inner ++ ps, rest)
    | '\\' :: '\n' :: rest => word? fuel rest
    | '\\' :: c :: rest => do
      let (ps, rest) ← word? fuel rest
      return (.text true (String.ofList [c]) :: ps, rest)
    | '$' :: rest => do
      let (p, rest) ← dollar? false fuel rest
      let (ps, rest) ← word? fuel rest
      return (p :: ps, rest)
    | c :: rest =>
      if endsWord c then some ([], cs)
      else if c = backquote then do
        let (inner, rest) ← backquoted? rest
        let (s, _) ← list? fuel inner
        let (ps, rest) ← word? fuel rest
        return (.result false s :: ps, rest)
      else do
        let (ps, rest) ← word? fuel rest
        return (.text false (String.ofList [c]) :: ps, rest)

/-- Words up to the end of the command. -/
def words? : Nat → List Char → Option (List Word × List Char)
  | 0, _ => none
  | fuel + 1, cs =>
    let cs := skipBlank cs
    if cs.head?.all endsWord then some ([], cs)
    else do
      let (w, rest) ← word? fuel cs
      let (ws, rest) ← words? fuel rest
      return (w :: ws, rest)

/-- The redirections behind a compound command. -/
def redirections? : Nat → List Char → Option (List Redirection × List Char)
  | 0, _ => none
  | fuel + 1, cs =>
    match redirection? (skipBlank cs) with
    | none => some ([], cs)
    | some (n, mode, rest) => do
      let (target, rest) ← word? fuel (skipBlank rest)
      let (rs, rest) ← redirections? fuel rest
      return ((n, mode, target) :: rs, rest)

/-- The rest of a simple command: assignments, words and redirections. -/
def simple? : Nat → Bool → List Char →
    Option (List (String × Word) × List Word × List Redirection × List Char)
  | 0, _, _ => none
  | fuel + 1, started, cs =>
    let cs := skipBlank cs
    match redirection? cs with
    | some (n, mode, rest) => do
      let (target, rest) ← word? fuel (skipBlank rest)
      let (as, ws, rs, rest) ← simple? fuel started rest
      return (as, ws, (n, mode, target) :: rs, rest)
    | none =>
      if cs.head?.all endsWord then some ([], [], [], cs)
      else match (if started then none else assignment? cs) with
        | some (name, rest) => do
          let (w, rest) ← word? fuel rest
          let (as, ws, rs, rest) ← simple? fuel started rest
          return ((name, w) :: as, ws, rs, rest)
        | none => do
          let (w, rest) ← word? fuel cs
          let (as, ws, rs, rest) ← simple? fuel true rest
          return (as, w :: ws, rs, rest)

/-- A list of commands between two words. -/
def enclosed? (closing : String) : Nat → List Char → Option (Script × List Char)
  | 0, _ => none
  | fuel + 1, cs => do
    let (s, rest) ← list? fuel cs
    return (s, ← afterWord? closing rest)

/-- The rest of a choice, behind `if` or `elif`. -/
def choice? : Nat → List Char → Option (Script × List Char)
  | 0, _ => none
  | fuel + 1, cs => do
    let (condition, rest) ← enclosed? "then" fuel cs
    let (yes, rest) ← list? fuel rest
    match afterWord? "elif" rest, afterWord? "else" rest with
    | some rest, _ =>
      let (no, rest) ← choice? fuel rest
      return (.choice condition yes no, rest)
    | _, some rest =>
      let (no, rest) ← enclosed? "fi" fuel rest
      return (.choice condition yes no, rest)
    | _, _ => return (.choice condition yes .nothing, ← afterWord? "fi" rest)

/-- The rest of a loop over words, behind `for`. -/
def each? : Nat → List Char → Option (Script × List Char)
  | 0, _ => none
  | fuel + 1, cs => do
    let (name, rest) ← variableName? (skipBlank cs)
    let (words, rest) ← (match afterWord? "in" (skipLines (rest.length + 1) rest) with
      | some rest => (words? fuel rest).map fun r => (some r.1, r.2)
      | none => some (none, rest))
    let rest := match skipBlank rest with
      | ';' :: rest => rest
      | rest => rest
    let rest ← afterWord? "do" (skipLines (rest.length + 1) rest)
    let (body, rest) ← enclosed? "done" fuel rest
    return (.each name words body, rest)

/-- The patterns of a branch, up to its bracket. -/
def alternatives? : Nat → List Char → Option (List Word × List Char)
  | 0, _ => none
  | fuel + 1, cs => do
    let (w, rest) ← word? fuel (skipBlank cs)
    match skipBlank rest with
    | '|' :: rest =>
      let (ws, rest) ← alternatives? fuel rest
      return (w :: ws, rest)
    | ')' :: rest => return ([w], rest)
    | _ => none

def branches? : Nat → List Char → Option (List (List Word × Script) × List Char)
  | 0, _ => none
  | fuel + 1, cs =>
    let cs := skipLines (cs.length + 1) cs
    match afterWord? "esac" cs with
    | some rest => some ([], rest)
    | none => do
      let cs := match cs with
        | '(' :: rest => rest
        | cs => cs
      let (ws, rest) ← alternatives? fuel cs
      let (s, rest) ← list? fuel rest
      match rest with
      | ';' :: ';' :: rest =>
        let (bs, rest) ← branches? fuel rest
        return ((ws, s) :: bs, rest)
      | rest => return ([(ws, s)], ← afterWord? "esac" rest)

/-- A compound command behind its first word. -/
def compound? (fuel : Nat) (cs : List Char) : Option (Option (Script × List Char)) :=
  match fuel with
  | 0 => none
  | fuel + 1 =>
    match cs with
    | '(' :: rest => some do
      let (s, rest) ← list? fuel rest
      match rest with
      | ')' :: rest => return (.subshell s, rest)
      | _ => none
    | _ =>
      match afterWord? "\x7b" cs, afterWord? "if" cs, afterWord? "for" cs, afterWord? "case" cs with
      | some rest, _, _, _ => some (enclosed? "\x7d" fuel rest)
      | _, some rest, _, _ => some (choice? fuel rest)
      | _, _, some rest, _ => some (each? fuel rest)
      | _, _, _, some rest => some do
        let (w, rest) ← word? fuel (skipBlank rest)
        let rest ← afterWord? "in" (skipLines (rest.length + 1) rest)
        let (bs, rest) ← branches? fuel rest
        return (.cases w bs, rest)
      | _, _, _, _ =>
        match afterWord? "while" cs, afterWord? "until" cs with
        | some rest, _ => some (repeated? false fuel rest)
        | _, some rest => some (repeated? true fuel rest)
        | _, _ => none

/-- The rest of a loop with a condition. -/
def repeated? (negated : Bool) : Nat → List Char → Option (Script × List Char)
  | 0, _ => none
  | fuel + 1, cs => do
    let (condition, rest) ← enclosed? "do" fuel cs
    let (body, rest) ← enclosed? "done" fuel rest
    return (.loop negated condition body, rest)

def command? : Nat → List Char → Option (Script × List Char)
  | 0, _ => none
  | fuel + 1, cs =>
    let cs := skipBlank cs
    match compound? fuel cs with
    | some inner => do
      let (s, rest) ← inner
      let (rs, rest) ← redirections? fuel rest
      return (redirected s rs, rest)
    | none => do
      let (as, ws, rs, rest) ← simple? fuel false cs
      if as.isEmpty && ws.isEmpty && rs.isEmpty then none
      else return (redirected (.simple as ws) rs, rest)

def pipeline? : Nat → List Char → Option (Script × List Char)
  | 0, _ => none
  | fuel + 1, cs =>
    match afterWord? "!" (skipBlank cs) with
    | some rest => (pipeline? fuel rest).map fun r => (.negate r.1, r.2)
    | none => do
      let (s, rest) ← command? fuel cs
      match skipBlank rest with
      | '|' :: '|' :: _ => return (s, rest)
      | '|' :: rest =>
        let (more, rest) ← pipeline? fuel (skipLines (rest.length + 1) rest)
        return (.pipe s more, rest)
      | rest => return (s, rest)

/-- Pipelines joined by `&&` and `||`, of which `before` was read already. -/
def chain? (before : Script) : Nat → List Char → Option (Script × List Char)
  | 0, _ => none
  | fuel + 1, cs =>
    match skipBlank cs with
    | '&' :: '&' :: rest => do
      let (s, rest) ← pipeline? fuel (skipLines (rest.length + 1) rest)
      chain? (.both before s) fuel rest
    | '|' :: '|' :: rest => do
      let (s, rest) ← pipeline? fuel (skipLines (rest.length + 1) rest)
      chain? (.either before s) fuel rest
    | rest => some (before, rest)

/-- A list of commands, up to what ends it. -/
def list? : Nat → List Char → Option (Script × List Char)
  | 0, _ => none
  | fuel + 1, cs =>
    let cs := skipLines (cs.length + 1) cs
    if atEnd cs then some (.nothing, cs)
    else do
      let (first, rest) ← pipeline? fuel cs
      let (s, rest) ← chain? first fuel rest
      match skipBlank rest with
      | ';' :: ';' :: _ => return (s, skipBlank rest)
      | ';' :: rest | '\n' :: rest | '&' :: rest =>
        let (more, rest) ← list? fuel rest
        return (.sequence s more, rest)
      | rest => if atEnd rest then return (s, rest) else none

end

/-- The script that a text is. -/
def Script.read (text : String) : Option Script :=
  let cs := text.toList
  match list? (8 * cs.length + 16) cs with
  | some (s, []) => some s
  | _ => none

end PrecompiledHeaders.Shell
