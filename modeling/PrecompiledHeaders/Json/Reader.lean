import PrecompiledHeaders.Json.Value
/-! A strict reader of JSON: one value, blanks around it, and nothing else. No comments, no
trailing commas, no leading zeros, no byte-order mark. -/
namespace PrecompiledHeaders.Json

def isSpace (c : Char) : Bool := c = ' ' || c = '\n' || c = '\t' || c = '\r'

def skipSpace (cs : List Char) : List Char := cs.dropWhile isSpace

def hexValue? (c : Char) : Option Nat :=
  if '0' ≤ c ∧ c ≤ '9' then some (c.toNat - 48)
  else if 'a' ≤ c ∧ c ≤ 'f' then some (c.toNat - 87)
  else if 'A' ≤ c ∧ c ≤ 'F' then some (c.toNat - 55)
  else none

/-- The sixteen-bit unit of a `\u` escape. -/
def unit? : List Char → Option (Nat × List Char)
  | a :: b :: c :: d :: rest => do
    return ((((← hexValue? a) * 16 + (← hexValue? b)) * 16 + (← hexValue? c)) * 16
      + (← hexValue? d), rest)
  | _ => none

def isLead (u : Nat) : Bool := 0xD800 ≤ u && u ≤ 0xDBFF
def isTrail (u : Nat) : Bool := 0xDC00 ≤ u && u ≤ 0xDFFF

def pairValue (lead trail : Nat) : Nat := 0x10000 + (lead - 0xD800) * 0x400 + (trail - 0xDC00)

/-- What a backslash and the characters after it stand for; `none` in the inner place is an
unpaired surrogate. -/
def escape? : List Char → Option (Option Char × List Char)
  | '"' :: rest => some (some '"', rest)
  | '\\' :: rest => some (some '\\', rest)
  | '/' :: rest => some (some '/', rest)
  | 'b' :: rest => some (some '\x08', rest)
  | 'f' :: rest => some (some '\x0c', rest)
  | 'n' :: rest => some (some '\n', rest)
  | 'r' :: rest => some (some '\r', rest)
  | 't' :: rest => some (some '\t', rest)
  | 'u' :: rest => do
    let (u, rest) ← unit? rest
    if isTrail u then return (none, rest)
    else if isLead u then
      match rest with
      | '\\' :: 'u' :: more =>
        let (v, after) ← unit? more
        if isTrail v then return (some (Char.ofNat (pairValue u v)), after)
        else return (none, rest)
      | _ => return (none, rest)
    else return (some (Char.ofNat u), rest)
  | _ => none

/-- The rest of a string after its opening quote: its characters, or `none` if a surrogate in it
is unpaired. -/
def readString : Nat → List Char → Option (Option (List Char) × List Char)
  | 0, _ => none
  | _ + 1, [] => none
  | _ + 1, '"' :: rest => some (some [], rest)
  | fuel + 1, '\\' :: rest => do
    let (c, rest) ← escape? rest
    let (cs, rest) ← readString fuel rest
    return ((do return (← c) :: (← cs)), rest)
  | fuel + 1, c :: rest =>
    if c.toNat < 0x20 then none
    else do
      let (cs, rest) ← readString fuel rest
      return (cs.map (c :: ·), rest)

def isDigit (c : Char) : Bool := '0' ≤ c && c ≤ '9'

def digitsValue (ds : List Char) : Nat := ds.foldl (fun n d => n * 10 + (d.toNat - 48)) 0

/-- At least one digit. -/
def digits1? (cs : List Char) : Option (List Char × List Char) :=
  match cs.takeWhile isDigit with
  | [] => none
  | ds => some (ds, cs.dropWhile isDigit)

/-- A lone zero, or digits that start with another one. -/
def whole? (cs : List Char) : Option (List Char × List Char) :=
  match cs with
  | '0' :: rest => if (rest.head?.any isDigit) then none else some (['0'], rest)
  | _ => digits1? cs

def fraction? (cs : List Char) : Option (List Char × List Char) :=
  match cs with
  | '.' :: rest => do
    let (ds, rest) ← digits1? rest
    return ('.' :: ds, rest)
  | _ => some ([], cs)

def exponent? (cs : List Char) : Option (List Char × List Char) :=
  match cs with
  | e :: rest =>
    if e = 'e' ∨ e = 'E' then
      match rest with
      | s :: more =>
        if s = '+' ∨ s = '-' then do
          let (ds, rest) ← digits1? more
          return (e :: s :: ds, rest)
        else do
          let (ds, rest) ← digits1? rest
          return (e :: ds, rest)
      | [] => none
    else some ([], cs)
  | [] => some ([], [])

/-- Only digits with a minus at most make an integer; minus zero does not. -/
def readNumber (cs : List Char) : Option (Json × List Char) := do
  let (neg, cs) := match cs with
    | '-' :: rest => (true, rest)
    | _ => (false, cs)
  let (w, cs) ← whole? cs
  let (f, cs) ← fraction? cs
  let (e, cs) ← exponent? cs
  let sign := if neg then ['-'] else []
  if f.isEmpty && e.isEmpty && !(neg && digitsValue w == 0) then
    let n : Int := digitsValue w
    return (.int (if neg then -n else n), cs)
  else return (.decimal (String.ofList (sign ++ w ++ f ++ e)), cs)

def word? (word : List Char) (j : Json) (cs : List Char) : Option (Json × List Char) :=
  if word.isPrefixOf cs then some (j, cs.drop word.length) else none

def consField (f : Option (List Char) × Json) (fs : Option (List (String × Json))) :
    Option (List (String × Json)) := do
  return (String.ofList (← f.1), f.2) :: (← fs)

/-- An object, unless a name in it has an unpaired surrogate. -/
def ofFields : Option (List (String × Json)) → Json
  | some fields => .object fields
  | none => .broken

mutual

/-- One value at the head of `cs`, blanks before it skipped. -/
def readValue : Nat → List Char → Option (Json × List Char)
  | 0, _ => none
  | fuel + 1, cs =>
    match skipSpace cs with
    | [] => none
    | '"' :: rest => do
      let (s, rest) ← readString (rest.length + 1) rest
      return ((match s with | some s => .text (String.ofList s) | none => .broken), rest)
    | '[' :: rest =>
      match skipSpace rest with
      | ']' :: rest => some (.list [], rest)
      | rest => do
        let (x, rest) ← readValue fuel rest
        let (xs, rest) ← readItems fuel rest
        return (.list (x :: xs), rest)
    | '\x7b' :: rest =>
      match skipSpace rest with
      | '\x7d' :: rest => some (.object [], rest)
      | rest => do
        let (f, rest) ← readField fuel rest
        let (fs, rest) ← readFields fuel rest
        return (ofFields (consField f fs), rest)
    | 'n' :: rest => word? ['u', 'l', 'l'] .null rest
    | 't' :: rest => word? ['r', 'u', 'e'] (.bool true) rest
    | 'f' :: rest => word? ['a', 'l', 's', 'e'] (.bool false) rest
    | rest => readNumber rest

def readItems : Nat → List Char → Option (List Json × List Char)
  | 0, _ => none
  | fuel + 1, cs =>
    match skipSpace cs with
    | ']' :: rest => some ([], rest)
    | ',' :: rest => do
      let (x, rest) ← readValue fuel rest
      let (xs, rest) ← readItems fuel rest
      return (x :: xs, rest)
    | _ => none

/-- A name, a colon and a value. -/
def readField : Nat → List Char → Option ((Option (List Char) × Json) × List Char)
  | 0, _ => none
  | fuel + 1, cs =>
    match skipSpace cs with
    | '"' :: rest => do
      let (name, rest) ← readString (rest.length + 1) rest
      match skipSpace rest with
      | ':' :: rest => do
        let (x, rest) ← readValue fuel rest
        return ((name, x), rest)
      | _ => none
    | _ => none

def readFields : Nat → List Char → Option (Option (List (String × Json)) × List Char)
  | 0, _ => none
  | fuel + 1, cs =>
    match skipSpace cs with
    | '\x7d' :: rest => some (some [], rest)
    | ',' :: rest => do
      let (f, rest) ← readField fuel rest
      let (fs, rest) ← readFields fuel rest
      return (consField f fs, rest)
    | _ => none

end

/-- The value that the whole text writes, if it writes one. -/
def read (s : String) : Option Json := do
  let cs := s.toList
  let (j, rest) ← readValue (2 * cs.length + 2) cs
  if (skipSpace rest).isEmpty then return j else none

end PrecompiledHeaders.Json
