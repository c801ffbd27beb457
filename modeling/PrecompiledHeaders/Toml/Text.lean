import PrecompiledHeaders.Toml.Scalar
/-! Strings in all four spellings, and keys. A string over several lines loses a newline right
after its opening quotes and may end in two quotes of its own. -/
namespace PrecompiledHeaders.Toml

/-- Control characters other than the tab stand in no string and no comment. -/
def isControl (c : Char) : Bool := (c.toNat < 0x20 && c ≠ '\t') || c.toNat = 0x7F

def character? (n : Nat) : Option Char :=
  if n < 0xD800 || (0xDFFF < n && n < 0x110000) then some (Char.ofNat n) else none

/-- The character with the number of `n` hexadecimal digits. -/
def coded? (n : Nat) (cs : List Char) : Option (Char × List Char) :=
  let ds := cs.take n
  if ds.length = n && ds.all (isDigitOf 16) then
    (character? (valueOf 16 ds)).map (·, cs.drop n)
  else none

/-- What stands for the characters after a backslash. -/
def escape? : List Char → Option (Char × List Char)
  | 'b' :: rest => some ('\x08', rest)
  | 't' :: rest => some ('\t', rest)
  | 'n' :: rest => some ('\n', rest)
  | 'f' :: rest => some ('\x0c', rest)
  | 'r' :: rest => some ('\r', rest)
  | 'e' :: rest => some ('\x1b', rest)
  | '"' :: rest => some ('"', rest)
  | '\\' :: rest => some ('\\', rest)
  | 'x' :: rest => coded? 2 rest
  | 'u' :: rest => coded? 4 rest
  | 'U' :: rest => coded? 8 rest
  | _ => none

/-! ### One line -/

/-- The rest of a string after its opening quote; backslashes are read only if `escapes`. -/
def line? (quote : Char) (escapes : Bool) : Nat → List Char → Option (List Char × List Char)
  | 0, _ => none
  | _ + 1, [] => none
  | fuel + 1, c :: rest =>
    if c = quote then some ([], rest)
    else if c = '\\' && escapes then do
      let (c, rest) ← escape? rest
      let (cs, rest) ← line? quote escapes fuel rest
      return (c :: cs, rest)
    else if isControl c then none
    else do
      let (cs, rest) ← line? quote escapes fuel rest
      return (c :: cs, rest)

/-! ### Several lines -/

/-- Carriage returns stand only before newlines. -/
def skipBreaks : List Char → Option (List Char)
  | '\r' :: '\n' :: rest => skipBreaks rest
  | '\r' :: _ => none
  | c :: rest => if c = ' ' || c = '\t' || c = '\n' then skipBreaks rest else some (c :: rest)
  | [] => some []

/-- After a backslash: a line end with all blanks and line ends behind it. -/
def continued? (cs : List Char) : Option (List Char) :=
  match cs.dropWhile (fun c => c = ' ' || c = '\t') with
  | '\n' :: rest => skipBreaks rest
  | '\r' :: '\n' :: rest => skipBreaks rest
  | _ => none

/-- At the three closing quotes: up to two more belong to the string. -/
def closing (quote : Char) (cs : List Char) : List Char × List Char :=
  let extra := (cs.take 2).takeWhile (· = quote)
  (extra, cs.drop extra.length)

def lines? (quote : Char) (escapes : Bool) : Nat → List Char → Option (List Char × List Char)
  | 0, _ => none
  | fuel + 1, cs =>
    if cs.take 3 = [quote, quote, quote] then some (closing quote (cs.drop 3))
    else match cs with
      | [] => none
      | c :: rest =>
        if c = '\\' && escapes then
          match continued? rest with
          | some rest => lines? quote escapes fuel rest
          | none => do
            let (c, rest) ← escape? rest
            let (cs, rest) ← lines? quote escapes fuel rest
            return (c :: cs, rest)
        else if c = '\r' && rest.head? ≠ some '\n' then none
        else if isControl c && c ≠ '\n' && c ≠ '\r' then none
        else do
          let (cs, rest) ← lines? quote escapes fuel rest
          return (c :: cs, rest)

def dropFirstBreak : List Char → List Char
  | '\n' :: rest => rest
  | '\r' :: '\n' :: rest => rest
  | cs => cs

/-- A string at its first quote. -/
def string? (cs : List Char) : Option (String × List Char) :=
  match cs with
  | quote :: rest =>
    let escapes := quote = '"'
    if quote = '"' || quote = '\'' then
      (if rest.take 2 = [quote, quote] then
        lines? quote escapes (cs.length + 1) (dropFirstBreak (rest.drop 2))
      else line? quote escapes (cs.length + 1) rest).map fun r => (String.ofList r.1, r.2)
    else none
  | [] => none

/-! ### Keys -/

def skipBlanks (cs : List Char) : List Char := cs.dropWhile fun c => c = ' ' || c = '\t'

def isBare (c : Char) : Bool :=
  isDigit c || ('a' ≤ c && c ≤ 'z') || ('A' ≤ c && c ≤ 'Z') || c = '_' || c = '-'

def simpleKey? (cs : List Char) : Option (String × List Char) :=
  match cs with
  | '"' :: rest => (line? '"' true cs.length rest).map fun r => (String.ofList r.1, r.2)
  | '\'' :: rest => (line? '\'' false cs.length rest).map fun r => (String.ofList r.1, r.2)
  | _ =>
    match cs.takeWhile isBare with
    | [] => none
    | k => some (String.ofList k, cs.dropWhile isBare)

/-- Simple keys with dots between them, and the blanks around each skipped. -/
def dottedKey? : Nat → List Char → Option (List String × List Char)
  | 0, _ => none
  | fuel + 1, cs => do
    let (k, rest) ← simpleKey? (skipBlanks cs)
    match skipBlanks rest with
    | '.' :: rest =>
      let (ks, rest) ← dottedKey? fuel rest
      return (k :: ks, rest)
    | rest => return ([k], rest)

end PrecompiledHeaders.Toml
