import PrecompiledHeaders.Toml.Value
/-! Numbers, truth values, dates and times. Each is one word, told apart by its form; a date and a
time may also be parted by a blank. -/
namespace PrecompiledHeaders.Toml

def isDigit (c : Char) : Bool := '0' ≤ c && c ≤ '9'

def digitValue (c : Char) : Nat :=
  if isDigit c then c.toNat - 48
  else if 'a' ≤ c && c ≤ 'f' then c.toNat - 87
  else if 'A' ≤ c && c ≤ 'F' then c.toNat - 55
  else 16

def isDigitOf (base : Nat) (c : Char) : Bool := digitValue c < base

def valueOf (base : Nat) (ds : List Char) : Nat :=
  ds.foldl (fun n d => n * base + digitValue d) 0

/-! ### Integers -/

/-- Digits with single underscores between them, underscores left out. -/
def digitsOf? (base : Nat) : List Char → Option (List Char)
  | [] => none
  | [c] => if isDigitOf base c then some [c] else none
  | c :: '_' :: rest => if isDigitOf base c then (digitsOf? base rest).map (c :: ·) else none
  | c :: rest => if isDigitOf base c then (digitsOf? base rest).map (c :: ·) else none

/-- Decimal digits, the first of which is zero only if it stands alone. -/
def decimal? (cs : List Char) : Option (List Char) :=
  match digitsOf? 10 cs with
  | some ('0' :: _ :: _) => none
  | ds => ds

def signed (cs : List Char) : Bool × List Char :=
  match cs with
  | '-' :: rest => (true, rest)
  | '+' :: rest => (false, rest)
  | _ => (false, cs)

/-- A sign stands only before decimal digits. -/
def wholeNumber? (cs : List Char) : Option Int :=
  match cs with
  | '0' :: 'x' :: rest => (digitsOf? 16 rest).map fun ds => (valueOf 16 ds : Int)
  | '0' :: 'o' :: rest => (digitsOf? 8 rest).map fun ds => (valueOf 8 ds : Int)
  | '0' :: 'b' :: rest => (digitsOf? 2 rest).map fun ds => (valueOf 2 ds : Int)
  | _ =>
    let (negative, body) := signed cs
    (decimal? body).map fun ds => if negative then -(valueOf 10 ds : Int) else valueOf 10 ds

/-- The largest range in which a number can be held. -/
def inRange (n : Int) : Bool :=
  -0x80000000000000000000000000000000 ≤ n && n < 0x100000000000000000000000000000000

/-! ### Fractions -/

def splitAt (p : Char → Bool) (cs : List Char) : List Char × Option (List Char) :=
  match cs.dropWhile (! p ·) with
  | [] => (cs, none)
  | _ :: rest => (cs.takeWhile (! p ·), some rest)

/-- Whether `mantissa · 10 ^ exponent` is too large for the double format. -/
def overflows (mantissa : Nat) (exponent : Int) : Bool :=
  let limit := (Nat.pow 2 54 - 1) * Nat.pow 2 970
  if mantissa = 0 then false
  else if exponent > 400 then true
  else if 0 ≤ exponent then limit ≤ mantissa * Nat.pow 10 exponent.toNat
  else if (-exponent).toNat > 400 + (Nat.toDigits 10 mantissa).length then false
  else limit * Nat.pow 10 (-exponent).toNat ≤ mantissa

def isFloat (cs : List Char) : Bool :=
  let body := (signed cs).2
  if body = ['i', 'n', 'f'] || body = ['n', 'a', 'n'] then true
  else
    let (number, exponent) := splitAt (fun c => c = 'e' || c = 'E') body
    let (whole, fraction) := splitAt (· = '.') number
    if exponent.isNone && fraction.isNone then false
    else
      match decimal? whole, fraction.elim (some []) (digitsOf? 10),
        exponent.elim (some []) fun e => digitsOf? 10 (signed e).2 with
      | some w, some f, some e =>
        let size : Int := valueOf 10 e
        let negative := (exponent.elim false fun e => (signed e).1)
        !overflows (valueOf 10 (w ++ f)) ((if negative then -size else size) - f.length)
      | _, _, _ => false

/-! ### Dates and times -/

/-- The number of exactly `n` digits at the head. -/
def fixed? (n : Nat) (cs : List Char) : Option (Nat × List Char) :=
  let ds := cs.take n
  if ds.length = n && ds.all isDigit then some (valueOf 10 ds, cs.drop n) else none

def expect? (c : Char) : List Char → Option (List Char)
  | d :: rest => if c = d then some rest else none
  | [] => none

def isLeap (year : Nat) : Bool := year % 4 = 0 && (year % 100 ≠ 0 || year % 400 = 0)

def daysIn (year month : Nat) : Nat :=
  if month = 2 then (if isLeap year then 29 else 28)
  else if month = 4 || month = 6 || month = 9 || month = 11 then 30 else 31

def date? (cs : List Char) : Option (List Char) := do
  let (year, cs) ← fixed? 4 cs
  let (month, cs) ← fixed? 2 (← expect? '-' cs)
  let (day, cs) ← fixed? 2 (← expect? '-' cs)
  if 1 ≤ month ∧ month ≤ 12 ∧ 1 ≤ day ∧ day ≤ daysIn year month then return cs else none

def fractionOfSecond? (cs : List Char) : Option (List Char) :=
  match cs with
  | '.' :: rest => if (rest.head?.any isDigit) then some (rest.dropWhile isDigit) else none
  | _ => some cs

/-- Seconds may be left out. -/
def clock? (cs : List Char) : Option (List Char) := do
  let (hour, cs) ← fixed? 2 cs
  let (minute, cs) ← fixed? 2 (← expect? ':' cs)
  if hour ≤ 23 ∧ minute ≤ 59 then
    match cs with
    | ':' :: rest =>
      let (second, cs) ← fixed? 2 rest
      if second ≤ 60 then fractionOfSecond? cs else none
    | _ => return cs
  else none

/-- The end of a date and time: nothing, `Z`, or the hours and minutes of an offset. -/
def isOffset (cs : List Char) : Bool :=
  match cs with
  | [] => true
  | ['Z'] | ['z'] => true
  | sign :: rest =>
    (sign = '+' || sign = '-') &&
      match (do
        let (hours, cs) ← fixed? 2 rest
        let (minutes, cs) ← fixed? 2 (← expect? ':' cs)
        return (hours, minutes, cs)) with
      | some (hours, minutes, []) => hours ≤ 23 && minutes ≤ 59
      | _ => false

def isTime (cs : List Char) : Bool :=
  match date? cs with
  | some [] => true
  | some (sep :: rest) =>
    (sep = 'T' || sep = 't' || sep = ' ') && (clock? rest).any isOffset
  | none => clock? cs = some []

/-! ### Words -/

def endsWord (c : Char) : Bool :=
  c = ' ' || c = '\t' || c = '\n' || c = '\r' || c = ',' || c = ']' || c = '\x7d' || c = '#'

def word (cs : List Char) : List Char × List Char :=
  (cs.takeWhile (! endsWord ·), cs.dropWhile (! endsWord ·))

/-- A date takes the time behind one blank into its word. -/
def datedWord (cs : List Char) : List Char × List Char :=
  let (first, rest) := word cs
  match rest with
  | ' ' :: more =>
    if date? first = some [] && more.head?.any isDigit then
      let (second, rest) := word more
      (first ++ ' ' :: second, rest)
    else (first, rest)
  | _ => (first, rest)

def scalarOf? (w : List Char) : Option Toml :=
  if w = ['t', 'r', 'u', 'e'] then some (.bool true)
  else if w = ['f', 'a', 'l', 's', 'e'] then some (.bool false)
  else match wholeNumber? w with
    | some n => if inRange n then some (.int n) else none
    | none =>
      if isFloat w then some (.float (String.ofList w))
      else if isTime w then some (.time (String.ofList w))
      else none

def scalar? (cs : List Char) : Option (Toml × List Char) :=
  let (w, rest) := datedWord cs
  (scalarOf? w).map (·, rest)

end PrecompiledHeaders.Toml
