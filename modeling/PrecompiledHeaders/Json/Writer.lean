import PrecompiledHeaders.Json.Value
import PrecompiledHeaders.Text.Hex
/-! The two written forms of a JSON value: compact, and indented by two blanks a level. Only
quotes, backslashes and control characters are escaped. -/
namespace PrecompiledHeaders.Json

open Text (hexDigit)

def escapeChar (c : Char) : List Char :=
  if c = '"' then ['\\', '"']
  else if c = '\\' then ['\\', '\\']
  else if c = '\x08' then ['\\', 'b']
  else if c = '\t' then ['\\', 't']
  else if c = '\n' then ['\\', 'n']
  else if c = '\x0c' then ['\\', 'f']
  else if c = '\r' then ['\\', 'r']
  else if c.toNat < 0x20 then
    ['\\', 'u', '0', '0', hexDigit (c.toNat / 16), hexDigit (c.toNat % 16)]
  else [c]

def writeText (s : String) : List Char := '"' :: s.toList.flatMap escapeChar ++ ['"']

def writeInt : Int → List Char
  | .ofNat n => Nat.toDigits 10 n
  | .negSucc n => '-' :: Nat.toDigits 10 (n + 1)

mutual

def write : Json → List Char
  | .null => ['n', 'u', 'l', 'l']
  | .bool true => ['t', 'r', 'u', 'e']
  | .bool false => ['f', 'a', 'l', 's', 'e']
  | .int n => writeInt n
  | .decimal literal => literal.toList
  | .text s => writeText s
  | .broken => ['"', '"']
  | .list [] => ['[', ']']
  | .list (x :: xs) => '[' :: (write x ++ writeItems xs)
  | .object [] => ['\x7b', '\x7d']
  | .object ((name, x) :: fields) =>
    '\x7b' :: (writeText name ++ ':' :: (write x ++ writeFields fields))

def writeItems : List Json → List Char
  | [] => [']']
  | x :: xs => ',' :: (write x ++ writeItems xs)

def writeFields : List (String × Json) → List Char
  | [] => ['\x7d']
  | (name, x) :: fields => ',' :: (writeText name ++ ':' :: (write x ++ writeFields fields))

end

/-- The compact form: no blank outside of texts. -/
def compact (j : Json) : String := String.ofList (write j)

def newline (depth : Nat) : List Char := '\n' :: List.replicate (2 * depth) ' '

mutual

def indent (depth : Nat) : Json → List Char
  | .list [] => ['[', ']']
  | .list (x :: xs) =>
    '[' :: (newline (depth + 1) ++ indent (depth + 1) x ++ indentItems depth xs)
  | .object [] => ['\x7b', '\x7d']
  | .object ((name, x) :: fields) =>
    '\x7b' :: (newline (depth + 1) ++ writeText name ++ ':' :: ' ' :: indent (depth + 1) x
      ++ indentFields depth fields)
  | j => write j

def indentItems (depth : Nat) : List Json → List Char
  | [] => newline depth ++ [']']
  | x :: xs => ',' :: (newline (depth + 1) ++ indent (depth + 1) x ++ indentItems depth xs)

def indentFields (depth : Nat) : List (String × Json) → List Char
  | [] => newline depth ++ ['\x7d']
  | (name, x) :: fields =>
    ',' :: (newline (depth + 1) ++ writeText name ++ ':' :: ' ' :: indent (depth + 1) x
      ++ indentFields depth fields)

end

/-- The indented form, without a newline at its end. -/
def pretty (j : Json) : String := String.ofList (indent 0 j)

end PrecompiledHeaders.Json
