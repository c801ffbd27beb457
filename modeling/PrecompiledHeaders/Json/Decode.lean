import PrecompiledHeaders.Json.Value
/-! Records out of JSON values. A record is an object, whose unknown fields are ignored and whose
known fields stand at most once, or the list of its fields in order of declaration. -/
namespace PrecompiledHeaders.Json

def text? : Json → Option String
  | .text s => some s
  | _ => none

def list? (decode : Json → Option α) : Json → Option (List α)
  | .list items => items.mapM decode
  | _ => none

/-- Missing is written `null`. -/
def option? (decode : Json → Option α) : Json → Option (Option α)
  | .null => some none
  | j => (decode j).map some

def nat32? : Json → Option Nat
  | .int n => if 0 ≤ n ∧ n < UInt32.size then some n.toNat else none
  | _ => none

def int64? : Json → Option Int
  | .int n => if Int64.minValue.toInt ≤ n ∧ n ≤ Int64.maxValue.toInt then some n else none
  | _ => none

/-- The name of an alternative without content: a text, or an object that maps it to `null`. -/
def name? : Json → Option String
  | .text s => some s
  | .object [(name, .null)] => some name
  | _ => none

/-- The fields of a record of the given names, each with the value found for it. -/
structure Fields where
  isList : Bool
  values : List (String × Json)

/-- The fields of a record of the given names; none if a known field is repeated or the list
form is too long. -/
def fields? (names : List String) : Json → Option Fields
  | .object fields =>
    let known := fields.filter fun f => names.contains f.1
    if known.length = (known.map Prod.fst).eraseDups.length then some ⟨false, known⟩ else none
  | .list items => if items.length ≤ names.length then some ⟨true, names.zip items⟩ else none
  | _ => none

namespace Fields

def required (fs : Fields) (name : String) (decode : Json → Option α) : Option α :=
  (fs.values.lookup name).bind decode

/-- A field that stands for `default` where it is left out. -/
def defaulted (fs : Fields) (name : String) (default : α) (decode : Json → Option α) : Option α :=
  match fs.values.lookup name with
  | some j => decode j
  | none => some default

/-- A field that may be left out of the object form, but not of the list form. -/
def optional (fs : Fields) (name : String) (decode : Json → Option α) : Option (Option α) :=
  match fs.values.lookup name with
  | some j => option? decode j
  | none => if fs.isList then none else some none

end Fields
end PrecompiledHeaders.Json
