import PrecompiledHeaders.Toml.Value
/-! Records out of TOML values. A record is a table, whose unknown keys are ignored, or the list of
its fields in order of declaration; a date or time counts as a record that leaves all fields out. -/
namespace PrecompiledHeaders.Toml

def text? : Toml → Option String
  | .text s => some s
  | _ => none

def bool? : Toml → Option Bool
  | .bool b => some b
  | _ => none

/-- A number that a machine word holds. -/
def word64? : Toml → Option Nat
  | .int n => if 0 ≤ n ∧ n < UInt64.size then some n.toNat else none
  | _ => none

def list? (decode : Toml → Option α) : Toml → Option (List α)
  | .list items => items.mapM decode
  | _ => none

/-- The name of an alternative without content: a text, or the only key of a table, over an empty
table or list. -/
def name? : Toml → Option String
  | .text s => some s
  | .table [(name, .table [])] => some name
  | .table [(name, .list [])] => some name
  | _ => none

abbrev Fields := List (String × Toml)

def fields? (names : List String) : Toml → Option Fields
  | .table fields => some fields
  | .list items => some (names.zip items)
  | .time _ => some []
  | _ => none

namespace Fields

def required (fs : Fields) (name : String) (decode : Toml → Option α) : Option α :=
  (fs.lookup name).bind decode

def defaulted (fs : Fields) (name : String) (default : α) (decode : Toml → Option α) : Option α :=
  match fs.lookup name with
  | some v => decode v
  | none => some default

end Fields
end PrecompiledHeaders.Toml
