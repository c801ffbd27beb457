/-! JSON values. Integers are kept apart from all other numbers, whose value nothing here reads,
and what holds an unpaired surrogate, a string or an object's name, is no text: it may be skipped
but not read. Objects keep every field in
order, repeated ones too. -/
namespace PrecompiledHeaders

inductive Json where
  | null
  | bool (b : Bool)
  | int (n : Int)
  | decimal (literal : String)
  | text (s : String)
  | broken
  | list (items : List Json)
  | object (fields : List (String × Json))
  deriving Repr, Inhabited

namespace Json

def ofTexts (xs : List String) : Json := .list (xs.map .text)

def ofNat (n : Nat) : Json := .int n

def ofOption (f : α → Json) : Option α → Json
  | none => .null
  | some a => f a

/-- The first field of that name. -/
def field? (name : String) : Json → Option Json
  | .object fields => fields.lookup name
  | _ => none

end Json
end PrecompiledHeaders
