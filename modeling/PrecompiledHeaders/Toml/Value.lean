/-! TOML values. Numbers with a fraction, dates and times are only known by how they are written,
because nothing here reads them. -/
namespace PrecompiledHeaders

inductive Toml where
  | text (s : String)
  | int (n : Int)
  | float (literal : String)
  | bool (b : Bool)
  | time (literal : String)
  | list (items : List Toml)
  | table (fields : List (String × Toml))
  deriving Repr, Inhabited

end PrecompiledHeaders
