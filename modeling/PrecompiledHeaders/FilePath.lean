/-! File paths. A path is kept as it was spelled; places are compared by components, so that
repeated separators, inner `.` components and a trailing separator make no difference. -/
namespace PrecompiledHeaders

structure FilePath where
  text : String
  deriving DecidableEq, Repr, Inhabited

namespace FilePath

/-- In order: the root comes before all names, and names compare by code point. -/
inductive Component where
  | root
  | here
  | up
  | name (s : String)
  deriving DecidableEq, Repr

def Component.ofText (s : String) : Component := if s = ".." then .up else .name s

def isAbsolute (p : FilePath) : Bool := p.text.toList.head? = some '/'

def isEmpty (p : FilePath) : Bool := p.text.isEmpty

/-- The texts between separators. -/
def pieces (p : FilePath) : List String :=
  (p.text.toList.splitOn '/').map String.ofList

/-- A `.` counts only at the start of a relative path. -/
def components (p : FilePath) : List Component :=
  let kept := (p.pieces.filter fun s => s ≠ "" ∧ s ≠ ".").map Component.ofText
  if p.isAbsolute then .root :: kept
  else if p.pieces.head? = some "." then .here :: kept
  else kept

def same (p q : FilePath) : Bool := p.components = q.components

def Component.rank : Component → Nat
  | .root => 0
  | .here => 1
  | .up => 2
  | .name _ => 3

def Component.before (a b : Component) : Bool :=
  match a, b with
  | .name s, .name t => s < t
  | a, b => a.rank < b.rank

/-- The order of places: component by component, a shorter path first. -/
def componentsBefore : List Component → List Component → Bool
  | [], [] => false
  | [], _ :: _ => true
  | _ :: _, [] => false
  | a :: as, b :: bs => a.before b || (a = b && componentsBefore as bs)

def before (p q : FilePath) : Bool := componentsBefore p.components q.components

/-- An absolute right side replaces the left one. -/
def join (base rest : FilePath) : FilePath :=
  if rest.isAbsolute ∨ base.isEmpty then rest
  else if base.text.toList.getLast? = some '/' then ⟨base.text ++ rest.text⟩
  else ⟨base.text ++ "/" ++ rest.text⟩

instance : HDiv FilePath String FilePath := ⟨fun base rest => base.join ⟨rest⟩⟩

/-- The characters of a reversed path behind the separators and `.` components at its end. -/
def trimEnd : List Char → List Char
  | ['/'] => ['/']
  | '/' :: rest => trimEnd rest
  | ['.', '/'] => ['/']
  | '.' :: '/' :: rest => trimEnd rest
  | cs => cs

/-- All but the last component; none for the root and the empty path. -/
def parent? (p : FilePath) : Option FilePath :=
  match p.components.getLast? with
  | none => none
  | some .root => none
  | some .here => some ⟨""⟩
  | some _ =>
    let rest := (trimEnd p.text.toList.reverse).dropWhile (· ≠ '/')
    some ⟨String.ofList (trimEnd rest).reverse⟩

theorem same_refl (p : FilePath) : p.same p := by simp [same]

theorem same_trans {p q r : FilePath} (h : p.same q) (k : q.same r) : p.same r := by
  simp only [same, decide_eq_true_eq] at *
  exact h.trans k

end FilePath
end PrecompiledHeaders
