import PrecompiledHeaders.Text.Blank
import PrecompiledHeaders.Text.LowerCase
/-! The two scopes of precompiled headers: system headers, and the project headers built on top
of them. -/
namespace PrecompiledHeaders

inductive Scope where
  | system
  | project
  deriving DecidableEq, Repr, Inhabited

namespace Scope

def all : List Scope := [.system, .project]

def text : Scope → String
  | .system => "system"
  | .project => "project"

def ofText? : String → Option Scope
  | "system" => some .system
  | "project" => some .project
  | _ => none

end Scope

/-- One value for each scope. -/
structure PerScope (α : Type u) where
  system : α
  project : α
  deriving DecidableEq, Repr

namespace PerScope

instance [Inhabited α] : Inhabited (PerScope α) := ⟨⟨default, default⟩⟩

def get (p : PerScope α) : Scope → α
  | .system => p.system
  | .project => p.project

def set (p : PerScope α) (s : Scope) (a : α) : PerScope α :=
  match s with
  | .system => { p with system := a }
  | .project => { p with project := a }

def modify (p : PerScope α) (s : Scope) (f : α → α) : PerScope α := p.set s (f (p.get s))

@[simp] theorem get_set_self (p : PerScope α) (s : Scope) (a : α) : (p.set s a).get s = a := by
  cases s <;> rfl

theorem get_set_of_ne (p : PerScope α) {s t : Scope} (h : s ≠ t) (a : α) :
    (p.set s a).get t = p.get t := by
  cases s <;> cases t
  · exact absurd rfl h
  · rfl
  · rfl
  · exact absurd rfl h

@[simp] theorem get_modify_self (p : PerScope α) (s : Scope) (f : α → α) :
    (p.modify s f).get s = f (p.get s) := by
  simp [modify]

end PerScope

/-- Where the results of earlier runs are kept. -/
inductive StorageMode where
  | file
  | memory
  deriving DecidableEq, Repr, Inhabited

namespace StorageMode

def name : StorageMode → String
  | .file => "File"
  | .memory => "Memory"

/-- The exact lower-case word, as configuration files spell it. -/
def ofWord? : String → Option StorageMode
  | "file" => some .file
  | "memory" => some .memory
  | _ => none

/-- Blanks around the word and its case do not matter; the complaint shows the lower-case word. -/
def parse (s : String) : Except String StorageMode :=
  let word := Text.lower (Text.trim s)
  match ofWord? word with
  | some m => .ok m
  | none => .error s!"invalid storage mode: {word} (expected \"file\" or \"memory\")"

end StorageMode
end PrecompiledHeaders
