import PrecompiledHeaders.Part
import PrecompiledHeaders.Scope
/-! What compiling a part touches: headers in order of first use, the macros they consult, and
the time stamps by which a later run can tell whether any of that changed. -/
namespace PrecompiledHeaders

inductive IncludeRole where
  | projectInclude
  | userInclude
  | topProjectInclude
  | systemInclude
  | topSystemInclude
  deriving DecidableEq, Repr

namespace IncludeRole

def all : List IncludeRole :=
  [.projectInclude, .userInclude, .topProjectInclude, .systemInclude, .topSystemInclude]

def text : IncludeRole → String
  | .projectInclude => "project_include"
  | .userInclude => "user_include"
  | .topProjectInclude => "top_project_include"
  | .systemInclude => "system_include"
  | .topSystemInclude => "top_system_include"

def ofText? (s : String) : Option IncludeRole := all.find? (·.text == s)

/-- User includes belong to no scope: no precompiled header serves them. -/
def scope? : IncludeRole → Option Scope
  | .projectInclude | .topProjectInclude => some .project
  | .systemInclude | .topSystemInclude => some .system
  | .userInclude => none

/-- The last header of its scope before the other scope is entered: one that a precompiled header includes. -/
def isTop : IncludeRole → Bool
  | .topProjectInclude | .topSystemInclude => true
  | _ => false

end IncludeRole

structure IncludeEntry where
  file : FileId
  role : IncludeRole
  order : Nat
  deriving DecidableEq, Repr

structure UsedMacro where
  name : String
  order : Nat
  deriving DecidableEq, Repr

structure FileStatus where
  file : FileId
  modified : Option Stamp
  deriving DecidableEq, Repr

structure Dependency where
  includes : List IncludeEntry
  usedMacros : List UsedMacro
  sources : List FileId
  statuses : List FileStatus
  deriving DecidableEq, Repr

/-- The members of `xs` whose key neither `seen` nor an earlier member has. -/
def keepFirst [DecidableEq κ] (key : α → κ) (seen : List κ) : List α → List α
  | [] => []
  | x :: xs =>
    if key x ∈ seen then keepFirst key seen xs
    else x :: keepFirst key (key x :: seen) xs

namespace UsedMacro

/-- Each name once, with its smallest order, in order of use. -/
def normalize (macros : List UsedMacro) : List UsedMacro :=
  keepFirst (·.name) [] (macros.mergeSort fun a b => a.order ≤ b.order)

end UsedMacro

namespace Dependency

def empty : Dependency := ⟨[], [], [], []⟩

instance : Inhabited Dependency := ⟨empty⟩

def isEmpty (d : Dependency) : Bool := d.includes.isEmpty && d.usedMacros.isEmpty

/-- Every file that was read: the includes, then the sources. -/
def referencedFiles (d : Dependency) : List FileId := d.includes.map (·.file) ++ d.sources

end Dependency
end PrecompiledHeaders
