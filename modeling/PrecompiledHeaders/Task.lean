import PrecompiledHeaders.Dependency
import PrecompiledHeaders.Digest
import PrecompiledHeaders.Fault
import PrecompiledHeaders.Json.Writer
/-! Build tasks. A task asks for one precompiled header on behalf of its members; tasks that would
build the same header are recognised by equal merge keys. -/
namespace PrecompiledHeaders

structure Task where
  members : List PartId
  includes : List FileId
  sources : List FileId
  usedMacros : List UsedMacro
  settings : Settings
  deriving DecidableEq, Repr, Inhabited

/-- All that decides what is built, apart from the scope. -/
structure MergeKey where
  includes : List FileId
  settings : Settings
  deriving DecidableEq, Repr

namespace MergeKey

def toJson (k : MergeKey) : Json :=
  .object ([k.settings.toolchainField, ("includes", .list (k.includes.map fun f => .ofNat f.index)),
    k.settings.macrosField] ++ k.settings.pathFields ++ k.settings.languageFields)

end MergeKey

/-- The short name of a scope and a merge key. -/
structure TaskKey where
  hex : String
  deriving DecidableEq, Repr, Inhabited

namespace TaskKey

def short (k : TaskKey) : String := String.ofList (k.hex.toList.take 16)

end TaskKey

/-- A part's tasks, one for each scope. -/
abbrev TaskSet := PerScope Task

namespace Task

def mergeKey (t : Task) : MergeKey := ⟨t.includes, t.settings⟩

def keyText (scope : Scope) (k : MergeKey) : String := scope.text ++ k.toJson.compact

def key (t : Task) (scope : Scope) : TaskKey := ⟨digestText (keyText scope t.mergeKey)⟩

/-- What `contentDigest` digests: the merge key with paths in the place of file numbers. -/
def contentJson (scope : Scope) (includes : List String) (s : Settings) : Json :=
  .object ([("scope", .text scope.text), ("includes", .ofTexts includes), s.toolchainField,
    s.macrosField] ++ s.pathFields ++ s.languageFields)

/-- A digest that does not depend on how files are numbered. -/
def contentDigest (t : Task) (scope : Scope) (files : FileTable) : Except Fault String :=
  match files.resolveAll t.includes with
  | .error id => .error (.unknownFile id)
  | .ok includes => .ok (digestText (contentJson scope includes t.settings).compact)

/-! ### Membership -/

/-- `xs` with those of `ys` appended that it lacks. -/
def appendNew [DecidableEq α] (xs : List α) : List α → List α
  | [] => xs
  | y :: ys => if y ∈ xs then appendNew xs ys else appendNew (xs ++ [y]) ys

def addMembers (t : Task) (ids : List PartId) : Task :=
  { t with members := appendNew t.members ids }

def removeMembers (t : Task) (ids : List PartId) : Task :=
  { t with members := t.members.filter (· ∉ ids) }

def addSources (t : Task) (files : List FileId) : Task :=
  { t with sources := appendNew t.sources files }

/-- Whether one of `ids` is a member. -/
def concerns (t : Task) (ids : List PartId) : Bool := t.members.any (· ∈ ids)

@[simp] theorem mergeKey_addMembers (t : Task) (ids : List PartId) :
    (t.addMembers ids).mergeKey = t.mergeKey := rfl

@[simp] theorem mergeKey_removeMembers (t : Task) (ids : List PartId) :
    (t.removeMembers ids).mergeKey = t.mergeKey := rfl

@[simp] theorem mergeKey_addSources (t : Task) (files : List FileId) :
    (t.addSources files).mergeKey = t.mergeKey := rfl

theorem mem_appendNew [DecidableEq α] {xs ys : List α} {a : α} :
    a ∈ appendNew xs ys ↔ a ∈ xs ∨ a ∈ ys := by
  induction ys generalizing xs with
  | nil => simp [appendNew]
  | cons y ys ih => by_cases h : y ∈ xs <;> grind [appendNew]

end Task
end PrecompiledHeaders
