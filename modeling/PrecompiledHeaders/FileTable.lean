/-! Numbers for file paths. Exact spellings are numbered densely, first come first served, and a
number never changes its path. -/
namespace PrecompiledHeaders

structure FileId where
  index : Nat
  deriving DecidableEq, Repr, Inhabited

structure FileTable where
  paths : List String
  nodup : paths.Nodup
  deriving Repr

namespace FileTable

def empty : FileTable := ⟨[], List.nodup_nil⟩

instance : Inhabited FileTable := ⟨empty⟩

def id? (t : FileTable) (path : String) : Option FileId := (t.paths.idxOf? path).map FileId.mk

def path? (t : FileTable) (id : FileId) : Option String := t.paths[id.index]?

def intern (t : FileTable) (path : String) : FileId × FileTable :=
  if h : path ∈ t.paths then (⟨t.paths.idxOf path⟩, t)
  else (⟨t.paths.length⟩, ⟨t.paths ++ [path], by
    rw [List.nodup_append]
    exact ⟨t.nodup, by simp, fun a ha b hb e => h (by simp_all)⟩⟩)

def internAll (t : FileTable) : List String → List FileId × FileTable
  | [] => ([], t)
  | p :: ps =>
    let (id, t) := t.intern p
    let (ids, t) := internAll t ps
    (id :: ids, t)

/-- The paths of all ids, or the first id without a path. -/
def resolveAll (t : FileTable) : List FileId → Except FileId (List String)
  | [] => .ok []
  | id :: ids =>
    match t.path? id with
    | some p => (resolveAll t ids).map (p :: ·)
    | none => .error id

def size (t : FileTable) : Nat := t.paths.length

def describe (t : FileTable) : String := s!"FilePathCache \x7b len: {t.size} \x7d"

end FileTable
end PrecompiledHeaders
