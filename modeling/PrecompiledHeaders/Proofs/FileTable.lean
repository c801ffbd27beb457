import PrecompiledHeaders.FileTable
import Mathlib.Data.List.Forall2
import Mathlib.Data.List.Nodup
/-! Numbers and paths. A table only grows at its end, so what a number stands for is settled when
it is given out, and two numbers never stand for one path. -/
namespace PrecompiledHeaders.FileTable

variable {t u v : FileTable} {i j : FileId} {ids : List FileId} {p : String} {ps : List String}

def Extends (u t : FileTable) : Prop := t.paths <+: u.paths

theorem Extends.refl (t : FileTable) : t.Extends t := List.prefix_rfl

theorem Extends.trans (h : u.Extends t) (k : v.Extends u) : v.Extends t := List.IsPrefix.trans h k

theorem Extends.path? (h : u.Extends t) (hi : t.path? i = some p) : u.path? i = some p := by
  obtain ⟨more, hm⟩ := h
  obtain ⟨hlt, _⟩ := List.getElem?_eq_some_iff.mp hi
  rw [FileTable.path?, ← hm, List.getElem?_append_left hlt]
  exact hi

theorem path?_inj (hi : t.path? i = some p) (hj : t.path? j = some p) : i = j := by
  obtain ⟨hi', rfl⟩ := List.getElem?_eq_some_iff.mp hi
  obtain ⟨hj', he⟩ := List.getElem?_eq_some_iff.mp hj
  have hindex := (t.nodup.getElem_inj_iff).mp he
  cases i
  cases j
  exact congrArg FileId.mk hindex.symm

theorem intern_extends (t : FileTable) (p : String) : (t.intern p).2.Extends t := by
  rw [intern]
  split
  · exact List.prefix_rfl
  · exact List.prefix_append _ _

theorem path?_intern (t : FileTable) (p : String) : (t.intern p).2.path? (t.intern p).1 = some p := by
  rw [intern]
  split
  · rename_i h
    exact List.getElem?_idxOf h
  · exact List.getElem?_concat_length

/-- A known path keeps its number, and nothing is added. -/
theorem intern_of_path? (h : t.path? i = some p) : t.intern p = (i, t) := by
  have hmem : p ∈ t.paths := List.mem_of_getElem? h
  have hp := t.path?_intern p
  have ht : (t.intern p).2 = t := by rw [intern, dif_pos hmem]
  rw [ht] at hp
  exact Prod.ext (path?_inj hp h) ht

/-- Of known paths the number can be found. -/
theorem id?_eq_some : t.id? p = some i ↔ t.path? i = some p := by
  rw [id?, Option.map_eq_some_iff]
  constructor
  · rintro ⟨n, hn, rfl⟩
    obtain ⟨hlt, hp, _⟩ := List.idxOf?_eq_some_iff.mp hn
    exact List.getElem?_eq_some_iff.mpr ⟨hlt, hp⟩
  · intro h
    obtain ⟨hlt, hp⟩ := List.getElem?_eq_some_iff.mp h
    refine ⟨i.index, List.idxOf?_eq_some_iff.mpr ⟨hlt, hp, fun j hj he => ?_⟩, rfl⟩
    exact Nat.ne_of_lt hj ((t.nodup.getElem_inj_iff).mp (he.trans hp.symm))

theorem internAll_extends (t : FileTable) (ps : List String) : (t.internAll ps).2.Extends t := by
  induction ps generalizing t with
  | nil => exact Extends.refl t
  | cons p ps ih => exact (t.intern_extends p).trans (ih (t.intern p).2)

/-! ### Lists of numbers -/

/-- The numbers stand for these paths. -/
def Resolves (t : FileTable) (ids : List FileId) (ps : List String) : Prop :=
  List.Forall₂ (fun id p => t.path? id = some p) ids ps

theorem resolveAll_eq_ok : t.resolveAll ids = .ok ps ↔ t.Resolves ids ps := by
  induction ids generalizing ps with
  | nil =>
    rw [resolveAll, Resolves, List.forall₂_nil_left_iff]
    exact ⟨fun h => (Except.ok.inj h).symm, fun h => by rw [h]⟩
  | cons id ids ih =>
    rw [resolveAll, Resolves, List.forall₂_cons_left_iff]
    cases hid : t.path? id with
    | none => simp
    | some p =>
      cases hrest : t.resolveAll ids with
      | error e =>
        constructor
        · intro h
          cases h
        · rintro ⟨_, rest, _, hr, _⟩
          rw [ih.mpr hr] at hrest
          cases hrest
      | ok rest =>
        constructor
        · intro h
          exact ⟨p, rest, rfl, ih.mp hrest, (Except.ok.inj h).symm⟩
        · rintro ⟨q, rest', hq, hr, rfl⟩
          rw [ih.mpr hr] at hrest
          cases hq
          cases hrest
          rfl

theorem Extends.resolves (h : u.Extends t) (hr : t.Resolves ids ps) : u.Resolves ids ps :=
  List.Forall₂.imp (fun _ _ hp => h.path? hp) hr

theorem Resolves.unique {qs : List String} (h : t.Resolves ids ps) (k : t.Resolves ids qs) :
    ps = qs :=
  Except.ok.inj ((resolveAll_eq_ok.mpr h).symm.trans (resolveAll_eq_ok.mpr k))

/-- Every number stands for a path. -/
def Knows (t : FileTable) (ids : List FileId) : Prop := ∀ id ∈ ids, ∃ p, t.path? id = some p

theorem knows_iff : t.Knows ids ↔ ∃ ps, t.Resolves ids ps := by
  induction ids with
  | nil => exact ⟨fun _ => ⟨[], List.Forall₂.nil⟩, fun _ _ h => absurd h List.not_mem_nil⟩
  | cons id ids ih =>
    rw [Knows, List.forall_mem_cons]
    constructor
    · rintro ⟨⟨p, hp⟩, hids⟩
      obtain ⟨ps, hps⟩ := ih.mp hids
      exact ⟨p :: ps, List.Forall₂.cons hp hps⟩
    · rintro ⟨_, h⟩
      obtain ⟨p, ps, hp, hps, rfl⟩ := List.forall₂_cons_left_iff.mp h
      exact ⟨⟨p, hp⟩, ih.mpr ⟨ps, hps⟩⟩

theorem Extends.knows (h : u.Extends t) (hk : t.Knows ids) : u.Knows ids := fun id hid =>
  (hk id hid).imp fun _ hp => h.path? hp

theorem Knows.append {js : List FileId} (h : t.Knows ids) (k : t.Knows js) : t.Knows (ids ++ js) :=
  fun id hid => (List.mem_append.mp hid).elim (h id) (k id)

theorem Knows.mono {js : List FileId} (h : t.Knows ids) (hs : js ⊆ ids) : t.Knows js :=
  fun id hid => h id (hs hid)

theorem resolves_internAll (t : FileTable) (ps : List String) :
    (t.internAll ps).2.Resolves (t.internAll ps).1 ps := by
  induction ps generalizing t with
  | nil => exact List.Forall₂.nil
  | cons p ps ih =>
    exact List.Forall₂.cons ((internAll_extends _ ps).path? (t.path?_intern p)) (ih (t.intern p).2)

/-- The paths of those numbers that have one. -/
def names (t : FileTable) (ids : List FileId) : List String := ids.filterMap t.path?

theorem Resolves.names (h : t.Resolves ids ps) : t.names ids = ps := by
  induction h with
  | nil => rfl
  | cons hp _ ih => rw [FileTable.names, List.filterMap_cons, hp]; exact congrArg _ ih

theorem Resolves.mem_iff (h : t.Resolves ids ps) : p ∈ ps ↔ ∃ i ∈ ids, t.path? i = some p := by
  rw [← h.names, FileTable.names, List.mem_filterMap]

theorem Knows.resolves (h : t.Knows ids) : t.Resolves ids (t.names ids) := by
  obtain ⟨ps, hps⟩ := knows_iff.mp h
  exact hps.names.symm ▸ hps

theorem Knows.resolveAll (h : t.Knows ids) : t.resolveAll ids = .ok (t.names ids) :=
  resolveAll_eq_ok.mpr h.resolves

theorem Extends.names (h : u.Extends t) (hk : t.Knows ids) : u.names ids = t.names ids :=
  (h.resolves hk.resolves).names

theorem Resolves.inj {js : List FileId} (h : t.Resolves ids ps) (k : t.Resolves js ps) :
    ids = js := by
  induction h generalizing js with
  | nil => exact (List.forall₂_nil_right_iff.mp k).symm
  | cons hp _ ih =>
    obtain ⟨j, rest, hj, hrest, rfl⟩ := List.forall₂_cons_right_iff.mp k
    rw [path?_inj hp hj, ih hrest]

theorem Knows.names_inj {js : List FileId} (h : t.Knows ids) (k : t.Knows js)
    (he : t.names ids = t.names js) : ids = js :=
  h.resolves.inj (he ▸ k.resolves)

end PrecompiledHeaders.FileTable
