import PrecompiledHeaders.Build
import Mathlib.Data.List.Nodup
/-! Whose headers the end of a build changes: in its scope those of the parts it names, and no
others. -/
namespace PrecompiledHeaders

theorem PartHeaders.get_of_isEmpty {h : PartHeaders} (he : h.isEmpty) (s : Scope) :
    h.get s = Option.none := by
  obtain ⟨hsys, hproj⟩ := Bool.and_eq_true_iff.mp he
  cases s
  · exact Option.isNone_iff_eq_none.mp hsys
  · exact Option.isNone_iff_eq_none.mp hproj

namespace ArtifactIndex

variable {scope s : Scope} {parts : List PartId} {part p : PartId} {path : FilePath}

theorem header?_setHeader (x : ArtifactIndex) (h : part = p → scope ≠ s) :
    (x.setHeader scope path part).header? p s = x.header? p s := by
  rw [header?, header?, setHeader, Std.TreeMap.getElem?_insert]
  by_cases hp : part = p
  · subst hp
    rw [if_pos Std.ReflCmp.compare_self, Option.bind_some, PerScope.get_set_of_ne _ (h rfl)]
    cases x.headers[part]? with
    | none => cases s <;> rfl
    | some current => rfl
  · rw [if_neg fun he => hp (Std.LawfulEqCmp.eq_of_compare he)]

theorem header?_deleteHeader (x : ArtifactIndex) (h : part = p → scope ≠ s) :
    (x.deleteHeader scope part).header? p s = x.header? p s := by
  rw [deleteHeader]
  cases hc : x.headers[part]? with
  | none => rfl
  | some current =>
    dsimp only
    by_cases hp : part = p
    · subst hp
      have hleft : (PerScope.set current scope none).get s = current.get s :=
        PerScope.get_set_of_ne _ (h rfl) _
      rw [header?, header?, hc, Option.bind_some, ← hleft]
      split
      · rename_i hempty
        rw [Std.TreeMap.getElem?_erase, if_pos Std.ReflCmp.compare_self, Option.bind_none,
          PartHeaders.get_of_isEmpty hempty]
      · rw [Std.TreeMap.getElem?_insert, if_pos Std.ReflCmp.compare_self, Option.bind_some]
    · have hne : compare part p ≠ .eq := fun he => hp (Std.LawfulEqCmp.eq_of_compare he)
      rw [header?, header?]
      split
      · rw [Std.TreeMap.getElem?_erase, if_neg hne]
      · rw [Std.TreeMap.getElem?_insert, if_neg hne]

/-- Changes that spare other parts and the other scope one by one do so one after the other. -/
theorem header?_foldl {f : ArtifactIndex → PartId → ArtifactIndex}
    (hf : ∀ x part, (part = p → scope ≠ s) → (f x part).header? p s = x.header? p s)
    (x : ArtifactIndex) (h : p ∈ parts → scope ≠ s) :
    (parts.foldl f x).header? p s = x.header? p s := by
  induction parts generalizing x with
  | nil => rfl
  | cons part parts ih =>
    rw [List.foldl_cons, ih _ fun hp => h (List.mem_cons_of_mem _ hp)]
    exact hf x part fun he => h (he ▸ List.mem_cons_self)

theorem header?_setHeaders (x : ArtifactIndex) (h : p ∈ parts → scope ≠ s) :
    (x.setHeaders parts scope path).header? p s = x.header? p s :=
  header?_foldl (fun x _ hp => x.header?_setHeader hp) x h

theorem header?_deleteHeaders (x : ArtifactIndex) (h : p ∈ parts → scope ≠ s) :
    (x.deleteHeaders parts scope).header? p s = x.header? p s :=
  header?_foldl (fun x _ hp => x.header?_deleteHeader hp) x h

end ArtifactIndex

section

variable {W : Type} [World W] {w : W} {x : ArtifactIndex}

namespace ArtifactStore

theorem deleteHeader_error {f : Fault} (store : ArtifactStore) (hx : store.index w = .error f)
    (parts : List PartId) (scope : Scope) :
    store.deleteHeader w parts scope = (.error f, store, w) := by
  cases store with
  | memory => cases hx
  | file root => simp only [deleteHeader, hx]

/-- Only a document that names none of the headers is left alone. -/
theorem deleteHeader_cases (store : ArtifactStore) (hx : store.index w = .ok x)
    (parts : List PartId) (scope : Scope) :
    store.deleteHeader w parts scope = store.replace w (x.deleteHeaders parts scope) ∨
      x.hasHeader parts scope = false ∧
        store.deleteHeader w parts scope = (.ok (), store, w) := by
  cases store with
  | memory =>
    cases hx
    exact Or.inl rfl
  | file root =>
    simp only [deleteHeader, hx]
    cases hhas : x.hasHeader parts scope
    · exact Or.inr ⟨rfl, rfl⟩
    · exact Or.inl rfl

end ArtifactStore

namespace Build

/-- The store is left as it is, or takes an index with the same headers for all parts that are not
named. -/
theorem record_headers (store : ArtifactStore) (w : W) (scope : Scope) (parts : List PartId)
    (outcome : Outcome) :
    (∃ result, record store w scope parts outcome = (result, store, w)) ∨
    ∃ x y, store.index w = .ok x ∧ record store w scope parts outcome = store.replace w y ∧
      ∀ p s, (p ∈ parts → scope ≠ s) → y.header? p s = x.header? p s := by
  cases hx : store.index w with
  | error f =>
    refine Or.inl ⟨.error f, ?_⟩
    cases outcome with
    | built path reused => rw [record, ArtifactStore.insertHeader, hx]
    | empty | failed => exact store.deleteHeader_error hx parts scope
  | ok x =>
    cases outcome with
    | built path reused =>
      rw [record, ArtifactStore.insertHeader, hx]
      exact Or.inr ⟨x, _, rfl, rfl, fun p s h => x.header?_setHeaders h⟩
    | empty | failed =>
      obtain hput | ⟨-, hsame⟩ := store.deleteHeader_cases hx parts scope
      · exact Or.inr ⟨x, _, rfl, hput, fun p s h => x.header?_deleteHeaders h⟩
      · exact Or.inl ⟨_, hsame⟩

end Build

end

end PrecompiledHeaders
