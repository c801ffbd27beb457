import PrecompiledHeaders.Dependency
import Mathlib.Data.List.Forall2
/-! First mentions. Of the members of a list that have a key in common only the first is kept, and
none whose key was seen before. -/
namespace PrecompiledHeaders

section

variable {α κ : Type} [DecidableEq κ] {key : α → κ} {seen : List κ} {xs : List α}

theorem keepFirst_sublist (key : α → κ) (seen : List κ) (xs : List α) :
    (keepFirst key seen xs).Sublist xs := by
  induction xs generalizing seen with
  | nil => exact List.Sublist.slnil
  | cons x xs ih =>
    rw [keepFirst]
    split
    · exact (ih seen).cons x
    · exact (ih (key x :: seen)).cons_cons x

theorem keepFirst_congr {seen' : List κ} (h : ∀ k, k ∈ seen ↔ k ∈ seen') :
    keepFirst key seen xs = keepFirst key seen' xs := by
  induction xs generalizing seen seen' with
  | nil => rfl
  | cons x xs ih =>
    have hcons : ∀ k, k ∈ key x :: seen ↔ k ∈ key x :: seen' := fun k => by simp [h k]
    rw [keepFirst, keepFirst, ih h, ih hcons]
    exact if_congr (h (key x)) rfl rfl

theorem mem_map_keepFirst {k : κ} :
    k ∈ (keepFirst key seen xs).map key ↔ k ∈ xs.map key ∧ k ∉ seen := by
  induction xs generalizing seen with
  | nil => simp [keepFirst]
  | cons x xs ih =>
    rw [keepFirst]
    split <;> rename_i hx
    · rw [ih, List.map_cons, List.mem_cons]
      constructor
      · exact fun ⟨hk, hs⟩ => ⟨Or.inr hk, hs⟩
      · rintro ⟨rfl | hk, hs⟩
        · exact absurd hx hs
        · exact ⟨hk, hs⟩
    · rw [List.map_cons, List.mem_cons, ih, List.map_cons, List.mem_cons, List.mem_cons]
      constructor
      · rintro (rfl | ⟨hk, hs⟩)
        · exact ⟨Or.inl rfl, hx⟩
        · exact ⟨Or.inr hk, fun h => hs (Or.inr h)⟩
      · rintro ⟨rfl | hk, hs⟩
        · exact Or.inl rfl
        · by_cases hkx : k = key x
          · exact Or.inl hkx
          · exact Or.inr ⟨hk, fun h => h.elim hkx hs⟩

theorem nodup_map_keepFirst (key : α → κ) (seen : List κ) (xs : List α) :
    ((keepFirst key seen xs).map key).Nodup := by
  induction xs generalizing seen with
  | nil => exact List.nodup_nil
  | cons x xs ih =>
    rw [keepFirst]
    split
    · exact ih seen
    · rw [List.map_cons, List.nodup_cons]
      exact ⟨fun h => (mem_map_keepFirst.mp h).2 List.mem_cons_self, ih _⟩

/-- A member is kept if it is the first one with its key, and this key was not seen before. -/
theorem mem_keepFirst_iff_find? {x : α} :
    x ∈ keepFirst key seen xs ↔ key x ∉ seen ∧ xs.find? (key · = key x) = some x := by
  induction xs generalizing seen with
  | nil => simp [keepFirst]
  | cons y xs ih =>
    rw [keepFirst]
    by_cases hkey : key y = key x
    · have hfirst : (y :: xs).find? (key · = key x) = some y := List.find?_cons_of_pos (by simpa)
      rw [hfirst, Option.some.injEq]
      split <;> rename_i hseen
      · rw [ih]
        exact ⟨fun h => absurd (hkey ▸ hseen) h.1, fun h => absurd (hkey ▸ hseen) h.1⟩
      · rw [List.mem_cons, ih]
        constructor
        · rintro (rfl | h)
          · exact ⟨hseen, rfl⟩
          · exact absurd (hkey ▸ List.mem_cons_self) h.1
        · rintro ⟨_, rfl⟩
          exact Or.inl rfl
    · have hrest : (y :: xs).find? (key · = key x) = xs.find? (key · = key x) :=
        List.find?_cons_of_neg (by simpa)
      rw [hrest]
      split
      · exact ih
      · have hne : x ≠ y := fun h => hkey (h ▸ rfl)
        rw [List.mem_cons, ih, List.mem_cons, not_or]
        constructor
        · rintro (h | ⟨⟨_, hx⟩, hfind⟩)
          · exact absurd h hne
          · exact ⟨hx, hfind⟩
        · rintro ⟨hx, hfind⟩
          exact Or.inr ⟨⟨Ne.symm hkey, hx⟩, hfind⟩

/-- What is kept stays in the order of first mentions. -/
theorem pairwise_idxOf_keepFirst [DecidableEq α] (key : α → κ) (seen : List κ) (xs : List α) :
    (keepFirst key seen xs).Pairwise fun a b => xs.idxOf a < xs.idxOf b := by
  induction xs generalizing seen with
  | nil => exact .nil
  | cons x xs ih =>
    have hlater : ∀ {seen' : List κ}, key x ∈ seen' → ∀ a ∈ keepFirst key seen' xs,
        (x :: xs).idxOf a = xs.idxOf a + 1 := by
      intro seen' hx a ha
      refine List.idxOf_cons_ne _ ?_
      rintro rfl
      exact (mem_keepFirst_iff_find?.mp ha).1 hx
    have hrest : ∀ {seen' : List κ}, key x ∈ seen' →
        (keepFirst key seen' xs).Pairwise fun a b => (x :: xs).idxOf a < (x :: xs).idxOf b := by
      intro seen' hx
      refine (ih seen').imp_of_mem fun {a b} ha hb hab => ?_
      rw [hlater hx a ha, hlater hx b hb]
      exact Nat.succ_lt_succ hab
    rw [keepFirst]
    split <;> rename_i hx
    · exact hrest hx
    · refine List.pairwise_cons.mpr ⟨fun b hb => ?_, hrest List.mem_cons_self⟩
      rw [List.idxOf_cons_self, hlater List.mem_cons_self b hb]
      exact Nat.succ_pos _

end

section

variable {α : Type} [DecidableEq α] {seen xs : List α}

theorem mem_keepFirst {a : α} : a ∈ keepFirst (fun x => x) seen xs ↔ a ∈ xs ∧ a ∉ seen := by
  have h := @mem_map_keepFirst α α _ (fun x => x) seen xs a
  rwa [List.map_id', List.map_id'] at h

theorem nodup_keepFirst (seen xs : List α) : (keepFirst (fun x => x) seen xs).Nodup := by
  have h := nodup_map_keepFirst (fun x : α => x) seen xs
  rwa [List.map_id'] at h

theorem rel_keepFirst {β : Type} [DecidableEq β] {R : α → β → Prop} (hR : Relator.BiUnique R)
    {as : List α} {seen' bs : List β} (hs : List.Forall₂ R seen seen') (h : List.Forall₂ R as bs) :
    List.Forall₂ R (keepFirst (fun a => a) seen as) (keepFirst (fun b => b) seen' bs) := by
  induction h generalizing seen seen' with
  | nil => exact .nil
  | cons hab _ ih =>
    have hmem := List.rel_mem hR hab hs
    rw [keepFirst, keepFirst]
    split <;> rename_i hin
    · rw [if_pos (hmem.mp hin)]
      exact ih hs
    · rw [if_neg (mt hmem.mpr hin)]
      exact .cons hab (ih (.cons hab hs))

end
end PrecompiledHeaders
