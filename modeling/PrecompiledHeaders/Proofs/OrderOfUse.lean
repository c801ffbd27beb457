import PrecompiledHeaders.Proofs.FirstMentions
import Mathlib.Data.List.Nodup
/-! Lists put in order of use. Sorting is stable, so the first member with some key is, of those with
the least order, the one that was listed first. -/
namespace PrecompiledHeaders

section

variable {α κ : Type} [DecidableEq κ] {order : α → Nat} {key : α → κ} {seen : List κ} {xs ys : List α}

theorem pairwise_inOrder (order : α → Nat) (xs : List α) :
    (xs.mergeSort fun a b => order a ≤ order b).Pairwise fun a b => order a ≤ order b := by
  have hsorted : (xs.mergeSort fun a b => order a ≤ order b).Pairwise
      fun a b => decide (order a ≤ order b) = true :=
    List.pairwise_mergeSort (fun a b c => by simpa using Nat.le_trans)
      (fun a b => by simpa using Nat.le_total _ _) xs
  simpa using hsorted

/-- Members of one order stay as they are listed. -/
theorem filter_inOrder {p : α → Bool} (h : ∀ x ∈ xs, p x → ∀ y ∈ xs, p y → order x ≤ order y) :
    (xs.mergeSort fun a b => order a ≤ order b).filter p = xs.filter p := by
  have hsame : (xs.filter p).Pairwise fun a b => decide (order a ≤ order b) = true := by
    apply List.pairwise_of_forall_mem_list
    intro x hx y hy
    obtain ⟨hx, hpx⟩ := List.mem_filter.mp hx
    obtain ⟨hy, hpy⟩ := List.mem_filter.mp hy
    exact decide_eq_true (h x hx hpx y hy hpy)
  have hsublist : (xs.filter p).Sublist (xs.mergeSort fun a b => order a ≤ order b) :=
    List.sublist_mergeSort (fun a b c => by simpa using Nat.le_trans)
      (fun a b => by simpa using Nat.le_total _ _) hsame List.filter_sublist
  have hfiltered := hsublist.filter p
  simp only [List.filter_filter, Bool.and_self] at hfiltered
  have hlength := ((xs.mergeSort_perm fun a b => decide (order a ≤ order b)).filter p).length_eq
  exact (hfiltered.eq_of_length hlength.symm).symm

/-! ### Stability -/

/-- The members of `xs` in ascending order, and those of one order as `xs` lists them. -/
structure StablyOrdered (order : α → Nat) (xs ys : List α) : Prop where
  perm : ys.Perm xs
  ascending : ys.Pairwise fun a b => order a ≤ order b
  stable : ∀ n, (ys.filter (order · = n)) = xs.filter (order · = n)

theorem stablyOrdered_inOrder (order : α → Nat) (xs : List α) :
    StablyOrdered order xs (xs.mergeSort fun a b => order a ≤ order b) where
  perm := xs.mergeSort_perm _
  ascending := pairwise_inOrder order xs
  stable n := by
    apply filter_inOrder
    intro x _ hx y _ hy
    exact Nat.le_of_eq ((of_decide_eq_true hx).trans (of_decide_eq_true hy).symm)

/-- What is left of both lists is ordered in the same way. -/
theorem StablyOrdered.filter (h : StablyOrdered order xs ys) (p : α → Bool) :
    StablyOrdered order (xs.filter p) (ys.filter p) where
  perm := h.perm.filter p
  ascending := h.ascending.filter p
  stable n := by
    rw [List.filter_comm, h.stable n, List.filter_comm]

theorem idxOf_filter_lt_iff [DecidableEq α] {p : α → Bool} {a b : α} (ha : p a) (hb : p b) :
    (xs.filter p).idxOf a < (xs.filter p).idxOf b ↔ xs.idxOf a < xs.idxOf b := by
  induction xs with
  | nil => rfl
  | cons x xs ih =>
    by_cases hxb : x = b
    · subst hxb
      simp [hb]
    · by_cases hxa : x = a
      · subst hxa
        simp [ha, List.idxOf_cons_ne _ hxb]
      · rw [List.idxOf_cons_ne _ hxa, List.idxOf_cons_ne _ hxb, List.filter_cons]
        split
        · rw [List.idxOf_cons_ne _ hxa, List.idxOf_cons_ne _ hxb, Nat.succ_lt_succ_iff, ih,
            Nat.succ_lt_succ_iff]
        · rw [ih, Nat.succ_lt_succ_iff]

/-- Of two members of one order that comes first which is listed first. -/
theorem StablyOrdered.idxOf_lt_iff [DecidableEq α] (h : StablyOrdered order xs ys) {a b : α}
    (hab : order a = order b) : ys.idxOf a < ys.idxOf b ↔ xs.idxOf a < xs.idxOf b := by
  have hfilter : ∀ zs : List α, (zs.filter (order · = order b)).idxOf a <
      (zs.filter (order · = order b)).idxOf b ↔ zs.idxOf a < zs.idxOf b := fun zs =>
    idxOf_filter_lt_iff (decide_eq_true hab) (decide_eq_true rfl)
  rw [← hfilter ys, h.stable, hfilter xs]

/-! ### First uses -/

/-- Of the members with this key the one with the least order, and of several the first. -/
def leastOf? (order : α → Nat) (key : α → κ) (k : κ) (xs : List α) : Option α :=
  xs.find? fun x => key x = k ∧ ∀ y ∈ xs, key y = k → order x ≤ order y

theorem least_of_leastOf? {k : κ} {x : α} (h : leastOf? order key k xs = some x) :
    x ∈ xs ∧ key x = k ∧ ∀ y ∈ xs, key y = k → order x ≤ order y := by
  have hholds := List.find?_some h
  exact ⟨List.mem_of_find?_eq_some h, of_decide_eq_true hholds⟩

theorem find?_inOrder (k : κ) : (xs.mergeSort fun a b => order a ≤ order b).find? (key · = k) =
    leastOf? order key k xs := by
  have hmem : ∀ x, x ∈ xs.mergeSort (fun a b => order a ≤ order b) ↔ x ∈ xs := fun x =>
    List.mem_mergeSort
  have hsorted := pairwise_inOrder order xs
  have hleast : leastOf? order key k xs = (xs.mergeSort fun a b => order a ≤ order b).find?
      fun x => key x = k ∧ ∀ y ∈ xs, key y = k → order x ≤ order y := by
    rw [leastOf?, ← List.head?_filter, ← List.head?_filter, filter_inOrder]
    intro x _ hx y hy hy'
    exact (of_decide_eq_true hx).2 y hy (of_decide_eq_true hy').1
  rw [hleast]
  generalize (xs.mergeSort fun a b => decide (order a ≤ order b)) = sorted at hmem hsorted ⊢
  cases hfind : sorted.find? (key · = k) with
  | none =>
    symm
    rw [List.find?_eq_none] at hfind ⊢
    intro x hx
    have hne := hfind x hx
    simp only [decide_eq_true_eq] at hne ⊢
    exact fun h => hne h.1
  | some x =>
    obtain ⟨hkey, before, after, rfl, hbefore⟩ := List.find?_eq_some_iff_append.mp hfind
    have hnone : ∀ y ∈ before, key y ≠ k := fun y hy => by simpa using hbefore y hy
    symm
    rw [List.find?_eq_some_iff_append]
    refine ⟨?_, before, after, rfl, ?_⟩
    · simp only [decide_eq_true_eq] at hkey ⊢
      refine ⟨hkey, fun y hy hyk => ?_⟩
      rcases List.mem_append.mp ((hmem y).mpr hy) with hy | hy
      · exact absurd hyk (hnone y hy)
      · rcases List.mem_cons.mp hy with rfl | hy
        · exact Nat.le_refl _
        · exact (List.pairwise_cons.mp (List.pairwise_append.mp hsorted).2.1).1 y hy
    · intro y hy
      simp [hnone y hy]

/-- A member is kept of the sorted list if it is the least one with its key. -/
theorem mem_keepFirst_inOrder {x : α} :
    x ∈ keepFirst key [] (xs.mergeSort fun a b => order a ≤ order b) ↔
      leastOf? order key (key x) xs = some x := by
  rw [mem_keepFirst_iff_find?, find?_inOrder]
  simp

/-- Lists that differ in the order of their members only are the same when sorted, if no two members
have one order. -/
theorem inOrder_eq_of_perm (h : xs.Perm ys) (hn : (xs.map order).Nodup) :
    xs.mergeSort (fun a b => order a ≤ order b) = ys.mergeSort fun a b => order a ≤ order b := by
  have hperm : (xs.mergeSort fun a b => decide (order a ≤ order b)).Perm
      (ys.mergeSort fun a b => decide (order a ≤ order b)) :=
    (xs.mergeSort_perm _).trans (h.trans (ys.mergeSort_perm _).symm)
  refine List.Perm.eq_of_pairwise ?_ (pairwise_inOrder order xs) (pairwise_inOrder order ys) hperm
  intro a b ha hb hab hba
  have hb' := h.symm.subset (List.mem_mergeSort.mp hb)
  exact List.inj_on_of_nodup_map hn (List.mem_mergeSort.mp ha) hb' (Nat.le_antisymm hab hba)

end
end PrecompiledHeaders
