import PrecompiledHeaders.Proofs.Merger.Membership
import Mathlib.Data.List.Flatten
import Mathlib.Data.List.Pairwise
/-! Merging the tasks of new parts. Nobody leaves a task for that, so a merged task is what the
tasks of its key come to, one absorbed after the other in the order in which they were handed in. -/
namespace PrecompiledHeaders

theorem Task.appendNew_of_disjoint [DecidableEq α] {xs ys : List α} (hy : ys.Nodup)
    (h : ∀ y ∈ ys, y ∉ xs) : Task.appendNew xs ys = xs ++ ys := by
  induction ys generalizing xs with
  | nil => rw [Task.appendNew, List.append_nil]
  | cons y ys ih =>
    rw [List.nodup_cons] at hy
    have hrest : ∀ z ∈ ys, z ∉ xs ++ [y] := by
      intro z hz hmem
      rcases List.mem_append.mp hmem with hx | hzy
      · exact h z (List.mem_cons_of_mem _ hz) hx
      · exact hy.1 (List.mem_singleton.mp hzy ▸ hz)
    rw [Task.appendNew, if_neg (h y List.mem_cons_self), ih hy.2 hrest, List.append_assoc]
    rfl

theorem Task.appendNew_of_subset [DecidableEq α] {xs ys : List α} (h : ys ⊆ xs) :
    Task.appendNew xs ys = xs := by
  induction ys with
  | nil => rfl
  | cons y ys ih =>
    rw [Task.appendNew, if_pos (h List.mem_cons_self)]
    exact ih fun z hz => h (List.mem_cons_of_mem _ hz)

namespace Merger

/-- Tasks join one after the other, and nobody leaves. -/
def joinAll (us ts : List Task) : List Task := us.foldl (fun ts u => join u ts) ts

theorem part_of_disjoint {ids : List PartId} {ts : List Task} {leaves : Task → Bool}
    (h : ∀ t ∈ ts, t.members ≠ [] ∧ (leaves t = true → ∀ p ∈ ids, p ∉ t.members)) :
    part ids leaves ts = ts := by
  have hsame : ∀ t ∈ ts, withdraw ids leaves t = t := by
    intro t ht
    rw [withdraw]
    split
    · rename_i hl
      refine removeMembers_eq_self ?_
      rw [Task.concerns, List.any_eq_false]
      exact fun p hp hmem => (h t ht).2 hl p (of_decide_eq_true hmem) hp
    · rfl
  rw [part, List.map_congr_left hsame, List.map_id', dropEmpty, List.filter_eq_self]
  intro t ht
  simpa using (h t ht).1

/-! ### Groups -/

/-- The tasks `ts` are the tasks `us` put together by their merge keys. -/
structure Grouped (us ts : List Task) : Prop where
  keys : (ts.map Task.mergeKey).Nodup
  covers : ∀ u ∈ us, ∃ t ∈ ts, t.mergeKey = u.mergeKey
  folds : ∀ t ∈ ts, ∃ u rest, us.filter (·.mergeKey = t.mergeKey) = u :: rest ∧
    t = rest.foldl absorb u

variable {us ts : List Task} {t u : Task}

theorem grouped_nil : Grouped [] [] :=
  ⟨List.nodup_nil, fun _ h => absurd h List.not_mem_nil, fun _ h => absurd h List.not_mem_nil⟩

theorem Grouped.join (h : Grouped us ts) (u : Task) : Grouped (us ++ [u]) (join u ts) := by
  have hkeys := map_mergeKey_join u ts
  constructor
  · rw [hkeys]
    split
    · exact h.keys
    · rename_i hnew
      refine List.nodup_append.mpr ⟨h.keys, List.nodup_singleton _, ?_⟩
      rintro k hk _ hu rfl
      exact hnew (List.mem_singleton.mp hu ▸ hk)
  · have hcovers : ∀ v ∈ us ++ [u], v.mergeKey ∈ (Merger.join u ts).map Task.mergeKey := by
      intro v hv
      rw [hkeys]
      rcases List.mem_append.mp hv with hv | hv
      · obtain ⟨t, ht, hk⟩ := h.covers v hv
        have hmem : v.mergeKey ∈ ts.map Task.mergeKey := hk ▸ List.mem_map_of_mem ht
        split
        · exact hmem
        · exact List.mem_append_left _ hmem
      · obtain rfl := List.mem_singleton.mp hv
        split
        · assumption
        · exact List.mem_append_right _ List.mem_cons_self
    intro v hv
    obtain ⟨t, ht, hk⟩ := List.mem_map.mp (hcovers v hv)
    exact ⟨t, ht, hk⟩
  · intro t ht
    rw [List.filter_append]
    rcases (mem_join h.keys).mp ht with ⟨hold, hne⟩ | ⟨t, hold, hk, rfl⟩ | ⟨hnew, rfl⟩
    · obtain ⟨a, rest, hfilter, hfold⟩ := h.folds t hold
      have hnone : [u].filter (·.mergeKey = t.mergeKey) = [] := by simpa using Ne.symm hne
      exact ⟨a, rest, by rw [hfilter, hnone, List.append_nil], hfold⟩
    · obtain ⟨a, rest, hfilter, hfold⟩ := h.folds t hold
      have hone : [u].filter (·.mergeKey = t.mergeKey) = [u] := by simp [hk]
      refine ⟨a, rest ++ [u], ?_, ?_⟩
      · rw [mergeKey_absorb, hfilter, hone, List.cons_append]
      · rw [List.foldl_append, ← hfold, List.foldl_cons, List.foldl_nil]
    · have hnone : us.filter (·.mergeKey = t.mergeKey) = [] := by
        refine List.filter_eq_nil_iff.mpr fun v hv => ?_
        obtain ⟨t', ht', hk⟩ := h.covers v hv
        simpa [← hk] using hnew t' ht'
      exact ⟨t, [], by simp [hnone], rfl⟩

theorem Grouped.joinAll (h : Grouped us ts) (vs : List Task) :
    Grouped (us ++ vs) (joinAll vs ts) := by
  induction vs generalizing us ts with
  | nil => simpa [Merger.joinAll] using h
  | cons v vs ih =>
    have hnext := ih (h.join v)
    rwa [List.append_assoc, List.singleton_append] at hnext

theorem members_foldl_absorb {rest : List Task} (h : ((u :: rest).flatMap Task.members).Nodup) :
    (rest.foldl absorb u).members = (u :: rest).flatMap Task.members := by
  induction rest generalizing u with
  | nil => simp
  | cons v rest ih =>
    have hdisjoint : (absorb u v).members = u.members ++ v.members := by
      simp only [List.flatMap_cons, List.nodup_append] at h
      exact Task.appendNew_of_disjoint h.2.1.1 fun p hp hu =>
        h.2.2 p hu p (List.mem_append_left _ hp) rfl
    have hflat : (absorb u v :: rest).flatMap Task.members =
        (u :: v :: rest).flatMap Task.members := by
      rw [List.flatMap_cons, hdisjoint, List.flatMap_cons, List.flatMap_cons, List.append_assoc]
    rw [List.foldl_cons, ih (hflat ▸ h), hflat]

/-- Members stand in the order in which their tasks joined. -/
theorem Grouped.members (h : Grouped us ts) (hd : (us.flatMap Task.members).Nodup) (ht : t ∈ ts) :
    t.members = (us.filter (·.mergeKey = t.mergeKey)).flatMap Task.members := by
  obtain ⟨a, rest, hfilter, hfold⟩ := h.folds t ht
  have hsub : ((us.filter (·.mergeKey = t.mergeKey)).flatMap Task.members).Nodup :=
    hd.sublist (List.filter_sublist.flatMap _)
  rw [hfilter] at hsub ⊢
  rw [← members_foldl_absorb hsub, ← hfold]

/-- What absorbing keeps holds of a merged task if it holds of all that came together in it. -/
theorem Grouped.forall_of_absorb (h : Grouped us ts) {P : Task → Prop} (hu : ∀ u ∈ us, P u)
    (ha : ∀ t u, P t → P u → t.mergeKey = u.mergeKey → P (absorb t u)) (ht : t ∈ ts) : P t := by
  obtain ⟨a, rest, hfilter, hfold⟩ := h.folds t ht
  have hgroup : ∀ v ∈ a :: rest, v ∈ us ∧ v.mergeKey = t.mergeKey := by
    intro v hv
    rw [← hfilter] at hv
    simpa using List.mem_filter.mp hv
  have hfoldl : ∀ (vs : List Task) (x : Task), P x → x.mergeKey = t.mergeKey →
      (∀ v ∈ vs, P v ∧ v.mergeKey = t.mergeKey) → P (vs.foldl absorb x) := by
    intro vs
    induction vs with
    | nil => exact fun x hx _ _ => hx
    | cons v vs ih =>
      intro x hx hk hvs
      obtain ⟨hv, hkv⟩ := hvs v List.mem_cons_self
      exact ih _ (ha x v hx hv (hk.trans hkv.symm)) hk fun w hw => hvs w (List.mem_cons_of_mem _ hw)
  rw [hfold]
  have hfirst := hgroup a List.mem_cons_self
  exact hfoldl rest a (hu a hfirst.1) hfirst.2 fun v hv =>
    ⟨hu v (hgroup v (List.mem_cons_of_mem _ hv)).1, (hgroup v (List.mem_cons_of_mem _ hv)).2⟩

/-! ### Merging new parts -/

theorem mergeAll_of_new {scope : Scope} {extra : List String} {sets : List TaskSet}
    {c : Changes} (h : Grouped us ts)
    (hne : ∀ u ∈ us ++ (MergerCall.merge sets extra).submitted scope, u.members ≠ [])
    (hd : ((us ++ (MergerCall.merge sets extra).submitted scope).flatMap Task.members).Nodup) :
    (mergeAll scope extra sets ts c).1 = joinAll ((MergerCall.merge sets extra).submitted scope) ts
    := by
  induction sets generalizing us ts c with
  | nil => rfl
  | cons set sets ih =>
    have hsub : (MergerCall.merge (set :: sets) extra).submitted scope =
      withExtra extra (set.get scope) :: (MergerCall.merge sets extra).submitted scope := rfl
    rw [hsub] at hne hd ⊢
    have hfirst := hd
    rw [List.append_cons] at hne hd
    have hpart : part (withExtra extra (set.get scope)).members
        (fun t => t.mergeKey ≠ (withExtra extra (set.get scope)).mergeKey) ts = ts := by
      refine part_of_disjoint fun t ht => ⟨?_, fun _ p hp hmem => ?_⟩
      · refine h.forall_of_absorb (P := fun t => t.members ≠ []) (fun u hu => ?_)
          (fun t u ht _ _ hempty => ?_) ht
        · exact hne u (List.mem_append_left _ (List.mem_append_left _ hu))
        · obtain ⟨p, hp⟩ := List.exists_mem_of_ne_nil _ ht
          exact List.not_mem_nil (hempty ▸ mem_absorb.mpr (Or.inl hp))
      · have hus : p ∈ us.flatMap Task.members := by
          refine h.forall_of_absorb (P := fun t => t.members ⊆ us.flatMap Task.members)
            (fun u hu q hq => List.mem_flatMap.mpr ⟨u, hu, hq⟩) (fun t u ht hu _ q hq => ?_) ht hmem
          exact (mem_absorb.mp hq).elim (@ht q) (@hu q)
        rw [List.flatMap_append, List.nodup_append] at hfirst
        exact hfirst.2.2 p hus p (List.mem_flatMap.mpr ⟨_, List.mem_cons_self, hp⟩) rfl
    have hstep : (mergeTask scope (withExtra extra (set.get scope)) ts c).1 =
        join (withExtra extra (set.get scope)) ts := by rw [mergeTask_fst, hpart]
    rw [mergeAll, joinAll, List.foldl_cons, ← joinAll]
    generalize mergeTask scope (withExtra extra (set.get scope)) ts c = out at hstep ⊢
    obtain ⟨ts', c'⟩ := out
    obtain rfl : ts' = _ := hstep
    exact ih (h.join _) hne hd

/-- A first call puts the tasks of its parts together. -/
theorem grouped_merge {sets : List TaskSet} {extra : List String} {scope : Scope}
    (hw : (MergerCall.merge sets extra).WellFormed) (hd : (MergerCall.merge sets extra).Separate) :
    (Merger.empty.merge sets extra).1.get scope =
        joinAll ((MergerCall.merge sets extra).submitted scope) [] ∧
      Grouped ((MergerCall.merge sets extra).submitted scope)
        ((Merger.empty.merge sets extra).1.get scope) := by
  have hget : (Merger.empty.merge sets extra).1.get scope =
      (callScope scope (Merger.empty.get scope) (.merge sets extra)).1 :=
    call_get Merger.empty (.merge sets extra) scope
  have hempty : Merger.empty.get scope = [] := by cases scope <;> rfl
  have hall : (Merger.empty.merge sets extra).1.get scope =
      joinAll ((MergerCall.merge sets extra).submitted scope) [] := by
    rw [hget, hempty, callScope]
    exact mergeAll_of_new grouped_nil (fun u hu => (hw scope u (by simpa using hu)).1)
      (by simpa using hd scope)
  refine ⟨hall, ?_⟩
  rw [hall]
  simpa using grouped_nil.joinAll ((MergerCall.merge sets extra).submitted scope)

/-- Two tasks under different keys stay two tasks, and are submitted in this order. -/
theorem mergeScope_apart {x y : TaskSet} {s : Scope}
    (hkey : (x.get s).key s ≠ (y.get s).key s)
    (hx : (x.get s).members ≠ []) (hy : ∀ i ∈ (x.get s).members, i ∉ (y.get s).members) :
    empty.mergeScope [x, y] [] s = ([x.get s, y.get s], [.add s [x.get s, y.get s]]) := by
  have hw : ∀ t, Merger.withExtra [] t = t := fun t => by simp [Merger.withExtra]
  have hempty : Merger.empty.get s = [] := by cases s <;> rfl
  have hmerge : (x.get s).mergeKey ≠ (y.get s).mergeKey := fun he =>
    hkey (by rw [Task.key, Task.key, he])
  have hconcerns : (x.get s).concerns (y.get s).members = false := by
    simpa [Task.concerns] using hy
  have hkey' : ((y.get s).key s == (x.get s).key s) = false := by simpa using hkey.symm
  simp [Merger.mergeScope, hempty, Merger.mergeAll, Merger.mergeTask, Merger.detach,
    Merger.dropEmpty, Merger.join, hw, Changes.add, Changes.none, Changes.pushNew, hx, hmerge,
    hkey', hconcerns, Merger.flush, Merger.keyed, List.lookup_cons, hkey.symm]

end Merger
end PrecompiledHeaders
