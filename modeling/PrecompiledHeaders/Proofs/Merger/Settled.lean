import PrecompiledHeaders.Proofs.Merger.Changes
import PrecompiledHeaders.Proofs.Merger.Grouping
/-! The same call twice. A call settles every task that it hands in: the members stand nowhere else,
and the task they joined has all that they bring. Handing in what is settled changes nothing, and the
queue is told to build it once more. Nothing is asked of the tasks that the first call finds. -/
namespace PrecompiledHeaders.Merger

variable {scope : Scope} {ts : List Task} {t u v : Task} {k : MergeKey} {c : Changes}
  {ids : List PartId} {leaves : Task → Bool}

/-! ### The task that others join -/

/-- The first task under a merge key. -/
def host? (ts : List Task) (k : MergeKey) : Option Task := ts.find? (·.mergeKey = k)

theorem host?_cons (t : Task) (ts : List Task) (k : MergeKey) :
    host? (t :: ts) k = if t.mergeKey = k then some t else host? ts k := by
  by_cases hk : t.mergeKey = k
  · simp [host?, hk]
  · simp [host?, hk]

theorem mem_of_host? (h : host? ts k = some t) : t ∈ ts ∧ t.mergeKey = k :=
  ⟨List.mem_of_find?_eq_some h, by simpa using List.find?_some h⟩

theorem host?_of_mem (hk : (ts.map Task.mergeKey).Nodup) (ht : t ∈ ts) (h : t.mergeKey = k) :
    host? ts k = some t := by
  cases hf : host? ts k with
  | none => exact absurd h (by simpa using List.find?_eq_none.mp hf t ht)
  | some t' =>
    obtain ⟨ht', hk'⟩ := mem_of_host? hf
    rw [eq_of_mergeKey hk ht' ht (hk'.trans h.symm)]

theorem host?_join (u : Task) (ts : List Task) (k : MergeKey) : host? (join u ts) k =
    if u.mergeKey = k then some ((host? ts k).elim u (absorb · u)) else host? ts k := by
  induction ts with
  | nil => rw [join, host?_cons]; rfl
  | cons t ts ih =>
    rw [join]
    by_cases hu : t.mergeKey = u.mergeKey
    · rw [if_pos hu, host?_cons, host?_cons]
      by_cases hk : t.mergeKey = k
      · have huk : u.mergeKey = k := hu.symm.trans hk
        simp [hk, huk, absorb]
      · have huk : u.mergeKey ≠ k := fun huk => hk (hu.trans huk)
        simp [hk, huk]
    · rw [if_neg hu, host?_cons, host?_cons, ih]
      by_cases hk : t.mergeKey = k
      · have huk : u.mergeKey ≠ k := fun huk => hu (hk.trans huk.symm)
        simp [hk, huk]
      · simp [hk]

/-- Whoever keeps a member stays the host. -/
theorem host?_part (h : host? ts k = some t) (hne : (withdraw ids leaves t).members ≠ []) :
    host? (part ids leaves ts) k = some (withdraw ids leaves t) := by
  induction ts with
  | nil => cases h
  | cons a ts ih =>
    rw [part, List.map_cons, dropEmpty, List.filter_cons]
    rw [host?_cons] at h
    by_cases hk : a.mergeKey = k
    · rw [if_pos hk] at h
      obtain rfl := Option.some.inj h
      rw [if_pos (by simpa using hne), host?_cons, mergeKey_withdraw, if_pos hk]
    · rw [if_neg hk] at h
      split
      · rw [host?_cons, mergeKey_withdraw, if_neg hk]
        exact ih h
      · exact ih h

theorem mem_of_mem_join (h : t ∈ join u ts) :
    t ∈ ts ∨ t = u ∨ ∃ s ∈ ts, s.mergeKey = u.mergeKey ∧ t = absorb s u := by
  induction ts with
  | nil => exact Or.inr (Or.inl (List.mem_singleton.mp h))
  | cons s ts ih =>
    rw [join] at h
    split at h
    · rename_i hk
      rcases List.mem_cons.mp h with rfl | h
      · exact Or.inr (Or.inr ⟨s, List.mem_cons_self, hk, rfl⟩)
      · exact Or.inl (List.mem_cons_of_mem _ h)
    · rcases List.mem_cons.mp h with rfl | h
      · exact Or.inl List.mem_cons_self
      · rcases ih h with h | h | ⟨s', hs', hk, h⟩
        · exact Or.inl (List.mem_cons_of_mem _ h)
        · exact Or.inr (Or.inl h)
        · exact Or.inr (Or.inr ⟨s', List.mem_cons_of_mem _ hs', hk, h⟩)

theorem join_of_host (h : host? ts u.mergeKey = some t) (ha : absorb t u = t) : join u ts = ts := by
  induction ts with
  | nil => cases h
  | cons s ts ih =>
    rw [host?_cons] at h
    rw [join]
    split
    · rename_i hk
      rw [if_pos hk] at h
      obtain rfl := Option.some.inj h
      exact congrArg (· :: ts) ha
    · rename_i hk
      rw [if_neg hk] at h
      exact congrArg (s :: ·) (ih h)

/-! ### Settled tasks -/

/-- Nothing is left to be done for `u`. -/
structure Settled (u : Task) (ts : List Task) : Prop where
  inhabited : ∀ t ∈ ts, t.members ≠ []
  placed : ∀ t ∈ ts, ∀ p ∈ u.members, p ∈ t.members → t.mergeKey = u.mergeKey
  hosted : ∃ t, host? ts u.mergeKey = some t ∧ u.members ⊆ t.members ∧ u.sources ⊆ t.sources

theorem inhabited_mergeTask (hne : u.members ≠ []) :
    ∀ t ∈ (mergeTask scope u ts c).1, t.members ≠ [] := by
  intro t ht
  rw [mergeTask_fst] at ht
  rcases mem_of_mem_join ht with ht | rfl | ⟨s, _, _, rfl⟩
  · exact (mem_part.mp ht).1
  · exact hne
  · obtain ⟨p, hp⟩ := List.exists_mem_of_ne_nil _ hne
    exact List.ne_nil_of_mem (mem_absorb.mpr (Or.inr hp))

/-- Whoever joins has left all other tasks. -/
theorem settled_mergeTask (hne : u.members ≠ []) : Settled u (mergeTask scope u ts c).1 := by
  refine ⟨inhabited_mergeTask hne, ?_, ?_⟩
  · intro t ht p hp hpt
    rw [mergeTask_fst] at ht
    rcases mem_of_mem_join ht with ht | rfl | ⟨s, _, hk, rfl⟩
    · obtain ⟨_, s, _, rfl⟩ := mem_part.mp ht
      by_contra hk
      rw [mergeKey_withdraw] at hk
      exact (mem_withdraw.mp hpt).2 ⟨decide_eq_true hk, hp⟩
    · rfl
    · exact hk
  · rw [mergeTask_fst, host?_join, if_pos rfl]
    refine ⟨_, rfl, ?_⟩
    cases host? (part u.members (fun t => t.mergeKey ≠ u.mergeKey) ts) u.mergeKey with
    | none => exact ⟨List.Subset.refl _, List.Subset.refl _⟩
    | some s =>
      exact ⟨fun p hp => mem_absorb.mpr (Or.inr hp), fun f hf => Task.mem_appendNew.mpr (Or.inr hf)⟩

/-- Others that join disturb nobody. -/
theorem Settled.mergeTask (h : Settled u ts) (hu : u.members ≠ []) (hv : v.members ≠ [])
    (hd : ∀ p ∈ u.members, p ∉ v.members) : Settled u (mergeTask scope v ts c).1 := by
  refine ⟨inhabited_mergeTask hv, ?_, ?_⟩
  · have hpart : ∀ s ∈ part v.members (fun t => t.mergeKey ≠ v.mergeKey) ts, ∀ p ∈ u.members,
        p ∈ s.members → s.mergeKey = u.mergeKey := by
      intro s hs p hp hps
      obtain ⟨_, s₀, hs₀, rfl⟩ := mem_part.mp hs
      rw [mergeKey_withdraw]
      exact h.placed s₀ hs₀ p hp (mem_withdraw.mp hps).1
    intro t ht p hp hpt
    rw [mergeTask_fst] at ht
    rcases mem_of_mem_join ht with ht | rfl | ⟨s, hs, _, rfl⟩
    · exact hpart t ht p hp hpt
    · exact absurd hpt (hd p hp)
    · exact hpart s hs p hp ((mem_absorb.mp hpt).resolve_right (hd p hp))
  · obtain ⟨t, ht, hmembers, hsources⟩ := h.hosted
    let rest := withdraw v.members (fun t => t.mergeKey ≠ v.mergeKey) t
    have hstay : u.members ⊆ rest.members := fun p hp =>
      mem_withdraw.mpr ⟨hmembers hp, fun hl => hd p hp hl.2⟩
    have hkeep : u.sources ⊆ rest.sources := by
      rw [sources_withdraw]
      exact hsources
    obtain ⟨p, hp⟩ := List.exists_mem_of_ne_nil _ hu
    rw [mergeTask_fst, host?_join, host?_part ht (List.ne_nil_of_mem (hstay hp))]
    split
    · exact ⟨_, rfl, fun p hp => mem_absorb.mpr (Or.inl (hstay hp)),
        fun f hf => Task.mem_appendNew.mpr (Or.inl (hkeep hf))⟩
    · exact ⟨_, rfl, hstay, hkeep⟩

theorem detach_of_not_loses (h : ∀ t ∈ ts, ¬ Loses ids leaves t) (c : Changes) :
    detach scope ids leaves ts c = (ts, c) := by
  refine Prod.ext ?_ ?_
  · rw [detach_fst, List.map_congr_left fun t ht => withdraw_of_not_loses (h t ht), List.map_id']
  · induction ts generalizing c with
    | nil => rfl
    | cons t ts ih =>
      rw [List.forall_mem_cons] at h
      rw [detach_cons_of_not_loses h.1]
      exact ih h.2 c

/-- What is settled has no reason to leave, and nothing to bring. -/
theorem Settled.mergeTask_self (h : Settled u ts) (scope : Scope) (c : Changes) :
    Merger.mergeTask scope u ts c = (ts, c.add (u.key scope)) := by
  have hstay : ∀ t ∈ ts, ¬ Loses u.members (fun t => t.mergeKey ≠ u.mergeKey) t := by
    rintro t ht ⟨hleaves, hconcerns⟩
    obtain ⟨p, hpt, hp⟩ := List.any_eq_true.mp hconcerns
    exact of_decide_eq_true hleaves (h.placed t ht p (of_decide_eq_true hp) hpt)
  have hfull : dropEmpty ts = ts :=
    List.filter_eq_self.mpr fun t ht => by simpa using h.inhabited t ht
  have hjoin : join u ts = ts := by
    obtain ⟨t, ht, hmembers, hsources⟩ := h.hosted
    refine join_of_host ht ?_
    rw [absorb, Task.addMembers, Task.addSources, Task.appendNew_of_subset hmembers,
      Task.appendNew_of_subset hsources]
  rw [Merger.mergeTask, detach_of_not_loses hstay]
  dsimp only
  rw [hfull, hjoin]

/-! ### A whole call -/

variable {sets : List TaskSet} {extra : List String}

/-- A call settles what it hands in, as long as no part is handed in twice. -/
theorem settled_mergeAll {done : List Task} (hdone : ∀ u ∈ done, Settled u ts)
    (hne : ∀ u ∈ done ++ (MergerCall.merge sets extra).submitted scope, u.members ≠ [])
    (hd : ((done ++ (MergerCall.merge sets extra).submitted scope).flatMap Task.members).Nodup) :
    ∀ u ∈ done ++ (MergerCall.merge sets extra).submitted scope,
      Settled u (mergeAll scope extra sets ts c).1 := by
  induction sets generalizing ts c done with
  | nil => simpa [MergerCall.submitted, mergeAll] using hdone
  | cons set sets ih =>
    rw [submitted_cons, List.append_cons] at hne hd ⊢
    refine ih (fun u hu => ?_) hne hd
    have hv := hne (withExtra extra (set.get scope)) (by simp)
    rcases List.mem_append.mp hu with hu | hu
    · have hapart : ∀ p ∈ u.members, p ∉ (withExtra extra (set.get scope)).members := by
        intro p hp hpv
        rw [List.flatMap_append, List.flatMap_append, List.flatMap_singleton] at hd
        exact (List.nodup_append.mp (List.nodup_append.mp hd).1).2.2 p
          (List.mem_flatMap.mpr ⟨u, hu, hp⟩) p hpv rfl
      exact (hdone u hu).mergeTask (hne u (by simp [hu])) hv hapart
    · obtain rfl := List.mem_singleton.mp hu
      exact settled_mergeTask hv

theorem appendNew_pushNew (keys : List TaskKey) (k : TaskKey) (more : List TaskKey) :
    Task.appendNew (Changes.pushNew keys k) more = Task.appendNew keys (k :: more) := by
  rw [Changes.pushNew, Task.appendNew]
  split <;> rfl

/-- What is settled is noted as added, and that is all. -/
theorem mergeAll_of_settled
    (h : ∀ u ∈ (MergerCall.merge sets extra).submitted scope, Settled u ts) (c : Changes) :
    mergeAll scope extra sets ts c = (ts, { c with
      added := Task.appendNew c.added
        (((MergerCall.merge sets extra).submitted scope).map (·.key scope)) }) := by
  induction sets generalizing c with
  | nil => rfl
  | cons set sets ih =>
    rw [submitted_cons, List.forall_mem_cons] at h
    rw [mergeAll, h.1.mergeTask_self]
    dsimp only
    rw [ih h.2, submitted_cons, List.map_cons, Changes.add, appendNew_pushNew]

/-- A scope with nothing but tasks to build, if there are any. -/
def builds (scope : Scope) (tasks : List Task) : List Dispatch :=
  if tasks.isEmpty then [] else [.add scope tasks]

theorem flush_added (scope : Scope) (ts : List Task) (added : List TaskKey) :
    flush scope ts { Changes.none with added := added } =
      builds scope (renewed scope ts { Changes.none with added := added }) := rfl

/-- A call that hands in nothing but what is settled leaves the tasks as they are, and tells the queue
of nothing but tasks to build. -/
theorem call_of_settled {m : Merger} (h : ∀ s, ∀ u ∈ (MergerCall.merge sets extra).submitted s,
      Settled u (m.get s)) :
    m.call (.merge sets extra) = (m, Scope.all.flatMap fun s =>
      builds s (renewed s (m.get s) (mergeAll s extra sets (m.get s) .none).2)) := by
  have hone : ∀ s, callScope s (m.get s) (.merge sets extra) =
      (m.get s, (mergeAll s extra sets (m.get s) .none).2) ∧
      flush s (m.get s) (mergeAll s extra sets (m.get s) .none).2 =
        builds s (renewed s (m.get s) (mergeAll s extra sets (m.get s) .none).2) := by
    intro s
    rw [callScope, mergeAll_of_settled (h s)]
    exact ⟨rfl, flush_added s _ _⟩
  refine Prod.ext ?_ ?_
  · have hget : ∀ s, (m.call (.merge sets extra)).1.get s = m.get s := fun s => by
      rw [call_get, (hone s).1]
    exact congrArg₂ PerScope.mk (hget .system) (hget .project)
  · rw [call_dispatches, List.flatMap_congr fun s _ => ?_]
    rw [(hone s).1]
    exact (hone s).2

/-- Every call that hands in no part twice settles what it hands in. -/
theorem call_settles (m : Merger) (hw : (MergerCall.merge sets extra).WellFormed)
    (hd : (MergerCall.merge sets extra).Separate) (s : Scope) :
    ∀ u ∈ (MergerCall.merge sets extra).submitted s,
      Settled u ((m.call (.merge sets extra)).1.get s) := by
  have hnone : ∀ u ∈ ([] : List Task), Settled u (m.get s) :=
    fun u hu => absurd hu List.not_mem_nil
  rw [call_get]
  exact settled_mergeAll hnone (fun u hu => (hw s u hu).1) (hd s)

/-- Keys that are all found are found in their order. -/
theorem map_key_renewed (h : ∀ k ∈ c.added, ∃ t ∈ ts, t.key scope = k) :
    (renewed scope ts c).map (·.key scope) = c.added := by
  have hfound : ∀ k ∈ c.added,
      ((keyed scope ts).lookup k).map (·.key scope) = some k := by
    intro k hk
    rw [lookup_keyed]
    cases hf : ts.find? (·.key scope = k) with
    | none =>
      obtain ⟨t, ht, hkey⟩ := h k hk
      exact absurd hkey (by simpa using List.find?_eq_none.mp hf t ht)
    | some t => simpa using List.find?_some hf
  rw [renewed, List.map_filterMap, List.filterMap_congr hfound, List.filterMap_some]

theorem renewed_subset : renewed scope ts c ⊆ ts := by
  intro t ht
  obtain ⟨k, _, hk⟩ := List.mem_filterMap.mp ht
  rw [lookup_keyed] at hk
  exact List.mem_of_find?_eq_some hk

/-- Whatever there was before: the second of two equal calls leaves the merged tasks of both scopes as
the first one left them, in the same order and with the same members and sources, and tells the queue
for each scope to build the tasks under the keys that are handed in, each of them once and in the order
in which they come up first. -/
theorem merge_twice (m : Merger) (sets : List TaskSet) (extra : List String)
    (hw : (MergerCall.merge sets extra).WellFormed) (hd : (MergerCall.merge sets extra).Separate) :
    let again := MergerCall.merge sets extra
    let once := (m.call again).1
    ∃ tasks : Scope → List Task,
      once.call again = (once, Scope.all.flatMap fun s => builds s (tasks s)) ∧
      ∀ s, tasks s ⊆ once.get s ∧
        (tasks s).map (·.key s) = Task.appendNew [] ((again.submitted s).map (·.key s)) := by
  intro again once
  have hsettled : ∀ s, ∀ u ∈ again.submitted s, Settled u (once.get s) := call_settles m hw hd
  refine ⟨fun s => renewed s (once.get s) (mergeAll s extra sets (once.get s) .none).2,
    call_of_settled hsettled, fun s => ⟨renewed_subset, ?_⟩⟩
  dsimp only
  rw [mergeAll_of_settled (hsettled s)]
  refine map_key_renewed fun k hk => ?_
  obtain ⟨u, hu, rfl⟩ := List.mem_map.mp ((Task.mem_appendNew.mp hk).resolve_left List.not_mem_nil)
  obtain ⟨t, ht, _⟩ := (hsettled s u hu).hosted
  exact ⟨t, (mem_of_host? ht).1, Task.key_eq_of_mergeKey (mem_of_host? ht).2 s⟩

/-- After some moves, two parts that were in no task or in another one are handed in twice. -/
theorem merge_twice_moving_on :
    let again := MergerCall.merge [headerTasks ["b"] 1, headerTasks ["a"] 1] []
    let once := ((after movingOn).call again).1
    again.WellFormed ∧ again.Separate ∧ once.get .system = [headerTask ["b", "a"] 1] ∧
      (once.call again).1 = once := by
  intro again once
  have hw : again.WellFormed := by decide
  have hd : again.Separate := by decide
  obtain ⟨_, htwice, _⟩ := merge_twice (after movingOn) _ [] hw hd
  exact ⟨hw, hd, by decide, by rw [htwice]⟩

end PrecompiledHeaders.Merger
