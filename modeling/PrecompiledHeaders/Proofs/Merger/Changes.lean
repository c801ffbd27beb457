import PrecompiledHeaders.Proofs.Merger.Membership
import PrecompiledHeaders.Proofs.TaskKeys
/-! What a call notes, and what of it is told. The keys noted as added, updated and removed may
overlap, and a key noted early in a batch may be undone later in it. What is told afterwards is
read off the tasks as they are then; that this suffices rests on `Tracks`. -/
namespace PrecompiledHeaders

theorem Task.key_eq_of_mergeKey {t u : Task} (h : t.mergeKey = u.mergeKey) (scope : Scope) :
    t.key scope = u.key scope := by
  rw [Task.key, Task.key, h]

@[simp] theorem Task.key_removeMembers (t : Task) (ids : List PartId) (scope : Scope) :
    (t.removeMembers ids).key scope = t.key scope := rfl

theorem Task.with_members {t u : Task} (h : t = { u with members := t.members })
    (ids : List PartId) : { t with members := ids } = { u with members := ids } := by
  rw [h]

namespace Changes

theorem mem_pushNew {keys : List TaskKey} {k j : TaskKey} :
    j ∈ pushNew keys k ↔ j ∈ keys ∨ j = k := by
  unfold pushNew
  split
  · constructor
    · exact Or.inl
    · rintro (hj | rfl)
      · exact hj
      · assumption
  · simp

theorem nodup_pushNew {keys : List TaskKey} {k : TaskKey} (h : keys.Nodup) :
    (pushNew keys k).Nodup := by
  unfold pushNew
  split
  · exact h
  · rename_i hk
    simpa [List.nodup_append] using ⟨h, fun a ha he => hk (he ▸ ha)⟩

theorem shrink_added (c : Changes) (k : TaskKey) (b : Bool) : (c.shrink k b).added = c.added := by
  cases b <;> rfl

theorem mem_shrink_updated {c : Changes} {k j : TaskKey} {b : Bool} :
    j ∈ (c.shrink k b).updated ↔ j ∈ c.updated ∨ (b = false ∧ k = j) := by
  cases b
  · simp [shrink, mem_pushNew, eq_comm]
  · simp [shrink]

theorem mem_shrink_removed {c : Changes} {k j : TaskKey} {b : Bool} :
    j ∈ (c.shrink k b).removed ↔ j ∈ c.removed ∨ (b = true ∧ k = j) := by
  cases b
  · simp [shrink]
  · simp [shrink, mem_pushNew, eq_comm]

/-- No key is noted twice on one list. -/
structure Once (c : Changes) : Prop where
  added : c.added.Nodup
  updated : c.updated.Nodup
  removed : c.removed.Nodup

theorem once_none : Once none := ⟨List.nodup_nil, List.nodup_nil, List.nodup_nil⟩

theorem Once.add {c : Changes} (h : c.Once) (k : TaskKey) : (c.add k).Once :=
  ⟨nodup_pushNew h.added, h.updated, h.removed⟩

theorem Once.shrink {c : Changes} (h : c.Once) (k : TaskKey) (b : Bool) : (c.shrink k b).Once := by
  cases b
  · exact ⟨h.added, nodup_pushNew h.updated, h.removed⟩
  · exact ⟨h.added, h.updated, nodup_pushNew h.removed⟩

end Changes

namespace Merger

variable {scope : Scope} {ids : List PartId} {leaves : Task → Bool} {was now ts : List Task}
  {c : Changes}

/-! ### What is noted when parts leave -/

/-- The task loses somebody. -/
def Loses (ids : List PartId) (leaves : Task → Bool) (t : Task) : Prop :=
  leaves t = true ∧ t.concerns ids = true

theorem withdraw_of_not_loses {t : Task} (h : ¬ Loses ids leaves t) :
    withdraw ids leaves t = t := by
  unfold withdraw
  split
  · rename_i hl
    refine removeMembers_eq_self ?_
    rw [← Bool.not_eq_true]
    exact fun hc => h ⟨hl, hc⟩
  · rfl

theorem withdraw_of_loses {t : Task} (h : Loses ids leaves t) :
    withdraw ids leaves t = t.removeMembers ids := by
  simp [withdraw, h.1]

theorem detach_cons_of_loses {t : Task} (h : Loses ids leaves t) :
    (detach scope ids leaves (t :: ts) c).2 = (detach scope ids leaves ts
      (c.shrink (t.key scope) (t.removeMembers ids).members.isEmpty)).2 := by
  simp [detach, h.1, h.2]

theorem detach_cons_of_not_loses {t : Task} (h : ¬ Loses ids leaves t) :
    (detach scope ids leaves (t :: ts) c).2 = (detach scope ids leaves ts c).2 := by
  have hb : (leaves t && t.concerns ids) = false := by
    rw [← Bool.not_eq_true, Bool.and_eq_true]
    exact h
  simp [detach, hb]

theorem detach_added : (detach scope ids leaves ts c).2.added = c.added := by
  induction ts generalizing c with
  | nil => rfl
  | cons t ts ih =>
    by_cases h : Loses ids leaves t
    · rw [detach_cons_of_loses h, ih, Changes.shrink_added]
    · rw [detach_cons_of_not_loses h, ih]

theorem once_detach (h : c.Once) : (detach scope ids leaves ts c).2.Once := by
  induction ts generalizing c with
  | nil => exact h
  | cons t ts ih =>
    by_cases hl : Loses ids leaves t
    · rw [detach_cons_of_loses hl]
      exact ih (h.shrink _ _)
    · rw [detach_cons_of_not_loses hl]
      exact ih h

theorem mem_detach_updated {k : TaskKey} : k ∈ (detach scope ids leaves ts c).2.updated ↔
    k ∈ c.updated ∨ ∃ t ∈ ts, Loses ids leaves t ∧ (t.removeMembers ids).members ≠ [] ∧
      t.key scope = k := by
  induction ts generalizing c with
  | nil => simp [detach]
  | cons t ts ih =>
    simp only [List.mem_cons, exists_eq_or_imp]
    by_cases h : Loses ids leaves t
    · rw [detach_cons_of_loses h, ih, Changes.mem_shrink_updated, List.isEmpty_eq_false_iff,
        or_assoc]
      simp only [h, true_and]
    · rw [detach_cons_of_not_loses h, ih]
      simp [h]

theorem mem_detach_removed {k : TaskKey} : k ∈ (detach scope ids leaves ts c).2.removed ↔
    k ∈ c.removed ∨ ∃ t ∈ ts, Loses ids leaves t ∧ (t.removeMembers ids).members = [] ∧
      t.key scope = k := by
  induction ts generalizing c with
  | nil => simp [detach]
  | cons t ts ih =>
    simp only [List.mem_cons, exists_eq_or_imp]
    by_cases h : Loses ids leaves t
    · rw [detach_cons_of_loses h, ih, Changes.mem_shrink_removed, List.isEmpty_iff, or_assoc]
      simp only [h, true_and]
    · rw [detach_cons_of_not_loses h, ih]
      simp [h]

/-! ### What is noted over a call -/

/-- The notes account for all that happened to the tasks `was` up to `now`: a task that was not
added is an old one, with fewer members only where that is noted, and an old task that is gone is
noted as removed. -/
structure Tracks (scope : Scope) (was now : List Task) (c : Changes) : Prop where
  once : c.Once
  kept : ∀ t ∈ now, t.key scope ∉ c.added → ∃ t₀ ∈ was,
    t = { t₀ with members := t.members } ∧ t.members ⊆ t₀.members ∧
      (t.key scope ∉ c.updated → t = t₀)
  lost : ∀ t₀ ∈ was, t₀.key scope ∈ c.removed ∨ ∃ t ∈ now, t.mergeKey = t₀.mergeKey

theorem tracks_refl (scope : Scope) (ts : List Task) : Tracks scope ts ts .none :=
  ⟨Changes.once_none, fun t ht _ => ⟨t, ht, rfl, List.Subset.refl _, fun _ => rfl⟩,
    fun t ht => Or.inr ⟨t, ht, rfl⟩⟩

theorem withdraw_eq_with (t : Task) :
    withdraw ids leaves t = { t with members := (withdraw ids leaves t).members } := by
  unfold withdraw
  split <;> rfl

theorem Tracks.part (h : Tracks scope was ts c) (hi : ∀ t ∈ ts, t.members ≠ []) :
    Tracks scope was (part ids leaves ts) (detach scope ids leaves ts c).2 := by
  refine ⟨once_detach h.once, ?_, ?_⟩
  · intro u hu ha
    obtain ⟨hne, t, ht, rfl⟩ := mem_part.mp hu
    have hkey := Task.key_eq_of_mergeKey (mergeKey_withdraw ids leaves t) scope
    rw [detach_added, hkey] at ha
    obtain ⟨t₀, ht₀, heq, hsub, hsame⟩ := h.kept t ht ha
    refine ⟨t₀, ht₀, ?_, fun p hp => hsub (mem_withdraw.mp hp).1, ?_⟩
    · exact (withdraw_eq_with t).trans (Task.with_members heq _)
    · intro hn
      rw [hkey, mem_detach_updated, not_or] at hn
      have hl : ¬ Loses ids leaves t := fun hl =>
        hn.2 ⟨t, ht, hl, withdraw_of_loses hl ▸ hne, rfl⟩
      rw [withdraw_of_not_loses hl]
      exact hsame hn.1
  · intro t₀ ht₀
    rw [mem_detach_removed]
    rcases h.lost t₀ ht₀ with hr | ⟨t, ht, hk⟩
    · exact Or.inl (Or.inl hr)
    · by_cases he : (withdraw ids leaves t).members = []
      · have hl : Loses ids leaves t := by
          by_contra hl
          rw [withdraw_of_not_loses hl] at he
          exact hi t ht he
        exact Or.inl (Or.inr ⟨t, ht, hl, withdraw_of_loses hl ▸ he,
          Task.key_eq_of_mergeKey hk scope⟩)
      · exact Or.inr ⟨_, mem_part.mpr ⟨he, t, ht, rfl⟩, (mergeKey_withdraw _ _ t).trans hk⟩

theorem Tracks.join (h : Tracks scope was ts c) (hk : (ts.map Task.mergeKey).Nodup) (task : Task) :
    Tracks scope was (join task ts) (c.add (task.key scope)) := by
  refine ⟨h.once.add _, ?_, ?_⟩
  · intro u hu ha
    simp only [Changes.add, Changes.mem_pushNew, not_or] at ha
    -- a task with the merge key of the new one would be noted as added
    have hne : u.mergeKey ≠ task.mergeKey := fun he => ha.2 (Task.key_eq_of_mergeKey he scope)
    rcases (mem_join hk).mp hu with ⟨hu, _⟩ | ⟨t, _, he, rfl⟩ | ⟨_, rfl⟩
    · exact h.kept u hu ha.1
    · exact absurd he hne
    · exact absurd rfl hne
  · intro t₀ ht₀
    rcases h.lost t₀ ht₀ with hr | ⟨t, ht, he⟩
    · exact Or.inl hr
    · refine Or.inr ?_
      have hm : t.mergeKey ∈ (Merger.join task ts).map Task.mergeKey := by
        rw [map_mergeKey_join]
        split
        · exact List.mem_map_of_mem ht
        · exact List.mem_append_left _ (List.mem_map_of_mem ht)
      obtain ⟨u, hu, hku⟩ := List.mem_map.mp hm
      exact ⟨u, hu, hku.trans he⟩

theorem mergeTask_snd (scope : Scope) (task : Task) (ts : List Task) (c : Changes) :
    (mergeTask scope task ts c).2 = (detach scope task.members
      (fun t => t.mergeKey ≠ task.mergeKey) ts c).2.add (task.key scope) := rfl

theorem Tracks.mergeTask (h : Tracks scope was ts c) (hs : Sound ts) (task : Task) :
    Tracks scope was (mergeTask scope task ts c).1 (mergeTask scope task ts c).2 := by
  rw [mergeTask_fst, mergeTask_snd]
  exact (h.part hs.inhabited).join (hs.part _ _).keys task

theorem submitted_cons (set : TaskSet) (sets : List TaskSet) (extra : List String) :
    (MergerCall.merge (set :: sets) extra).submitted scope =
      withExtra extra (set.get scope) :: (MergerCall.merge sets extra).submitted scope := rfl

theorem Tracks.mergeAll {extra : List String} {sets : List TaskSet} (h : Tracks scope was ts c)
    (hs : Sound ts)
    (hw : ∀ t ∈ (MergerCall.merge sets extra).submitted scope, t.members ≠ [] ∧ t.members.Nodup) :
    Tracks scope was (mergeAll scope extra sets ts c).1 (mergeAll scope extra sets ts c).2 := by
  induction sets generalizing ts c with
  | nil => exact h
  | cons set sets ih =>
    rw [submitted_cons, List.forall_mem_cons] at hw
    exact ih (h.mergeTask hs _) (hs.mergeTask scope c hw.1.1 hw.1.2) hw.2

theorem tracks_callScope {call : MergerCall} (hs : Sound ts) (hw : call.WellFormed) :
    Tracks scope ts (callScope scope ts call).1 (callScope scope ts call).2 := by
  cases call with
  | merge sets extra => exact (tracks_refl scope ts).mergeAll hs (hw scope)
  | remove ids =>
    simp only [callScope, detach_fst]
    exact (tracks_refl scope ts).part hs.inhabited

theorem mem_added_mergeAll {extra : List String} {sets : List TaskSet} {k : TaskKey} :
    k ∈ (mergeAll scope extra sets ts c).2.added ↔ k ∈ c.added ∨
      ∃ t ∈ (MergerCall.merge sets extra).submitted scope, t.key scope = k := by
  induction sets generalizing ts c with
  | nil => simp [mergeAll, MergerCall.submitted]
  | cons set sets ih =>
    simp only [mergeAll, ih, mergeTask_snd, Changes.add, detach_added, Changes.mem_pushNew,
      submitted_cons, List.mem_cons, exists_eq_or_imp, or_assoc, eq_comm]

/-- The keys noted as added are those handed in. -/
theorem mem_added_callScope {call : MergerCall} {k : TaskKey} :
    k ∈ (callScope scope ts call).2.added ↔ ∃ t ∈ call.submitted scope, t.key scope = k := by
  cases call with
  | merge sets extra => simp [callScope, mem_added_mergeAll, Changes.none]
  | remove ids => simp [callScope, detach_added, Changes.none, MergerCall.submitted]

/-! ### What is told -/

theorem lookup_keyed (scope : Scope) (ts : List Task) (k : TaskKey) :
    (keyed scope ts).lookup k = ts.find? (·.key scope = k) := by
  induction ts with
  | nil => rfl
  | cons t ts ih =>
    by_cases h : t.key scope = k
    · simp [keyed, h]
    · have hne : (k == t.key scope) = false := beq_eq_false_iff_ne.mpr (Ne.symm h)
      simpa [keyed, List.lookup_cons, h, hne] using ih

/-- The keys that are told to be gone. -/
def retracted (scope : Scope) (now : List Task) (c : Changes) : List TaskKey :=
  c.removed.filter fun k => ((keyed scope now).lookup k).isNone

/-- The tasks that are told to have fewer members. -/
def resized (scope : Scope) (now : List Task) (c : Changes) : List Task :=
  (c.updated.filter (· ∉ c.added)).filterMap ((keyed scope now).lookup ·)

/-- The tasks that are told to be built. -/
def renewed (scope : Scope) (now : List Task) (c : Changes) : List Task :=
  c.added.filterMap ((keyed scope now).lookup ·)

/-- Whoever makes nothing of empty dispatches can take the three as given. -/
theorem foldl_flush (g : β → Dispatch → β) (b : β) (h : ∀ b, g b (.remove scope []) = b ∧
      g b (.update scope []) = b ∧ g b (.add scope []) = b) :
    (flush scope now c).foldl g b = g (g (g b (.remove scope (retracted scope now c)))
      (.update scope (resized scope now c))) (.add scope (renewed scope now c)) := by
  have hr : ∀ (b : β) (ks : List TaskKey),
      (if ks.isEmpty then [] else [Dispatch.remove scope ks]).foldl g b =
        g b (.remove scope ks) := by
    intro b ks
    cases ks
    · exact (h b).1.symm
    · rfl
  have hu : ∀ (b : β) (us : List Task),
      (if us.isEmpty then [] else [Dispatch.update scope us]).foldl g b =
        g b (.update scope us) := by
    intro b us
    cases us
    · exact (h b).2.1.symm
    · rfl
  have ha : ∀ (b : β) (us : List Task),
      (if us.isEmpty then [] else [Dispatch.add scope us]).foldl g b =
        g b (.add scope us) := by
    intro b us
    cases us
    · exact (h b).2.2.symm
    · rfl
  rw [flush, List.foldl_append, List.foldl_append, hr, hu, ha]
  rfl

theorem flatMap_flush (f : Dispatch → List β) (h : f (.remove scope []) = [] ∧
      f (.update scope []) = [] ∧ f (.add scope []) = []) :
    (flush scope now c).flatMap f = f (.remove scope (retracted scope now c)) ++
      f (.update scope (resized scope now c)) ++ f (.add scope (renewed scope now c)) := by
  have hf : (flush scope now c).foldl (fun out d => out ++ f d) [] = _ :=
    foldl_flush (fun out d => out ++ f d) [] (by simp [h])
  simpa [List.flatMap_eq_foldl] using hf

/-- Equal keys mean equal merge keys. -/
def KeysApart (scope : Scope) (ts : List Task) : Prop :=
  ∀ t ∈ ts, ∀ u ∈ ts, t.key scope = u.key scope → t.mergeKey = u.mergeKey

/-- One call on the tasks of one scope. -/
structure Turn (scope : Scope) (was now : List Task) (c : Changes) : Prop where
  before : Sound was
  after : Sound now
  tracks : Tracks scope was now c
  apart : KeysApart scope (was ++ now)

theorem Turn.eq_now (h : Turn scope was now c) {t u : Task} (ht : t ∈ now) (hu : u ∈ now)
    (hk : t.key scope = u.key scope) : t = u :=
  eq_of_mergeKey h.after.keys ht hu
    (h.apart t (List.mem_append_right _ ht) u (List.mem_append_right _ hu) hk)

theorem Turn.eq_was (h : Turn scope was now c) {t u : Task} (ht : t ∈ was) (hu : u ∈ was)
    (hk : t.key scope = u.key scope) : t = u :=
  eq_of_mergeKey h.before.keys ht hu
    (h.apart t (List.mem_append_left _ ht) u (List.mem_append_left _ hu) hk)

theorem Turn.lookup (h : Turn scope was now c) {t : Task} {k : TaskKey} :
    (keyed scope now).lookup k = some t ↔ t ∈ now ∧ t.key scope = k := by
  rw [lookup_keyed]
  constructor
  · intro hf
    exact ⟨List.mem_of_find?_eq_some hf, by simpa using List.find?_some hf⟩
  · rintro ⟨ht, rfl⟩
    cases hf : now.find? (·.key scope = t.key scope) with
    | none => simpa using List.find?_eq_none.mp hf t ht
    | some u =>
      have hu : u.key scope = t.key scope := by simpa using List.find?_some hf
      rw [h.eq_now (List.mem_of_find?_eq_some hf) ht hu]

/-- One submitted task is found again among tasks under different keys. -/
theorem flush_one {s : Scope} {ts : List Task} {t : Task} (ht : t ∈ ts)
    (hkeys : (ts.map (·.key s)).Nodup) : flush s ts ⟨[t.key s], [], []⟩ = [.add s [t]] := by
  have hfind : (keyed s ts).lookup (t.key s) = some t := by
    rw [lookup_keyed]
    cases hfound : ts.find? (·.key s = t.key s) with
    | none => exact absurd (List.find?_eq_none.mp hfound t ht) (by simp)
    | some u =>
      have hu : u.key s = t.key s := by simpa using List.find?_some hfound
      rw [List.inj_on_of_nodup_map hkeys (List.mem_of_find?_eq_some hfound) ht hu]
  simp [flush, hfind]

theorem mem_retracted {k : TaskKey} : k ∈ retracted scope now c ↔
    k ∈ c.removed ∧ ∀ t ∈ now, t.key scope ≠ k := by
  simp [retracted, lookup_keyed]

theorem Turn.mem_resized (h : Turn scope was now c) {t : Task} : t ∈ resized scope now c ↔
    t ∈ now ∧ t.key scope ∈ c.updated ∧ t.key scope ∉ c.added := by
  simp only [resized, List.mem_filterMap, List.mem_filter, decide_eq_true_eq, h.lookup]
  constructor
  · rintro ⟨k, hk, ht, rfl⟩; exact ⟨ht, hk⟩
  · rintro ⟨ht, hk⟩; exact ⟨_, hk, ht, rfl⟩

theorem Turn.mem_renewed (h : Turn scope was now c) {t : Task} : t ∈ renewed scope now c ↔
    t ∈ now ∧ t.key scope ∈ c.added := by
  simp only [renewed, List.mem_filterMap, h.lookup]
  constructor
  · rintro ⟨k, hk, ht, rfl⟩; exact ⟨ht, hk⟩
  · rintro ⟨ht, hk⟩; exact ⟨_, hk, ht, rfl⟩

/-- What is renewed is not told to be resized. -/
theorem Turn.not_resized (h : Turn scope was now c) {k : TaskKey} (hk : k ∈ c.added) :
    k ∉ (resized scope now c).map (·.key scope) := by
  intro hm
  obtain ⟨t, ht, rfl⟩ := List.mem_map.mp hm
  exact (h.mem_resized.mp ht).2.2 hk

/-- Tasks looked up under different keys have different keys. -/
theorem Turn.nodup_lookup (h : Turn scope was now c) {ks : List TaskKey} (hk : ks.Nodup) :
    ((ks.filterMap ((keyed scope now).lookup ·)).map (·.key scope)).Nodup := by
  rw [List.map_filterMap]
  refine hk.filterMap fun k j t ht hj => ?_
  obtain ⟨u, hu, rfl⟩ := Option.map_eq_some_iff.mp ht
  obtain ⟨v, hv, he⟩ := Option.map_eq_some_iff.mp hj
  rw [← (h.lookup.mp hu).2, ← (h.lookup.mp hv).2, he]

theorem Turn.nodup_resized (h : Turn scope was now c) :
    ((resized scope now c).map (·.key scope)).Nodup :=
  h.nodup_lookup (h.tracks.once.updated.filter _)

theorem Turn.nodup_renewed (h : Turn scope was now c) :
    ((renewed scope now c).map (·.key scope)).Nodup := h.nodup_lookup h.tracks.once.added

theorem Turn.nodup_told (h : Turn scope was now c) : (retracted scope now c ++
    (resized scope now c).map (·.key scope) ++ (renewed scope now c).map (·.key scope)).Nodup := by
  refine List.nodup_append.mpr ⟨List.nodup_append.mpr ⟨h.tracks.once.removed.filter _,
    h.nodup_resized, ?_⟩, h.nodup_renewed, ?_⟩
  · rintro k hk _ hj rfl
    obtain ⟨t, ht, rfl⟩ := List.mem_map.mp hj
    exact (mem_retracted.mp hk).2 t (h.mem_resized.mp ht).1 rfl
  · rintro k hk _ hj rfl
    obtain ⟨t, ht, rfl⟩ := List.mem_map.mp hj
    obtain ⟨hnow, hadd⟩ := h.mem_renewed.mp ht
    rcases List.mem_append.mp hk with hk | hk
    · exact (mem_retracted.mp hk).2 t hnow rfl
    · exact h.not_resized hadd hk

/-- What a task is after a call: renewed, or an old one, with fewer members and told so or just as
it was. -/
theorem Turn.cases (h : Turn scope was now c) {t : Task} (ht : t ∈ now) :
    (t.key scope ∈ c.added ∧ t ∈ renewed scope now c) ∨
    (t.key scope ∉ c.added ∧ ∃ t₀ ∈ was, t = { t₀ with members := t.members } ∧
      t.members ⊆ t₀.members ∧ (t ∈ resized scope now c ∨
        (t.key scope ∉ (resized scope now c).map (·.key scope) ∧ t = t₀))) := by
  by_cases ha : t.key scope ∈ c.added
  · exact Or.inl ⟨ha, h.mem_renewed.mpr ⟨ht, ha⟩⟩
  · obtain ⟨t₀, ht₀, heq, hsub, hsame⟩ := h.tracks.kept t ht ha
    refine Or.inr ⟨ha, t₀, ht₀, heq, hsub, ?_⟩
    by_cases hu : t.key scope ∈ c.updated
    · exact Or.inl (h.mem_resized.mpr ⟨ht, hu, ha⟩)
    · refine Or.inr ⟨fun hm => ?_, hsame hu⟩
      obtain ⟨u, hu', he⟩ := List.mem_map.mp hm
      exact hu (he ▸ (h.mem_resized.mp hu').2.1)

/-- An old key is told to be gone exactly where it is gone. -/
theorem Turn.retracted_iff (h : Turn scope was now c) {t₀ : Task} (ht₀ : t₀ ∈ was) :
    t₀.key scope ∈ retracted scope now c ↔ ∀ t ∈ now, t.key scope ≠ t₀.key scope := by
  rw [mem_retracted, and_iff_right_iff_imp]
  intro hgone
  rcases h.tracks.lost t₀ ht₀ with hr | ⟨t, ht, hk⟩
  · exact hr
  · exact absurd (Task.key_eq_of_mergeKey hk scope) (hgone t ht)

/-! ### Where removed keys come from -/

/-- A task whose merge key is not one of the `pool` has a member that was handed in already. -/
structure Anchored (scope : Scope) (done : List PartId) (pool now : List Task) (c : Changes) :
    Prop where
  anchor : ∀ t ∈ now, (∃ p ∈ t.members, p ∈ done) ∨ ∃ u ∈ pool, u.mergeKey = t.mergeKey
  removed : ∀ k ∈ c.removed, ∃ u ∈ pool, u.key scope = k

variable {done : List PartId} {pool : List Task}

theorem anchored_of_subset (scope : Scope) (h : ts ⊆ pool) : Anchored scope [] pool ts .none :=
  ⟨fun t ht => Or.inr ⟨t, h ht, rfl⟩, fun _ hk => absurd hk List.not_mem_nil⟩

theorem Anchored.grow (h : Anchored scope done pool ts c) (ids : List PartId) :
    Anchored scope (done ++ ids) pool ts c := by
  refine ⟨fun t ht => (h.anchor t ht).imp_left ?_, h.removed⟩
  rintro ⟨p, hp, hd⟩
  exact ⟨p, hp, List.mem_append_left _ hd⟩

/-- Members handed in already stay, so that only tasks of the pool run empty. -/
theorem Anchored.part (h : Anchored scope done pool ts c) (hd : ∀ p ∈ ids, p ∉ done) :
    Anchored scope done pool (part ids leaves ts) (detach scope ids leaves ts c).2 := by
  constructor
  · intro u hu
    obtain ⟨_, t, ht, rfl⟩ := mem_part.mp hu
    rw [mergeKey_withdraw]
    refine (h.anchor t ht).imp_left ?_
    rintro ⟨p, hp, hpd⟩
    exact ⟨p, mem_withdraw.mpr ⟨hp, fun hl => hd p hl.2 hpd⟩, hpd⟩
  · intro k hk
    rcases mem_detach_removed.mp hk with hk | ⟨t, ht, _, he, rfl⟩
    · exact h.removed k hk
    · rcases h.anchor t ht with ⟨p, hp, hpd⟩ | ⟨u, hu, hm⟩
      · have hmem : p ∈ (t.removeMembers ids).members := by
          simpa [Task.removeMembers] using ⟨hp, fun hi => hd p hi hpd⟩
        rw [he] at hmem
        exact absurd hmem List.not_mem_nil
      · exact ⟨u, hu, Task.key_eq_of_mergeKey hm scope⟩

theorem Anchored.join (h : Anchored scope done pool ts c) (hk : (ts.map Task.mergeKey).Nodup)
    {task : Task}
    (ha : (∃ p ∈ task.members, p ∈ done) ∨ ∃ u ∈ pool, u.mergeKey = task.mergeKey) :
    Anchored scope done pool (join task ts) (c.add (task.key scope)) := by
  refine ⟨fun u hu => ?_, h.removed⟩
  rcases (mem_join hk).mp hu with ⟨hu, _⟩ | ⟨t, ht, _, rfl⟩ | ⟨_, rfl⟩
  · exact h.anchor u hu
  · refine (h.anchor t ht).imp_left ?_
    rintro ⟨p, hp, hpd⟩
    exact ⟨p, mem_absorb.mpr (Or.inl hp), hpd⟩
  · exact ha

theorem Anchored.mergeTask (h : Anchored scope done pool ts c) (hs : Sound ts) {task : Task}
    (more : List PartId) (hd : ∀ p ∈ task.members, p ∉ done)
    (ha : (∃ p ∈ task.members, p ∈ done ++ more) ∨ ∃ u ∈ pool, u.mergeKey = task.mergeKey) :
    Anchored scope (done ++ more) pool (mergeTask scope task ts c).1
      (mergeTask scope task ts c).2 := by
  rw [mergeTask_fst, mergeTask_snd]
  exact ((h.part hd).grow more).join (hs.part _ _).keys ha

theorem Anchored.mergeAll_of_nodup {extra : List String} {sets : List TaskSet}
    (h : Anchored scope done pool ts c) (hs : Sound ts)
    (hw : ∀ t ∈ (MergerCall.merge sets extra).submitted scope, t.members ≠ [] ∧ t.members.Nodup)
    (hd : (done ++ ((MergerCall.merge sets extra).submitted scope).flatMap Task.members).Nodup) :
    ∀ k ∈ (mergeAll scope extra sets ts c).2.removed, ∃ u ∈ pool, u.key scope = k := by
  induction sets generalizing ts c done with
  | nil => exact h.removed
  | cons set sets ih =>
    rw [submitted_cons, List.forall_mem_cons] at hw
    rw [submitted_cons, List.flatMap_cons, ← List.append_assoc] at hd
    have hfresh : ∀ p ∈ (withExtra extra (set.get scope)).members, p ∉ done := fun p hp hpd =>
      (List.nodup_append.mp (List.nodup_append.mp hd).1).2.2 p hpd p hp rfl
    obtain ⟨q, hq⟩ := List.exists_mem_of_ne_nil _ hw.1.1
    exact ih (h.mergeTask hs _ hfresh (Or.inl ⟨q, hq, List.mem_append_right _ hq⟩))
      (hs.mergeTask scope c hw.1.1 hw.1.2) hw.2 hd

theorem Anchored.mergeAll_of_pool {extra : List String} {sets : List TaskSet}
    (h : Anchored scope [] pool ts c) (hs : Sound ts)
    (hw : ∀ t ∈ (MergerCall.merge sets extra).submitted scope, t.members ≠ [] ∧ t.members.Nodup)
    (hp : (MergerCall.merge sets extra).submitted scope ⊆ pool) :
    ∀ k ∈ (mergeAll scope extra sets ts c).2.removed, ∃ u ∈ pool, u.key scope = k := by
  induction sets generalizing ts c with
  | nil => exact h.removed
  | cons set sets ih =>
    rw [submitted_cons, List.forall_mem_cons] at hw
    rw [submitted_cons, List.cons_subset] at hp
    exact ih (h.mergeTask hs [] (fun _ _ => List.not_mem_nil) (Or.inr ⟨_, hp.1, rfl⟩))
      (hs.mergeTask scope c hw.1.1 hw.1.2) hw.2 hp.2

/-- A removed key was merged before the call or is handed in by it. -/
theorem removed_callScope {call : MergerCall} (hs : Sound ts) (hw : call.WellFormed) :
    ∀ k ∈ (callScope scope ts call).2.removed,
      ∃ u ∈ ts ++ call.submitted scope, u.key scope = k := by
  have ha := anchored_of_subset scope (List.subset_append_left ts (call.submitted scope))
  cases call with
  | merge sets extra =>
    exact ha.mergeAll_of_pool hs (hw scope) (List.subset_append_right _ _)
  | remove ids => exact (ha.part fun _ _ => List.not_mem_nil).removed

/-- Where no part is handed in twice, nothing that a call begins is emptied by it. -/
theorem removed_callScope_of_separate {call : MergerCall} (hs : Sound ts) (hw : call.WellFormed)
    (hd : call.Separate) :
    ∀ k ∈ (callScope scope ts call).2.removed, ∃ t₀ ∈ ts, t₀.key scope = k := by
  have ha := anchored_of_subset scope (List.Subset.refl ts)
  cases call with
  | merge sets extra => exact ha.mergeAll_of_nodup hs (hw scope) (by simpa using hd scope)
  | remove ids => exact (ha.part fun _ _ => List.not_mem_nil).removed

end Merger

/-! ### Calls after calls -/

/-- The texts of all keys a call names. -/
def MergerCall.keyTexts (c : MergerCall) : List String :=
  Scope.all.flatMap fun scope => (c.submitted scope).map fun t => Task.keyText scope t.mergeKey

/-- Calls as they come from outside, and no two of their keys collide. -/
structure Admissible (calls : List MergerCall) : Prop where
  wellFormed : ∀ c ∈ calls, c.WellFormed
  keys : CollisionFree (calls.flatMap MergerCall.keyTexts)

theorem Admissible.left {calls others : List MergerCall} (h : Admissible (calls ++ others)) :
    Admissible calls := by
  refine ⟨fun c hc => h.wellFormed c (List.mem_append_left _ hc), h.keys.mono ?_⟩
  rw [List.flatMap_append]
  exact List.subset_append_left _ _

/-- A task that would be merged with this one was handed in. -/
def Names (calls : List MergerCall) (scope : Scope) (t : Task) : Prop :=
  ∃ c ∈ calls, ∃ u ∈ c.submitted scope, u.mergeKey = t.mergeKey

theorem Names.mono {calls others : List MergerCall} {scope : Scope} {t : Task}
    (h : Names calls scope t) (hs : calls ⊆ others) : Names others scope t := by
  obtain ⟨c, hc, u, hu, hk⟩ := h
  exact ⟨c, hs hc, u, hu, hk⟩

theorem Names.keyText {calls : List MergerCall} {scope : Scope} {t : Task}
    (h : Names calls scope t) :
    Task.keyText scope t.mergeKey ∈ calls.flatMap MergerCall.keyTexts := by
  obtain ⟨c, hc, u, hu, hk⟩ := h
  refine List.mem_flatMap.mpr ⟨c, hc, List.mem_flatMap.mpr ⟨scope, by cases scope <;> decide, ?_⟩⟩
  rw [← hk]
  exact List.mem_map_of_mem hu

theorem Admissible.key_inj {calls : List MergerCall} (h : Admissible calls) {s s' : Scope}
    {t u : Task} (ht : Names calls s t) (hu : Names calls s' u) (hk : t.key s = u.key s') :
    s = s' ∧ t.mergeKey = u.mergeKey :=
  h.keys.key_inj ht.keyText hu.keyText hk

namespace Merger

variable {scope : Scope} {calls : List MergerCall} {c : MergerCall}

theorem names_of_after (h : ∀ c ∈ calls, c.WellFormed) {t : Task}
    (ht : t ∈ (after calls).get scope) : Names calls scope t := by
  have hr := reflects_after calls h scope
  obtain ⟨p, hp⟩ := List.exists_mem_of_ne_nil _ (hr.sound.inhabited t ht)
  obtain ⟨u, hu, hk, _⟩ := hr.owner ht hp
  obtain ⟨c, hc, hs, _⟩ := latest_submitted hu
  exact ⟨c, hc, u, hs, hk.symm⟩

/-- What the next call notes. -/
def notes (calls : List MergerCall) (c : MergerCall) (scope : Scope) : Changes :=
  (callScope scope ((after calls).get scope) c).2

theorem turn (h : Admissible (calls ++ [c])) (scope : Scope) :
    Turn scope ((after calls).get scope) ((after (calls ++ [c])).get scope)
      (notes calls c scope) := by
  have hw := h.left.wellFormed
  have hs := sound_after calls hw scope
  refine ⟨hs, sound_after _ h.wellFormed scope, ?_, ?_⟩
  · rw [after_append, call_get]
    exact tracks_callScope hs (h.wellFormed c (by simp))
  · have hnames : ∀ t ∈ (after calls).get scope ++ (after (calls ++ [c])).get scope,
        Names (calls ++ [c]) scope t := by
      intro t ht
      rcases List.mem_append.mp ht with ht | ht
      · exact (names_of_after hw ht).mono (List.subset_append_left _ _)
      · exact names_of_after h.wellFormed ht
    intro t ht u hu hk
    exact (h.key_inj (hnames t ht) (hnames u hu) hk).2

/-- A call tells what it noted, scope by scope. -/
theorem call_told (calls : List MergerCall) (c : MergerCall) :
    ((after calls).call c).2 = Scope.all.flatMap fun scope =>
      flush scope ((after (calls ++ [c])).get scope) (notes calls c scope) := by
  simp only [call_dispatches, after_append, call_get, notes]

/-- Whoever ignores the dispatches for the other scope, both before those of `scope` and after
them, can take those of `scope` for the whole call. -/
theorem foldl_call (calls : List MergerCall) (c : MergerCall) (scope : Scope)
    (g : β → Dispatch → β) (b : β)
    (hother : ∀ s, s ≠ scope → ∀ a, a = b ∨ a = (flush scope ((after (calls ++ [c])).get scope)
      (notes calls c scope)).foldl g b →
        (flush s ((after (calls ++ [c])).get s) (notes calls c s)).foldl g a = a) :
    ((after calls).call c).2.foldl g b =
      (flush scope ((after (calls ++ [c])).get scope) (notes calls c scope)).foldl g b := by
  rw [call_told, Scope.all, List.flatMap_cons, List.flatMap_cons, List.flatMap_nil,
    List.append_nil, List.foldl_append]
  cases scope with
  | system => exact hother .project (by decide) _ (Or.inr rfl)
  | project => rw [hother .system (by decide) b (Or.inl rfl)]

end Merger
end PrecompiledHeaders
