import PrecompiledHeaders.Queue
import PrecompiledHeaders.Proofs.Merger.Replay
/-! What dispatches do to the queue, entry by entry. Pending entries change under dispatches for
their scope only. Running entries change one by one, whatever the scope of the dispatch, because
an instruction finds them by key alone. -/
namespace PrecompiledHeaders

/-- A running entry of this key takes over the members of the task. -/
def Running.resize (scope : Scope) (r : Running) (t : Task) : Running :=
  if r.key = t.key scope then { r with members := t.members } else r

/-- A running entry after a dispatch. -/
def Running.take (r : Running) : Dispatch → Running
  | .add _ _ => r
  | .update scope tasks => tasks.foldl (Running.resize scope) r
  | .remove _ keys => if r.key ∈ keys then { r with retracted := true } else r

namespace Queue

variable {scope : Scope}

/-- The pending entries of one scope after a dispatch. -/
def takePending (scope : Scope) (ps : List Pending) : Dispatch → List Pending
  | .add s tasks => if s = scope then tasks.foldl (addTask s) ps else ps
  | .update s tasks =>
    if s = scope then tasks.foldl (fun ps t => setPendingMembers (t.key s) t.members ps) ps else ps
  | .remove s keys => if s = scope then ps.filter (·.key ∉ keys) else ps

@[simp] theorem pending_addTotal (q : Queue) (n : Nat) : (q.addTotal n).pending = q.pending := by
  unfold addTotal
  split <;> rfl

@[simp] theorem running_addTotal (q : Queue) (n : Nat) : (q.addTotal n).running = q.running := by
  unfold addTotal
  split <;> rfl

@[simp] theorem pending_removeTotal (q : Queue) (n : Nat) :
    (q.removeTotal n).pending = q.pending := by
  unfold removeTotal
  split <;> rfl

@[simp] theorem running_removeTotal (q : Queue) (n : Nat) :
    (q.removeTotal n).running = q.running := by
  unfold removeTotal
  split <;> rfl

theorem pending_update (q : Queue) (s : Scope) (tasks : List Task) (scope : Scope) :
    (q.update s tasks).pending.get scope = if s = scope then
      tasks.foldl (fun ps t => setPendingMembers (t.key s) t.members ps) (q.pending.get scope)
      else q.pending.get scope := by
  induction tasks generalizing q with
  | nil => simp [update]
  | cons t ts ih =>
    rw [update, List.foldl_cons, ← update, ih]
    by_cases hs : s = scope
    · subst hs
      simp [updateTask]
    · simp [updateTask, PerScope.modify, PerScope.get_set_of_ne _ hs, hs]

theorem running_update (q : Queue) (scope : Scope) (tasks : List Task) :
    (q.update scope tasks).running =
      q.running.map fun r => tasks.foldl (Running.resize scope) r := by
  induction tasks generalizing q with
  | nil => simp [update]
  | cons t ts ih =>
    rw [update, List.foldl_cons, ← update, ih, updateTask, setRunningMembers, List.map_map]
    rfl

theorem pending_apply (q : Queue) (d : Dispatch) (scope : Scope) :
    (q.apply d).pending.get scope = takePending scope (q.pending.get scope) d := by
  cases d with
  | add s tasks =>
    by_cases hs : s = scope
    · subst hs
      simp [apply, add, takePending]
    · simp [apply, add, takePending, PerScope.get_set_of_ne _ hs, hs]
  | update s tasks => exact pending_update q s tasks scope
  | remove s keys =>
    by_cases hs : s = scope
    · subst hs
      simp [apply, remove, takePending]
    · simp [apply, remove, takePending, PerScope.get_set_of_ne _ hs, hs]

theorem running_apply (q : Queue) (d : Dispatch) :
    (q.apply d).running = q.running.map fun r => r.take d := by
  cases d with
  | add s tasks => simp [apply, add, Running.take]
  | update s tasks => exact running_update q s tasks
  | remove s keys => simp [apply, remove, retract, Running.take]

theorem pending_applyAll (q : Queue) (ds : List Dispatch) (scope : Scope) :
    (q.applyAll ds).pending.get scope = ds.foldl (takePending scope) (q.pending.get scope) := by
  induction ds generalizing q with
  | nil => rfl
  | cons d ds ih => rw [applyAll, List.foldl_cons, ← applyAll, ih, pending_apply, List.foldl_cons]

theorem running_applyAll (q : Queue) (ds : List Dispatch) :
    (q.applyAll ds).running = q.running.map fun r => ds.foldl Running.take r := by
  induction ds generalizing q with
  | nil => simp [applyAll]
  | cons d ds ih =>
    rw [applyAll, List.foldl_cons, ← applyAll, ih, running_apply, List.map_map]
    rfl

/-! ### Pending entries -/

variable {ps : List Pending} {held : Held}

/-- Every key is pending once, with the task a sink holds for it. -/
structure Agrees (ps : List Pending) (held : Held) : Prop where
  nodup : (ps.map (·.key)).Nodup
  held : ∀ e ∈ ps, held e.key = some e.task

theorem map_key_replaceTask (k : TaskKey) (task : Task) (ps : List Pending) :
    (replaceTask k task ps).map (·.key) = ps.map (·.key) := by
  induction ps with
  | nil => rfl
  | cons p ps ih =>
    by_cases h : p.key = k
    · simp [replaceTask, h]
    · simp [replaceTask, h, ih]

theorem mem_replaceTask {k : TaskKey} {task : Task} (hn : (ps.map (·.key)).Nodup) {e : Pending}
    (he : e ∈ replaceTask k task ps) : e = ⟨k, task⟩ ∨ (e ∈ ps ∧ e.key ≠ k) := by
  induction ps with
  | nil => exact absurd he List.not_mem_nil
  | cons p ps ih =>
    rw [List.map_cons, List.nodup_cons] at hn
    by_cases h : p.key = k
    · rw [replaceTask, if_pos h] at he
      rcases List.mem_cons.mp he with rfl | he
      · exact Or.inl (by rw [h])
      · exact Or.inr ⟨List.mem_cons_of_mem _ he, fun hk => hn.1 (h ▸ hk ▸ List.mem_map_of_mem he)⟩
    · rw [replaceTask, if_neg h] at he
      rcases List.mem_cons.mp he with rfl | he
      · exact Or.inr ⟨List.mem_cons_self, h⟩
      · exact (ih hn.2 he).imp_right fun hp => ⟨List.mem_cons_of_mem _ hp.1, hp.2⟩

theorem any_key_iff (ps : List Pending) (k : TaskKey) :
    ps.any (·.key = k) = true ↔ k ∈ ps.map (·.key) := by
  simp [List.any_eq_true]

theorem map_key_addTask (scope : Scope) (ps : List Pending) (t : Task) :
    (addTask scope ps t).map (·.key) = if t.key scope ∈ ps.map (·.key) then ps.map (·.key)
      else ps.map (·.key) ++ [t.key scope] := by
  rw [addTask]
  by_cases h : t.key scope ∈ ps.map (·.key)
  · rw [if_pos ((any_key_iff ps _).mpr h), if_pos h, map_key_replaceTask]
  · rw [if_neg fun ha => h ((any_key_iff ps _).mp ha), if_neg h, List.map_append]
    rfl

theorem Agrees.addTask (h : Agrees ps held) (t : Task) : Agrees (addTask scope ps t)
    (Function.update held (t.key scope) (some t)) := by
  constructor
  · rw [map_key_addTask]
    split
    · exact h.nodup
    · rename_i hk
      simpa [List.nodup_append] using ⟨h.nodup, fun e he hek => hk (hek ▸ List.mem_map_of_mem he)⟩
  · intro e he
    have hcases : e = ⟨t.key scope, t⟩ ∨ (e ∈ ps ∧ e.key ≠ t.key scope) := by
      rw [Queue.addTask] at he
      by_cases hk : t.key scope ∈ ps.map (·.key)
      · rw [if_pos ((any_key_iff ps _).mpr hk)] at he
        exact mem_replaceTask h.nodup he
      · rw [if_neg fun ha => hk ((any_key_iff ps _).mp ha)] at he
        rcases List.mem_append.mp he with he | he
        · exact Or.inr ⟨he, fun hek => hk (hek ▸ List.mem_map_of_mem he)⟩
        · exact Or.inl (List.mem_singleton.mp he)
    rcases hcases with rfl | ⟨he, hne⟩
    · exact Function.update_self _ _ _
    · rw [Function.update_of_ne hne, h.held e he]

theorem map_key_setPendingMembers (k : TaskKey) (members : List PartId) (ps : List Pending) :
    (setPendingMembers k members ps).map (·.key) = ps.map (·.key) := by
  rw [setPendingMembers, List.map_map]
  refine List.map_congr_left fun p _ => ?_
  rw [Function.comp_apply]
  split <;> rfl

theorem Agrees.setPendingMembers (h : Agrees ps held) (k : TaskKey) (members : List PartId) :
    Agrees (setPendingMembers k members ps)
      (Function.update held k ((held k).map fun u => { u with members := members })) := by
  constructor
  · rw [map_key_setPendingMembers]
    exact h.nodup
  · intro e he
    obtain ⟨p, hp, rfl⟩ := List.mem_map.mp he
    by_cases hk : p.key = k
    · rw [if_pos hk]
      simp only
      rw [hk, Function.update_self, ← hk, h.held p hp, Option.map_some]
    · rw [if_neg hk, Function.update_of_ne hk, h.held p hp]

/-- The queue follows a sink step by step. -/
theorem Agrees.take (h : Agrees ps held) (d : Dispatch) :
    Agrees (takePending scope ps d) (Held.take scope held d) := by
  cases d with
  | add s tasks =>
    rw [takePending, Held.take]
    split
    · induction tasks generalizing ps held with
      | nil => exact h
      | cons t ts ih =>
        rw [List.foldl_cons, Held.revise_cons]
        exact ih (h.addTask t)
    · exact h
  | update s tasks =>
    rw [takePending, Held.take]
    split
    · induction tasks generalizing ps held with
      | nil => exact h
      | cons t ts ih =>
        rw [List.foldl_cons, Held.revise_cons]
        exact ih (h.setPendingMembers (t.key s) t.members)
    · exact h
  | remove s keys =>
    rw [takePending, Held.take]
    split
    · refine ⟨h.nodup.sublist (List.filter_sublist.map _), fun e he => ?_⟩
      obtain ⟨he, hk⟩ := List.mem_filter.mp he
      rw [if_neg (by simpa using hk), h.held e he]
    · exact h

theorem Agrees.foldl_take (h : Agrees ps held) (ds : List Dispatch) :
    Agrees (ds.foldl (takePending scope) ps) (ds.foldl (Held.take scope) held) := by
  induction ds generalizing ps held with
  | nil => exact h
  | cons d ds ih => exact ih (h.take d)

/-! ### Pending keys over a call -/

open Merger (flush retracted resized renewed after notes foldl_call foldl_flush)

variable {now : List Task} {c : Changes}

theorem mem_keys_foldl_addTask {tasks : List Task} {k : TaskKey} :
    k ∈ (tasks.foldl (addTask scope) ps).map (·.key) ↔
      k ∈ ps.map (·.key) ∨ k ∈ tasks.map (·.key scope) := by
  induction tasks generalizing ps with
  | nil => simp
  | cons t ts ih =>
    rw [List.foldl_cons, ih, map_key_addTask, List.map_cons, List.mem_cons]
    split
    · rename_i ht
      constructor
      · rintro (hk | hk)
        · exact Or.inl hk
        · exact Or.inr (Or.inr hk)
      · rintro (hk | rfl | hk)
        · exact Or.inl hk
        · exact Or.inl ht
        · exact Or.inr hk
    · rw [List.mem_append, List.mem_singleton, or_assoc]

theorem map_key_foldl_setPendingMembers (scope : Scope) (tasks : List Task) (ps : List Pending) :
    (tasks.foldl (fun ps t => setPendingMembers (t.key scope) t.members ps) ps).map (·.key) =
      ps.map (·.key) := by
  induction tasks generalizing ps with
  | nil => rfl
  | cons t ts ih => rw [List.foldl_cons, ih, map_key_setPendingMembers]

theorem takePending_nil (s : Scope) (ps : List Pending) :
    takePending scope ps (.remove s []) = ps ∧ takePending scope ps (.update s []) = ps ∧
      takePending scope ps (.add s []) = ps := by
  simp [takePending]

/-- Pending keys are lost by retraction only, and renewed tasks are pending. -/
theorem mem_keys_flush {k : TaskKey} :
    k ∈ ((flush scope now c).foldl (takePending scope) ps).map (·.key) ↔
      (k ∈ ps.map (·.key) ∧ k ∉ retracted scope now c) ∨
        k ∈ (renewed scope now c).map (·.key scope) := by
  rw [foldl_flush (takePending scope) ps (takePending_nil scope)]
  simp only [takePending, if_true, mem_keys_foldl_addTask, map_key_foldl_setPendingMembers]
  refine or_congr_left ?_
  simp only [List.mem_map, List.mem_filter, decide_eq_true_eq]
  constructor
  · rintro ⟨e, ⟨he, hr⟩, rfl⟩; exact ⟨⟨e, he, rfl⟩, hr⟩
  · rintro ⟨⟨e, he, rfl⟩, hr⟩; exact ⟨e, ⟨he, hr⟩, rfl⟩

theorem foldl_takePending_call (calls : List MergerCall) (c : MergerCall) (scope : Scope)
    (ps : List Pending) : ((after calls).call c).2.foldl (takePending scope) ps =
      (flush scope ((after (calls ++ [c])).get scope) (notes calls c scope)).foldl
        (takePending scope) ps := by
  refine foldl_call calls c scope _ _ fun s hs others _ => ?_
  rw [foldl_flush (takePending scope) others (takePending_nil s)]
  simp [takePending, hs]

end Queue

/-! ### A running entry over a call -/

namespace Running

open Merger (flush resized after notes call_told foldl_call foldl_flush)

variable {scope : Scope} {r : Running} {was now : List Task} {c : Changes}

theorem foldl_resize_of_not_mem {tasks : List Task} (h : r.key ∉ tasks.map (·.key scope)) :
    tasks.foldl (resize scope) r = r := by
  induction tasks with
  | nil => rfl
  | cons t ts ih =>
    rw [List.map_cons, List.mem_cons, not_or] at h
    rw [List.foldl_cons, resize, if_neg h.1, ih h.2]

theorem foldl_resize_of_mem {tasks : List Task} (hn : (tasks.map (·.key scope)).Nodup) {t : Task}
    (ht : t ∈ tasks) (hk : r.key = t.key scope) :
    tasks.foldl (resize scope) r = { r with members := t.members } := by
  induction tasks with
  | nil => exact absurd ht List.not_mem_nil
  | cons u us ih =>
    rw [List.map_cons, List.nodup_cons] at hn
    rcases List.mem_cons.mp ht with rfl | ht
    · rw [List.foldl_cons, resize, if_pos hk]
      exact foldl_resize_of_not_mem (show r.key ∉ us.map (·.key scope) from hk ▸ hn.1)
    · have hne : r.key ≠ u.key scope := fun he => hn.1 (he ▸ hk ▸ List.mem_map_of_mem ht)
      rw [List.foldl_cons, resize, if_neg hne, ih hn.2 ht]

theorem foldl_resize (scope : Scope) (tasks : List Task) (r : Running) :
    ∃ members, tasks.foldl (resize scope) r = { r with members := members } := by
  induction tasks generalizing r with
  | nil => exact ⟨r.members, rfl⟩
  | cons t ts ih =>
    rw [List.foldl_cons, resize]
    split
    · obtain ⟨members, he⟩ := ih { r with members := t.members }
      exact ⟨members, he⟩
    · exact ih r

theorem take_nil (s : Scope) (r : Running) :
    r.take (.remove s []) = r ∧ r.take (.update s []) = r ∧ r.take (.add s []) = r := by
  simp [take]

theorem foldl_take_flush (r : Running) : (flush scope now c).foldl take r =
    (resized scope now c).foldl (resize scope)
      (if r.key ∈ Merger.retracted scope now c then { r with retracted := true } else r) := by
  rw [foldl_flush take r (take_nil scope), take, take]
  rfl

/-- A dispatch has no effect on an entry whose key it does not name. -/
theorem take_of_not_named {d : Dispatch} (h : r.key ∉ d.keys) : r.take d = r := by
  cases d with
  | add s tasks => rfl
  | update s tasks => exact foldl_resize_of_not_mem h
  | remove s keys => exact if_neg h

theorem foldl_take_of_not_named {ds : List Dispatch} (h : ∀ d ∈ ds, r.key ∉ d.keys) :
    ds.foldl take r = r := by
  induction ds with
  | nil => rfl
  | cons d ds ih =>
    rw [List.forall_mem_cons] at h
    rw [List.foldl_cons, take_of_not_named h.1, ih h.2]

/-- Dispatches leave the key, the scope and a retraction as they are. -/
theorem take_same (r : Running) (d : Dispatch) : (r.take d).key = r.key ∧
    (r.take d).scope = r.scope ∧ ((r.take d).retracted = false → r.retracted = false) := by
  cases d with
  | add s tasks => exact ⟨rfl, rfl, id⟩
  | update s tasks =>
    obtain ⟨members, he⟩ := foldl_resize s tasks r
    rw [take, he]
    exact ⟨rfl, rfl, id⟩
  | remove s keys =>
    rw [take]
    split
    · exact ⟨rfl, rfl, fun h => Bool.noConfusion h⟩
    · exact ⟨rfl, rfl, id⟩

theorem foldl_take_same (r : Running) (ds : List Dispatch) : (ds.foldl take r).key = r.key ∧
    (ds.foldl take r).scope = r.scope ∧
      ((ds.foldl take r).retracted = false → r.retracted = false) := by
  induction ds generalizing r with
  | nil => exact ⟨rfl, rfl, id⟩
  | cons d ds ih =>
    obtain ⟨hk, hs, hr⟩ := ih (r.take d)
    obtain ⟨hk', hs', hr'⟩ := r.take_same d
    exact ⟨hk.trans hk', hs.trans hs', fun h => hr' (hr h)⟩

/-- Instructions find running entries by key alone, but no key belongs to two scopes. -/
theorem foldl_take_call {calls : List MergerCall} {c : MergerCall} (h : Admissible (calls ++ [c]))
    {u : Task} (hu : Names (calls ++ [c]) r.scope u) (hk : u.key r.scope = r.key) :
    ((after calls).call c).2.foldl take r =
      (flush r.scope ((after (calls ++ [c])).get r.scope) (notes calls c r.scope)).foldl
        take r := by
  have hother : ∀ s, s ≠ r.scope → ∀ q : Running, q.key = r.key →
      (flush s ((after (calls ++ [c])).get s) (notes calls c s)).foldl take q = q := by
    intro s hs q hq
    refine foldl_take_of_not_named fun d hd hmem => hs ?_
    have htold : d ∈ ((after calls).call c).2 :=
      call_told calls c ▸ List.mem_flatMap.mpr ⟨s, by cases s <;> decide, hd⟩
    obtain ⟨t, ht, he⟩ := Merger.told_names h htold hmem
    have hscope : d.scope = s := by rcases Merger.mem_flush hd with rfl | rfl | rfl <;> rfl
    rw [← hscope]
    exact (h.key_inj ht hu (he.trans (hq.trans hk.symm))).1
  refine foldl_call calls c r.scope take r fun s hs q hq => hother s hs q ?_
  rcases hq with rfl | rfl
  · rfl
  · exact (foldl_take_same r _).1

/-- A running entry takes over the members its task has now. -/
theorem foldl_take_of_resized (h : Merger.Turn scope was now c) {t : Task}
    (ht : t ∈ resized scope now c) (hk : r.key = t.key scope) :
    (flush scope now c).foldl take r = { r with members := t.members } := by
  have hr : r.key ∉ Merger.retracted scope now c := fun hr =>
    (Merger.mem_retracted.mp hr).2 t (h.mem_resized.mp ht).1 hk.symm
  rw [foldl_take_flush, if_neg hr, foldl_resize_of_mem h.nodup_resized ht hk]

/-- A running entry is as it was if its task is merged still and not resized. -/
theorem foldl_take_of_not_resized {t : Task} (ht : t ∈ now) (hk : r.key = t.key scope)
    (hres : t.key scope ∉ (resized scope now c).map (·.key scope)) :
    (flush scope now c).foldl take r = r := by
  have hr : r.key ∉ Merger.retracted scope now c := fun hr =>
    (Merger.mem_retracted.mp hr).2 t ht hk.symm
  rw [foldl_take_flush, if_neg hr, foldl_resize_of_not_mem (hk ▸ hres)]

/-- A running entry whose task is gone is retracted. -/
theorem foldl_take_of_gone (h : Merger.Turn scope was now c) {t₀ : Task} (ht₀ : t₀ ∈ was)
    (hk : r.key = t₀.key scope) (hgone : ∀ t ∈ now, t.key scope ≠ t₀.key scope) :
    ((flush scope now c).foldl take r).retracted = true := by
  rw [foldl_take_flush, if_pos (hk ▸ (h.retracted_iff ht₀).mpr hgone)]
  obtain ⟨members, he⟩ := foldl_resize scope (resized scope now c)
    { r with retracted := true }
  rw [he]

end Running
end PrecompiledHeaders
