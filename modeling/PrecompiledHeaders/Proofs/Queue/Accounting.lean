import PrecompiledHeaders.Proofs.Queue.Completion
/-! The accounts of the queue. An entry is created by an addition and leaves by a removal, while it
is pending, or by the end of its build. The progress counter follows these entries; it is cleared
whenever none is left, so it speaks of the time since then. -/
namespace PrecompiledHeaders.Queue

inductive Call where
  | add (scope : Scope) (tasks : List Task)
  | update (scope : Scope) (tasks : List Task)
  | remove (scope : Scope) (keys : List TaskKey)
  | claim (scope : Scope)
  | finish (key : TaskKey)
  | reported
  deriving DecidableEq, Repr

def perform (q : Queue) : Call → Queue
  | .add scope tasks => (q.add scope tasks).2
  | .update scope tasks => q.update scope tasks
  | .remove scope keys => (q.remove scope keys).2
  | .claim scope => ((q.claim scope).map (·.2)).getD q
  | .finish k => ((q.finish k).map (·.2)).getD q
  | .reported => q.reported

def afterCalls (cs : List Call) : Queue := cs.foldl perform empty

theorem afterCalls_append (cs : List Call) (c : Call) :
    afterCalls (cs ++ [c]) = (afterCalls cs).perform c := by
  simp [afterCalls]

/-- The entries that are pending or running. -/
def outstanding (q : Queue) : Nat :=
  q.pending.system.length + q.pending.project.length + q.running.length

namespace Call

/-- The result of an addition: the number of new entries. -/
def added (q : Queue) : Call → Nat
  | .add scope tasks => (q.add scope tasks).1
  | _ => 0

/-- The result of a removal: the number of entries dropped. -/
def dropped (q : Queue) : Call → Nat
  | .remove scope keys => (q.remove scope keys).1
  | _ => 0

/-- One for the end of a build that was running. -/
def ended (q : Queue) : Call → Nat
  | .finish k => if (q.finish k).isSome then 1 else 0
  | _ => 0

end Call

/-- What `f` counts at each call, over all calls from `q` on. -/
def tally (f : Queue → Call → Nat) (q : Queue) : List Call → Nat
  | [] => 0
  | c :: cs => f q c + tally f (q.perform c) cs

theorem tally_append (f : Queue → Call → Nat) (q : Queue) (cs : List Call) (c : Call) :
    tally f q (cs ++ [c]) = tally f q cs + f (cs.foldl perform q) c := by
  induction cs generalizing q with
  | nil => simp [tally]
  | cons d ds ih => simp [tally, ih, Nat.add_assoc]

/-! ### The counter -/

variable {q : Queue} {n : Nat}

/-- The counter shows `n` open entries, and is cleared if there is none. -/
structure Counts (p : Progress) (n : Nat) : Prop where
  total : p.total = p.completed + n
  cleared : n = 0 → p = .zero

theorem Counts.publish {c : ProgressCounter} {p : Progress} (h : p.total = p.completed + n) :
    Counts (c.publish p).2.current n ∧
      (c.publish p).2.current.completed = if n = 0 then 0 else p.completed := by
  rw [ProgressCounter.publish]
  by_cases hn : n = 0
  · rw [if_pos hn, if_pos (show p.total ≤ p.completed by omega)]
    exact ⟨⟨by rw [hn]; rfl, fun _ => rfl⟩, rfl⟩
  · rw [if_neg hn, if_neg (show ¬ p.total ≤ p.completed by omega)]
    exact ⟨⟨h, fun h0 => absurd h0 hn⟩, rfl⟩

/-- What a call does to the counter: at most one pair is published, and the pair shows what was
completed, with this call, and what is open after it. -/
structure Posted (q q' : Queue) (ended : Nat) : Prop where
  counts : Counts q'.counter.current q'.outstanding
  completed : q'.counter.current.completed =
    if q'.outstanding = 0 then 0 else q.counter.current.completed + ended
  published : q'.counter.published = q.counter.published ∨
    q'.counter.published = q.counter.published ++
      [⟨q.counter.current.completed + ended, q.counter.current.completed + ended + q'.outstanding⟩]

theorem Posted.same {q' : Queue} (h : Counts q.counter.current q.outstanding)
    (ho : q'.outstanding = q.outstanding) (hc : q'.counter = q.counter) : Posted q q' 0 := by
  refine ⟨by rw [hc, ho]; exact h, ?_, Or.inl (by rw [hc])⟩
  rw [hc, ho]
  split
  · rename_i h0
    rw [h.cleared h0]
    rfl
  · rfl

theorem Posted.publish {q' : Queue} {ended : Nat} (hc : q'.counter = (q.counter.publish
      ⟨q.counter.current.completed + ended,
        q.counter.current.completed + ended + q'.outstanding⟩).2) : Posted q q' ended := by
  let p : Progress := ⟨q.counter.current.completed + ended,
    q.counter.current.completed + ended + q'.outstanding⟩
  obtain ⟨hcounts, hcompleted⟩ := Counts.publish (c := q.counter) (p := p) rfl
  exact ⟨by rw [hc]; exact hcounts, by rw [hc]; exact hcompleted, Or.inr (by rw [hc]; rfl)⟩

/-! ### Entries -/

variable {scope : Scope}

theorem outstanding_set (q : Queue) (scope : Scope) (ps : List Pending) :
    ({ q with pending := q.pending.set scope ps }.outstanding) + (q.pending.get scope).length =
      q.outstanding + ps.length := by
  cases scope <;> simp only [outstanding, PerScope.set, PerScope.get] <;> omega

theorem outstanding_eq {q' : Queue} (hp : q'.pending = q.pending)
    (hr : q'.running.length = q.running.length) : q'.outstanding = q.outstanding := by
  rw [outstanding, outstanding, hp, hr]

@[simp] theorem outstanding_addTotal (q : Queue) (n : Nat) :
    (q.addTotal n).outstanding = q.outstanding :=
  outstanding_eq (pending_addTotal q n) (congrArg _ (running_addTotal q n))

@[simp] theorem outstanding_removeTotal (q : Queue) (n : Nat) :
    (q.removeTotal n).outstanding = q.outstanding :=
  outstanding_eq (pending_removeTotal q n) (congrArg _ (running_removeTotal q n))

theorem length_le_addTask (ps : List Pending) (t : Task) :
    ps.length ≤ (addTask scope ps t).length := by
  have h := congrArg List.length (map_key_addTask scope ps t)
  split at h <;> simp only [List.length_map, List.length_append] at h <;> omega

theorem length_le_foldl_addTask (tasks : List Task) (ps : List Pending) :
    ps.length ≤ (tasks.foldl (addTask scope) ps).length := by
  induction tasks generalizing ps with
  | nil => exact le_rfl
  | cons t ts ih => exact (length_le_addTask ps t).trans (ih _)

theorem nodup_foldl_addTask (tasks : List Task) {ps : List Pending}
    (h : (ps.map (·.key)).Nodup) : ((tasks.foldl (addTask scope) ps).map (·.key)).Nodup := by
  induction tasks generalizing ps with
  | nil => exact h
  | cons t ts ih =>
    refine ih ?_
    rw [map_key_addTask]
    split
    · exact h
    · rename_i hk
      simpa [List.nodup_append] using ⟨h, fun e he hek => hk (hek ▸ List.mem_map_of_mem he)⟩

theorem outstanding_add (q : Queue) (scope : Scope) (tasks : List Task) :
    (q.add scope tasks).2.outstanding = q.outstanding + (q.add scope tasks).1 := by
  have hset := outstanding_set q scope (tasks.foldl (addTask scope) (q.pending.get scope))
  have hle : (q.pending.get scope).length ≤
      (tasks.foldl (addTask scope) (q.pending.get scope)).length :=
    length_le_foldl_addTask tasks _
  simp only [add, outstanding_addTotal]
  simp only [outstanding] at hset ⊢
  omega

theorem outstanding_remove (q : Queue) (scope : Scope) (keys : List TaskKey) :
    (q.remove scope keys).2.outstanding + (q.remove scope keys).1 = q.outstanding := by
  have hset := outstanding_set q scope ((q.pending.get scope).filter (·.key ∉ keys))
  have hle := List.length_filter_le (fun p : Pending => decide (p.key ∉ keys)) (q.pending.get scope)
  simp only [remove, outstanding_removeTotal]
  simp only [outstanding, retract, List.length_map] at hset ⊢
  omega

theorem outstanding_update (q : Queue) (scope : Scope) (tasks : List Task) :
    (q.update scope tasks).outstanding = q.outstanding ∧
      (q.update scope tasks).counter = q.counter := by
  induction tasks generalizing q with
  | nil => exact ⟨rfl, rfl⟩
  | cons t ts ih =>
    obtain ⟨ho, hc⟩ := ih (updateTask scope q t)
    refine ⟨ho.trans ?_, hc⟩
    cases scope <;>
      simp [outstanding, updateTask, setRunningMembers, setPendingMembers, PerScope.modify,
        PerScope.set, PerScope.get]

theorem outstanding_claim {q' : Queue} {cl : Claimed} (h : q.claim scope = some (cl, q')) :
    q'.outstanding = q.outstanding ∧ q'.counter = q.counter := by
  obtain ⟨p, hp, -, -, hpend, hrun⟩ := claim_eq_some h
  constructor
  · have hlen := List.length_erase_of_mem hp
    have hpos := List.length_pos_of_mem hp
    cases scope <;> simp only [outstanding, hpend, hrun, PerScope.modify, PerScope.set, PerScope.get,
      List.length_append, List.length_singleton] at hlen hpos ⊢ <;> omega
  · rw [claim] at h
    split at h
    · cases h
    · split at h
      · cases h
      · exact (Prod.mk.inj (Option.some.inj h)).2 ▸ rfl

theorem outstanding_finish {q' : Queue} {k : TaskKey} {f : Finished}
    (hn : (q.running.map (·.key)).Nodup) (h : q.finish k = some (f, q')) :
    q'.outstanding + 1 = q.outstanding ∧ q'.counter = (q.counter.addProgress 1).2 := by
  obtain ⟨r, hr, rfl, -, -, -, hpend, hrun⟩ := finish_eq_some h
  constructor
  · have hlen : (q.running.filter (·.key ≠ r.key)).length + 1 = q.running.length := by
      have herase := List.length_erase_add_one (List.mem_map_of_mem (f := (·.key)) hr)
      rw [hn.erase_eq_filter, List.filter_map, List.length_map, List.length_map] at herase
      simpa [Function.comp_def, bne, beq_eq_decide] using herase
    simp only [outstanding, hpend, hrun]
    omega
  · rw [finish] at h
    split at h
    · cases h
    · exact (Prod.mk.inj (Option.some.inj h)).2 ▸ rfl

/-! ### One call -/

/-- Every key is pending once in a scope, every key runs once, and the counter is right. -/
structure Balanced (q : Queue) : Prop where
  pending : ∀ scope, ((q.pending.get scope).map (·.key)).Nodup
  running : (q.running.map (·.key)).Nodup
  counts : Counts q.counter.current q.outstanding

/-- The accounts over one call. -/
structure Accounted (q q' : Queue) (added dropped ended : Nat) : Prop where
  entries : q'.outstanding + dropped + ended = q.outstanding + added
  posted : Posted q q' ended

theorem Balanced.add (h : Balanced q) (scope : Scope) (tasks : List Task) :
    Accounted q (q.add scope tasks).2 (q.add scope tasks).1 0 0 := by
  have ho := outstanding_add q scope tasks
  refine ⟨by omega, ?_⟩
  by_cases hn : (q.add scope tasks).1 = 0
  · refine Posted.same h.counts (by omega) ?_
    simp only [Queue.add] at hn ⊢
    rw [addTotal, if_pos hn]
  · refine Posted.publish ?_
    rw [ho, Nat.add_zero, ← Nat.add_assoc, ← h.counts.total]
    simp only [Queue.add] at hn ⊢
    rw [addTotal, if_neg hn]
    rfl

/-- A removal takes off no more than the total. -/
theorem Balanced.dropped_le (h : Balanced q) (scope : Scope) (keys : List TaskKey) :
    (q.remove scope keys).1 ≤ q.counter.current.total := by
  have ho := outstanding_remove q scope keys
  have ht := h.counts.total
  omega

theorem Balanced.remove (h : Balanced q) (scope : Scope) (keys : List TaskKey) :
    Accounted q (q.remove scope keys).2 0 (q.remove scope keys).1 0 := by
  have ho := outstanding_remove q scope keys
  refine ⟨by omega, ?_⟩
  by_cases hn : (q.remove scope keys).1 = 0
  · refine Posted.same h.counts (by omega) ?_
    simp only [Queue.remove] at hn ⊢
    rw [removeTotal, if_pos hn]
  · refine Posted.publish ?_
    have ht : q.counter.current.completed + 0 + (q.remove scope keys).2.outstanding =
        q.counter.current.total - (q.remove scope keys).1 := by
      have ht := h.counts.total
      omega
    rw [ht]
    simp only [Queue.remove] at hn ⊢
    rw [removeTotal, if_neg hn]
    rfl

theorem Balanced.finish (h : Balanced q) {q' : Queue} {k : TaskKey} {f : Finished}
    (hf : q.finish k = some (f, q')) : Accounted q q' 0 0 1 := by
  obtain ⟨ho, hc⟩ := outstanding_finish h.running hf
  refine ⟨by omega, Posted.publish ?_⟩
  have ht : q.counter.current.completed + 1 + q'.outstanding = q.counter.current.total := by
    have ht := h.counts.total
    omega
  rw [hc, ht]
  rfl

theorem Balanced.still (h : Balanced q) {q' : Queue} (ho : q'.outstanding = q.outstanding)
    (hc : q'.counter = q.counter) : Accounted q q' 0 0 0 :=
  ⟨by omega, Posted.same h.counts ho hc⟩

theorem Balanced.accounted (h : Balanced q) (c : Call) :
    Accounted q (q.perform c) (c.added q) (c.dropped q) (c.ended q) := by
  cases c with
  | add scope tasks => exact h.add scope tasks
  | update scope tasks =>
    exact h.still (outstanding_update q scope tasks).1 (outstanding_update q scope tasks).2
  | remove scope keys => exact h.remove scope keys
  | claim scope =>
    rw [perform]
    cases hc : q.claim scope with
    | none => exact h.still rfl rfl
    | some found => exact h.still (outstanding_claim hc).1 (outstanding_claim hc).2
  | finish k =>
    rw [perform, Call.ended]
    cases hf : q.finish k with
    | none => exact h.still rfl rfl
    | some found => exact h.finish hf
  | reported => exact h.still rfl rfl

theorem nodup_takePending {ps : List Pending} (h : (ps.map (·.key)).Nodup) (d : Dispatch) :
    ((takePending scope ps d).map (·.key)).Nodup := by
  cases d with
  | add s tasks =>
    rw [takePending]
    split
    · exact nodup_foldl_addTask tasks h
    · exact h
  | update s tasks =>
    rw [takePending]
    split
    · rw [map_key_foldl_setPendingMembers]
      exact h
    · exact h
  | remove s keys =>
    rw [takePending]
    split
    · exact h.sublist (List.filter_sublist.map _)
    · exact h

theorem Balanced.keys_apply (h : Balanced q) (d : Dispatch) :
    (∀ scope, (((q.apply d).pending.get scope).map (·.key)).Nodup) ∧
      ((q.apply d).running.map (·.key)).Nodup := by
  constructor
  · intro scope
    rw [pending_apply]
    exact nodup_takePending (h.pending scope) d
  · rw [running_apply, List.map_map]
    have hkeys : ((·.key) ∘ fun r : Running => r.take d) = (·.key) :=
      funext fun r => (r.take_same d).1
    rw [hkeys]
    exact h.running

theorem Balanced.keys_claim (h : Balanced q) {q' : Queue} {cl : Claimed}
    (hc : q.claim scope = some (cl, q')) :
    (∀ s, ((q'.pending.get s).map (·.key)).Nodup) ∧ (q'.running.map (·.key)).Nodup := by
  obtain ⟨p, -, -, hfree, hpend, hrun⟩ := claim_eq_some hc
  constructor
  · intro s
    rw [hpend]
    by_cases hs : scope = s
    · subst hs
      rw [PerScope.get_modify_self]
      exact (h.pending scope).sublist (List.erase_sublist.map _)
    · rw [PerScope.modify, PerScope.get_set_of_ne _ hs]
      exact h.pending s
  · rw [hrun, List.map_append]
    simpa [List.nodup_append] using ⟨h.running, fun r hr he => hfree (he ▸ List.mem_map_of_mem hr)⟩

theorem Balanced.keys_finish (h : Balanced q) {q' : Queue} {k : TaskKey} {f : Finished}
    (hf : q.finish k = some (f, q')) :
    (∀ s, ((q'.pending.get s).map (·.key)).Nodup) ∧ (q'.running.map (·.key)).Nodup := by
  obtain ⟨_, _, _, _, _, _, hpend, hrun⟩ := finish_eq_some hf
  constructor
  · rw [hpend]
    exact h.pending
  · rw [hrun]
    exact h.running.sublist (List.filter_sublist.map _)

theorem Balanced.keys (h : Balanced q) (c : Call) :
    (∀ scope, (((q.perform c).pending.get scope).map (·.key)).Nodup) ∧
      ((q.perform c).running.map (·.key)).Nodup := by
  cases c with
  | add scope tasks => exact h.keys_apply (.add scope tasks)
  | update scope tasks => exact h.keys_apply (.update scope tasks)
  | remove scope keys => exact h.keys_apply (.remove scope keys)
  | claim scope =>
    rw [perform]
    cases hc : q.claim scope with
    | none => exact ⟨h.pending, h.running⟩
    | some found => exact h.keys_claim hc
  | finish k =>
    rw [perform]
    cases hf : q.finish k with
    | none => exact ⟨h.pending, h.running⟩
    | some found => exact h.keys_finish hf
  | reported => exact ⟨h.pending, h.running⟩

theorem Balanced.perform (h : Balanced q) (c : Call) : Balanced (q.perform c) :=
  ⟨(h.keys c).1, (h.keys c).2, (h.accounted c).posted.counts⟩

/-! ### All calls -/

variable {cs : List Call}

theorem balanced (cs : List Call) : Balanced (afterCalls cs) := by
  induction cs using List.reverseRecOn with
  | nil =>
    refine ⟨fun scope => ?_, List.nodup_nil, ⟨rfl, fun _ => rfl⟩⟩
    cases scope <;> exact List.nodup_nil
  | append_singleton cs c ih =>
    rw [afterCalls_append]
    exact ih.perform c

/-- The counts of all calls from the empty queue on. -/
def total (f : Queue → Call → Nat) (cs : List Call) : Nat := tally f empty cs

theorem total_append (f : Queue → Call → Nat) (cs : List Call) (c : Call) :
    total f (cs ++ [c]) = total f cs + f (afterCalls cs) c := tally_append f empty cs c

/-- No entry is lost, and none is counted twice. -/
theorem entries_total (cs : List Call) : total (fun q c => c.added q) cs =
    total (fun q c => c.dropped q) cs + total (fun q c => c.ended q) cs +
      (afterCalls cs).outstanding := by
  induction cs using List.reverseRecOn with
  | nil => rfl
  | append_singleton cs c ih =>
    have he := ((balanced cs).accounted c).entries
    rw [← afterCalls_append] at he
    simp only [total_append]
    omega

/-- Nothing was open after `pre`, and something was after each further call of `post`. -/
structure SinceEmpty (pre post : List Call) : Prop where
  empty : (afterCalls pre).outstanding = 0
  busy : ∀ mid rest, post = mid ++ rest → mid ≠ [] → (afterCalls (pre ++ mid)).outstanding ≠ 0

/-- The ends of builds in `post`, which was called after `pre`. -/
def endedSince (pre post : List Call) : Nat := tally (fun q c => c.ended q) (afterCalls pre) post

theorem endedSince_append (pre post : List Call) (c : Call) : endedSince pre (post ++ [c]) =
    endedSince pre post + c.ended (afterCalls (pre ++ post)) := by
  rw [endedSince, tally_append, endedSince, afterCalls, afterCalls, List.foldl_append]

theorem SinceEmpty.snoc {pre post : List Call} (h : SinceEmpty pre post) {c : Call}
    (hc : (afterCalls (pre ++ post ++ [c])).outstanding ≠ 0) : SinceEmpty pre (post ++ [c]) := by
  refine ⟨h.empty, fun mid rest hsplit hne => ?_⟩
  rcases List.eq_nil_or_concat rest with rfl | ⟨rest, d, rfl⟩
  · rw [List.append_nil] at hsplit
    rw [← hsplit, ← List.append_assoc]
    exact hc
  · rw [List.concat_eq_append, ← List.append_assoc] at hsplit
    exact h.busy mid rest (List.append_inj_left' hsplit rfl) hne

/-- There is a last moment with nothing open, and the counter speaks of the time since. -/
theorem completed_since (cs : List Call) : ∃ pre post, cs = pre ++ post ∧ SinceEmpty pre post ∧
    (afterCalls cs).counter.current.completed = endedSince pre post := by
  induction cs using List.reverseRecOn with
  | nil => exact ⟨[], [], rfl, ⟨rfl, fun mid rest h hne =>
      absurd (List.append_eq_nil_iff.mp h.symm).1 hne⟩, rfl⟩
  | append_singleton cs c ih =>
    obtain ⟨pre, post, rfl, hsince, hcompleted⟩ := ih
    have hc := ((balanced (pre ++ post)).accounted c).posted.completed
    rw [← afterCalls_append, hcompleted, ← endedSince_append] at hc
    by_cases h0 : (afterCalls (pre ++ post ++ [c])).outstanding = 0
    · refine ⟨pre ++ post ++ [c], [], by simp, ⟨h0, fun mid rest h hne =>
        absurd (List.append_eq_nil_iff.mp h.symm).1 hne⟩, ?_⟩
      rw [hc, if_pos h0]
      rfl
    · rw [if_neg h0] at hc
      exact ⟨pre, post ++ [c], by simp, hsince.snoc h0, hc⟩

theorem current_le (cs : List Call) :
    (afterCalls cs).counter.current.total ≤ total (fun q c => c.added q) cs := by
  induction cs using List.reverseRecOn with
  | nil => exact le_rfl
  | append_singleton cs c ih =>
    obtain ⟨hentries, hposted⟩ := (balanced cs).accounted c
    have hbefore := (balanced cs).counts.total
    have htotal := hposted.counts.total
    have hcompleted := hposted.completed
    rw [total_append, afterCalls_append]
    split at hcompleted <;> omega

/-- Every published pair is one a counter can show, within the entries ever created. -/
theorem published_le (cs : List Call) : ∀ p ∈ (afterCalls cs).counter.published,
    p.completed ≤ p.total ∧ p.total ≤ total (fun q c => c.added q) cs := by
  induction cs using List.reverseRecOn with
  | nil => exact fun p hp => absurd hp List.not_mem_nil
  | append_singleton cs c ih =>
    intro p hp
    have hb := balanced cs
    obtain ⟨hentries, hposted⟩ := hb.accounted c
    have htotal := current_le cs
    have hcounts := hb.counts.total
    rw [total_append]
    rw [afterCalls_append] at hp
    have hold : p ∈ (afterCalls cs).counter.published → p.completed ≤ p.total ∧
        p.total ≤ total (fun q c => c.added q) cs + c.added (afterCalls cs) :=
      fun hp => ⟨(ih p hp).1, (ih p hp).2.trans (Nat.le_add_right _ _)⟩
    rcases hposted.published with he | he
    · exact hold (he ▸ hp)
    · rw [he] at hp
      rcases List.mem_append.mp hp with hp | hp
      · exact hold hp
      · obtain rfl := List.mem_singleton.mp hp
        simp only
        omega

/-- The accounts of the queue after `cs`. -/
structure Ledger (cs : List Call) : Prop where
  /-- What is not completed is pending or running. -/
  counter : (afterCalls cs).counter.current.total - (afterCalls cs).counter.current.completed =
    (afterCalls cs).pending.system.length + (afterCalls cs).pending.project.length +
      (afterCalls cs).running.length
  completed_le : (afterCalls cs).counter.current.completed ≤ (afterCalls cs).counter.current.total
  zero_iff : (afterCalls cs).counter.current = .zero ↔ (afterCalls cs).outstanding = 0
  /-- A removal never stops at zero. -/
  removable : ∀ scope keys,
    ((afterCalls cs).remove scope keys).1 ≤ (afterCalls cs).counter.current.total
  /-- Published pairs are ordered, and no total exceeds the number of entries ever created. -/
  published : ∀ p ∈ (afterCalls cs).counter.published,
    p.completed ≤ p.total ∧ p.total ≤ total (fun q c => c.added q) cs
  /-- The completed builds are those since the last moment with nothing open; a further call
  publishes at most one pair, which counts them with the build that this call ends. -/
  since : ∃ pre post, cs = pre ++ post ∧ SinceEmpty pre post ∧
    (afterCalls cs).counter.current.completed = endedSince pre post ∧
    ∀ c, (afterCalls (cs ++ [c])).counter.published = (afterCalls cs).counter.published ∨
      (afterCalls (cs ++ [c])).counter.published = (afterCalls cs).counter.published ++
        [⟨endedSince pre (post ++ [c]),
          endedSince pre (post ++ [c]) + (afterCalls (cs ++ [c])).outstanding⟩]
  distinct : ∀ scope, ((afterCalls cs).pendingKeys scope).Nodup
  /-- No entry is lost or counted twice. -/
  entries : total (fun q c => c.added q) cs = total (fun q c => c.dropped q) cs +
    total (fun q c => c.ended q) cs + (afterCalls cs).outstanding

/-- Any calls, in any order, keep the accounts. -/
theorem ledger (cs : List Call) : Ledger cs := by
  have hb := balanced cs
  have ht := hb.counts.total
  refine ⟨by rw [ht, Nat.add_sub_cancel_left]; rfl, by omega, ⟨fun hz => ?_, hb.counts.cleared⟩,
    hb.dropped_le, published_le cs, ?_, hb.pending, entries_total cs⟩
  · rw [hz] at ht
    exact (Nat.zero_add _).symm.trans ht.symm
  · obtain ⟨pre, post, rfl, hsince, hcompleted⟩ := completed_since cs
    refine ⟨pre, post, rfl, hsince, hcompleted, fun c => ?_⟩
    have hp := (hb.accounted c).posted.published
    rwa [← afterCalls_append, hcompleted, ← endedSince_append] at hp

end PrecompiledHeaders.Queue
