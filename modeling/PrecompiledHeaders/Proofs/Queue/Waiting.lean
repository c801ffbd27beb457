import PrecompiledHeaders.Proofs.FirstMentions
import PrecompiledHeaders.Proofs.Queue.Accounting
/-! Waiting in the queue. Entries of a scope wait in the order in which they were created; to be
submitted again gives an entry a newer task, but not a later place. Nothing is stranded: as long as
something is pending and nothing runs, one of the scopes has an entry to hand out, so workers that
only claim and finish empty the queue. -/
namespace PrecompiledHeaders.Queue

/-! ### What became of the entries -/

namespace Call

/-- The keys of the entries that the call creates in the scope, in order. -/
def created (s : Scope) (q : Queue) : Call → List TaskKey
  | .add scope tasks =>
    if scope = s then keepFirst (fun k => k) (q.pendingKeys s) (tasks.map (·.key s)) else []
  | _ => []

/-- The keys of the pending entries of the scope that the call drops. -/
def discarded (s : Scope) (q : Queue) : Call → List TaskKey
  | .remove scope keys => (q.pendingKeys s).filter fun k => scope = s ∧ k ∈ keys
  | _ => []

/-- The key of the build that the call ends, if it is one of the scope. -/
def completed (s : Scope) (q : Queue) : Call → List TaskKey
  | .finish k => if (q.finish k).map (·.1.scope) = some s then [k] else []
  | _ => []

/-- What a sink of dispatches is told by the call. -/
def dispatch? : Call → Option Dispatch
  | .add scope tasks => some (.add scope tasks)
  | .update scope tasks => some (.update scope tasks)
  | .remove scope keys => some (.remove scope keys)
  | _ => none

end Call

/-- What `f` lists at each call, over all calls from `q` on. -/
def gather (f : Queue → Call → List TaskKey) (q : Queue) : List Call → List TaskKey
  | [] => []
  | c :: cs => f q c ++ gather f (q.perform c) cs

theorem gather_append (f : Queue → Call → List TaskKey) (q : Queue) (cs : List Call) (c : Call) :
    gather f q (cs ++ [c]) = gather f q cs ++ f (cs.foldl perform q) c := by
  induction cs generalizing q with
  | nil => simp [gather]
  | cons d ds ih => simp [gather, ih, List.append_assoc]

/-- The keys of all entries that were ever created in the scope, in order. -/
def arrivals (s : Scope) (cs : List Call) : List TaskKey := gather (Call.created s) empty cs

/-- How many entries of the scope were created after the latest one of that key. -/
def waited (s : Scope) (cs : List Call) (k : TaskKey) : Nat := (arrivals s cs).reverse.idxOf k

/-- The newest task of each key: the one that was added last, with the members of later updates. -/
def newest (s : Scope) (cs : List Call) : Held :=
  (cs.filterMap Call.dispatch?).foldl (Held.take s) fun _ => none

def runningKeys (q : Queue) (s : Scope) : List TaskKey :=
  (q.running.filter (·.scope = s)).map (·.key)

variable {q : Queue} {s : Scope} {c : Call} {cs : List Call}

theorem arrivals_append (s : Scope) (cs : List Call) (c : Call) :
    arrivals s (cs ++ [c]) = arrivals s cs ++ c.created s (afterCalls cs) :=
  gather_append _ empty cs c

theorem map_key_foldl_addTask (s : Scope) (tasks : List Task) (ps : List Pending) :
    (tasks.foldl (addTask s) ps).map (·.key) =
      ps.map (·.key) ++ keepFirst (fun k => k) (ps.map (·.key)) (tasks.map (·.key s)) := by
  induction tasks generalizing ps with
  | nil => exact (List.append_nil _).symm
  | cons t ts ih =>
    rw [List.foldl_cons, ih, map_key_addTask, List.map_cons, keepFirst]
    split
    · rfl
    · have hseen : ∀ k, k ∈ ps.map (·.key) ++ [t.key s] ↔ k ∈ t.key s :: ps.map (·.key) := fun k => by
        rw [List.mem_append, List.mem_singleton, List.mem_cons, or_comm]
      rw [List.append_assoc, keepFirst_congr hseen]
      rfl

/-- A call is a dispatch, or it leaves pending entries as they are, one that it hands out apart. -/
theorem perform_cases (q : Queue) (c : Call) :
    (∃ d, c.dispatch? = some d ∧ q.perform c = q.apply d) ∨ (c.dispatch? = none ∧
      ∀ s, ((q.perform c).pending.get s).Sublist (q.pending.get s)) := by
  cases c with
  | add scope tasks => exact Or.inl ⟨_, rfl, rfl⟩
  | update scope tasks => exact Or.inl ⟨_, rfl, rfl⟩
  | remove scope keys => exact Or.inl ⟨_, rfl, rfl⟩
  | claim scope =>
    refine Or.inr ⟨rfl, fun s => ?_⟩
    rw [perform]
    cases hc : q.claim scope with
    | none => exact List.Sublist.refl _
    | some found =>
      obtain ⟨p, _, _, _, hpend, _⟩ := claim_eq_some hc
      show (found.2.pending.get s).Sublist _
      rw [hpend]
      by_cases hs : scope = s
      · subst hs
        rw [PerScope.get_modify_self]
        exact List.erase_sublist
      · rw [PerScope.modify, PerScope.get_set_of_ne _ hs]
  | finish k =>
    refine Or.inr ⟨rfl, fun s => ?_⟩
    rw [perform]
    cases hf : q.finish k with
    | none => exact List.Sublist.refl _
    | some found =>
      obtain ⟨_, _, _, _, _, _, hpend, _⟩ := finish_eq_some hf
      show (found.2.pending.get s).Sublist _
      rw [hpend]
  | reported => exact Or.inr ⟨rfl, fun s => List.Sublist.refl _⟩

theorem pendingKeys_add (q : Queue) (scope s : Scope) (tasks : List Task) :
    (q.perform (.add scope tasks)).pendingKeys s =
      q.pendingKeys s ++ Call.created s q (.add scope tasks) := by
  have hpend := congrArg (List.map Pending.key) (pending_apply q (.add scope tasks) s)
  refine hpend.trans ?_
  rw [takePending, Call.created]
  by_cases hs : scope = s
  · subst hs
    rw [if_pos rfl, if_pos rfl]
    exact map_key_foldl_addTask scope tasks _
  · rw [if_neg hs, if_neg hs, List.append_nil]
    rfl

theorem pendingKeys_update (q : Queue) (scope s : Scope) (tasks : List Task) :
    (q.perform (.update scope tasks)).pendingKeys s = q.pendingKeys s := by
  have hpend := congrArg (List.map Pending.key) (pending_apply q (.update scope tasks) s)
  refine hpend.trans ?_
  rw [takePending]
  split
  · exact map_key_foldl_setPendingMembers scope tasks _
  · rfl

theorem pendingKeys_remove (q : Queue) (scope s : Scope) (keys : List TaskKey) :
    (q.perform (.remove scope keys)).pendingKeys s =
      (q.pendingKeys s).filter fun k => ¬ (scope = s ∧ k ∈ keys) := by
  have hpend := congrArg (List.map Pending.key) (pending_apply q (.remove scope keys) s)
  refine hpend.trans ?_
  rw [takePending, pendingKeys]
  by_cases hs : scope = s
  · simp [hs, List.filter_map, Function.comp_def]
  · simp [hs]

/-- A call keeps pending entries in their places, apart from those that leave, and puts new ones
behind them. -/
theorem pendingKeys_perform (q : Queue) (c : Call) (s : Scope) : ∃ kept : List TaskKey,
    kept.Sublist (q.pendingKeys s) ∧ (q.perform c).pendingKeys s = kept ++ c.created s q := by
  have hless : ((q.perform c).pendingKeys s).Sublist (q.pendingKeys s) → c.created s q = [] →
      ∃ kept : List TaskKey, kept.Sublist (q.pendingKeys s) ∧
        (q.perform c).pendingKeys s = kept ++ c.created s q := fun h hc =>
    ⟨_, h, by rw [hc, List.append_nil]⟩
  cases c with
  | add scope tasks => exact ⟨_, List.Sublist.refl _, pendingKeys_add q scope s tasks⟩
  | update scope tasks => exact hless (pendingKeys_update q scope s tasks ▸ List.Sublist.refl _) rfl
  | remove scope keys => exact hless (pendingKeys_remove q scope s keys ▸ List.filter_sublist) rfl
  | claim scope =>
    refine hless ?_ rfl
    rcases perform_cases q (.claim scope) with ⟨d, hd, _⟩ | ⟨_, hq⟩
    · cases hd
    · exact (hq s).map _
  | finish k =>
    refine hless ?_ rfl
    rcases perform_cases q (.finish k) with ⟨d, hd, _⟩ | ⟨_, hq⟩
    · cases hd
    · exact (hq s).map _
  | reported => exact hless (List.Sublist.refl _) rfl

theorem nodup_created (s : Scope) (q : Queue) (c : Call) : (c.created s q).Nodup := by
  cases c with
  | add scope tasks =>
    rw [Call.created]
    split
    · exact nodup_keepFirst _ _
    · exact List.nodup_nil
  | update | remove | claim | finish | reported => exact List.nodup_nil

theorem created_fresh {k : TaskKey} (hk : k ∈ c.created s q) : k ∉ q.pendingKeys s := by
  cases c with
  | add scope tasks =>
    rw [Call.created] at hk
    split at hk
    · exact (mem_keepFirst.mp hk).2
    · exact absurd hk List.not_mem_nil
  | update | remove | claim | finish | reported => exact absurd hk List.not_mem_nil

/-! ### The order of waiting -/

/-- Later members come first from the end. -/
theorem pairwise_idxOf_reverse {ks : List TaskKey} (hn : ks.Nodup) :
    ks.Pairwise fun a b => ks.reverse.idxOf b < ks.reverse.idxOf a := by
  induction ks with
  | nil => exact List.Pairwise.nil
  | cons k ks ih =>
    obtain ⟨hk, hn⟩ := List.nodup_cons.mp hn
    have hmem : ∀ a ∈ ks, (k :: ks).reverse.idxOf a = ks.reverse.idxOf a := fun a ha => by
      rw [List.reverse_cons, List.idxOf_append_of_mem (List.mem_reverse.mpr ha)]
    rw [List.pairwise_cons]
    constructor
    · intro b hb
      rw [hmem b hb, List.reverse_cons, List.idxOf_append_of_notMem (mt List.mem_reverse.mp hk),
        List.idxOf_cons_self, List.length_reverse, Nat.add_zero, ← List.length_reverse]
      exact List.idxOf_lt_length_iff.mpr (List.mem_reverse.mpr hb)
    · refine (ih hn).imp_of_mem fun {a b} ha hb hab => ?_
      rw [hmem a ha, hmem b hb]
      exact hab

theorem waited_append (s : Scope) (cs : List Call) (c : Call) (k : TaskKey) :
    waited s (cs ++ [c]) k = if k ∈ c.created s (afterCalls cs)
      then (c.created s (afterCalls cs)).reverse.idxOf k
      else (c.created s (afterCalls cs)).length + waited s cs k := by
  rw [waited, arrivals_append, List.reverse_append]
  split <;> rename_i hk
  · rw [List.idxOf_append_of_mem (List.mem_reverse.mpr hk)]
  · rw [List.idxOf_append_of_notMem (mt List.mem_reverse.mp hk), List.length_reverse, waited]

/-- Entries stand in the order of their creation, the one that waited longest in front. -/
theorem pairwise_waited (s : Scope) (cs : List Call) :
    ((afterCalls cs).pendingKeys s).Pairwise fun a b => waited s cs b < waited s cs a := by
  induction cs using List.reverseRecOn with
  | nil => cases s <;> exact List.Pairwise.nil
  | append_singleton cs c ih =>
    obtain ⟨kept, hkept, hkeys⟩ := pendingKeys_perform (afterCalls cs) c s
    have hold : ∀ k ∈ kept, waited s (cs ++ [c]) k =
        (c.created s (afterCalls cs)).length + waited s cs k := fun k hk => by
      rw [waited_append, if_neg fun hnew => created_fresh hnew (hkept.subset hk)]
    have hnew : ∀ k ∈ c.created s (afterCalls cs), waited s (cs ++ [c]) k =
        (c.created s (afterCalls cs)).reverse.idxOf k := fun k hk => by
      rw [waited_append, if_pos hk]
    rw [afterCalls_append, hkeys, List.pairwise_append]
    refine ⟨(ih.sublist hkept).imp_of_mem fun {a b} ha hb hab => ?_,
      (pairwise_idxOf_reverse (nodup_created s _ c)).imp_of_mem fun {a b} ha hb hab => ?_,
      fun a ha b hb => ?_⟩
    · rw [hold a ha, hold b hb]
      exact Nat.add_lt_add_left hab _
    · rw [hnew a ha, hnew b hb]
      exact hab
    · have hlt := List.idxOf_lt_length_iff.mpr (List.mem_reverse.mpr hb)
      rw [List.length_reverse] at hlt
      rw [hold a ha, hnew b hb]
      omega

/-- An entry is handed out in its newest version. -/
theorem agrees_newest (s : Scope) (cs : List Call) :
    Agrees ((afterCalls cs).pending.get s) (newest s cs) := by
  induction cs using List.reverseRecOn with
  | nil => cases s <;> exact ⟨List.nodup_nil, fun e he => absurd he List.not_mem_nil⟩
  | append_singleton cs c ih =>
    rw [afterCalls_append, newest, List.filterMap_append, List.foldl_append, ← newest]
    rcases perform_cases (afterCalls cs) c with ⟨d, hd, hq⟩ | ⟨hd, hq⟩
    · rw [hq, pending_apply, List.filterMap_cons_some hd]
      exact ih.take d
    · rw [List.filterMap_cons_none hd]
      exact ⟨ih.nodup.sublist ((hq s).map _), fun e he => ih.held e ((hq s).subset he)⟩

/-! ### Where entries go -/

theorem runningKeys_apply (q : Queue) (d : Dispatch) (s : Scope) :
    (q.apply d).runningKeys s = q.runningKeys s := by
  have hscope : (fun r : Running => decide (r.scope = s)) ∘ (fun r : Running => r.take d) =
      fun r => decide (r.scope = s) := funext fun r => by
    rw [Function.comp_apply, (r.take_same d).2.1]
  have hkey : (·.key) ∘ (fun r : Running => r.take d) = (·.key) :=
    funext fun r => (r.take_same d).1
  rw [runningKeys, running_apply, List.filter_map, List.map_map, hscope, hkey, runningKeys]

/-- The entry that is handed out runs from then on. -/
theorem claim_keys {q' : Queue} {scope : Scope} {cl : Claimed}
    (h : q.claim scope = some (cl, q')) (s : Scope) :
    (q.pendingKeys s ++ q.runningKeys s).Perm (q'.pendingKeys s ++ q'.runningKeys s) := by
  obtain ⟨p, hp, _, _, hpend, hrun⟩ := claim_eq_some h
  rw [pendingKeys, pendingKeys, runningKeys, runningKeys, hpend, hrun, List.filter_append,
    List.map_append]
  by_cases hs : scope = s
  · subst hs
    have herase : ((q.pending.get scope).map (·.key)).Perm
        (p.key :: ((q.pending.get scope).erase p).map (·.key)) :=
      (List.perm_cons_erase hp).map _
    rw [PerScope.get_modify_self]
    simp only [decide_true, List.filter_cons_of_pos, List.filter_nil, List.map_cons, List.map_nil]
    refine (herase.append_right _).trans ?_
    rw [List.cons_append, ← List.append_assoc]
    exact (List.perm_append_singleton _ _).symm
  · rw [PerScope.modify, PerScope.get_set_of_ne _ hs]
    simp [hs]

/-- Apart from the entry of that key, all builds keep running. -/
theorem perm_running {r : Running} (hn : (q.running.map (·.key)).Nodup) (hr : r ∈ q.running) :
    q.running.Perm (r :: q.running.filter (·.key ≠ r.key)) := by
  have hsame : ∀ u ∈ q.running, (u != r) = decide (u.key ≠ r.key) := fun u hu => by
    rw [bne, beq_eq_decide, ← decide_not]
    exact decide_eq_decide.mpr (not_congr ⟨congrArg _, List.inj_on_of_nodup_map hn hu hr⟩)
  rw [← List.filter_congr hsame, ← hn.of_map.erase_eq_filter]
  exact List.perm_cons_erase hr

/-- A build that ends runs no longer. -/
theorem finish_keys {q' : Queue} {k : TaskKey} {f : Finished}
    (hn : (q.running.map (·.key)).Nodup) (h : q.finish k = some (f, q')) (s : Scope) :
    q'.pendingKeys s = q.pendingKeys s ∧
      (q.runningKeys s).Perm (q'.runningKeys s ++ if f.scope = s then [k] else []) := by
  obtain ⟨r, hr, rfl, hscope, _, _, hpend, hrun⟩ := finish_eq_some h
  refine ⟨by rw [pendingKeys, pendingKeys, hpend], ?_⟩
  refine (((perm_running hn hr).filter fun u : Running => decide (u.scope = s)).map (·.key)).trans ?_
  rw [runningKeys, hrun, hscope, List.filter_cons]
  by_cases hs : r.scope = s
  · rw [if_pos hs, if_pos (decide_eq_true hs), List.map_cons]
    exact (List.perm_append_singleton _ _).symm
  · rw [if_neg hs, if_neg (by simpa using hs), List.append_nil]

/-- Every entry that is there before a call or created by it is there after the call, or was dropped
or ended by it. -/
theorem entries_perform (hn : (q.running.map (·.key)).Nodup) (c : Call) (s : Scope) :
    (q.pendingKeys s ++ q.runningKeys s ++ c.created s q).Perm
      ((q.perform c).pendingKeys s ++ (q.perform c).runningKeys s ++
        (c.discarded s q ++ c.completed s q)) := by
  have hswap : ∀ a b d : List TaskKey, (a ++ b ++ d).Perm (a ++ d ++ b) := fun a b d => by
    rw [List.append_assoc, List.append_assoc]
    exact List.perm_append_comm.append_left a
  cases c with
  | add scope tasks =>
    have hrun : (q.perform (.add scope tasks)).runningKeys s = q.runningKeys s :=
      runningKeys_apply q (.add scope tasks) s
    rw [pendingKeys_add, hrun]
    exact (hswap _ _ _).trans (.of_eq (List.append_nil _).symm)
  | update scope tasks =>
    have hrun : (q.perform (.update scope tasks)).runningKeys s = q.runningKeys s :=
      runningKeys_apply q (.update scope tasks) s
    rw [pendingKeys_update, hrun]
    exact .refl _
  | remove scope keys =>
    have hrun : (q.perform (.remove scope keys)).runningKeys s = q.runningKeys s :=
      runningKeys_apply q (.remove scope keys) s
    have hsplit := List.filter_append_perm (fun k => decide (scope = s ∧ k ∈ keys))
      (q.pendingKeys s)
    rw [pendingKeys_remove, hrun]
    simp only [Call.created, Call.discarded, Call.completed, List.append_nil]
    refine (hsplit.symm.append_right _).trans (((List.perm_append_comm).append_right _).trans ?_)
    simp only [decide_not]
    exact hswap _ _ _
  | claim scope =>
    simp only [Call.created, Call.discarded, Call.completed, List.append_nil, perform]
    cases hc : q.claim scope with
    | none => exact .refl _
    | some found => exact claim_keys hc s
  | finish k =>
    simp only [Call.created, Call.discarded, Call.completed, List.append_nil, List.nil_append,
      perform]
    cases hf : q.finish k with
    | none => exact .of_eq (List.append_nil _).symm
    | some found =>
      obtain ⟨hpend, hrun⟩ := finish_keys hn hf s
      simp only [Option.map_some, Option.getD_some, Option.some.injEq, hpend, List.append_assoc]
      exact hrun.append_left _
  | reported => exact .refl _

/-- Every entry that was ever created is still there, or it was dropped while it was pending, or its
build ended. -/
theorem entries_account (cs : List Call) (s : Scope) :
    (arrivals s cs).Perm ((afterCalls cs).pendingKeys s ++ (afterCalls cs).runningKeys s ++
      (gather (Call.discarded s) empty cs ++ gather (Call.completed s) empty cs)) := by
  induction cs using List.reverseRecOn with
  | nil => cases s <;> exact .refl _
  | append_singleton cs c ih =>
    have hstep := entries_perform (balanced cs).running c s
    rw [← afterCalls_append] at hstep
    rw [arrivals_append, gather_append, gather_append]
    refine (ih.append_right _).trans ?_
    rw [List.perm_iff_count] at hstep ⊢
    intro k
    have hk := hstep k
    simp only [List.count_append, afterCalls] at hk ⊢
    omega

/-! ### One claim -/

theorem isSome_claim (q : Queue) (s : Scope) : (q.claim s).isSome = q.hasClaimable s := by
  rw [claim, hasClaimable]
  cases q.isBlocked s with
  | true => rfl
  | false =>
    have hany := @List.find?_isSome _ (q.pending.get s) q.claimable
    cases hf : (q.pending.get s).find? q.claimable with
    | none =>
      rw [hf] at hany
      exact (Bool.eq_false_iff.mpr fun h => by simpa using hany.mpr (List.any_eq_true.mp h)).symm
    | some p =>
      exact (List.any_eq_true.mpr (hany.mp (by rw [hf]; rfl))).symm

/-- The entry handed out is the first one whose key does not run. -/
theorem first_of_claim {q' : Queue} {cl : Claimed} (h : q.claim s = some (cl, q')) :
    cl.scope = s ∧ cl.key ∉ q.running.map (·.key) ∧ ∃ before behind : List Pending,
      q.pending.get s = before ++ ⟨cl.key, cl.task⟩ :: behind ∧
      ∀ p ∈ before, p.key ∈ q.running.map (·.key) := by
  rw [claim] at h
  split at h
  · cases h
  · cases hf : (q.pending.get s).find? q.claimable with
    | none => simp [hf] at h
    | some p =>
      rw [hf] at h
      obtain ⟨rfl, -⟩ := Prod.mk.inj (Option.some.inj h)
      obtain ⟨hp, before, behind, heq, hbefore⟩ := List.find?_eq_some_iff_append.mp hf
      refine ⟨rfl, by simpa [claimable, isRunning] using hp, before, behind, heq, fun e he => ?_⟩
      simpa [claimable, isRunning] using hbefore e he

/-- A build runs until it is ended. -/
theorem running_until {k : TaskKey} (cs : List Call) (hk : k ∈ q.running.map (·.key))
    (hf : .finish k ∉ cs) : k ∈ (cs.foldl perform q).running.map (·.key) := by
  induction cs generalizing q with
  | nil => exact hk
  | cons c cs ih =>
    refine ih ?_ fun h => hf (List.mem_cons_of_mem _ h)
    have happly : ∀ d, k ∈ (q.apply d).running.map (·.key) := fun d => by
      have hkey : (·.key) ∘ (fun r : Running => r.take d) = (·.key) :=
        funext fun r => (r.take_same d).1
      rwa [running_apply, List.map_map, hkey]
    cases c with
    | add scope tasks => exact happly (.add scope tasks)
    | update scope tasks => exact happly (.update scope tasks)
    | remove scope keys => exact happly (.remove scope keys)
    | claim scope =>
      rw [perform]
      cases hc : q.claim scope with
      | none => exact hk
      | some found =>
        obtain ⟨_, _, _, _, _, hrun⟩ := claim_eq_some hc
        simp only [Option.map_some, Option.getD_some, hrun, List.map_append]
        exact List.mem_append_left _ hk
    | finish j =>
      have hj : k ≠ j := fun h => hf (h ▸ List.mem_cons_self)
      rw [perform]
      cases hc : q.finish j with
      | none => exact hk
      | some found =>
        obtain ⟨_, _, _, _, _, _, _, hrun⟩ := finish_eq_some hc
        obtain ⟨r, hr, rfl⟩ := List.mem_map.mp hk
        simp only [Option.map_some, Option.getD_some, hrun]
        exact List.mem_map_of_mem (List.mem_filter.mpr ⟨hr, decide_eq_true hj⟩)
    | reported => exact hk

/-! ### Draining -/

/-- The number of pending entries. -/
def waiting (q : Queue) : Nat := q.pending.system.length + q.pending.project.length

/-- Workers that claim an entry of any scope and finish it, so many times. -/
inductive Drains : Queue → Nat → Queue → Prop
  | done (q : Queue) : Drains q 0 q
  | step {q q₁ q₂ q' : Queue} {n : Nat} {s : Scope} {cl : Claimed} {f : Finished} :
    q.claim s = some (cl, q₁) → q₁.finish cl.key = some (f, q₂) → Drains q₂ n q' →
      Drains q (n + 1) q'

/-- With nothing running, the oldest entry of one of the scopes can be handed out. -/
theorem exists_claimable (hrun : q.running = []) (hw : q.waiting ≠ 0) :
    ∃ s, q.hasClaimable s = true := by
  have hfree : ∀ p, q.claimable p = true := fun p => by simp [claimable, isRunning, hrun]
  have hany : ∀ ps : List Pending, ps ≠ [] → ps.any q.claimable = true := fun ps hps => by
    obtain ⟨p, hp⟩ := List.exists_mem_of_ne_nil ps hps
    exact List.any_eq_true.mpr ⟨p, hp, hfree p⟩
  by_cases hsys : q.pending.system = []
  · have hproj : q.pending.project ≠ [] := fun h => hw (by rw [waiting, hsys, h]; rfl)
    refine ⟨.project, ?_⟩
    rw [hasClaimable, isBlocked, projectBlocked, hsys, hrun]
    exact hany _ hproj
  · refine ⟨.system, ?_⟩
    rw [hasClaimable, isBlocked]
    exact hany _ hsys

theorem drain_step {q₁ q₂ : Queue} {cl : Claimed} {f : Finished} (hrun : q.running = [])
    (hc : q.claim s = some (cl, q₁)) (hf : q₁.finish cl.key = some (f, q₂)) :
    q₂.running = [] ∧ q₂.waiting + 1 = q.waiting := by
  obtain ⟨p, _, rfl, _, _, hrun₁⟩ := claim_eq_some hc
  obtain ⟨_, _, _, _, _, _, _, hrun₂⟩ := finish_eq_some hf
  rw [hrun, List.nil_append] at hrun₁
  have hempty : q₂.running = [] := by
    rw [hrun₂, hrun₁]
    simp
  have hclaim := (outstanding_claim hc).1
  have hfinish := (outstanding_finish (by rw [hrun₁]; exact List.nodup_singleton _) hf).1
  simp only [outstanding, hrun, hempty, List.length_nil, Nat.add_zero] at hclaim hfinish
  exact ⟨hempty, by rw [waiting, waiting, hfinish, hclaim]⟩

/-- Every claim takes one entry off, and none is left running. -/
theorem Drains.waiting_add {n : Nat} {q' : Queue} (h : Drains q n q') (hrun : q.running = []) :
    q'.running = [] ∧ q'.waiting + n = q.waiting := by
  induction h with
  | done q => exact ⟨hrun, rfl⟩
  | step hc hf _ ih =>
    obtain ⟨hrun₂, hw⟩ := drain_step hrun hc hf
    obtain ⟨hrun', hw'⟩ := ih hrun₂
    exact ⟨hrun', by omega⟩

theorem exists_drains (hrun : q.running = []) : ∃ q', Drains q q.waiting q' := by
  induction hn : q.waiting generalizing q with
  | zero => exact ⟨q, .done q⟩
  | succ n ih =>
    obtain ⟨s, hs⟩ := exists_claimable hrun (by omega)
    rw [← isSome_claim] at hs
    obtain ⟨⟨cl, q₁⟩, hc⟩ := Option.isSome_iff_exists.mp hs
    obtain ⟨p, _, rfl, _, _, hrun₁⟩ := claim_eq_some hc
    have hmem : ⟨p.key, s, p.task.members, false⟩ ∈ q₁.running := by
      rw [hrun₁]
      exact List.mem_append_right _ (List.mem_singleton_self _)
    obtain ⟨f, q₂, hf⟩ := finish_of_mem hmem
    obtain ⟨hrun₂, hw⟩ := drain_step hrun hc hf
    obtain ⟨q', hd⟩ := ih hrun₂ (by omega)
    exact ⟨q', .step hc hf hd⟩

theorem finish_each (ks : List TaskKey) (q : Queue) :
    ((ks.map Call.finish).foldl perform q).pending = q.pending ∧
      ((ks.map Call.finish).foldl perform q).running = q.running.filter (·.key ∉ ks) := by
  induction ks generalizing q with
  | nil => exact ⟨rfl, by simp⟩
  | cons k ks ih =>
    have hone : (q.perform (.finish k)).pending = q.pending ∧
        (q.perform (.finish k)).running = q.running.filter (·.key ≠ k) := by
      rw [perform]
      cases hf : q.finish k with
      | none =>
        refine ⟨rfl, (List.filter_eq_self.mpr fun (r : Running) (hr : r ∈ q.running) => ?_).symm⟩
        refine decide_eq_true fun hk => ?_
        obtain ⟨f, q', hsome⟩ := finish_of_mem hr
        rw [hk, hf] at hsome
        cases hsome
      | some found =>
        obtain ⟨_, _, _, _, _, _, hpend, hrun⟩ := finish_eq_some hf
        exact ⟨hpend, hrun⟩
    obtain ⟨hpend, hrun⟩ := ih (q.perform (.finish k))
    refine ⟨hpend.trans hone.1, hrun.trans ?_⟩
    rw [hone.2, List.filter_filter]
    refine List.filter_congr fun r _ => ?_
    simp [Bool.and_comm]

/-! ### The discipline -/

/-- What the queue keeps to after `cs`. -/
structure Discipline (cs : List Call) : Prop where
  claim_iff : ∀ s, ((afterCalls cs).claim s).isSome = (afterCalls cs).hasClaimable s
  /-- The entry handed out is pending and does not run, and it waited longest of all such entries. -/
  longest : ∀ s cl q', (afterCalls cs).claim s = some (cl, q') → cl.scope = s ∧
    ⟨cl.key, cl.task⟩ ∈ (afterCalls cs).pending.get s ∧
    cl.key ∉ (afterCalls cs).running.map (·.key) ∧
    ∀ k ∈ (afterCalls cs).pendingKeys s, k ∉ (afterCalls cs).running.map (·.key) → k ≠ cl.key →
      waited s cs k < waited s cs cl.key
  /-- It is handed out with the newest task of its key. -/
  current : ∀ s, ∀ p ∈ (afterCalls cs).pending.get s, newest s cs p.key = some p.task
  /-- An addition leaves every pending key in its place and puts new keys behind them. -/
  place : ∀ scope tasks s, (afterCalls (cs ++ [.add scope tasks])).pendingKeys s =
    (afterCalls cs).pendingKeys s ++ Call.created s (afterCalls cs) (.add scope tasks)
  /-- Between two claims of one key its build is ended. -/
  once : ∀ pre s post, cs = pre ++ .claim s :: post →
    ∀ cl q', (afterCalls pre).claim s = some (cl, q') →
    ∀ s' cl' q'', (afterCalls cs).claim s' = some (cl', q'') → cl'.key = cl.key →
      .finish cl.key ∈ post
  /-- A project entry is handed out only when every system entry ever created is dropped or ended. -/
  gated : ∀ cl q', (afterCalls cs).claim .project = some (cl, q') → (arrivals .system cs).Perm
    (gather (Call.discarded .system) empty cs ++ gather (Call.completed .system) empty cs)
  /-- Something pending with nothing running can be claimed. -/
  progress : (afterCalls cs).waiting ≠ 0 → (afterCalls cs).running = [] →
    ∃ s, (afterCalls cs).hasClaimable s = true
  /-- When all running builds are finished, in any order, workers that claim and finish whatever they
  can get empty the queue with one claim for each pending entry. -/
  drains : ∀ ks : List TaskKey, (∀ r ∈ (afterCalls cs).running, r.key ∈ ks) →
    (∃ q', Drains (afterCalls (cs ++ ks.map .finish)) (afterCalls cs).waiting q') ∧
    ∀ n q', Drains (afterCalls (cs ++ ks.map .finish)) n q' →
      n ≤ (afterCalls cs).waiting ∧ ((∀ s, q'.claim s = none) → n = (afterCalls cs).waiting) ∧
      (n = (afterCalls cs).waiting →
        q'.pending.system = [] ∧ q'.pending.project = [] ∧ q'.running = [])

theorem projectBlocked_of_claim {q' : Queue} {cl : Claimed} (h : q.claim .project = some (cl, q')) :
    q.projectBlocked = false := by
  rw [claim] at h
  split at h
  · cases h
  · rename_i hb
    exact Bool.eq_false_iff.mpr hb

theorem not_blocked_of_claim {q' : Queue} {cl : Claimed} (h : q.claim .project = some (cl, q')) :
    q.pendingKeys .system ++ q.runningKeys .system = [] := by
  have hfree := projectBlocked_of_claim h
  rw [projectBlocked, Bool.or_eq_false_iff] at hfree
  obtain ⟨hpend, hrun⟩ := hfree
  have hpend : q.pending.system = [] := by simpa using hpend
  have hrun : q.running.filter (·.scope = .system) = [] :=
    List.filter_eq_nil_iff.mpr (by simpa using hrun)
  rw [runningKeys, hrun, pendingKeys]
  exact congrArg (·.map Pending.key ++ []) hpend

/-- The entry that a claim hands out precedes all other entries that are free. -/
theorem longest_waiting {q' : Queue} {cl : Claimed} (h : (afterCalls cs).claim s = some (cl, q'))
    {k : TaskKey} (hk : k ∈ (afterCalls cs).pendingKeys s)
    (hfree : k ∉ (afterCalls cs).running.map (·.key)) (hne : k ≠ cl.key) :
    waited s cs k < waited s cs cl.key := by
  obtain ⟨_, _, before, behind, heq, hbefore⟩ := first_of_claim h
  have horder := pairwise_waited s cs
  obtain ⟨p, hp, rfl⟩ := List.mem_map.mp hk
  rw [pendingKeys, heq, List.map_append, List.map_cons] at horder
  rw [heq] at hp
  rcases List.mem_append.mp hp with hp | hp
  · exact absurd (hbefore p hp) hfree
  · rcases List.mem_cons.mp hp with rfl | hp
    · exact absurd rfl hne
    · exact List.rel_of_pairwise_cons (List.pairwise_append.mp horder).2.1 (List.mem_map_of_mem hp)

theorem finish_between {pre post : List Call} {s s' : Scope} {q' q'' : Queue} {cl cl' : Claimed}
    (h : (afterCalls pre).claim s = some (cl, q'))
    (h' : (afterCalls (pre ++ .claim s :: post)).claim s' = some (cl', q''))
    (hk : cl'.key = cl.key) : .finish cl.key ∈ post := by
  by_contra hf
  obtain ⟨p, _, rfl, _, _, hrun⟩ := claim_eq_some h
  have hperform : (afterCalls pre).perform (.claim s) = q' := by
    rw [perform, h]
    rfl
  have hstart : p.key ∈ q'.running.map (·.key) := by
    rw [hrun, List.map_append]
    exact List.mem_append_right _ (List.mem_singleton_self _)
  have hstill := running_until post hstart hf
  rw [← hperform] at hstill
  refine (first_of_claim h').2.1 ?_
  rw [hk, afterCalls, List.foldl_append]
  exact hstill

/-- After every running build is finished, the pending entries are what is left. -/
theorem settled {ks : List TaskKey} (hks : ∀ r ∈ (afterCalls cs).running, r.key ∈ ks) :
    (afterCalls (cs ++ ks.map .finish)).running = [] ∧
      (afterCalls (cs ++ ks.map .finish)).waiting = (afterCalls cs).waiting := by
  obtain ⟨hpend, hrun⟩ := finish_each ks (afterCalls cs)
  have hfold : afterCalls (cs ++ ks.map .finish) = (ks.map Call.finish).foldl perform (afterCalls cs) :=
    List.foldl_append
  rw [hfold, waiting, hpend, hrun]
  exact ⟨List.filter_eq_nil_iff.mpr fun r hr => by simpa using hks r hr, rfl⟩

theorem drained {ks : List TaskKey} (hks : ∀ r ∈ (afterCalls cs).running, r.key ∈ ks) {n : Nat}
    {q' : Queue} (hd : Drains (afterCalls (cs ++ ks.map .finish)) n q') :
    n ≤ (afterCalls cs).waiting ∧ ((∀ s, q'.claim s = none) → n = (afterCalls cs).waiting) ∧
      (n = (afterCalls cs).waiting →
        q'.pending.system = [] ∧ q'.pending.project = [] ∧ q'.running = []) := by
  obtain ⟨hrun, hw⟩ := settled hks
  obtain ⟨hrun', hw'⟩ := hd.waiting_add hrun
  refine ⟨by omega, fun hstuck => ?_, fun hn => ?_⟩
  · by_contra hne
    obtain ⟨s, hs⟩ := exists_claimable hrun' (by omega)
    rw [← isSome_claim, hstuck s] at hs
    cases hs
  · have hempty : q'.waiting = 0 := by omega
    rw [waiting, Nat.add_eq_zero_iff, List.length_eq_zero_iff, List.length_eq_zero_iff] at hempty
    exact ⟨hempty.1, hempty.2, hrun'⟩

/-- After any calls, in any order, claims keep to the order of waiting, and nothing is stranded. -/
theorem discipline (cs : List Call) : Discipline cs where
  claim_iff := isSome_claim (afterCalls cs)
  longest s cl q' h := by
    obtain ⟨hscope, hfree, before, behind, heq, _⟩ := first_of_claim h
    refine ⟨hscope, ?_, hfree, fun k hk hkfree hne => longest_waiting h hk hkfree hne⟩
    rw [heq]
    exact List.mem_append_right _ List.mem_cons_self
  current s := (agrees_newest s cs).held
  place scope tasks s := by
    rw [afterCalls_append]
    exact pendingKeys_add _ scope s tasks
  once pre s post hcs cl q' h s' cl' q'' h' hk := finish_between h (hcs ▸ h') hk
  gated cl q' h := by
    have hall := entries_account cs .system
    rwa [not_blocked_of_claim h, List.nil_append] at hall
  progress hw hrun := exists_claimable hrun hw
  drains ks hks := by
    obtain ⟨hrun, hw⟩ := settled hks
    exact ⟨hw ▸ exists_drains hrun, fun n q' hd => drained hks hd⟩

end PrecompiledHeaders.Queue
