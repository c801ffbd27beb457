import PrecompiledHeaders.Proofs.Queue.Waiting
/-! Retraction. A removal drops the pending entries that it names and marks the builds that it names.
The mark follows the build and not the key: at its end a build bears it exactly if a removal named
the key since the build was claimed, and whatever became of the key meanwhile has no part in it. -/
namespace PrecompiledHeaders.Queue

variable {q : Queue} {s : Scope} {k : TaskKey} {c : Call} {cs pre post : List Call}

/-! ### A build and its mark -/

/-- The call is a removal that names the key. -/
def Call.retracts (k : TaskKey) : Call → Bool
  | .remove _ keys => k ∈ keys
  | _ => false

theorem Call.retracts_iff : c.retracts k = true ↔ ∃ scope keys, c = .remove scope keys ∧ k ∈ keys := by
  cases c <;> simp [retracts]

/-- The build of `k` that was claimed from `s` after `pre` has not ended in `post`. -/
structure BuildSince (s : Scope) (k : TaskKey) (pre post : List Call) : Prop where
  claimed : ∃ cl q, (afterCalls pre).claim s = some (cl, q) ∧ cl.key = k
  unended : .finish k ∉ post

theorem retracted_take (r : Running) (d : Dispatch) :
    (r.take d).retracted = (r.retracted || decide (r.key ∈ d.retracts)) := by
  cases d with
  | add s tasks => simp [Running.take, Dispatch.retracts]
  | update s tasks =>
    obtain ⟨members, he⟩ := Running.foldl_resize s tasks r
    simp [Running.take, he, Dispatch.retracts]
  | remove s keys =>
    rw [Running.take, Dispatch.retracts]
    split <;> rename_i hk
    · simp [hk]
    · simp [hk]

/-- Over a call that does not end it, a build keeps its key and scope, and it is marked by a removal
that names it. -/
theorem runs_perform {r : Running} (hr : r ∈ q.running) (hc : c ≠ .finish r.key) :
    ∃ r' ∈ (q.perform c).running, r'.key = r.key ∧ r'.scope = r.scope ∧
      r'.retracted = (r.retracted || c.retracts r.key) := by
  have happly : ∀ d, ∃ r' ∈ (q.apply d).running, r'.key = r.key ∧ r'.scope = r.scope ∧
      r'.retracted = (r.retracted || decide (r.key ∈ d.retracts)) := fun d => by
    rw [running_apply]
    exact ⟨r.take d, List.mem_map_of_mem hr, (r.take_same d).1, (r.take_same d).2.1,
      retracted_take r d⟩
  have hsame : r ∈ (q.perform c).running → c.retracts r.key = false →
      ∃ r' ∈ (q.perform c).running, r'.key = r.key ∧ r'.scope = r.scope ∧
        r'.retracted = (r.retracted || c.retracts r.key) := fun h hm =>
    ⟨r, h, rfl, rfl, by rw [hm, Bool.or_false]⟩
  cases c with
  | add scope tasks => exact happly (.add scope tasks)
  | update scope tasks => exact happly (.update scope tasks)
  | remove scope keys => exact happly (.remove scope keys)
  | claim scope =>
    refine hsame ?_ rfl
    rw [perform]
    cases hc : q.claim scope with
    | none => exact hr
    | some found =>
      obtain ⟨_, _, _, _, _, hrun⟩ := claim_eq_some hc
      simp only [Option.map_some, Option.getD_some, hrun]
      exact List.mem_append_left _ hr
  | finish j =>
    refine hsame ?_ rfl
    have hj : r.key ≠ j := fun h => hc (h ▸ rfl)
    rw [perform]
    cases hf : q.finish j with
    | none => exact hr
    | some found =>
      obtain ⟨_, _, _, _, _, _, _, hrun⟩ := finish_eq_some hf
      simp only [Option.map_some, Option.getD_some, hrun]
      exact List.mem_filter.mpr ⟨hr, decide_eq_true hj⟩
  | reported => exact hsame hr rfl

theorem runs_after {r : Running} (hr : r ∈ q.running) (hf : .finish r.key ∉ cs) :
    ∃ r' ∈ (cs.foldl perform q).running, r'.key = r.key ∧ r'.scope = r.scope ∧
      r'.retracted = (r.retracted || cs.any (·.retracts r.key)) := by
  induction cs generalizing q r with
  | nil => exact ⟨r, hr, rfl, rfl, by simp⟩
  | cons c cs ih =>
    obtain ⟨r₁, hr₁, hk₁, hs₁, hm₁⟩ := runs_perform hr fun h => hf (h ▸ List.mem_cons_self)
    obtain ⟨r', hr', hk, hs, hm⟩ := ih hr₁ fun h => hf (List.mem_cons_of_mem _ (hk₁ ▸ h))
    refine ⟨r', hr', hk.trans hk₁, hs.trans hs₁, ?_⟩
    rw [hm, hm₁, hk₁, List.any_cons, Bool.or_assoc]

/-- The other way round: what runs after a call ran before it, or the call claimed it. -/
theorem runs_of_perform {r' : Running} (hr : r' ∈ (q.perform c).running) :
    (c ≠ .finish r'.key ∧ ∃ r ∈ q.running, r.key = r'.key ∧ r.scope = r'.scope) ∨
      (c = .claim r'.scope ∧ ∃ cl q', q.claim r'.scope = some (cl, q') ∧ cl.key = r'.key) := by
  have happly : ∀ d : Dispatch, r' ∈ (q.apply d).running →
      ∃ r ∈ q.running, r.key = r'.key ∧ r.scope = r'.scope := fun d h => by
    rw [running_apply] at h
    obtain ⟨r, hr₀, rfl⟩ := List.mem_map.mp h
    exact ⟨r, hr₀, (r.take_same d).1.symm, (r.take_same d).2.1.symm⟩
  cases c with
  | add scope tasks => exact Or.inl ⟨Call.noConfusion, happly (.add scope tasks) hr⟩
  | update scope tasks => exact Or.inl ⟨Call.noConfusion, happly (.update scope tasks) hr⟩
  | remove scope keys => exact Or.inl ⟨Call.noConfusion, happly (.remove scope keys) hr⟩
  | claim scope =>
    rw [perform] at hr
    cases hc : q.claim scope with
    | none =>
      rw [hc] at hr
      exact Or.inl ⟨Call.noConfusion, r', hr, rfl, rfl⟩
    | some found =>
      obtain ⟨p, _, hcl, _, _, hrun⟩ := claim_eq_some hc
      simp only [hc, Option.map_some, Option.getD_some, hrun] at hr
      rcases List.mem_append.mp hr with hr | hr
      · exact Or.inl ⟨Call.noConfusion, r', hr, rfl, rfl⟩
      · obtain rfl := List.mem_singleton.mp hr
        exact Or.inr ⟨rfl, found.1, found.2, hc, by rw [hcl]⟩
  | finish j =>
    rw [perform] at hr
    cases hf : q.finish j with
    | none =>
      rw [hf] at hr
      refine Or.inl ⟨fun h => ?_, r', hr, rfl, rfl⟩
      obtain ⟨f, q', hsome⟩ := finish_of_mem (q := q) hr
      rw [← Call.finish.inj h, hf] at hsome
      cases hsome
    | some found =>
      obtain ⟨_, _, _, _, _, _, _, hrun⟩ := finish_eq_some hf
      simp only [hf, Option.map_some, Option.getD_some, hrun] at hr
      obtain ⟨hr, hj⟩ := List.mem_filter.mp hr
      exact Or.inl ⟨fun h => of_decide_eq_true hj (Call.finish.inj h).symm, r', hr, rfl, rfl⟩
  | reported => exact Or.inl ⟨Call.noConfusion, r', hr, rfl, rfl⟩

/-- Whatever runs was claimed, and not ended since. -/
theorem exists_claim (cs : List Call) : ∀ r ∈ (afterCalls cs).running,
    ∃ pre post, cs = pre ++ .claim r.scope :: post ∧ BuildSince r.scope r.key pre post := by
  induction cs using List.reverseRecOn with
  | nil => exact fun r hr => absurd hr List.not_mem_nil
  | append_singleton cs c ih =>
    intro r' hr'
    rw [afterCalls_append] at hr'
    rcases runs_of_perform hr' with ⟨hf, r, hr, hk, hs⟩ | ⟨rfl, hclaim⟩
    · obtain ⟨pre, post, rfl, hclaimed, hunended⟩ := ih r hr
      rw [hk, hs] at hclaimed
      rw [hk] at hunended
      refine ⟨pre, post ++ [c], by simp [hs], hclaimed, fun h => ?_⟩
      rcases List.mem_append.mp h with h | h
      · exact hunended h
      · exact hf (List.mem_singleton.mp h).symm
    · exact ⟨cs, [], rfl, hclaim, List.not_mem_nil⟩

/-- The end of a build tells whether a removal named it since it was claimed. -/
theorem BuildSince.finish (h : BuildSince s k pre post) :
    ∃ f q, (afterCalls (pre ++ .claim s :: post)).finish k = some (f, q) ∧ f.scope = s ∧
      f.retracted = post.any (·.retracts k) := by
  obtain ⟨⟨cl, q, hclaim, rfl⟩, hunended⟩ := h
  obtain ⟨p, _, rfl, _, _, hrun⟩ := claim_eq_some hclaim
  have hstart : ⟨p.key, s, p.task.members, false⟩ ∈ q.running := by
    rw [hrun]
    exact List.mem_append_right _ (List.mem_singleton_self _)
  obtain ⟨r, hr, hk, hs, hm⟩ := runs_after hstart hunended
  dsimp only at hk hs hm ⊢
  have hafter : afterCalls (pre ++ .claim s :: post) = post.foldl perform q := by
    rw [afterCalls, List.foldl_append, List.foldl_cons, ← afterCalls, perform, hclaim]
    rfl
  rw [← hafter] at hr
  obtain ⟨f, q', hf⟩ := finish_of_mem hr
  obtain ⟨r', hr', hk', hscope, hret, _⟩ := finish_eq_some hf
  have hone : r' = r :=
    List.inj_on_of_nodup_map (balanced (pre ++ .claim s :: post)).running hr' hr hk'
  refine ⟨f, q', hk ▸ hf, ?_, ?_⟩
  · rw [hscope, hone, hs]
  · rw [hret, hone, hm, Bool.false_or]

/-! ### An entry and its creation -/

/-- The entry of `k` that `c` created after `pre` is pending all through `post`. -/
structure WaitsSince (s : Scope) (k : TaskKey) (pre : List Call) (c : Call) (post : List Call) :
    Prop where
  created : k ∈ c.created s (afterCalls pre)
  pending : ∀ mid rest, post = mid ++ rest → k ∈ (afterCalls (pre ++ c :: mid)).pendingKeys s

theorem WaitsSince.snoc {d : Call} (h : WaitsSince s k pre c post)
    (hd : k ∈ (afterCalls (pre ++ c :: (post ++ [d]))).pendingKeys s) :
    WaitsSince s k pre c (post ++ [d]) := by
  refine ⟨h.created, fun mid rest hsplit => ?_⟩
  rcases List.eq_nil_or_concat rest with rfl | ⟨rest, e, rfl⟩
  · rw [List.append_nil] at hsplit
    exact hsplit ▸ hd
  · rw [List.concat_eq_append, ← List.append_assoc] at hsplit
    exact h.pending mid rest (List.append_inj_left' hsplit rfl)

/-- A key that was not pending is pending later only as a new entry. -/
theorem waits_of_absent (h : k ∉ (afterCalls cs).pendingKeys s) (post : List Call)
    (hk : k ∈ (afterCalls (cs ++ post)).pendingKeys s) :
    ∃ mid c rest, post = mid ++ c :: rest ∧ WaitsSince s k (cs ++ mid) c rest := by
  induction post using List.reverseRecOn with
  | nil =>
    rw [List.append_nil] at hk
    exact absurd hk h
  | append_singleton post c ih =>
    obtain ⟨kept, hkept, hkeys⟩ := pendingKeys_perform (afterCalls (cs ++ post)) c s
    have hnow := hk
    rw [← List.append_assoc, afterCalls_append, hkeys] at hk
    rcases List.mem_append.mp hk with hold | hnew
    · obtain ⟨mid, d, rest, rfl, hwaits⟩ := ih (hkept.subset hold)
      refine ⟨mid, d, rest ++ [c], by simp, hwaits.snoc ?_⟩
      simpa using hnow
    · refine ⟨post, c, [], rfl, hnew, fun mid rest hsplit => ?_⟩
      obtain ⟨rfl, rfl⟩ := List.append_eq_nil_iff.mp hsplit.symm
      simpa using hnow

theorem not_mem_pendingKeys_remove {keys : List TaskKey} (hk : k ∈ keys) :
    k ∉ (q.perform (.remove s keys)).pendingKeys s := by
  rw [pendingKeys_remove]
  exact fun h => of_decide_eq_true (List.mem_filter.mp h).2 ⟨rfl, hk⟩

theorem mem_pendingKeys_of_claim {q' : Queue} {cl : Claimed} (h : q.claim s = some (cl, q')) :
    cl.key ∈ q.pendingKeys s := by
  obtain ⟨p, hp, rfl, _⟩ := claim_eq_some h
  exact List.mem_map_of_mem hp

/-! ### The whole -/

/-- What a removal does, and what it does not, after `cs`. -/
structure Retraction (cs : List Call) : Prop where
  /-- Whatever ends was claimed, and it is void exactly if a removal named it since then. -/
  ended : ∀ k f q, (afterCalls cs).finish k = some (f, q) → ∃ pre post,
    cs = pre ++ .claim f.scope :: post ∧ BuildSince f.scope k pre post ∧
    (f.retracted = true ↔ ∃ scope keys, .remove scope keys ∈ post ∧ k ∈ keys)
  /-- Every build can be ended, and no call before its claim has a say in whether it is void. -/
  marked : ∀ pre s post, cs = pre ++ .claim s :: post → ∀ k, BuildSince s k pre post →
    ∃ f q, (afterCalls cs).finish k = some (f, q) ∧ f.scope = s ∧
      (f.retracted = true ↔ ∃ scope keys, .remove scope keys ∈ post ∧ k ∈ keys)
  /-- After a removal in its scope a key is handed out only as an entry that was created later. -/
  dropped : ∀ pre s keys post, cs = pre ++ .remove s keys :: post →
    ∀ cl q, (afterCalls cs).claim s = some (cl, q) → cl.key ∈ keys → ∃ mid c rest,
      post = mid ++ c :: rest ∧ WaitsSince s cl.key (pre ++ .remove s keys :: mid) c rest
  /-- The result is the number of entries dropped. -/
  counted : ∀ s keys, ((afterCalls cs).remove s keys).1 =
    ((afterCalls cs).pending.get s).countP (·.key ∈ keys)
  /-- All other entries stay, in their order, and all other builds stay as they are. -/
  kept : ∀ s keys,
    ((afterCalls cs).remove s keys).2.pending.get s =
      ((afterCalls cs).pending.get s).filter (·.key ∉ keys) ∧
    (∀ s', s' ≠ s → ((afterCalls cs).remove s keys).2.pending.get s' =
      (afterCalls cs).pending.get s') ∧
    ((afterCalls cs).remove s keys).2.running = (afterCalls cs).running.map fun r =>
      if r.key ∈ keys then { r with retracted := true } else r

theorem any_retracts : post.any (·.retracts k) = true ↔
    ∃ scope keys, .remove scope keys ∈ post ∧ k ∈ keys := by
  simp only [List.any_eq_true, Call.retracts_iff]
  constructor
  · rintro ⟨_, hc, scope, keys, rfl, hk⟩
    exact ⟨scope, keys, hc, hk⟩
  · rintro ⟨scope, keys, hc, hk⟩
    exact ⟨_, hc, scope, keys, rfl, hk⟩

/-- After any calls, in any order, retraction is exact. -/
theorem retraction (cs : List Call) : Retraction cs where
  ended k f q hf := by
    obtain ⟨r, hr, rfl, hs, _⟩ := finish_eq_some hf
    obtain ⟨pre, post, hcs, hsince⟩ := exists_claim cs r hr
    obtain ⟨f', q', hf', _, hret⟩ := hsince.finish
    rw [← hcs, hf] at hf'
    obtain ⟨rfl, _⟩ := Prod.mk.inj (Option.some.inj hf')
    rw [← hs] at hcs hsince
    exact ⟨pre, post, hcs, hsince, by rw [hret, any_retracts]⟩
  marked pre s post hcs k hsince := by
    obtain ⟨f, q, hf, hs, hret⟩ := hsince.finish
    exact ⟨f, q, hcs ▸ hf, hs, by rw [hret, any_retracts]⟩
  dropped pre s keys post hcs cl q hclaim hk := by
    have habsent : cl.key ∉ (afterCalls (pre ++ [.remove s keys])).pendingKeys s := by
      rw [afterCalls_append]
      exact not_mem_pendingKeys_remove hk
    have hsplit : cs = pre ++ [.remove s keys] ++ post := by simp [hcs]
    have hpending := mem_pendingKeys_of_claim hclaim
    rw [hsplit] at hpending
    obtain ⟨mid, c, rest, hpost, hwaits⟩ := waits_of_absent habsent post hpending
    exact ⟨mid, c, rest, hpost, by simpa using hwaits⟩
  counted s keys := by
    have hlength := List.length_eq_countP_add_countP (fun p : Pending => decide (p.key ∈ keys))
      (l := (afterCalls cs).pending.get s)
    have hkept : ((afterCalls cs).pending.get s).countP (fun p => decide (p.key ∉ keys)) =
        ((afterCalls cs).pending.get s).countP fun p => ¬ decide (p.key ∈ keys) = true :=
      List.countP_congr fun p _ => by simp
    simp only [remove, ← List.countP_eq_length_filter]
    omega
  kept s keys := by
    have hpending := pending_apply (afterCalls cs) (.remove s keys)
    refine ⟨?_, fun s' hs => ?_, ?_⟩
    · have h := hpending s
      rw [takePending, if_pos rfl] at h
      exact h
    · have h := hpending s'
      rw [takePending, if_neg hs.symm] at h
      exact h
    · exact running_apply (afterCalls cs) (.remove s keys)

end PrecompiledHeaders.Queue
