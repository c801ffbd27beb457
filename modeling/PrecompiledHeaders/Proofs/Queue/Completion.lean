import PrecompiledHeaders.Proofs.Queue.Instructions
/-! The merger with the queue behind it. Moves come in any order: calls of the merger, which the
queue is told of at once, workers that claim entries and end builds, and reports. A key can be
pending while an older build of it runs, and the task behind a running key may shrink, go, or come
back. Nothing is lost by that: once the queue is empty, every merged task was built as it is. -/
namespace PrecompiledHeaders

open Merger (after replayed names_of_after mirrors_replayed turn notes headerTask headerTasks
  admissible_headers absorb)

inductive Move where
  | call (c : MergerCall)
  | claim (scope : Scope)
  | finish (key : TaskKey)
  | reported
  deriving DecidableEq, Repr

/-! ### What workers do to the queue -/

namespace Queue

theorem claim_eq_some {q q' : Queue} {scope : Scope} {cl : Claimed}
    (h : q.claim scope = some (cl, q')) : ∃ p ∈ q.pending.get scope,
      cl = ⟨p.key, scope, p.task⟩ ∧ p.key ∉ q.running.map (·.key) ∧
      q'.pending = q.pending.modify scope (·.erase p) ∧
      q'.running = q.running ++ [⟨p.key, scope, p.task.members, false⟩] := by
  rw [claim] at h
  split at h
  · cases h
  · cases hf : (q.pending.get scope).find? q.claimable with
    | none => simp [hf] at h
    | some p =>
      rw [hf] at h
      obtain ⟨rfl, rfl⟩ := Prod.mk.inj (Option.some.inj h)
      refine ⟨p, List.mem_of_find?_eq_some hf, rfl, ?_, rfl, rfl⟩
      have hc := List.find?_some hf
      simpa [claimable, isRunning] using hc

theorem finish_eq_some {q q' : Queue} {k : TaskKey} {f : Finished}
    (h : q.finish k = some (f, q')) : ∃ r ∈ q.running, r.key = k ∧ f.scope = r.scope ∧
      f.retracted = r.retracted ∧ f.members = r.members ∧ q'.pending = q.pending ∧
      q'.running = q.running.filter (·.key ≠ k) := by
  rw [finish] at h
  cases hf : q.running.find? (·.key = k) with
  | none => simp [hf] at h
  | some r =>
    rw [hf] at h
    obtain ⟨rfl, rfl⟩ := Prod.mk.inj (Option.some.inj h)
    exact ⟨r, List.mem_of_find?_eq_some hf, by simpa using List.find?_some hf, rfl, rfl, rfl, rfl,
      rfl⟩

theorem finish_of_mem {q : Queue} {r : Running} (hr : r ∈ q.running) :
    ∃ f q', q.finish r.key = some (f, q') := by
  rw [finish]
  cases hf : q.running.find? (·.key = r.key) with
  | none => simpa using List.find?_eq_none.mp hf r hr
  | some u => exact ⟨_, _, rfl⟩

end Queue

/-! ### Moves in any order -/

/-- The merger, and the queue that takes its dispatches. -/
structure Workflow where
  merger : Merger
  queue : Queue
  deriving DecidableEq, Repr

namespace Workflow

def empty : Workflow := ⟨.empty, .empty⟩

def next (w : Workflow) : Move → Workflow
  | .call c => ⟨(w.merger.call c).1, w.queue.applyAll (w.merger.call c).2⟩
  | .claim scope =>
    match w.queue.claim scope with
    | some (_, q) => { w with queue := q }
    | none => w
  | .finish k =>
    match w.queue.finish k with
    | some (_, q) => { w with queue := q }
    | none => w
  | .reported => { w with queue := w.queue.reported }

def run (es : List Move) : Workflow := es.foldl next empty

theorem run_append (es : List Move) (e : Move) : run (es ++ [e]) = (run es).next e := by
  simp [run]

/-- The calls among the moves. -/
def calls (es : List Move) : List MergerCall :=
  es.filterMap fun
    | .call c => some c
    | _ => none

theorem calls_append (es others : List Move) : calls (es ++ others) = calls es ++ calls others :=
  List.filterMap_append

@[simp] theorem calls_call (es : List Move) (c : MergerCall) :
    calls (es ++ [.call c]) = calls es ++ [c] := by
  simp [calls]

@[simp] theorem calls_claim (es : List Move) (scope : Scope) :
    calls (es ++ [.claim scope]) = calls es := by
  simp [calls]

@[simp] theorem calls_finish (es : List Move) (k : TaskKey) :
    calls (es ++ [.finish k]) = calls es := by
  simp [calls]

@[simp] theorem calls_reported (es : List Move) : calls (es ++ [.reported]) = calls es := by
  simp [calls]

theorem run_merger (es : List Move) : (run es).merger = after (calls es) := by
  induction es using List.reverseRecOn with
  | nil => rfl
  | append_singleton es e ih =>
    rw [run_append]
    cases e with
    | call c => rw [calls_call, Merger.after_append, ← ih, next]
    | claim scope =>
      rw [calls_claim, ← ih, next]
      split <;> rfl
    | finish k =>
      rw [calls_finish, ← ih, next]
      split <;> rfl
    | reported => rw [calls_reported, ← ih, next]

theorem run_call (es : List Move) (c : MergerCall) : (run (es ++ [.call c])).queue =
    (run es).queue.applyAll ((after (calls es)).call c).2 := by
  rw [run_append, next, run_merger]

theorem run_reported (es : List Move) :
    (run (es ++ [.reported])).queue.pending = (run es).queue.pending ∧
      (run (es ++ [.reported])).queue.running = (run es).queue.running := by
  rw [run_append]
  exact ⟨rfl, rfl⟩

/-- A claim leaves everything as it is, or takes an entry whose key does not run. -/
theorem run_claim (es : List Move) (scope : Scope) :
    ((run es).queue.claim scope = none ∧ run (es ++ [.claim scope]) = run es) ∨
    ∃ p ∈ (run es).queue.pending.get scope, p.key ∉ (run es).queue.running.map (·.key) ∧
      (∃ q, (run es).queue.claim scope = some (⟨p.key, scope, p.task⟩, q)) ∧
      (run (es ++ [.claim scope])).queue.pending =
        (run es).queue.pending.modify scope (·.erase p) ∧
      (run (es ++ [.claim scope])).queue.running =
        (run es).queue.running ++ [⟨p.key, scope, p.task.members, false⟩] := by
  rw [run_append, next]
  cases hc : (run es).queue.claim scope with
  | none => exact Or.inl ⟨rfl, rfl⟩
  | some found =>
    obtain ⟨cl, q⟩ := found
    obtain ⟨p, hp, rfl, hfree, hpend, hrun⟩ := Queue.claim_eq_some hc
    exact Or.inr ⟨p, hp, hfree, ⟨q, rfl⟩, hpend, hrun⟩

/-- The end of a build takes the entry of this key off, if there is one. -/
theorem run_finish (es : List Move) (k : TaskKey) :
    (run (es ++ [.finish k])).queue.pending = (run es).queue.pending ∧
      (run (es ++ [.finish k])).queue.running =
        (run es).queue.running.filter (·.key ≠ k) := by
  rw [run_append, next]
  cases hf : (run es).queue.finish k with
  | none =>
    refine ⟨rfl, (List.filter_eq_self.mpr fun r hr => ?_).symm⟩
    rw [decide_eq_true_eq]
    rintro rfl
    obtain ⟨f, q, he⟩ := Queue.finish_of_mem hr
    rw [hf] at he
    cases he
  | some found =>
    obtain ⟨f, q⟩ := found
    obtain ⟨_, _, _, _, _, _, hpend, hrun⟩ := Queue.finish_eq_some hf
    exact ⟨hpend, hrun⟩

/-! ### Entries and merged tasks -/

/-- Pending entries are what a sink holds, and every key runs once and was handed in. -/
structure Consistent (es : List Move) : Prop where
  pending : ∀ scope, Queue.Agrees ((run es).queue.pending.get scope) (replayed scope (calls es))
  running : ((run es).queue.running.map (·.key)).Nodup
  known : ∀ r ∈ (run es).queue.running, ∃ u, Names (calls es) r.scope u ∧ u.key r.scope = r.key

variable {es : List Move}

theorem consistent_nil : Consistent [] := by
  refine ⟨fun scope => ?_, List.nodup_nil, fun r hr => absurd hr List.not_mem_nil⟩
  cases scope <;> exact ⟨List.nodup_nil, fun e he => absurd he List.not_mem_nil⟩

theorem Consistent.call (h : Consistent es) (c : MergerCall) : Consistent (es ++ [.call c]) := by
  constructor
  · intro scope
    rw [run_call, Queue.pending_applyAll, calls_call, Merger.replayed_append]
    exact (h.pending scope).foldl_take _
  · rw [run_call, Queue.running_applyAll, List.map_map]
    have hkeys : ((·.key) ∘ fun r : Running => ((after (calls es)).call c).2.foldl Running.take r) =
        (·.key) := funext fun r => (r.foldl_take_same _).1
    rw [hkeys]
    exact h.running
  · intro r hr
    rw [run_call, Queue.running_applyAll] at hr
    obtain ⟨r₀, hr₀, rfl⟩ := List.mem_map.mp hr
    obtain ⟨hk, hs, _⟩ := r₀.foldl_take_same ((after (calls es)).call c).2
    obtain ⟨u, hu, he⟩ := h.known r₀ hr₀
    rw [calls_call, hk, hs]
    exact ⟨u, hu.mono (List.subset_append_left _ _), he⟩

/-- A pending entry holds the merged task of its key. -/
theorem Consistent.merged (h : Consistent es) (ha : Admissible (calls es)) {scope : Scope}
    {e : Pending} (he : e ∈ (run es).queue.pending.get scope) :
    e.task ∈ (after (calls es)).get scope ∧ e.task.key scope = e.key :=
  (mirrors_replayed ha scope e.key e.task).mp ((h.pending scope).held e he)

theorem Consistent.claim (h : Consistent es) (ha : Admissible (calls es)) (scope : Scope) :
    Consistent (es ++ [.claim scope]) := by
  rcases run_claim es scope with ⟨_, hsame⟩ | ⟨p, hp, hfree, _, hpend, hrun⟩
  · exact ⟨by simpa [hsame] using h.pending, by simpa [hsame] using h.running,
      by simpa [hsame] using h.known⟩
  · constructor
    · intro s
      rw [hpend, calls_claim]
      by_cases hs : scope = s
      · subst hs
        rw [PerScope.get_modify_self]
        exact ⟨(h.pending scope).nodup.sublist ((List.erase_sublist).map _),
          fun e he => (h.pending scope).held e (List.mem_of_mem_erase he)⟩
      · rw [PerScope.modify, PerScope.get_set_of_ne _ hs]
        exact h.pending s
    · rw [hrun, List.map_append]
      simpa [List.nodup_append] using ⟨h.running, fun r hr he =>
        hfree (he ▸ List.mem_map_of_mem hr)⟩
    · intro r hr
      rw [hrun] at hr
      rw [calls_claim]
      rcases List.mem_append.mp hr with hr | hr
      · exact h.known r hr
      · obtain rfl := List.mem_singleton.mp hr
        obtain ⟨hmem, hkey⟩ := h.merged ha hp
        exact ⟨p.task, names_of_after ha.wellFormed hmem, hkey⟩

theorem Consistent.finish (h : Consistent es) (k : TaskKey) : Consistent (es ++ [.finish k]) := by
  obtain ⟨hpend, hrun⟩ := run_finish es k
  refine ⟨fun scope => ?_, ?_, fun r hr => ?_⟩
  · rw [hpend, calls_finish]
    exact h.pending scope
  · rw [hrun]
    exact h.running.sublist (List.filter_sublist.map _)
  · rw [hrun] at hr
    rw [calls_finish]
    exact h.known r (List.mem_of_mem_filter hr)

theorem Consistent.reported (h : Consistent es) : Consistent (es ++ [.reported]) := by
  obtain ⟨hpend, hrun⟩ := run_reported es
  refine ⟨?_, ?_, ?_⟩
  · rw [hpend, calls_reported]
    exact h.pending
  · rw [hrun]
    exact h.running
  · rw [hrun, calls_reported]
    exact h.known

theorem admissible_init {e : Move} (h : Admissible (calls (es ++ [e]))) :
    Admissible (calls es) := by
  rw [calls_append] at h
  exact h.left

theorem consistent (es : List Move) (h : Admissible (calls es)) : Consistent es := by
  induction es using List.reverseRecOn with
  | nil => exact consistent_nil
  | append_singleton es e ih =>
    have hi := ih (admissible_init h)
    cases e with
    | call c => exact hi.call c
    | claim scope => exact hi.claim (admissible_init h) scope
    | finish k => exact hi.finish k
    | reported => exact hi.reported

/-! ### Nothing is lost -/

/-- The move hands in a task of this key. -/
def Submits (scope : Scope) (k : TaskKey) : Move → Prop
  | .call c => ∃ t ∈ c.submitted scope, t.key scope = k
  | _ => False

/-- After `pre` the key was claimed with the includes and sources the task has now, and during
`mid` the key was neither handed in again nor ended. -/
structure BuildOf (scope : Scope) (t : Task) (pre mid : List Move) : Prop where
  claimed : ∃ task q, (run pre).queue.claim scope = some (⟨t.key scope, scope, task⟩, q) ∧
    task.includes = t.includes ∧ task.sources = t.sources
  quiet : ∀ e ∈ mid, ¬ Submits scope (t.key scope) e
  unended : .finish (t.key scope) ∉ mid

def Building (es : List Move) (scope : Scope) (t : Task) : Prop :=
  ⟨t.key scope, scope, t.members, false⟩ ∈ (run es).queue.running ∧
    ∃ pre mid, es = pre ++ .claim scope :: mid ∧ BuildOf scope t pre mid

def Built (es : List Move) (scope : Scope) (t : Task) : Prop :=
  ∃ pre mid post, es = pre ++ .claim scope :: mid ++ .finish (t.key scope) :: post ∧
    BuildOf scope t pre mid ∧ (∀ e ∈ post, ¬ Submits scope (t.key scope) e) ∧
    ∃ f q, (run (pre ++ .claim scope :: mid)).queue.finish (t.key scope) = some (f, q) ∧
      f.retracted = false ∧ t.members ⊆ f.members

def IsPending (es : List Move) (scope : Scope) (t : Task) : Prop :=
  t.key scope ∈ ((run es).queue.pending.get scope).map (·.key)

/-- Every merged task waits to be built, is being built as it is, or was. -/
def Served (es : List Move) : Prop :=
  ∀ scope, ∀ t ∈ (after (calls es)).get scope,
    IsPending es scope t ∨ Building es scope t ∨ Built es scope t

variable {scope : Scope} {t t₀ : Task} {pre mid : List Move} {e : Move}

theorem BuildOf.snoc (h : BuildOf scope t pre mid) (hs : ¬ Submits scope (t.key scope) e)
    (hf : e ≠ .finish (t.key scope)) : BuildOf scope t pre (mid ++ [e]) := by
  refine ⟨h.claimed, fun d hd => ?_, fun hd => ?_⟩
  · rcases List.mem_append.mp hd with hd | hd
    · exact h.quiet d hd
    · exact List.mem_singleton.mp hd ▸ hs
  · rcases List.mem_append.mp hd with hd | hd
    · exact h.unended hd
    · exact hf (List.mem_singleton.mp hd).symm

theorem BuildOf.resized (h : BuildOf scope t₀ pre mid)
    (heq : t = { t₀ with members := t.members }) : BuildOf scope t pre mid := by
  have hk : t.key scope = t₀.key scope := by rw [heq]; rfl
  have hi : t.includes = t₀.includes := by rw [heq]
  have hs : t.sources = t₀.sources := by rw [heq]
  refine ⟨?_, ?_, ?_⟩
  · rw [hk, hi, hs]
    exact h.claimed
  · rw [hk]
    exact h.quiet
  · rw [hk]
    exact h.unended

theorem Building.snoc (h : Building es scope t) (hs : ¬ Submits scope (t.key scope) e)
    (hf : e ≠ .finish (t.key scope))
    (hr : ⟨t.key scope, scope, t.members, false⟩ ∈ (run (es ++ [e])).queue.running) :
    Building (es ++ [e]) scope t := by
  obtain ⟨_, pre, mid, rfl, hb⟩ := h
  exact ⟨hr, pre, mid ++ [e], by simp, hb.snoc hs hf⟩

theorem Built.snoc (h : Built es scope t) (hs : ¬ Submits scope (t.key scope) e) :
    Built (es ++ [e]) scope t := by
  obtain ⟨pre, mid, post, rfl, hb, hq, hf⟩ := h
  refine ⟨pre, mid, post ++ [e], by simp, hb, fun d hd => ?_, hf⟩
  rcases List.mem_append.mp hd with hd | hd
  · exact hq d hd
  · exact List.mem_singleton.mp hd ▸ hs

theorem Built.resized (h : Built es scope t₀) (heq : t = { t₀ with members := t.members })
    (hsub : t.members ⊆ t₀.members) : Built es scope t := by
  obtain ⟨pre, mid, post, hes, hb, hq, f, q, hf, hr, hm⟩ := h
  have hk : t.key scope = t₀.key scope := by rw [heq]; rfl
  refine ⟨pre, mid, post, by rw [hk]; exact hes, hb.resized heq, by rw [hk]; exact hq, f, q,
    by rw [hk]; exact hf, hr, fun p hp => hm (hsub hp)⟩

theorem not_submits {c : MergerCall} {k : TaskKey} (h : k ∉ (notes (calls es) c scope).added) :
    ¬ Submits scope k (.call c) := fun hs => h (Merger.mem_added_callScope.mpr hs)

/-- A running entry over a call, seen from its own scope. -/
theorem running_call {c : MergerCall} (hc : Consistent es) (ha : Admissible (calls es ++ [c]))
    {r : Running} (hr : r ∈ (run es).queue.running) :
    ((after (calls es)).call c).2.foldl Running.take r =
      (Merger.flush r.scope ((after (calls es ++ [c])).get r.scope)
        (notes (calls es) c r.scope)).foldl Running.take r := by
  obtain ⟨u, hu, hk⟩ := hc.known r hr
  exact Running.foldl_take_call ha (hu.mono (List.subset_append_left _ _)) hk

theorem Served.call {c : MergerCall} (h : Served es) (hc : Consistent es)
    (ha : Admissible (calls es ++ [c])) : Served (es ++ [.call c]) := by
  intro scope t ht
  rw [calls_call] at ht
  have hturn := turn ha scope
  have hpend : IsPending (es ++ [.call c]) scope t ↔
      (t.key scope ∈ ((run es).queue.pending.get scope).map (·.key) ∧
        t.key scope ∉ Merger.retracted scope ((after (calls es ++ [c])).get scope)
          (notes (calls es) c scope)) ∨
      t.key scope ∈ (Merger.renewed scope ((after (calls es ++ [c])).get scope)
        (notes (calls es) c scope)).map (·.key scope) := by
    rw [IsPending, run_call, Queue.pending_applyAll, Queue.foldl_takePending_call,
      Queue.mem_keys_flush]
  rcases hturn.cases ht with ⟨_, hnew⟩ | ⟨hadd, t₀, ht₀, heq, hsub, hmem⟩
  · exact Or.inl (hpend.mpr (Or.inr (List.mem_map_of_mem hnew)))
  · have hk : t.key scope = t₀.key scope := by rw [heq]; rfl
    have hquiet := not_submits hadd
    rcases h scope t₀ ht₀ with hp | ⟨hr, pre, mid, hes, hb⟩ | hb
    · rw [IsPending, ← hk] at hp
      exact Or.inl (hpend.mpr (Or.inl ⟨hp, fun hr => (Merger.mem_retracted.mp hr).2 t ht rfl⟩))
    · refine Or.inr (Or.inl ?_)
      subst hes
      have hrun : ⟨t.key scope, scope, t.members, false⟩ ∈
          (run (pre ++ .claim scope :: mid ++ [.call c])).queue.running := by
        rw [run_call, Queue.running_applyAll]
        refine List.mem_map.mpr ⟨_, hr, ?_⟩
        rw [running_call hc ha hr]
        rcases hmem with hres | ⟨hres, hsame⟩
        · rw [Running.foldl_take_of_resized (r := ⟨t₀.key scope, scope, t₀.members, false⟩)
            hturn hres hk.symm, hk]
        · rw [Running.foldl_take_of_not_resized (r := ⟨t₀.key scope, scope, t₀.members, false⟩)
            ht hk.symm hres, hsame]
      exact ⟨hrun, pre, mid ++ [.call c], by simp,
        (hb.resized heq).snoc hquiet fun hf => Move.noConfusion hf⟩
    · exact Or.inr (Or.inr ((hb.resized heq hsub).snoc hquiet))

theorem Served.claim (h : Served es) (hc : Consistent es) (ha : Admissible (calls es))
    (s : Scope) : Served (es ++ [.claim s]) := by
  intro scope t ht
  rw [calls_claim] at ht
  have hquiet : ¬ Submits scope (t.key scope) (.claim s) := id
  have hend : Move.claim s ≠ .finish (t.key scope) := fun hf => Move.noConfusion hf
  rcases run_claim es s with ⟨_, hsame⟩ | ⟨p, hp, hfree, hclaim, hpend, hrun⟩
  · rcases h scope t ht with hw | hb | hb
    · exact Or.inl (by rw [IsPending, hsame]; exact hw)
    · exact Or.inr (Or.inl (hb.snoc hquiet hend (hsame ▸ hb.1)))
    · exact Or.inr (Or.inr (hb.snoc hquiet))
  · rcases h scope t ht with hw | hb | hb
    · by_cases hs : s = scope
      · subst hs
        by_cases hk : p.key = t.key s
        · -- the task of the claimed entry is the merged one
          have hheld := (hc.pending s).held p hp
          rw [hk, (mirrors_replayed ha s (t.key s) t).mpr ⟨ht, rfl⟩] at hheld
          obtain rfl := Option.some.inj hheld
          refine Or.inr (Or.inl ⟨?_, es, [], by simp, ⟨?_, by simp, by simp⟩⟩)
          · rw [hrun, ← hk]
            simp
          · obtain ⟨q, hq⟩ := hclaim
            exact ⟨p.task, q, hk ▸ hq, rfl, rfl⟩
        · obtain ⟨d, hd, hdk⟩ := List.mem_map.mp hw
          have hne : d ≠ p := fun he => hk (he ▸ hdk)
          refine Or.inl ?_
          rw [IsPending, hpend, PerScope.get_modify_self]
          exact List.mem_map.mpr ⟨d, (List.mem_erase_of_ne hne).mpr hd, hdk⟩
      · refine Or.inl ?_
        rw [IsPending, hpend, PerScope.modify, PerScope.get_set_of_ne _ hs]
        exact hw
    · exact Or.inr (Or.inl (hb.snoc hquiet hend (hrun ▸ List.mem_append_left _ hb.1)))
    · exact Or.inr (Or.inr (hb.snoc hquiet))

theorem Served.finish (h : Served es) (hc : Consistent es) (k : TaskKey) :
    Served (es ++ [.finish k]) := by
  intro scope t ht
  rw [calls_finish] at ht
  have hquiet : ¬ Submits scope (t.key scope) (.finish k) := id
  obtain ⟨hpend, hrun⟩ := run_finish es k
  rcases h scope t ht with hw | hb | hb
  · exact Or.inl (by rw [IsPending, hpend]; exact hw)
  · by_cases hk : k = t.key scope
    · subst hk
      obtain ⟨hr, pre, mid, rfl, hbuild⟩ := hb
      obtain ⟨f, q, hf⟩ := Queue.finish_of_mem hr
      obtain ⟨r, hr', hkey, _, hret, hmem, _, _⟩ := Queue.finish_eq_some hf
      -- keys run once, so the entry that ends is the one that was claimed
      obtain rfl := List.inj_on_of_nodup_map hc.running hr' hr hkey
      exact Or.inr (Or.inr ⟨pre, mid, [], by simp, hbuild, by simp, f, q, hf, hret,
        fun p hp => hmem ▸ hp⟩)
    · refine Or.inr (Or.inl (hb.snoc hquiet (fun hf => hk (Move.finish.inj hf)) ?_))
      rw [hrun]
      exact List.mem_filter.mpr ⟨hb.1, by simpa using Ne.symm hk⟩
  · exact Or.inr (Or.inr (hb.snoc hquiet))

theorem Served.reported (h : Served es) : Served (es ++ [.reported]) := by
  intro scope t ht
  rw [calls_reported] at ht
  obtain ⟨hpend, hrun⟩ := run_reported es
  rcases h scope t ht with hw | hb | hb
  · exact Or.inl (by rw [IsPending, hpend]; exact hw)
  · exact Or.inr (Or.inl (hb.snoc id (fun hf => Move.noConfusion hf) (hrun ▸ hb.1)))
  · exact Or.inr (Or.inr (hb.snoc id))

theorem served (es : List Move) (h : Admissible (calls es)) : Served es := by
  induction es using List.reverseRecOn with
  | nil => intro scope t ht; cases scope <;> exact absurd ht List.not_mem_nil
  | append_singleton es e ih =>
    have ha := admissible_init h
    have hc := consistent es ha
    cases e with
    | call c => exact (ih ha).call hc (calls_call es c ▸ h)
    | claim scope => exact (ih ha).claim hc ha scope
    | finish k => exact (ih ha).finish hc k
    | reported => exact (ih ha).reported

theorem mem_calls {c : MergerCall} : c ∈ calls es ↔ .call c ∈ es := by
  rw [calls, List.mem_filterMap]
  constructor
  · rintro ⟨e, he, hc⟩
    cases e with
    | call d => exact Option.some.inj hc ▸ he
    | _ => cases hc
  · intro he
    exact ⟨_, he, rfl⟩

/-- A merged task was handed in at some time. -/
theorem submitted_of_merged (h : Admissible (calls es)) (ht : t ∈ (after (calls es)).get scope) :
    ∃ e ∈ es, Submits scope (t.key scope) e := by
  obtain ⟨c, hc, u, hu, hk⟩ := names_of_after h.wellFormed ht
  exact ⟨.call c, mem_calls.mp hc, u, hu, Task.key_eq_of_mergeKey hk scope⟩

/-- Pending entries are the merged tasks of their keys. When nothing is pending or running, every
merged task was claimed, with the includes and sources it has now, after it was handed in for the
last time, and the end of that build was not void and spoke for all its members. -/
theorem no_lost_build (es : List Move) (h : Admissible (calls es)) :
    (∀ scope, ∀ e ∈ (run es).queue.pending.get scope, e.task ∈ (run es).merger.get scope ∧
      ∀ t ∈ (run es).merger.get scope, t.key scope = e.key ↔ t = e.task) ∧
    ((∀ scope, (run es).queue.pending.get scope = []) → (run es).queue.running = [] →
      ∀ scope, ∀ t ∈ (run es).merger.get scope, ∀ p ∈ t.members,
        ∃ pre mid post task f q q',
          es = pre ++ .claim scope :: mid ++ .finish (t.key scope) :: post ∧
          (∃ e ∈ pre, Submits scope (t.key scope) e) ∧
          (∀ e ∈ mid ++ post, ¬ Submits scope (t.key scope) e) ∧
          (run pre).queue.claim scope = some (⟨t.key scope, scope, task⟩, q) ∧
          task.includes = t.includes ∧ task.sources = t.sources ∧
          .finish (t.key scope) ∉ mid ∧
          (run (pre ++ .claim scope :: mid)).queue.finish (t.key scope) = some (f, q') ∧
          f.retracted = false ∧ p ∈ f.members) := by
  have hc := consistent es h
  rw [run_merger]
  refine ⟨fun scope e he => ⟨(hc.merged h he).1, fun t ht => ?_⟩, ?_⟩
  · constructor
    · intro hk
      have hheld := (hc.pending scope).held e he
      rw [(mirrors_replayed h scope e.key t).mpr ⟨ht, hk⟩] at hheld
      exact Option.some.inj hheld
    · rintro rfl
      exact (hc.merged h he).2
  · intro hpend hrun scope t ht p hp
    rcases served es h scope t ht with hw | hb | hb
    · rw [IsPending, hpend scope] at hw
      exact absurd hw List.not_mem_nil
    · have hr := hb.1
      rw [hrun] at hr
      exact absurd hr List.not_mem_nil
    · obtain ⟨pre, mid, post, hes, ⟨⟨task, q, hclaim, hi, hs⟩, hquiet, hend⟩, hpost, f, q', hf,
        hret, hm⟩ := hb
      have hlater : ∀ e ∈ mid ++ post, ¬ Submits scope (t.key scope) e := fun e he =>
        (List.mem_append.mp he).elim (hquiet e) (hpost e)
      refine ⟨pre, mid, post, task, f, q, q', hes, ?_, hlater, hclaim, hi, hs, hend, hf, hret,
        hm hp⟩
      obtain ⟨e, he, hsub⟩ := submitted_of_merged h ht
      subst hes
      simp only [List.mem_append, List.mem_cons] at he
      rcases he with (he | rfl | he) | rfl | he
      · exact ⟨e, he, hsub⟩
      · exact absurd hsub id
      · exact absurd hsub (hquiet e he)
      · exact absurd hsub id
      · exact absurd hsub (hpost e he)

/-! ### Two parts with one header -/

section

variable {x y : TaskSet} (hk : ∀ scope, (x.get scope).mergeKey = (y.get scope).mergeKey)
  (hx : ∀ scope, (x.get scope).members ≠ [])
include hk hx

-- for any tasks, because the keys of given ones would be computed
theorem mergeAll_pair (scope : Scope) : Merger.mergeAll scope [] [x, y] [] .none =
    ([absorb (x.get scope) (y.get scope)],
      ⟨[(absorb (x.get scope) (y.get scope)).key scope], [], []⟩) := by
  have hw : ∀ t, Merger.withExtra [] t = t := fun t => by simp [Merger.withExtra]
  have hkey := Task.key_eq_of_mergeKey (hk scope) scope
  rw [Task.key_eq_of_mergeKey (Merger.mergeKey_absorb (x.get scope) (y.get scope)) scope]
  simp [Merger.mergeAll, Merger.mergeTask, Merger.detach, Merger.dropEmpty, Merger.join, hw,
    Changes.add, Changes.none, Changes.pushNew, hk, hx, hkey, absorb]

omit hk hx in
theorem flush_single (scope : Scope) (t : Task) :
    Merger.flush scope [t] ⟨[t.key scope], [], []⟩ = [.add scope [t]] := by
  simp [Merger.flush, Merger.keyed]

theorem call_pair : Merger.empty.call (.merge [x, y] []) =
    (⟨[absorb x.system y.system], [absorb x.project y.project]⟩,
      [.add .system [absorb x.system y.system], .add .project [absorb x.project y.project]]) := by
  have hone : ∀ scope, Merger.empty.mergeScope [x, y] [] scope =
      ([absorb (x.get scope) (y.get scope)],
        [.add scope [absorb (x.get scope) (y.get scope)]]) := by
    intro scope
    have hempty : Merger.empty.get scope = [] := by cases scope <;> rfl
    rw [Merger.mergeScope, hempty, mergeAll_pair hk hx]
    simp only [flush_single]
  rw [Merger.call, Merger.merge, hone, hone]
  rfl

theorem run_pair : (run [.call (.merge [x, y] [])]).queue.pending =
    ⟨[⟨x.system.key .system, absorb x.system y.system⟩],
      [⟨x.project.key .project, absorb x.project y.project⟩]⟩ ∧
    (run [.call (.merge [x, y] [])]).queue.running = [] := by
  have hks := Task.key_eq_of_mergeKey (Merger.mergeKey_absorb x.system y.system) .system
  have hkp := Task.key_eq_of_mergeKey (Merger.mergeKey_absorb x.project y.project) .project
  simp [run, next, empty, call_pair hk hx, Queue.applyAll, Queue.apply, Queue.add, Queue.addTask,
    Queue.empty, PerScope.get, PerScope.set, hks, hkp]

theorem claim_pair : (run [.call (.merge [x, y] []), .claim .system]).queue.running =
    [⟨x.system.key .system, .system, (absorb x.system y.system).members, false⟩] := by
  obtain ⟨hpend, hrun⟩ := run_pair hk hx
  rw [show [Move.call (.merge [x, y] []), .claim .system] =
    [.call (.merge [x, y] [])] ++ [.claim .system] from rfl, run_append]
  generalize run [.call (.merge [x, y] [])] = w at hpend hrun ⊢
  simp [next, Queue.claim, Queue.isBlocked, Queue.claimable, Queue.isRunning, PerScope.get, hpend,
    hrun]

end

/-- Two parts hand in a header, and it is built for both scopes. -/
def pairBuild (x y : TaskSet) : List Move :=
  [.call (.merge [x, y] []), .claim .system, .finish (x.system.key .system), .claim .project,
    .finish (x.project.key .project)]

theorem pairBuild_idle {x y : TaskSet}
    (hk : ∀ scope, (x.get scope).mergeKey = (y.get scope).mergeKey)
    (hx : ∀ scope, (x.get scope).members ≠ []) :
    (run (pairBuild x y)).queue.pending = ⟨[], []⟩ ∧ (run (pairBuild x y)).queue.running = [] := by
  obtain ⟨hpend, hrun⟩ := run_pair hk hx
  rw [pairBuild, run, List.foldl_cons]
  rw [run, List.foldl_cons, List.foldl_nil] at hpend hrun
  generalize empty.next (.call (.merge [x, y] [])) = w at hpend hrun ⊢
  simp [next, Queue.claim, Queue.isBlocked, Queue.projectBlocked, Queue.claimable, Queue.isRunning,
    Queue.finish, PerScope.get, PerScope.set, PerScope.modify, hpend, hrun]

/-- The build of a header that two parts share. -/
def sharedBuild : List Move := pairBuild (headerTasks ["a"] 1) (headerTasks ["b"] 1)

theorem no_lost_build_shared : Admissible (calls sharedBuild) ∧
    (∀ scope, (run sharedBuild).queue.pending.get scope = []) ∧
    (run sharedBuild).queue.running = [] ∧
    ∃ pre f q, (run pre).queue.finish ((headerTask ["a", "b"] 1).key .system) = some (f, q) ∧
      f.retracted = false ∧ "b" ∈ f.members := by
  have hcalls : calls sharedBuild = [.merge [headerTasks ["a"] 1, headerTasks ["b"] 1] []] := rfl
  have ha : Admissible (calls sharedBuild) := by
    rw [hcalls]
    exact admissible_headers (by decide) (by decide)
  obtain ⟨hpend, hrun⟩ := pairBuild_idle (x := headerTasks ["a"] 1) (y := headerTasks ["b"] 1)
    (fun scope => by cases scope <;> rfl) (by decide)
  rw [← sharedBuild] at hpend hrun
  have hp : ∀ scope, (run sharedBuild).queue.pending.get scope = [] := by
    intro scope
    rw [hpend]
    cases scope <;> rfl
  have ht : headerTask ["a", "b"] 1 ∈ (run sharedBuild).merger.get .system := by
    rw [run_merger, hcalls]
    decide
  obtain ⟨pre, mid, post, task, f, q, q', _, _, _, _, _, _, _, hf, hret, hmem⟩ :=
    (no_lost_build sharedBuild ha).2 hp hrun .system _ ht "b" (by decide)
  exact ⟨ha, hp, hrun, _, f, q', hf, hret, hmem⟩

end Workflow
end PrecompiledHeaders
