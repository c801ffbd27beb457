import PrecompiledHeaders.Proofs.Pipeline.Steps
import PrecompiledHeaders.Proofs.Queue.Accounting
/-! One batch of tasks on its way through the pipeline. Every merged task is pending, in the hands
of a worker, or ended; every end of a build is announced once and reported once; and no project
task is taken up before all system tasks have ended. -/
namespace PrecompiledHeaders

open Pipeline (onHand onHand_append onHand_cons split_workers noticeOf?)

/-- A task that was built, with what came out. -/
structure Completed where
  scope : Scope
  task : Task
  outcome : Outcome
  deriving DecidableEq, Repr

/-- A notice without the progress it happens to show. -/
def Notice.gist (n : Notice) : Scope × List PartId × Outcome := (n.scope, n.members, n.outcome)

def Completed.gist (e : Completed) : Scope × List PartId × Outcome := (e.scope, e.task.members, e.outcome)

/-- No key stands for two tasks. -/
structure Merger.Distinct (m : Merger) : Prop where
  nodup : ∀ s, (m.get s).Nodup
  keys : ∀ s s' t t', t ∈ m.get s → t' ∈ m.get s' → t.key s = t'.key s' → s = s' ∧ t = t'

namespace Pipeline

variable {W : Type}

def held (p : Pipeline W) : List Claimed := onHand Stage.claimed? p.workers

/-- Notices that are not delivered yet. -/
def underway (p : Pipeline W) : List Notice :=
  onHand Stage.notice? p.workers ++ p.inbox.filterMap noticeOf?

/-- Ends of builds that the coordinator is still to be told of, or to handle. -/
def owed (p : Pipeline W) : Nat := p.workers.countP (·.stage.owes) + p.inbox.length

/-- What the accounts of a batch are about: all but files and stores. -/
def front (p : Pipeline W) :
    Merger × Queue × List Worker × List Event × CoordinatorState × Bool × List Notice :=
  (p.merger, p.queue, p.workers, p.inbox, p.coordinator, p.closing, p.notices)

end Pipeline

def Claimed.running (c : Claimed) : Running := ⟨c.key, c.scope, c.task.members, false⟩

/-- The tasks of one scope among those in hands or ended. -/
def heldIn (s : Scope) (cs : List Claimed) : List Task := (cs.filter (·.scope = s)).map (·.task)

def endedIn (s : Scope) (es : List Completed) : List Task := (es.filter (·.scope = s)).map (·.task)

/-- The accounts of a batch of the tasks `m`, of which `done` have ended; `before` are the notices
from the time before the batch. -/
structure Batch {W : Type} (m : Merger) (before : List Notice) (p : Pipeline W)
    (done : List Completed) : Prop where
  merger : p.merger = m
  opened : p.closing = false
  live : p.coordinator = .running ∨ (p.coordinator = .stopped ∧ p.queue.isIdle = true)
  inbox : ∀ e ∈ p.inbox, ∃ s n, e = .taskFinished s n
  tasks : ∀ s, ((p.queue.pending.get s).map (·.task) ++ heldIn s p.held ++ endedIn s done).Perm
    (m.get s)
  pending : ∀ s, ∀ e ∈ p.queue.pending.get s, e.key = e.task.key s
  claims : ∀ c ∈ p.held, c.key = c.task.key c.scope
  running : p.queue.running.Perm (p.held.map Claimed.running)
  unreported : p.queue.unreported = p.owed
  notices : ((p.notices ++ p.underway).map Notice.gist).Perm
    (before.map Notice.gist ++ done.map Completed.gist)
  gated : (.project ∈ p.held.map (·.scope) ∨ .project ∈ done.map (·.scope)) →
    p.queue.pending.system = [] ∧ .system ∉ p.held.map (·.scope)

namespace Batch

variable {W : Type} {m : Merger} {before : List Notice} {p p' : Pipeline W} {done : List Completed}

theorem congr (h : Batch m before p done) (hf : p'.front = p.front) : Batch m before p' done := by
  simp only [Pipeline.front, Prod.mk.injEq] at hf
  obtain ⟨hm, hq, hw, hi, hc, hcl, hn⟩ := hf
  have hheld : p'.held = p.held := by rw [Pipeline.held, hw]; rfl
  have howed : p'.owed = p.owed := by rw [Pipeline.owed, hw, hi]; rfl
  have hunder : p'.underway = p.underway := by rw [Pipeline.underway, hw, hi]; rfl
  constructor
  · rw [hm]; exact h.merger
  · rw [hcl]; exact h.opened
  · rw [hc, hq]; exact h.live
  · rw [hi]; exact h.inbox
  · rw [hq, hheld]; exact h.tasks
  · rw [hq]; exact h.pending
  · rw [hheld]; exact h.claims
  · rw [hq, hheld]; exact h.running
  · rw [hq, howed]; exact h.unreported
  · rw [hn, hunder]; exact h.notices
  · rw [hq, hheld]; exact h.gated

/-! ### Where a task is -/

theorem held_mem (h : Batch m before p done) {c : Claimed} (hc : c ∈ p.held) :
    c.task ∈ m.get c.scope := by
  refine (h.tasks c.scope).subset (List.mem_append_left _ (List.mem_append_right _ ?_))
  exact List.mem_map_of_mem (List.mem_filter.mpr ⟨hc, by simp⟩)

theorem done_mem (h : Batch m before p done) {e : Completed} (he : e ∈ done) :
    e.task ∈ m.get e.scope := by
  refine (h.tasks e.scope).subset (List.mem_append_right _ ?_)
  exact List.mem_map_of_mem (List.mem_filter.mpr ⟨he, by simp⟩)

theorem tasks_nodup (h : Batch m before p done) (hm : m.Distinct) (s : Scope) :
    ((p.queue.pending.get s).map (·.task) ++ heldIn s p.held ++ endedIn s done).Nodup :=
  (h.tasks s).nodup_iff.mpr (hm.nodup s)

end Batch

/-! ### One worker among the others -/

namespace Pipeline

variable {W : Type}

/-- What all workers have in hand is what this one has and what the others have. -/
theorem exchange {p : Pipeline W} {i : Nat} {w : Worker} (hw : p.workers[i]? = some w)
    (stage : Stage) : ∃ others : List Worker,
      (∀ {α : Type} (f : Stage → Option α),
        (onHand f p.workers).Perm ((f w.stage).toList ++ onHand f others) ∧
        (onHand f (p.setStage i stage).workers).Perm ((f stage).toList ++ onHand f others)) ∧
      p.workers.countP (·.stage.owes) = (if w.stage.owes then 1 else 0) +
        others.countP (·.stage.owes) ∧
      (p.setStage i stage).workers.countP (·.stage.owes) = (if stage.owes then 1 else 0) +
        others.countP (·.stage.owes) := by
  obtain ⟨a, b, hab, hab'⟩ := split_workers hw stage
  have hperm : ∀ {α : Type} (f : Stage → Option α) (u : Worker),
      (onHand f (a ++ u :: b)).Perm ((f u.stage).toList ++ onHand f (a ++ b)) := by
    intro α f u
    rw [onHand_append, onHand_cons, onHand_append, ← List.append_assoc, ← List.append_assoc]
    exact List.perm_append_comm.append_right _
  refine ⟨a ++ b, fun f => ⟨hab ▸ hperm f w, hab' ▸ hperm f _⟩, ?_, ?_⟩
  · rw [hab, List.countP_append, List.countP_cons, List.countP_append]
    omega
  · rw [hab', List.countP_append, List.countP_cons, List.countP_append]
    dsimp only
    omega

end Pipeline

theorem heldIn_perm {cs cs' : List Claimed} (h : cs.Perm cs') (s : Scope) :
    (heldIn s cs).Perm (heldIn s cs') := (h.filter _).map _

theorem heldIn_cons_self (c : Claimed) (cs : List Claimed) :
    heldIn c.scope (c :: cs) = c.task :: heldIn c.scope cs := by
  simp [heldIn]

theorem heldIn_cons_of_ne {c : Claimed} {s : Scope} (h : c.scope ≠ s) (cs : List Claimed) :
    heldIn s (c :: cs) = heldIn s cs := by
  simp [heldIn, h]

/-- A task whose build ends goes over from those in hands to those that have ended. -/
theorem tasks_finish (c : Claimed) (outcome : Outcome) (held : List Claimed) (done : List Completed)
    (s : Scope) : (heldIn s held ++ endedIn s (done ++ [⟨c.scope, c.task, outcome⟩])).Perm
      (heldIn s (c :: held) ++ endedIn s done) := by
  by_cases hs : c.scope = s
  · subst hs
    have hended : endedIn c.scope (done ++ [⟨c.scope, c.task, outcome⟩]) =
        endedIn c.scope done ++ [c.task] := by simp [endedIn]
    rw [hended, ← List.append_assoc, heldIn_cons_self, List.cons_append]
    exact List.perm_append_singleton _ _
  · have hended : endedIn s (done ++ [⟨c.scope, c.task, outcome⟩]) = endedIn s done := by
      simp [endedIn, hs]
    rw [hended, heldIn_cons_of_ne hs]

namespace Queue

theorem pending_claim {q q' : Queue} {scope : Scope} {c : Claimed}
    (h : q.claim scope = some (c, q')) (s : Scope) : q'.pending.get s ⊆ q.pending.get s := by
  obtain ⟨e, -, -, -, hpend, -⟩ := claim_eq_some h
  rw [hpend]
  by_cases hs : scope = s
  · subst hs
    rw [PerScope.get_modify_self]
    exact List.erase_subset
  · rw [PerScope.modify, PerScope.get_set_of_ne _ hs]
    exact List.Subset.refl _

/-- A claimed task goes over from those pending to those in hands. -/
theorem tasks_claim {q q' : Queue} {scope : Scope} {c : Claimed}
    (h : q.claim scope = some (c, q')) (held : List Claimed) (s : Scope) :
    ((q'.pending.get s).map (·.task) ++ heldIn s (c :: held)).Perm
      ((q.pending.get s).map (·.task) ++ heldIn s held) := by
  obtain ⟨e, he, rfl, -, hpend, -⟩ := claim_eq_some h
  rw [hpend]
  by_cases hs : scope = s
  · subst hs
    have herase : ((q.pending.get scope).map (·.task)).Perm
        (e.task :: ((q.pending.get scope).erase e).map (·.task)) := (List.perm_cons_erase he).map _
    rw [PerScope.get_modify_self, show heldIn scope (⟨e.key, scope, e.task⟩ :: held) =
      e.task :: heldIn scope held from heldIn_cons_self _ _]
    exact List.perm_middle.trans (herase.symm.append_right _)
  · rw [PerScope.modify, PerScope.get_set_of_ne _ hs, heldIn_cons_of_ne hs]

theorem unreported_claim {q q' : Queue} {scope : Scope} {c : Claimed}
    (h : q.claim scope = some (c, q')) : q'.unreported = q.unreported := by
  rw [claim] at h
  split at h
  · cases h
  · split at h
    · cases h
    · rw [← (Prod.mk.inj (Option.some.inj h)).2]

/-- A project task is claimed only when no system task is pending or running. -/
theorem unblocked_of_claim {q q' : Queue} {c : Claimed} (h : q.claim .project = some (c, q')) :
    q.pending.system = [] ∧ ∀ r ∈ q.running, r.scope ≠ .system := by
  rw [claim] at h
  split at h
  · cases h
  · rename_i hb
    simp only [isBlocked, projectBlocked, Bool.or_eq_true, Bool.not_eq_true', not_or,
      List.isEmpty_eq_false_iff, Classical.not_not, List.any_eq_true, not_exists, not_and,
      decide_eq_true_eq] at hb
    exact hb

theorem unreported_finish {q q' : Queue} {k : TaskKey} {f : Finished}
    (h : q.finish k = some (f, q')) : q'.unreported = q.unreported + 1 := by
  rw [finish] at h
  split at h
  · cases h
  · rw [← (Prod.mk.inj (Option.some.inj h)).2]

end Queue

namespace Batch

variable {W : Type} {m : Merger} {before : List Notice} {p : Pipeline W} {done : List Completed}
  {i : Nat} {scope : Scope}

theorem not_idle_of_running (h : Batch m before p done) {c : Claimed} (hc : c ∈ p.held) :
    p.coordinator = .running := by
  refine h.live.resolve_right fun ⟨_, hidle⟩ => ?_
  have hmem := h.running.mem_iff.mpr (List.mem_map_of_mem (f := Claimed.running) hc)
  simp only [Queue.isIdle, Bool.and_eq_true, List.isEmpty_iff, decide_eq_true_eq] at hidle
  rw [hidle.1.2] at hmem
  exact List.not_mem_nil hmem

theorem not_idle_of_pending (h : Batch m before p done) {s : Scope} {e : Pending}
    (he : e ∈ p.queue.pending.get s) : p.coordinator = .running := by
  refine h.live.resolve_right fun ⟨_, hidle⟩ => ?_
  simp only [Queue.isIdle, Bool.and_eq_true, List.isEmpty_iff] at hidle
  cases s with
  | system =>
    rw [show p.queue.pending.get .system = [] from hidle.1.1.1] at he
    exact List.not_mem_nil he
  | project =>
    rw [show p.queue.pending.get .project = [] from hidle.1.1.2] at he
    exact List.not_mem_nil he

/-- No system task is claimed any more once project tasks are taken up, and a project task is
claimed only when all system tasks have ended. -/
theorem gated_claim (h : Batch m before p done) {c : Claimed} {q : Queue}
    (hc : p.queue.claim scope = some (c, q))
    (hlive : .project ∈ scope :: p.held.map (·.scope) ∨ .project ∈ done.map (·.scope)) :
    q.pending.system = [] ∧ .system ∉ scope :: p.held.map (·.scope) := by
  have hscope : scope = .project := by
    by_contra hne
    have hold : .project ∈ p.held.map (·.scope) ∨ .project ∈ done.map (·.scope) :=
      hlive.imp_left fun hmem => (List.mem_cons.mp hmem).resolve_left fun hs => hne hs.symm
    obtain ⟨e, he, -⟩ := Queue.claim_eq_some hc
    cases scope with
    | system =>
      rw [show p.queue.pending.get .system = [] from (h.gated hold).1] at he
      exact List.not_mem_nil he
    | project => exact hne rfl
  subst hscope
  obtain ⟨hempty, hnone⟩ := Queue.unblocked_of_claim hc
  refine ⟨List.eq_nil_of_subset_nil (hempty ▸ Queue.pending_claim hc .system), fun hmem => ?_⟩
  rcases List.mem_cons.mp hmem with hmem | hmem
  · cases hmem
  · obtain ⟨c', hc', hcs⟩ := List.mem_map.mp hmem
    exact hnone _ (h.running.mem_iff.mpr (List.mem_map_of_mem hc')) hcs

/-- When a build ends, the gate stays as it was. -/
theorem gated_finish (h : Batch m before p done) {c : Claimed} {rest : List Claimed}
    (hheld : p.held.Perm (c :: rest)) {outcome : Outcome}
    (hlive : .project ∈ rest.map (·.scope) ∨
      .project ∈ (done ++ [Completed.mk c.scope c.task outcome]).map (·.scope)) :
    p.queue.pending.system = [] ∧ .system ∉ rest.map (·.scope) := by
  have hscopes : (p.held.map (·.scope)).Perm (c.scope :: rest.map (·.scope)) := hheld.map _
  have hbefore : .project ∈ p.held.map (·.scope) ∨ .project ∈ done.map (·.scope) := by
    rcases hlive with hmem | hmem
    · exact Or.inl (hscopes.mem_iff.mpr (List.mem_cons_of_mem _ hmem))
    · rw [List.map_append] at hmem
      rcases List.mem_append.mp hmem with hmem | hmem
      · exact Or.inr hmem
      · exact Or.inl (hscopes.mem_iff.mpr (List.mem_singleton.mp hmem ▸ List.mem_cons_self))
  obtain ⟨hempty, hnone⟩ := h.gated hbefore
  exact ⟨hempty, fun hmem => hnone (hscopes.mem_iff.mpr (List.mem_cons_of_mem _ hmem))⟩

theorem claim (h : Batch m before p done) {c : Claimed} {q : Queue}
    (hw : p.workers[i]? = some ⟨scope, .idle⟩) (hc : p.queue.claim scope = some (c, q)) :
    Batch m before ({ p with queue := q }.setStage i (.claimed c)) done := by
  obtain ⟨e, he, rfl, -, -, hrun⟩ := Queue.claim_eq_some hc
  obtain ⟨others, hperm, hcount, hcount'⟩ := Pipeline.exchange
    (p := { p with queue := q }) hw (.claimed ⟨e.key, scope, e.task⟩)
  obtain ⟨hclaimed, hclaimed'⟩ := hperm Stage.claimed?
  obtain ⟨hnotice, hnotice'⟩ := hperm Stage.notice?
  -- the worker had nothing, and has the claimed task now
  have hheld : ({ p with queue := q }.setStage i (.claimed ⟨e.key, scope, e.task⟩)).held.Perm
      (⟨e.key, scope, e.task⟩ :: p.held) :=
    hclaimed'.trans (hclaimed.symm.cons _)
  have hscopes := hheld.map (·.scope)
  have hunder : ({ p with queue := q }.setStage i (.claimed ⟨e.key, scope, e.task⟩)).underway.Perm p.underway :=
    (hnotice'.trans hnotice.symm).append_right _
  constructor
  · exact h.merger
  · exact h.opened
  · exact Or.inl (h.not_idle_of_pending he)
  · exact h.inbox
  · intro s
    refine (((heldIn_perm hheld s).append_left _).append_right _).trans ?_
    exact ((Queue.tasks_claim hc p.held s).append_right _).trans (h.tasks s)
  · exact fun s e' he' => h.pending s e' (Queue.pending_claim hc s he')
  · intro c hc
    rcases List.mem_cons.mp (hheld.subset hc) with rfl | hc
    · exact h.pending scope e he
    · exact h.claims c hc
  · show q.running.Perm _
    rw [hrun]
    refine List.Perm.trans ?_ (hheld.map _).symm
    rw [List.map_cons]
    exact (List.perm_append_singleton _ _).trans (h.running.cons _)
  · show q.unreported = _
    have hidle : p.workers.countP (·.stage.owes) = others.countP (·.stage.owes) := by
      rw [hcount]
      simp [Stage.owes]
    have howes : (Stage.claimed ⟨e.key, scope, e.task⟩).owes = false := rfl
    rw [howes] at hcount'
    rw [Queue.unreported_claim hc, h.unreported, Pipeline.owed, Pipeline.owed, hcount', hidle]
    simp
    rfl
  · refine List.Perm.trans ?_ h.notices
    exact (hunder.append_left _).map _
  · intro hproject
    obtain ⟨hempty, hnone⟩ := h.gated_claim hc (hproject.imp_left hscopes.mem_iff.mp)
    exact ⟨hempty, fun hmem => hnone (hscopes.mem_iff.mp hmem)⟩

/-- A worker goes on with what it has. -/
theorem goesOn (h : Batch m before p done) {w : Worker} {c : Claimed} {stage : Stage}
    (hw : p.workers[i]? = some w) (hmine : w.stage.claimed? = some c)
    (hs : stage.claimed? = some c) : Batch m before (p.setStage i stage) done := by
  obtain ⟨others, hperm, hcount, hcount'⟩ := Pipeline.exchange hw stage
  obtain ⟨hclaimed, hclaimed'⟩ := hperm Stage.claimed?
  obtain ⟨hnotice, hnotice'⟩ := hperm Stage.notice?
  rw [hs, ← hmine] at hclaimed'
  rw [Stage.notice?_of_claimed hs, ← Stage.notice?_of_claimed hmine] at hnotice'
  rw [Stage.owes_of_claimed hs, ← Stage.owes_of_claimed hmine] at hcount'
  have hheld : (p.setStage i stage).held.Perm p.held := hclaimed'.trans hclaimed.symm
  have hunder : (p.setStage i stage).underway.Perm p.underway :=
    (hnotice'.trans hnotice.symm).append_right _
  refine ⟨h.merger, h.opened, h.live, h.inbox, fun s => ?_, h.pending, fun c hc => ?_, ?_, ?_, ?_,
    fun hproject => ?_⟩
  · exact (((heldIn_perm hheld s).append_left _).append_right _).trans (h.tasks s)
  · exact h.claims c (hheld.subset hc)
  · exact h.running.trans (hheld.map _).symm
  · refine h.unreported.trans ?_
    rw [Pipeline.owed, Pipeline.owed, hcount, hcount']
    rfl
  · exact ((hunder.append_left _).map _).trans h.notices
  · have hscopes := hheld.map (·.scope)
    obtain ⟨hempty, hnone⟩ := h.gated (hproject.imp_left hscopes.mem_iff.mp)
    exact ⟨hempty, fun hmem => hnone (hscopes.mem_iff.mp hmem)⟩

/-- Held tasks have different keys. -/
theorem key_ne (h : Batch m before p done) (hm : m.Distinct) {c : Claimed} {rest : List Claimed}
    (hheld : p.held.Perm (c :: rest)) : ∀ c' ∈ rest, c'.key ≠ c.key := by
  intro c' hc' hk
  have hmem : c ∈ p.held := hheld.mem_iff.mpr List.mem_cons_self
  have hmem' : c' ∈ p.held := hheld.mem_iff.mpr (List.mem_cons_of_mem _ hc')
  rw [h.claims c hmem, h.claims c' hmem'] at hk
  obtain ⟨hs, ht⟩ := hm.keys _ _ _ _ (h.held_mem hmem') (h.held_mem hmem) hk
  have hn := h.tasks_nodup hm c.scope
  rw [List.append_assoc, List.nodup_append] at hn
  have hperm : (heldIn c.scope p.held).Perm (c.task :: heldIn c.scope rest) := by
    rw [← heldIn_cons_self]
    exact heldIn_perm hheld c.scope
  have hnodup := hperm.nodup_iff.mp (List.nodup_append.mp hn.2.1).1
  refine (List.nodup_cons.mp hnodup).1 ?_
  rw [← ht]
  exact List.mem_map_of_mem (List.mem_filter.mpr ⟨hc', by simp [hs]⟩)

/-- The end of a held build is found in the queue, with all members, and is not void. -/
theorem finish_held (h : Batch m before p done) (hm : m.Distinct) {c : Claimed}
    {rest : List Claimed} (hheld : p.held.Perm (c :: rest)) :
    ∃ f q, p.queue.finish c.key = some (f, q) ∧ f.scope = c.scope ∧ f.members = c.task.members ∧
      f.retracted = false ∧ q.pending = p.queue.pending ∧
      q.running.Perm (rest.map Claimed.running) ∧ q.unreported = p.queue.unreported + 1 := by
  have hother := h.key_ne hm hheld
  have hrunning : p.queue.running.Perm (c.running :: rest.map Claimed.running) :=
    h.running.trans (hheld.map _)
  obtain ⟨f, q, hf⟩ := Queue.finish_of_mem (hrunning.mem_iff.mpr List.mem_cons_self)
  obtain ⟨r, hr, hk, hscope, hretracted, hmembers, hpend, hrun⟩ := Queue.finish_eq_some hf
  have hrc : r = c.running := by
    rcases List.mem_cons.mp (hrunning.subset hr) with hr | hr
    · exact hr
    · obtain ⟨c', hc', rfl⟩ := List.mem_map.mp hr
      exact absurd hk (hother c' hc')
  subst hrc
  refine ⟨f, q, hf, hscope, hmembers, hretracted, hpend, ?_, Queue.unreported_finish hf⟩
  rw [hrun]
  refine (hrunning.filter _).trans ?_
  rw [List.filter_cons, if_neg (by simp), List.filter_eq_self.mpr]
  intro r hr
  obtain ⟨c', hc', rfl⟩ := List.mem_map.mp hr
  exact decide_eq_true (hother c' hc')

/-- The build of a held task ends: the task is done, and its notice is on its way. -/
theorem finish (h : Batch m before p done) {c : Claimed} {outcome : Outcome} {stage : Stage}
    {w : Worker} {q : Queue} {rest : List Claimed} (hw : p.workers[i]? = some w)
    (hc : w.stage.claimed? = some c) (hn : w.stage.notice? = none) (ho : w.stage.owes = false)
    (hs : stage.claimed? = none) (hso : stage.owes = true) {n : Notice}
    (hsn : stage.notice? = some n) (hgist : n.gist = (c.scope, c.task.members, outcome))
    (hheld : p.held.Perm (c :: rest)) (hpend : q.pending = p.queue.pending)
    (hrun : q.running.Perm (rest.map Claimed.running))
    (hun : q.unreported = p.queue.unreported + 1) :
    Batch m before ({ p with queue := q }.setStage i stage)
      (done ++ [⟨c.scope, c.task, outcome⟩]) := by
  obtain ⟨others, hperm, hcount, hcount'⟩ := Pipeline.exchange
    (p := { p with queue := q }) hw stage
  obtain ⟨hclaimed, hclaimed'⟩ := hperm Stage.claimed?
  obtain ⟨hnotice, hnotice'⟩ := hperm Stage.notice?
  rw [hs] at hclaimed'
  rw [hc] at hclaimed
  rw [hn] at hnotice
  rw [hsn] at hnotice'
  rw [ho] at hcount
  rw [hso] at hcount'
  have hrest : ({ p with queue := q }.setStage i stage).held.Perm rest :=
    hclaimed'.trans ((hclaimed.symm.trans hheld).cons_inv)
  have hunder : ({ p with queue := q }.setStage i stage).underway.Perm (n :: p.underway) :=
    (hnotice'.trans (hnotice.symm.cons _)).append_right _
  constructor
  · exact h.merger
  · exact h.opened
  · exact Or.inl (h.not_idle_of_running (hheld.mem_iff.mpr List.mem_cons_self))
  · exact h.inbox
  · intro s
    refine List.Perm.trans ?_ (h.tasks s)
    show ((q.pending.get s).map (·.task) ++ heldIn s _ ++ endedIn s _).Perm _
    rw [hpend, List.append_assoc, List.append_assoc]
    refine List.Perm.append_left _ (((heldIn_perm hrest s).append_right _).trans ?_)
    exact (tasks_finish c outcome rest done s).trans ((heldIn_perm hheld.symm s).append_right _)
  · intro s e he
    exact h.pending s e (hpend ▸ he)
  · intro c' hc'
    exact h.claims c' (hheld.mem_iff.mpr (List.mem_cons_of_mem _ (hrest.subset hc')))
  · exact hrun.trans (hrest.map _).symm
  · show q.unreported = _
    rw [hun, h.unreported, Pipeline.owed, Pipeline.owed, hcount']
    have hold : p.workers.countP (·.stage.owes) = others.countP (·.stage.owes) := by
      rw [hcount]
      simp
    rw [hold]
    simp only [if_true, Pipeline.setStage]
    omega
  · show ((p.notices ++ _).map Notice.gist).Perm _
    refine ((hunder.append_left _).map _).trans ?_
    rw [@List.map_append _ _ _ done, ← List.append_assoc, List.map_singleton]
    refine List.Perm.trans ?_ (h.notices.append_right _)
    rw [List.map_append, List.map_cons, hgist]
    refine List.perm_middle.trans ?_
    rw [← List.map_append]
    exact (List.perm_append_singleton _ _).symm
  · intro hproject
    have hscopes := hrest.map (·.scope)
    obtain ⟨hempty, hnone⟩ := h.gated_finish hheld (hproject.imp_left hscopes.mem_iff.mp)
    exact ⟨(congrArg (PerScope.system ·) hpend).trans hempty,
      fun hmem => hnone (hscopes.mem_iff.mp hmem)⟩

/-- A worker without a task moves on with what it has to tell. -/
theorem tells (h : Batch m before p done) {w : Worker} {stage : Stage} {notices : List Notice}
    {inbox : List Event} (hw : p.workers[i]? = some w) (hc : w.stage.claimed? = none)
    (hs : stage.claimed? = none)
    (hlive : p.coordinator = .running ∨ (p.coordinator = .stopped ∧ p.queue.isIdle = true))
    (hinbox : ∀ e ∈ inbox, ∃ s n, e = .taskFinished s n)
    (howed : (if stage.owes then 1 else 0) + inbox.length =
      (if w.stage.owes then 1 else 0) + p.inbox.length)
    (hnotices : (notices ++ (stage.notice?.toList ++ inbox.filterMap Pipeline.noticeOf?)).Perm
      (p.notices ++ (w.stage.notice?.toList ++ p.inbox.filterMap Pipeline.noticeOf?))) :
    Batch m before ({ p with notices := notices, inbox := inbox }.setStage i stage) done := by
  obtain ⟨others, hperm, hcount, hcount'⟩ := Pipeline.exchange
    (p := { p with notices := notices, inbox := inbox }) hw stage
  obtain ⟨hclaimed, hclaimed'⟩ := hperm Stage.claimed?
  obtain ⟨hnotice, hnotice'⟩ := hperm Stage.notice?
  rw [hs] at hclaimed'
  rw [hc] at hclaimed
  have hheld : ({ p with notices := notices, inbox := inbox }.setStage i stage).held.Perm p.held :=
    hclaimed'.trans hclaimed.symm
  refine ⟨h.merger, h.opened, hlive, hinbox, fun s => ?_, h.pending, fun c hc => ?_, ?_, ?_, ?_,
    fun hproject => ?_⟩
  · exact (((heldIn_perm hheld s).append_left _).append_right _).trans (h.tasks s)
  · exact h.claims c (hheld.subset hc)
  · exact h.running.trans (hheld.map _).symm
  · refine h.unreported.trans ?_
    have hold : p.workers.countP (·.stage.owes) = (if w.stage.owes then 1 else 0) +
        others.countP (·.stage.owes) := hcount
    rw [Pipeline.owed, Pipeline.owed, hold, hcount']
    show _ = _ + inbox.length
    omega
  · refine List.Perm.trans ?_ h.notices
    refine List.Perm.map _ ?_
    -- both sides are the notices told, this worker's, those in the inbox, and those of the others
    have hleft : (notices ++ ({ p with notices := notices, inbox := inbox }.setStage i stage).underway
        ).Perm (notices ++ (stage.notice?.toList ++ inbox.filterMap Pipeline.noticeOf?) ++
          Pipeline.onHand Stage.notice? others) := by
      rw [List.append_assoc, List.append_assoc]
      refine List.Perm.append_left _ ?_
      refine (hnotice'.append_right _).trans ?_
      rw [List.append_assoc]
      exact List.perm_append_comm.append_left _
    have hright : (p.notices ++ p.underway).Perm (p.notices ++ (w.stage.notice?.toList ++
        p.inbox.filterMap Pipeline.noticeOf?) ++ Pipeline.onHand Stage.notice? others) := by
      rw [List.append_assoc, List.append_assoc]
      refine List.Perm.append_left _ ?_
      refine (hnotice.append_right _).trans ?_
      rw [List.append_assoc]
      exact List.perm_append_comm.append_left _
    exact hleft.trans ((hnotices.append_right _).trans hright.symm)
  · have hscopes := hheld.map (·.scope)
    obtain ⟨hempty, hnone⟩ := h.gated (hproject.imp_left hscopes.mem_iff.mp)
    exact ⟨hempty, fun hmem => hnone (hscopes.mem_iff.mp hmem)⟩

theorem notify (h : Batch m before p done) {s : Scope} {n : Notice}
    (hw : p.workers[i]? = some ⟨scope, .notifying s n⟩) :
    Batch m before ({ p with notices := p.notices ++ [n] }.setStage i (.reporting s none)) done := by
  refine h.tells hw rfl rfl h.live h.inbox rfl ?_
  rw [List.append_assoc]
  rfl

theorem report (h : Batch m before p done) {s : Scope} {n : Option Notice}
    (hw : p.workers[i]? = some ⟨scope, .reporting s n⟩) :
    Batch m before ((p.send (.taskFinished s n)).2.setStage i .idle) done := by
  have hrunning : p.coordinator = .running := by
    refine h.live.resolve_right fun ⟨_, hidle⟩ => ?_
    simp only [Queue.isIdle, Bool.and_eq_true, decide_eq_true_eq] at hidle
    have hpos : 0 < p.workers.countP (·.stage.owes) :=
      List.countP_pos_iff.mpr ⟨_, List.mem_of_getElem? hw, rfl⟩
    have hun := h.unreported
    rw [hidle.2, Pipeline.owed] at hun
    omega
  have hsend : (p.send (.taskFinished s n)).2 =
      { p with notices := p.notices, inbox := p.inbox ++ [.taskFinished s n] } := by
    rw [Pipeline.send, hrunning]
  rw [hsend]
  refine h.tells hw rfl rfl (Or.inl hrunning) ?_ ?_ ?_
  · intro e he
    rcases List.mem_append.mp he with he | he
    · exact h.inbox e he
    · exact ⟨s, n, List.mem_singleton.mp he⟩
  · simp [Stage.owes, Nat.add_comm]
  · refine List.Perm.append_left _ ?_
    rw [List.filterMap_append]
    have hone : [Event.taskFinished s n].filterMap noticeOf? = n.toList := by
      cases n <;> rfl
    rw [hone]
    exact (List.perm_append_comm : (p.inbox.filterMap noticeOf? ++ n.toList).Perm _)

/-- The coordinator handles a report, and leaves if that was the last. -/
theorem coordinate [World W] (h : Batch m before p done) (hc : p.coordinate = some p') :
    Batch m before p' done ∧ p'.workspace = p.workspace ∧ p'.artifacts = p.artifacts ∧
      p'.pchDir = p.pchDir ∧ p'.provider = p.provider ∧ p'.workers = p.workers := by
  rw [Pipeline.coordinate] at hc
  split at hc
  · rename_i event rest hrunning hinbox
    obtain ⟨s, n, rfl⟩ := h.inbox event (by rw [hinbox]; exact List.mem_cons_self)
    have hrest : ∀ e ∈ rest, ∃ s n, e = .taskFinished s n := fun e he =>
      h.inbox e (by rw [hinbox]; exact List.mem_cons_of_mem _ he)
    have howed : p.queue.unreported = p.workers.countP (·.stage.owes) + (rest.length + 1) := by
      rw [h.unreported, Pipeline.owed, hinbox]
      rfl
    simp only [Pipeline.handle, hrunning] at hc
    have hnotices : (p.notices ++ n.toList ++ (Pipeline.onHand Stage.notice? p.workers ++
        rest.filterMap Pipeline.noticeOf?)).Perm (p.notices ++ p.underway) := by
      rw [Pipeline.underway, hinbox, List.append_assoc]
      refine List.Perm.append_left _ ?_
      rw [List.filterMap_cons]
      cases n with
      | none => simp [noticeOf?]
      | some n =>
        show (n :: (onHand _ _ ++ _)).Perm (_ ++ n :: _)
        exact List.perm_middle.symm
    split at hc
    · rename_i hleave
      obtain rfl := Option.some.inj hc
      simp only [Bool.and_eq_true] at hleave
      obtain ⟨_, hidle⟩ := hleave
      have hzero : p.queue.unreported - 1 = 0 := by
        simp only [Queue.isIdle, Queue.reported, Bool.and_eq_true] at hidle
        exact of_decide_eq_true hidle.2
      obtain rfl : rest = [] := List.length_eq_zero_iff.mp (by omega)
      refine ⟨⟨h.merger, h.opened, Or.inr ⟨rfl, hidle⟩, fun e he => absurd he List.not_mem_nil,
        h.tasks, h.pending, h.claims, h.running, ?_, ?_, h.gated⟩, rfl, rfl, rfl, rfl, rfl⟩
      · show p.queue.unreported - 1 = p.workers.countP (·.stage.owes) + 0
        rw [howed]
        omega
      · refine ((List.Perm.map _ ?_).trans (hnotices.map _)).trans h.notices
        show (p.notices ++ n.toList ++ [] ++ (onHand Stage.notice? p.workers ++ [])).Perm _
        simp
    · obtain rfl := Option.some.inj hc
      refine ⟨⟨h.merger, h.opened, Or.inl rfl, hrest, h.tasks, h.pending, h.claims, h.running, ?_,
        (hnotices.map _).trans h.notices, h.gated⟩, rfl, rfl, rfl, rfl, rfl⟩
      show p.queue.unreported - 1 = p.workers.countP (·.stage.owes) + rest.length
      rw [howed]
      omega
  · cases hc

/-! ### The batch is through -/

/-- Once the queue is idle, every task has ended and every notice was delivered. -/
theorem through (h : Batch m before p done) (hidle : p.queue.isIdle = true) :
    (∀ s, (endedIn s done).Perm (m.get s)) ∧
      (p.notices.map Notice.gist).Perm (before.map Notice.gist ++ done.map Completed.gist) ∧
      p.held = [] ∧ p.inbox = [] ∧ ∀ w ∈ p.workers, w.stage = .idle := by
  simp only [Queue.isIdle, Bool.and_eq_true, List.isEmpty_iff, decide_eq_true_eq] at hidle
  obtain ⟨⟨⟨hsystem, hproject⟩, hrunning⟩, hunreported⟩ := hidle
  have hheld : p.held = [] := by
    have hperm := h.running
    rw [hrunning] at hperm
    exact List.map_eq_nil_iff.mp hperm.symm.eq_nil
  have howed := h.unreported
  rw [hunreported, Pipeline.owed] at howed
  have hinbox : p.inbox = [] := List.length_eq_zero_iff.mp (by omega)
  have howes : ∀ w ∈ p.workers, w.stage.owes = false := by
    intro w hw
    by_contra hne
    rw [Bool.not_eq_false] at hne
    have hpos : 0 < p.workers.countP (·.stage.owes) := List.countP_pos_iff.mpr ⟨w, hw, hne⟩
    omega
  have hworkers : ∀ w ∈ p.workers, w.stage = .idle := by
    intro w hw
    rw [Pipeline.held, onHand, List.filterMap_eq_nil_iff] at hheld
    exact Stage.eq_idle (hheld w hw) (howes w hw)
  refine ⟨fun s => ?_, ?_, hheld, hinbox, hworkers⟩
  · have htasks := h.tasks s
    have hpend : p.queue.pending.get s = [] := by
      cases s
      · exact hsystem
      · exact hproject
    rw [hpend, hheld] at htasks
    exact htasks
  · have hunder : p.underway = [] := by
      rw [Pipeline.underway, hinbox, onHand, List.filterMap_eq_nil_iff.mpr fun w hw => by
        rw [hworkers w hw]; rfl]
      rfl
    have hnotices := h.notices
    rwa [hunder, List.append_nil] at hnotices

end Batch

/-- The outcome listed for a task. -/
def outcomeIn (done : List Completed) (s : Scope) (t : Task) : Outcome :=
  match done.find? fun e => e.scope = s ∧ e.task = t with
  | some e => e.outcome
  | none => .empty

theorem outcomeIn_of_mem {done : List Completed} (hn : ∀ s, (endedIn s done).Nodup)
    {e : Completed} (he : e ∈ done) : outcomeIn done e.scope e.task = e.outcome := by
  rw [outcomeIn]
  cases hf : done.find? fun d => d.scope = e.scope ∧ d.task = e.task with
  | none => simpa using List.find?_eq_none.mp hf e he
  | some d =>
    have hd : d.scope = e.scope ∧ d.task = e.task := by simpa using List.find?_some hf
    have hfilter : ∀ x ∈ done, x.scope = e.scope → x ∈ done.filter (·.scope = e.scope) :=
      fun x hx hs => List.mem_filter.mpr ⟨hx, by simp [hs]⟩
    have hsame := List.inj_on_of_nodup_map (hn e.scope)
      (hfilter d (List.mem_of_find?_eq_some hf) hd.1) (hfilter e he rfl) hd.2
    exact congrArg Completed.outcome hsame

/-- Each merged task was announced once, with its outcome. -/
theorem Batch.told {W : Type} {m : Merger} {before : List Notice} {p : Pipeline W}
    {done : List Completed} (h : Batch m before p done) (hm : m.Distinct)
    (hidle : p.queue.isIdle = true) :
    (∀ s, ∀ t ∈ m.get s, ∃ e ∈ done, e.scope = s ∧ e.task = t ∧
      outcomeIn done s t = e.outcome) ∧
    ∀ s, ((p.notices.filter (·.scope = s)).map Notice.gist).Perm
      ((before.filter (·.scope = s)).map Notice.gist ++
        (m.get s).map fun t => (s, t.members, outcomeIn done s t)) := by
  obtain ⟨hended, hnotices, _⟩ := h.through hidle
  have hnodup : ∀ s, (endedIn s done).Nodup := fun s => (hended s).nodup_iff.mpr (hm.nodup s)
  refine ⟨fun s t ht => ?_, fun s => ?_⟩
  · obtain ⟨e, he, rfl⟩ := List.mem_map.mp ((hended s).mem_iff.mpr ht)
    obtain ⟨hmem, hs⟩ := List.mem_filter.mp he
    obtain rfl : e.scope = s := of_decide_eq_true hs
    exact ⟨e, hmem, rfl, rfl, outcomeIn_of_mem hnodup hmem⟩
  · have hscope : ∀ ns : List Notice, (ns.map Notice.gist).filter (fun g => decide (g.1 = s)) =
        (ns.filter (·.scope = s)).map Notice.gist := fun _ => List.filter_map
    have hdone : (done.map Completed.gist).filter (fun g => decide (g.1 = s)) =
        (endedIn s done).map fun t => (s, t.members, outcomeIn done s t) := by
      have heach : (done.map Completed.gist).filter (fun g => decide (g.1 = s)) =
          (done.filter (·.scope = s)).map Completed.gist := List.filter_map
      rw [heach, endedIn, List.map_map]
      refine List.map_congr_left fun e he => ?_
      obtain ⟨hmem, hs⟩ := List.mem_filter.mp he
      obtain rfl : e.scope = s := of_decide_eq_true hs
      show (e.scope, e.task.members, e.outcome) = (e.scope, e.task.members, _)
      rw [outcomeIn_of_mem hnodup hmem]
    have hfilter := hnotices.filter fun g => decide (g.1 = s)
    rw [List.filter_append, hscope, hscope, hdone] at hfilter
    exact hfilter.trans (((hended s).map _).append_left _)

end PrecompiledHeaders
