import PrecompiledHeaders.Pipeline
import Mathlib.Data.List.Nodup
/-! Runs of the pipeline. A step is one of the coordinator or of one worker; who goes next is left
open, and a step of somebody who has nothing to do changes nothing. A worker's step is one of seven
kinds, each of which touches few things. -/
namespace PrecompiledHeaders

/-- `waits` and `permitted` say what the gate in front of the compiler does. -/
inductive Step where
  | coordinate
  | work (i : Nat) (waits permitted : Bool)
  deriving DecidableEq, Repr

namespace Stage

def claimed? : Stage → Option Claimed
  | .claimed c | .based c _ | .compiling c _ _ _ | .ended c _ => some c
  | _ => none

/-- The notice that is not delivered yet. -/
def notice? : Stage → Option Notice
  | .notifying _ notice => some notice
  | .reporting _ notice => notice
  | _ => none

/-- The coordinator is still to be told of the end of a build. -/
def owes : Stage → Bool
  | .notifying _ _ | .reporting _ _ => true
  | _ => false

/-- Whoever has no task and nothing to tell is idle. -/
theorem eq_idle {stage : Stage} (hc : stage.claimed? = none) (ho : stage.owes = false) :
    stage = .idle := by
  cases stage with
  | idle => rfl
  | claimed | based | compiling | ended => cases hc
  | notifying | reporting => cases ho

/-- Whoever has a task has nothing to tell yet. -/
theorem notice?_of_claimed {stage : Stage} {c : Claimed} (h : stage.claimed? = some c) :
    stage.notice? = none := by
  cases stage with
  | idle | claimed | based | compiling | ended => rfl
  | notifying | reporting => cases h

theorem owes_of_claimed {stage : Stage} {c : Claimed} (h : stage.claimed? = some c) :
    stage.owes = false := by
  cases stage with
  | idle | claimed | based | compiling | ended => rfl
  | notifying | reporting => cases h

/-- The stage of a worker that looked for the header to build upon. -/
def footed (claimed : Claimed) : Footing → Stage
  | .settled outcome => .ended claimed outcome
  | .upon base => .based claimed base

/-- The stage of a worker that planned the build. -/
def planned (claimed : Claimed) (waits : Bool) : Plan → Stage
  | .settled outcome => .ended claimed outcome
  | .compile job print => .compiling claimed job print waits

@[simp] theorem claimed?_footed (claimed : Claimed) (footing : Footing) :
    (footed claimed footing).claimed? = some claimed := by
  cases footing <;> rfl

@[simp] theorem claimed?_planned (claimed : Claimed) (waits : Bool) (plan : Plan) :
    (planned claimed waits plan).claimed? = some claimed := by
  cases plan <;> rfl

end Stage

namespace Pipeline

variable {W : Type} [World W]

def step (p : Pipeline W) : Step → Pipeline W
  | .coordinate => p.coordinate.getD p
  | .work i waits permitted => (p.work i waits permitted).getD p

def after (p : Pipeline W) (steps : List Step) : Pipeline W := steps.foldl step p

theorem after_append (p : Pipeline W) (steps others : List Step) :
    p.after (steps ++ others) = (p.after steps).after others := List.foldl_append

/-- What a step of worker `i` does. -/
inductive Works (p : Pipeline W) (i : Nat) : Pipeline W → Prop where
  | claim {scope : Scope} {claimed : Claimed} {queue : Queue}
      (worker : p.workers[i]? = some ⟨scope, .idle⟩) (opened : p.closing = false)
      (claim : p.queue.claim scope = some (claimed, queue)) :
      Works p i ({ p with queue := queue }.setStage i (.claimed claimed))
  | look {scope : Scope} {claimed : Claimed}
      (worker : p.workers[i]? = some ⟨scope, .claimed claimed⟩) :
      Works p i (p.setStage i (.footed claimed
        (Build.footing p.artifacts p.workspace.world claimed.scope claimed.task)))
  | plan {scope : Scope} {claimed : Claimed} {base : Option FilePath} {waits : Bool}
      (worker : p.workers[i]? = some ⟨scope, .based claimed base⟩) :
      Works p i (p.setStage i (.planned claimed waits (Build.plan p.pchDir p.artifacts p.workspace
        claimed.key claimed.scope claimed.task base)))
  | compile {scope : Scope} {claimed : Claimed} {job : Job} {print : String} {waits : Bool}
      (worker : p.workers[i]? = some ⟨scope, .compiling claimed job print waits⟩) :
      Works p i (p.compile i claimed job print)
  | finish {scope : Scope} {claimed : Claimed} {outcome : Outcome}
      (worker : p.workers[i]? = some ⟨scope, .ended claimed outcome⟩) :
      Works p i (p.finish i claimed outcome)
  | notify {scope s : Scope} {notice : Notice}
      (worker : p.workers[i]? = some ⟨scope, .notifying s notice⟩) :
      Works p i ({ p with notices := p.notices ++ [notice] }.setStage i (.reporting s none))
  | report {scope s : Scope} {notice : Option Notice}
      (worker : p.workers[i]? = some ⟨scope, .reporting s notice⟩) :
      Works p i ((p.send (.taskFinished s notice)).2.setStage i .idle)

theorem lookUp_eq (p : Pipeline W) (i : Nat) (claimed : Claimed) :
    p.lookUp i claimed = p.setStage i (.footed claimed
      (Build.footing p.artifacts p.workspace.world claimed.scope claimed.task)) := by
  rw [lookUp]
  cases Build.footing p.artifacts p.workspace.world claimed.scope claimed.task <;> rfl

theorem plan_eq (p : Pipeline W) (i : Nat) (claimed : Claimed) (base : Option FilePath)
    (waits : Bool) : p.plan i claimed base waits = p.setStage i (.planned claimed waits
      (Build.plan p.pchDir p.artifacts p.workspace claimed.key claimed.scope claimed.task base)) := by
  rw [plan]
  cases Build.plan p.pchDir p.artifacts p.workspace claimed.key claimed.scope claimed.task base <;>
    rfl

theorem works_of_work {p p' : Pipeline W} {i : Nat} {waits permitted : Bool}
    (h : p.work i waits permitted = some p') : Works p i p' := by
  rw [work] at h
  split at h
  · cases h
  · rename_i worker hw
    obtain ⟨scope, stage⟩ := worker
    cases stage with
    | idle =>
      simp only [claim] at h
      split at h
      · cases h
      · rename_i hopen
        split at h
        · cases h
        · rename_i claimed queue hclaim
          obtain rfl := Option.some.inj h
          exact .claim hw (by simpa using hopen) hclaim
    | claimed claimed =>
      obtain rfl := Option.some.inj h
      rw [lookUp_eq]
      exact .look hw
    | based claimed base =>
      obtain rfl := Option.some.inj h
      rw [plan_eq]
      exact .plan hw
    | compiling claimed job print waiting =>
      simp only at h
      split at h
      · cases h
      · obtain rfl := Option.some.inj h
        exact .compile hw
    | ended claimed outcome =>
      obtain rfl := Option.some.inj h
      exact .finish hw
    | notifying s notice =>
      obtain rfl := Option.some.inj h
      exact .notify hw
    | reporting s notice =>
      obtain rfl := Option.some.inj h
      exact .report hw

omit [World W] in
/-- A failed build is told, and that is all. -/
theorem noteFailure_eq (p : Pipeline W) (key : TaskKey) (outcome : Outcome) :
    ∃ troubles, p.noteFailure key outcome = { p with troubles := troubles } := by
  cases outcome <;> exact ⟨_, rfl⟩

/-- The end of a build changes the queue, the stores, and what its worker has in its hands. -/
theorem finish_shape (p : Pipeline W) (i : Nat) (claimed : Claimed) (outcome : Outcome) :
    ∃ queue store w troubles stage, p.finish i claimed outcome = { p with
      queue := queue
      artifacts := store
      workspace := { p.workspace with world := w }
      troubles := troubles }.setStage i stage := by
  obtain ⟨troubles, hnote⟩ := p.noteFailure_eq claimed.key outcome
  rw [finish, hnote]
  dsimp only
  split
  · exact ⟨_, _, _, _, _, rfl⟩
  · rw [recordOutcome]
    split
    · exact ⟨_, _, _, _, _, rfl⟩
    · split <;> exact ⟨_, _, _, _, _, rfl⟩

/-- What is for the coordinator alone is as it was. -/
structure Keeps (p p' : Pipeline W) : Prop where
  parts : p'.parts = p.parts
  provider : p'.provider = p.provider
  merger : p'.merger = p.merger
  files : p'.workspace.files = p.workspace.files
  coordinator : p'.coordinator = p.coordinator

/-- Workers collect nothing, and do not meddle with the tasks of parts. -/
theorem Works.keeps {p p' : Pipeline W} {i : Nat} (h : Works p i p') : Keeps p p' := by
  cases h with
  | claim | look | plan | compile | notify => exact ⟨rfl, rfl, rfl, rfl, rfl⟩
  | @finish scope claimed outcome worker =>
    obtain ⟨_, _, _, _, _, heq⟩ := p.finish_shape i claimed outcome
    rw [heq]
    exact ⟨rfl, rfl, rfl, rfl, rfl⟩
  | report =>
    rw [send]
    split <;> exact ⟨rfl, rfl, rfl, rfl, rfl⟩

/-- Whatever workers send is a report. -/
theorem Works.inbox {p p' : Pipeline W} {i : Nat} (h : Works p i p') {event : Event}
    (he : event ∈ p'.inbox) :
    event ∈ p.inbox ∨ ∃ scope notice, event = .taskFinished scope notice := by
  cases h with
  | claim | look | plan | compile | notify => exact Or.inl he
  | @finish scope claimed outcome worker =>
    obtain ⟨_, _, _, _, _, heq⟩ := p.finish_shape i claimed outcome
    rw [heq] at he
    exact Or.inl he
  | @report scope s notice worker =>
    rw [send] at he
    split at he
    · rcases List.mem_append.mp he with he | he
      · exact Or.inl he
      · exact Or.inr ⟨s, notice, List.mem_singleton.mp he⟩
    · exact Or.inl he

/-- `P` holds of every step and the state it is taken in. -/
def Along (P : Pipeline W → Step → Prop) : Pipeline W → List Step → Prop
  | _, [] => True
  | p, s :: steps => P p s ∧ Along P (p.step s) steps

theorem along_of_forall {P : Pipeline W → Step → Prop} (h : ∀ p s, P p s) (p : Pipeline W)
    (steps : List Step) : Along P p steps := by
  induction steps generalizing p with
  | nil => trivial
  | cons s steps ih => exact ⟨h p s, ih _⟩

/-- What survives every step survives any number of them. -/
theorem after_induction {motive : Pipeline W → Prop} {P : Pipeline W → Step → Prop}
    (coordinate : ∀ q q', motive q → q.coordinate = some q' → motive q')
    (works : ∀ q q' i waits permitted, motive q → P q (.work i waits permitted) → Works q i q' →
      motive q') {p : Pipeline W} (hp : motive p) {steps : List Step} (h : Along P p steps) :
    motive (p.after steps) := by
  induction steps generalizing p with
  | nil => exact hp
  | cons s steps ih =>
    refine ih ?_ h.2
    cases s with
    | coordinate =>
      rw [step]
      cases hc : p.coordinate with
      | none => exact hp
      | some q => exact coordinate _ _ hp hc
    | work i waits permitted =>
      rw [step]
      cases hw : p.work i waits permitted with
      | none => exact hp
      | some q => exact works _ _ i waits permitted hp h.1 (works_of_work hw)

/-! ### Events -/

theorem refreshWatch_eq (p : Pipeline W) :
    ∃ watch troubles, p.refreshWatch = { p with watch := watch, troubles := troubles } := by
  rw [refreshWatch]
  split
  · exact ⟨p.watch, p.troubles, rfl⟩
  · exact ⟨_, _, rfl⟩

theorem forgetHeaders_eq (p : Pipeline W) (ids : List PartId) (scope : Scope) :
    ∃ store w troubles, p.forgetHeaders ids scope = { p with
      artifacts := store, workspace := { p.workspace with world := w }, troubles := troubles } := by
  rw [forgetHeaders]
  split
  · exact ⟨_, _, p.troubles, rfl⟩
  · exact ⟨_, _, _, rfl⟩

/-! ### Workers -/

/-- What the workers have in their hands, worker by worker. -/
def onHand {α : Type} (f : Stage → Option α) (ws : List Worker) : List α :=
  ws.filterMap fun w => f w.stage

omit [World W] in
/-- The worker at `i` among the others. -/
theorem split_workers {p : Pipeline W} {i : Nat} {w : Worker} (h : p.workers[i]? = some w)
    (stage : Stage) : ∃ a b, p.workers = a ++ w :: b ∧
      (p.setStage i stage).workers = a ++ { w with stage := stage } :: b := by
  obtain ⟨hi, rfl⟩ := List.getElem?_eq_some_iff.mp h
  obtain ⟨a, u, b, hab, hlen, hmodify⟩ :=
    List.exists_of_modify (fun w : Worker => { w with stage := stage }) hi
  have hu : p.workers[i] = u := by
    simp only [hab]
    rw [List.getElem_append_right (by omega)]
    simp [hlen]
  rw [hu]
  exact ⟨a, b, hab, hmodify⟩

@[simp] theorem onHand_append {α : Type} (f : Stage → Option α) (a b : List Worker) :
    onHand f (a ++ b) = onHand f a ++ onHand f b := List.filterMap_append

theorem onHand_cons {α : Type} (f : Stage → Option α) (w : Worker) (ws : List Worker) :
    onHand f (w :: ws) = (f w.stage).toList ++ onHand f ws := by
  rw [onHand, List.filterMap_cons]
  cases f w.stage <;> rfl

end Pipeline
end PrecompiledHeaders
