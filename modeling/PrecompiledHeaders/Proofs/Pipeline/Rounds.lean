import PrecompiledHeaders.Proofs.Pipeline.Making
import PrecompiledHeaders.Proofs.Pipeline.Runs
import PrecompiledHeaders.Proofs.Pipeline.Submitting
import PrecompiledHeaders.Proofs.Queue.Completion
/-! Rounds. While nobody else moves, a worker takes a task from its claim to the report of its end,
and one entry less is pending. So a pipeline with workers for both scopes can always get idle. -/
namespace PrecompiledHeaders

namespace Queue

/-- While nothing runs, the first entry of a scope that is not blocked is claimed and ended. -/
theorem claim_first {q : Queue} {s : Scope} {e : Pending} {rest : List Pending}
    (hp : q.pending.get s = e :: rest) (hrun : q.running = [])
    (hs : s = .project → q.pending.system = []) :
    ∃ q', q.claim s = some (⟨e.key, s, e.task⟩, q') ∧
      q'.pending = q.pending.set s rest ∧ q'.unreported = q.unreported ∧
      ∃ f q'', q'.finish e.key = some (f, q'') ∧ f.scope = s ∧ f.retracted = false ∧
        f.members = e.task.members ∧ q''.pending = q.pending.set s rest ∧ q''.running = [] ∧
        q''.unreported = q.unreported + 1 := by
  have hfree : q.isBlocked s = false := by
    cases s with
    | system => rfl
    | project => simp [isBlocked, projectBlocked, hs rfl, hrun]
  have hfind : (q.pending.get s).find? q.claimable = some e := by
    rw [hp, List.find?_cons_of_pos]
    simp [claimable, isRunning, hrun]
  have hpend : q.pending.modify s (·.erase e) = q.pending.set s rest := by
    rw [PerScope.modify, hp, List.erase_cons_head]
  refine ⟨{ q with pending := q.pending.set s rest
                   running := [⟨e.key, s, e.task.members, false⟩] }, ?_, rfl, rfl, ?_⟩
  · rw [claim, if_neg (by simp [hfree]), hfind]
    simp only [hpend, hrun, List.nil_append]
  · refine ⟨⟨s, false, e.task.members, (q.counter.addProgress 1).1⟩,
      ⟨q.pending.set s rest, [], q.unreported + 1, (q.counter.addProgress 1).2⟩, ?_,
      rfl, rfl, rfl, rfl, rfl, rfl⟩
    simp only [finish, List.find?_cons, decide_true]
    simp

/-- Something is pending in a scope that is not blocked, or nothing is pending: system tasks go
first. -/
theorem first_pending (q : Queue) :
    (q.pending.system = [] ∧ q.pending.project = []) ∨
    ∃ s e rest, q.pending.get s = e :: rest ∧ (s = .project → q.pending.system = []) := by
  cases hsystem : q.pending.system with
  | cons e rest => exact Or.inr ⟨.system, e, rest, hsystem, Scope.noConfusion⟩
  | nil =>
    cases hproject : q.pending.project with
    | cons e rest => exact Or.inr ⟨.project, e, rest, hproject, fun _ => rfl⟩
    | nil => exact Or.inl ⟨rfl, rfl⟩

/-- One entry less is pending. -/
theorem length_pending_set {q r : Queue} {s : Scope} {e : Pending} {rest : List Pending}
    (hp : q.pending.get s = e :: rest) (hq : r.pending = q.pending.set s rest) :
    r.pending.system.length + r.pending.project.length + 1 =
      q.pending.system.length + q.pending.project.length := by
  rw [hq]
  cases s with
  | system =>
    change q.pending.system = e :: rest at hp
    show rest.length + q.pending.project.length + 1 = _
    rw [hp, List.length_cons]
    omega
  | project =>
    change q.pending.project = e :: rest at hp
    show q.pending.system.length + rest.length + 1 = _
    rw [hp, List.length_cons]
    omega

/-- What is added to a queue with nothing pending waits in the order in which it was added. -/
theorem pending_adds {q : Queue} (hq : q.pending = ⟨[], []⟩) {ts us : List Task}
    (hts : (ts.map (·.key .system)).Nodup) (hus : (us.map (·.key .project)).Nodup) :
    (q.applyAll [.add .system ts, .add .project us]).pending =
      ⟨ts.map fun t => ⟨t.key .system, t⟩, us.map fun t => ⟨t.key .project, t⟩⟩ := by
  have hadd : ∀ (s : Scope) (ts : List Task), (ts.map (·.key s)).Nodup →
      ts.foldl (addTask s) [] = ts.map fun t => ⟨t.key s, t⟩ := by
    intro s ts hn
    induction ts using List.reverseRecOn with
    | nil => rfl
    | append_singleton ts t ih =>
      rw [List.map_append, List.nodup_append] at hn
      rw [List.foldl_append, ih hn.1, List.map_append, List.foldl_cons, List.foldl_nil, addTask,
        if_neg]
      · rfl
      · simp only [List.any_map, List.any_eq_true, Function.comp, decide_eq_true_eq, not_exists, not_and]
        exact fun u hu hk => hn.2.2 _ (List.mem_map_of_mem hu) _ (List.mem_singleton_self _) hk
  simp [applyAll, apply, add, hq, PerScope.get, PerScope.set, hadd _ _ hts, hadd _ _ hus]

end Queue

namespace Pipeline

variable {W : Type} {p : Pipeline W} {i : Nat} {s : Scope}

theorem setStage_setStage (p : Pipeline W) (i : Nat) (a b : Stage) :
    (p.setStage i a).setStage i b = p.setStage i b := by
  rw [setStage, setStage, setStage]
  dsimp only
  rw [List.modify_modify_eq]
  rfl

theorem getElem?_setStage {w : Worker} (hw : p.workers[i]? = some w) (stage : Stage) :
    (p.setStage i stage).workers[i]? = some { w with stage := stage } := by
  rw [setStage, List.getElem?_modify_eq, hw]
  rfl

theorem setStage_of_stage {w : Worker} (hw : p.workers[i]? = some w) :
    p.setStage i w.stage = p := by
  have hsame : p.workers.modify i ({ · with stage := w.stage }) = p.workers := by
    refine List.ext_getElem? fun j => ?_
    rw [List.getElem?_modify]
    by_cases hij : i = j
    · subst hij
      simp [hw]
    · cases p.workers[j]? with
      | none => simp
      | some u => simp [hij]
  rw [setStage, hsame]

variable [World W]

/-- All workers are idle, and there is nothing to be told. -/
structure Quiet (p : Pipeline W) : Prop where
  opened : p.closing = false
  live : p.coordinator = .running
  inbox : p.inbox = []
  running : p.queue.running = []
  unreported : p.queue.unreported = 0

omit [World W] in
theorem Submitted.quiet [Workshop W] {q : Pipeline W} {parts : List Part} {extra : List String}
    {sets : List TaskSet} (h : Submitted p parts extra sets q) (hp : p.Quiet) : q.Quiet := by
  rw [h.shape]
  refine ⟨hp.opened, hp.live, hp.inbox, ?_, ?_⟩
  · rw [Queue.running_applyAll, hp.running]
    rfl
  · rw [Queue.unreported_applyAll, hp.unreported]

/-- The pipeline that is left when parts were handed in that could be collected. -/
structure Took (p : Pipeline W) (parts : List Part) (extra : List String) (sets : List TaskSet)
    (provider : Provider) (ws : Workspace W) (q : Pipeline W) : Prop where
  provider : q.provider = provider
  workspace : q.workspace = ws
  merger : q.merger = (p.merger.merge sets extra).1
  queue : q.queue = p.queue.applyAll (p.merger.merge sets extra).2
  parts : q.parts = parts.foldl (fun m (part : Part) => m.insert part.id part) p.parts
  quiet : q.Quiet
  artifacts : q.artifacts = p.artifacts
  dir : q.pchDir = p.pchDir
  exits : q.exitWhenIdle = p.exitWhenIdle
  workers : q.workers = p.workers
  notices : q.notices = p.notices

theorem Quiet.takes (h : p.Quiet) {parts : List Part} (extra : List String) {sets : List TaskSet}
    {provider : Provider} {ws : Workspace W}
    (hcollect : collectTasks p.provider p.workspace parts = (.ok sets, provider, ws)) :
    Took p parts extra sets provider ws (p.handle (.addParts parts extra)) := by
  obtain ⟨_, _, heq⟩ := submit_of_ok (p := { p with
    parts := parts.foldl (fun m (part : Part) => m.insert part.id part) p.parts
    extra := extra }) hcollect
  rw [show p.handle (.addParts parts extra) = _ from heq]
  refine ⟨rfl, rfl, rfl, rfl, rfl, ⟨h.opened, h.live, h.inbox, ?_, ?_⟩, rfl, rfl, rfl, rfl, rfl⟩
  · rw [Queue.running_applyAll, h.running]
    rfl
  · rw [Queue.unreported_applyAll, h.unreported]

theorem step_claim (h : p.Quiet) (hw : p.workers[i]? = some ⟨s, .idle⟩) {c : Claimed} {q : Queue}
    (hc : p.queue.claim s = some (c, q)) :
    p.step (.work i false false) = { p with queue := q }.setStage i (.claimed c) := by
  simp only [step, work, hw, claim, h.opened, hc, Bool.false_eq_true, if_false]
  rfl

theorem step_look {c : Claimed} (hw : p.workers[i]? = some ⟨s, .claimed c⟩) :
    p.step (.work i false false) = p.setStage i (.footed c
      (Build.footing p.artifacts p.workspace.world c.scope c.task)) := by
  simp only [step, work, hw, lookUp_eq]
  rfl

theorem step_plan {c : Claimed} {base : Option FilePath}
    (hw : p.workers[i]? = some ⟨s, .based c base⟩) :
    p.step (.work i false false) = p.setStage i (.planned c false
      (Build.plan p.pchDir p.artifacts p.workspace c.key c.scope c.task base)) := by
  simp only [step, work, hw, plan_eq]
  rfl

theorem step_compile {c : Claimed} {job : Job} {print : String}
    (hw : p.workers[i]? = some ⟨s, .compiling c job print false⟩) :
    p.step (.work i false false) = p.compile i c job print := by
  simp only [step, work, hw, Bool.false_and, Bool.false_eq_true, if_false]
  rfl

theorem step_finish {c : Claimed} {outcome : Outcome}
    (hw : p.workers[i]? = some ⟨s, .ended c outcome⟩) :
    p.step (.work i false false) = p.finish i c outcome := by
  simp only [step, work, hw]
  rfl

theorem step_notify {n : Notice} {t : Scope} (hw : p.workers[i]? = some ⟨s, .notifying t n⟩) :
    p.step (.work i false false) =
      { p with notices := p.notices ++ [n] }.setStage i (.reporting t none) := by
  simp only [step, work, hw]
  rfl

theorem step_report {n : Option Notice} {t : Scope}
    (hw : p.workers[i]? = some ⟨s, .reporting t n⟩) :
    p.step (.work i false false) = (p.send (.taskFinished t n)).2.setStage i .idle := by
  simp only [step, work, hw]
  rfl

/-! ### What is written down of a round -/

/-- What an observer of the steps has written down, who writes `f p s` at step `s`. -/
def noted {α : Type} (f : Pipeline W → Step → List α) (p : Pipeline W) : List Step → List α
  | [] => []
  | s :: steps => f p s ++ noted f (p.step s) steps

/-- Something is written down only when a build is planned, and this is `g` of the workspace, the
claim and the header to build upon. -/
structure NotesPlans {α : Type} (f : Pipeline W → Step → List α)
    (g : Workspace W → Claimed → Option FilePath → List α) : Prop where
  coordinate (p : Pipeline W) : f p .coordinate = []
  plan {p : Pipeline W} {i : Nat} {s : Scope} {c : Claimed} {base : Option FilePath} :
    p.workers[i]? = some ⟨s, .based c base⟩ → f p (.work i false false) = g p.workspace c base
  work {p : Pipeline W} {i : Nat} {w : Worker} :
    p.workers[i]? = some w → w.stage.based? = none → f p (.work i false false) = []

/-- What is written down of a task with this footing. -/
def footnotes {α : Type} (g : Option FilePath → List α) : Footing → List α
  | .settled _ => []
  | .upon base => g base

theorem noted_digests (p : Pipeline W) (steps : List Step) :
    p.noted digests steps = p.digested steps := by
  induction steps generalizing p with
  | nil => rfl
  | cons s steps ih => rw [noted, digested, ih]

theorem notesPlans_digests : NotesPlans (W := W) digests fun ws c base =>
    Build.digested ws.files ws.world c.scope c.task base where
  coordinate _ := rfl
  plan hw := by rw [digests, hw]
  work := by
    rintro p i ⟨s, stage⟩ hw hnone
    rw [digests, hw]
    cases stage with
    | based => cases hnone
    | idle | claimed | compiling | ended | notifying | reporting => rfl

theorem noted_append {α : Type} (f : Pipeline W → Step → List α) (p : Pipeline W)
    (steps others : List Step) :
    p.noted f (steps ++ others) = p.noted f steps ++ (p.after steps).noted f others := by
  induction steps generalizing p with
  | nil => rfl
  | cons step steps ih =>
    rw [List.cons_append, noted, noted, ih, List.append_assoc]
    rfl

/-! ### Rounds -/

/-- The steps of worker `i` until the build of a task has ended: the claim and the look, the plan if
there is something to build, and the compiler run if one is needed. -/
def buildSteps (p : Pipeline W) (i : Nat) (s : Scope) (key : TaskKey) (task : Task) : List Step :=
  match Build.footing p.artifacts p.workspace.world s task with
  | .settled _ => List.replicate 2 (.work i false false)
  | .upon base =>
    match Build.plan p.pchDir p.artifacts p.workspace key s task base with
    | .settled _ => List.replicate 3 (.work i false false)
    | .compile _ _ => List.replicate 4 (.work i false false)

/-- The steps until the end is told and handled. -/
def endSteps (i : Nat) : Scope → List Step
  | .system => [.work i false false, .work i false false, .work i false false, .coordinate]
  | .project => [.work i false false, .work i false false, .coordinate]

/-- What the worker has in hands when it compiles makes no difference. -/
theorem compile_setStage {stage : Stage} (c : Claimed) (job : Job) (print : String) :
    (p.setStage i stage).compile i c job print = p.compile i c job print :=
  setStage_setStage { p with
    artifacts := (Build.compile p.artifacts p.workspace.world job print).2.1
    workspace := { p.workspace with
      world := (Build.compile p.artifacts p.workspace.world job print).2.2 } } _ _ _

/-- The steps of worker `i` from such a plan to the end of the build. -/
def planSteps (i : Nat) : Plan → List Step
  | .settled _ => [.work i false false]
  | .compile _ _ => [.work i false false, .work i false false]

/-- A worker that knows what to build upon plans, and compiles if it has to. -/
theorem after_plan {c : Claimed} {base : Option FilePath}
    (hw : p.workers[i]? = some ⟨s, .based c base⟩) :
    let plan := Build.plan p.pchDir p.artifacts p.workspace c.key c.scope c.task base
    p.after (planSteps i plan) =
      (match plan with
        | .settled outcome => p.setStage i (.ended c outcome)
        | .compile job print => p.compile i c job print) ∧
      ∀ {α : Type} {f : Pipeline W → Step → List α} {g}, NotesPlans f g →
        p.noted f (planSteps i plan) = g p.workspace c base := by
  intro plan
  have hstep : p.step (.work i false false) = p.setStage i (.planned c false plan) := step_plan hw
  cases hplan : plan with
  | settled outcome =>
    rw [hplan] at hstep
    refine ⟨hstep, fun hf => ?_⟩
    rw [planSteps, noted, noted, hf.plan hw, List.append_nil]
  | compile job print =>
    rw [hplan] at hstep
    have hat : (p.setStage i (.planned c false (.compile job print))).workers[i]? =
      some ⟨s, .compiling c job print false⟩ := getElem?_setStage hw _
    refine ⟨?_, fun hf => ?_⟩
    · show (p.step (.work i false false)).step (.work i false false) = p.compile i c job print
      rw [hstep, step_compile hat]
      exact compile_setStage _ _ _
    · rw [planSteps, noted, noted, noted, hf.plan hw, hstep, hf.work hat rfl, List.append_nil,
        List.append_nil]

theorem after_build (h : p.Quiet) (hw : p.workers[i]? = some ⟨s, .idle⟩) {c : Claimed} {q : Queue}
    (hc : p.queue.claim s = some (c, q)) :
    let steps := p.buildSteps i s c.key c.task
    p.after steps =
      { p with queue := q
               artifacts := (Build.run p.pchDir p.artifacts p.workspace c.key s c.task).2.1
               workspace := (Build.run p.pchDir p.artifacts p.workspace c.key s c.task).2.2
        }.setStage i
        (.ended c (Build.run p.pchDir p.artifacts p.workspace c.key s c.task).1) ∧
      ∀ {α : Type} {f : Pipeline W → Step → List α} {g}, NotesPlans f g → p.noted f steps =
        footnotes (g p.workspace c) (Build.footing p.artifacts p.workspace.world s c.task) := by
  obtain ⟨e, -, rfl, -⟩ := Queue.claim_eq_some hc
  let c : Claimed := ⟨e.key, s, e.task⟩
  let go : Step := .work i false false
  let r : Pipeline W := { p with queue := q }
  have hat : ∀ stage, (r.setStage i stage).workers[i]? = some ⟨s, stage⟩ := fun stage =>
    getElem?_setStage (p := r) hw stage
  have hlook : (p.step go).step go = r.setStage i (.footed c
      (Build.footing p.artifacts p.workspace.world s e.task)) := by
    rw [show p.step go = r.setStage i (.claimed c) from step_claim h hw hc]
    exact (step_look (hat _)).trans (setStage_setStage _ _ _ _)
  have hquiet : ∀ {α : Type} {f : Pipeline W → Step → List α} {g}, NotesPlans f g → ∀ later,
      p.noted f (go :: go :: later) = ((p.step go).step go).noted f later := by
    intro α f g hf later
    rw [noted, noted, hf.work hw rfl, show p.step go = r.setStage i (.claimed c) from step_claim h hw hc,
      hf.work (hat _) rfl]
    rfl
  cases hfooting : Build.footing p.artifacts p.workspace.world s e.task with
  | settled outcome =>
    rw [hfooting] at hlook
    simp only [buildSteps, Build.run, hfooting]
    exact ⟨hlook, fun hf => hquiet hf []⟩
  | upon base =>
    rw [hfooting] at hlook
    obtain ⟨hplanned, hnoted⟩ := after_plan (p := r.setStage i (.based c base)) (hat _)
    have hsteps : p.buildSteps i s e.key e.task = go :: go :: planSteps i
        (Build.plan p.pchDir p.artifacts p.workspace e.key s e.task base) := by
      rw [buildSteps, hfooting]
      dsimp only
      cases Build.plan p.pchDir p.artifacts p.workspace e.key s e.task base <;> rfl
    rw [hsteps]
    refine ⟨?_, fun hf => ?_⟩
    · show ((p.step go).step go).after _ = _
      rw [hlook]
      refine hplanned.trans ?_
      change (match Build.plan p.pchDir p.artifacts p.workspace e.key s e.task base with
        | .settled _ => _
        | .compile _ _ => _) = _
      rw [Build.run, hfooting]
      dsimp only
      cases Build.plan p.pchDir p.artifacts p.workspace e.key s e.task base with
      | settled outcome => exact setStage_setStage _ _ _ _
      | compile job print => exact compile_setStage (p := r) _ _ _
    · rw [hquiet hf, hlook]
      exact hnoted hf

theorem recordOutcome_frame (p : Pipeline W) (f : Finished) (outcome : Outcome) :
    ∃ store ws troubles, ∀ queue inbox workers notices coordinator,
      ({ p with queue := queue, inbox := inbox, workers := workers, notices := notices
                coordinator := coordinator }).recordOutcome f outcome =
        { p with queue := queue, inbox := inbox, workers := workers, notices := notices
                 coordinator := coordinator
                 artifacts := store, workspace := ws, troubles := troubles } := by
  cases hf : f.retracted with
  | true =>
    exact ⟨p.artifacts, p.workspace, p.troubles, fun _ _ _ _ _ => by simp [recordOutcome, hf]⟩
  | false =>
    rcases hr : Build.record p.artifacts p.workspace.world f.scope f.members outcome with
      ⟨_ | _, store, w⟩
    · exact ⟨store, { p.workspace with world := w }, p.troubles ++ [.headersUnrecorded f.members],
        fun _ _ _ _ _ => by simp [recordOutcome, hf, hr]⟩
    · exact ⟨store, { p.workspace with world := w }, p.troubles,
        fun _ _ _ _ _ => by simp [recordOutcome, hf, hr]⟩

/-- The end of a build that the queue knows of changes the queue and the stores. -/
theorem finish_eq {c : Claimed} {f : Finished} {q : Queue}
    (hf : p.queue.finish c.key = some (f, q)) (i : Nat) (outcome : Outcome) :
    ∃ store ws troubles, p.finish i c outcome =
      { p with queue := q, artifacts := store, workspace := ws, troubles := troubles }.setStage i
        (stageAfter f outcome) := by
  obtain ⟨troubles, hnote⟩ := p.noteFailure_eq c.key outcome
  obtain ⟨store, ws, troubles', hrecord⟩ :=
    recordOutcome_frame { p with troubles := troubles } f outcome
  refine ⟨store, ws, troubles', ?_⟩
  rw [finish, hnote]
  dsimp only
  rw [hf]
  exact congrArg (Pipeline.setStage · i _) (hrecord q p.inbox p.workers p.notices p.coordinator)

/-- The pipeline leaves if it is to exit and nothing is left. -/
def exited (p : Pipeline W) : Pipeline W := if p.exitWhenIdle && p.queue.isIdle then p.leave else p

/-- The end of a build is recorded, told to the queue and reported. -/
def settled (p : Pipeline W) (c : Claimed) (outcome : Outcome) (f : Finished) (q : Queue) :
    Pipeline W :=
  { (p.noteFailure c.key outcome).recordOutcome f outcome with
    queue := q.reported
    notices := p.notices ++ [⟨f.scope, f.members, outcome, f.progress⟩] }

theorem settled_frame (p : Pipeline W) (c : Claimed) (outcome : Outcome) (f : Finished) (q : Queue) :
    ∃ store ws troubles, ∀ queue workers,
      ({ p with queue := queue, workers := workers }).settled c outcome f q =
        { p with queue := q.reported, workers := workers, artifacts := store, workspace := ws
                 notices := p.notices ++ [⟨f.scope, f.members, outcome, f.progress⟩]
                 troubles := troubles } := by
  obtain ⟨store, ws, troubles, hrecord⟩ := recordOutcome_frame (p.noteFailure c.key outcome) f outcome
  refine ⟨store, ws, troubles, fun queue workers => ?_⟩
  unfold settled
  generalize (⟨f.scope, f.members, outcome, f.progress⟩ : Notice) = n
  cases outcome <;>
    exact congrArg
      (fun r : Pipeline W => { r with queue := q.reported, notices := p.notices ++ [n] })
      (hrecord queue p.inbox workers p.notices p.coordinator)

/-- The coordinator is told of an end and handles it at once. -/
theorem after_report (hlive : p.coordinator = .running) (hin : p.inbox = []) {t : Scope}
    {n : Option Notice} (hw : p.workers[i]? = some ⟨s, .reporting t n⟩) :
    p.after [.work i false false, .coordinate] =
      ({ p with queue := p.queue.reported, notices := p.notices ++ n.toList
          }.setStage i .idle).exited ∧
    ∀ {α : Type} {f : Pipeline W → Step → List α} {g}, NotesPlans f g →
      p.noted f [.work i false false, .coordinate] = [] := by
  refine ⟨?_, fun hf => by rw [noted, noted, noted, hf.work hw rfl, hf.coordinate]; rfl⟩
  rw [after, List.foldl_cons, List.foldl_cons, List.foldl_nil, step_report hw, send, hlive]
  simp only [step, coordinate, setStage, hin, List.nil_append, handle, exited]
  split <;> rfl

/-- A build that ended is recorded, told to the queue and reported. -/
theorem after_end (hlive : p.coordinator = .running) (hin : p.inbox = []) {c : Claimed}
    {outcome : Outcome} (hw : p.workers[i]? = some ⟨s, .ended c outcome⟩) {f : Finished} {q : Queue}
    (hq : p.queue.finish c.key = some (f, q)) (hf : f.retracted = false) :
    p.after (endSteps i f.scope) = ((p.settled c outcome f q).setStage i .idle).exited ∧
      ∀ {α : Type} {o : Pipeline W → Step → List α} {g}, NotesPlans o g →
        p.noted o (endSteps i f.scope) = [] := by
  obtain ⟨troubles, hnote⟩ := p.noteFailure_eq c.key outcome
  obtain ⟨store, ws, troubles', hrecord⟩ :=
    recordOutcome_frame { p with troubles := troubles } f outcome
  let told : Pipeline W :=
    { p with queue := q, artifacts := store, workspace := ws, troubles := troubles' }
  have hend : p.step (.work i false false) = told.setStage i (stageAfter f outcome) := by
    rw [step_finish hw, finish, hnote]
    dsimp only
    rw [hq]
    exact congrArg (Pipeline.setStage · i _) (hrecord q p.inbox p.workers p.notices p.coordinator)
  have hsettled : p.settled c outcome f q = { told with
      queue := q.reported
      notices := p.notices ++ [⟨f.scope, f.members, outcome, f.progress⟩] } := by
    have hbefore : ({ p with troubles := troubles } : Pipeline W).recordOutcome f outcome =
        { p with artifacts := store, workspace := ws, troubles := troubles' } :=
      hrecord p.queue p.inbox p.workers p.notices p.coordinator
    rw [settled, hnote, hbefore]
  have hstage : ∀ stage, (told.setStage i stage).workers[i]? = some ⟨s, stage⟩ := fun stage =>
    getElem?_setStage (p := told) hw stage
  obtain ⟨t, retracted, members, progress⟩ := f
  obtain rfl : retracted = false := hf
  rw [hsettled]
  cases t with
  | system =>
    have hnotify : (p.step (.work i false false)).step (.work i false false) =
        { told with notices := p.notices ++ [⟨.system, members, outcome, progress⟩]
                    workers := p.workers.modify i ({ · with stage := .reporting .system none }) } := by
      rw [hend]
      refine (step_notify (hstage _)).trans ?_
      exact setStage_setStage { told with
        notices := p.notices ++ [⟨.system, members, outcome, progress⟩] } i _ _
    have hreport := after_report (p := (p.step (.work i false false)).step (.work i false false))
      (by rw [hnotify]; exact hlive) (by rw [hnotify]; exact hin)
      (by rw [hnotify]; exact hstage (.reporting .system none))
    refine ⟨hreport.1.trans (congrArg exited ?_), fun ho => ?_⟩
    · rw [hnotify, Option.toList_none, List.append_nil]
      exact setStage_setStage { told with queue := q.reported, notices := _ } _ _ _
    · rw [endSteps, noted, noted, ho.work hw rfl, ho.work (hend ▸ hstage _) rfl, hreport.2 ho]
      rfl
  | project =>
    have hreport := after_report (p := p.step (.work i false false)) (by rw [hend]; exact hlive)
      (by rw [hend]; exact hin) (by rw [hend]; exact hstage _)
    refine ⟨hreport.1.trans (congrArg exited ?_), fun ho => ?_⟩
    · rw [hend]
      exact setStage_setStage { told with queue := q.reported, notices := _ } _ _ _
    · rw [endSteps, noted, ho.work hw rfl, hreport.2 ho]
      rfl

/-- What is left of one task's way through the pipeline. -/
def rounded (p : Pipeline W) (s : Scope) (c : Claimed) (f : Finished) (q : Queue) : Pipeline W :=
  let (outcome, store, ws) := Build.run p.pchDir p.artifacts p.workspace c.key s c.task
  { p with artifacts := store, workspace := ws }.settled c outcome f q

/-- The steps in which worker `i` takes such a task from its claim to the report. -/
def roundSteps (p : Pipeline W) (i : Nat) (s : Scope) (key : TaskKey) (task : Task) : List Step :=
  p.buildSteps i s key task ++ endSteps i s

/-- A whole round of worker `i`. -/
theorem round (h : p.Quiet) (hw : p.workers[i]? = some ⟨s, .idle⟩) {c : Claimed} {q : Queue}
    (hc : p.queue.claim s = some (c, q)) {f : Finished} {q' : Queue}
    (hq : q.finish c.key = some (f, q')) (hf : f.retracted = false) (hs : f.scope = s) :
    p.after (p.roundSteps i s c.key c.task) = (p.rounded s c f q').exited ∧
      ∀ {α : Type} {o : Pipeline W → Step → List α} {g}, NotesPlans o g →
        p.noted o (p.roundSteps i s c.key c.task) =
          footnotes (g p.workspace c) (Build.footing p.artifacts p.workspace.world s c.task) := by
  obtain ⟨hbuild, hnoted⟩ := after_build h hw hc
  rw [roundSteps, after_append]
  generalize p.buildSteps i s c.key c.task = steps at hbuild hnoted ⊢
  rcases hrun : Build.run p.pchDir p.artifacts p.workspace c.key s c.task with ⟨outcome, store, ws⟩
  rw [hrun] at hbuild
  let built : Pipeline W := { p with artifacts := store, workspace := ws }
  let ended : Pipeline W := { built with queue := q }.setStage i (.ended c outcome)
  change p.after steps = ended at hbuild
  have hended : ended.workers[i]? = some ⟨s, .ended c outcome⟩ :=
    getElem?_setStage (p := { built with queue := q }) hw _
  obtain ⟨hrest, hnothing⟩ := after_end (p := ended) h.live h.inbox hended hq hf
  rw [hs] at hrest hnothing
  refine ⟨?_, fun ho => by
    rw [noted_append, hnoted ho, hbuild, hnothing ho, List.append_nil]⟩
  obtain ⟨store', ws', troubles', hsettled⟩ := settled_frame built c outcome f q'
  have hback : (ended.settled c outcome f q').setStage i .idle = built.settled c outcome f q' := by
    have hidle : p.setStage i .idle = p := setStage_of_stage hw
    have hworkers : ended.workers.modify i ({ · with stage := .idle }) = p.workers :=
      (congrArg Pipeline.workers (setStage_setStage p i (.ended c outcome) .idle)).trans
        (congrArg Pipeline.workers hidle)
    refine (congrArg (Pipeline.setStage · i .idle) (hsettled q ended.workers)).trans ?_
    refine Eq.trans ?_ (hsettled built.queue built.workers).symm
    rw [setStage]
    dsimp only
    rw [hworkers]
  rw [hbuild, hrest, hback, rounded, hrun]

theorem rounded_frame (p : Pipeline W) (s : Scope) (c : Claimed) (f : Finished) (q : Queue) :
    ∃ store ws troubles notices, p.rounded s c f q = { p with
      queue := q.reported, artifacts := store, workspace := ws, troubles := troubles
      notices := notices } := by
  rcases hrun : Build.run p.pchDir p.artifacts p.workspace c.key s c.task with ⟨outcome, store, ws⟩
  obtain ⟨store', ws', troubles, hsettled⟩ :=
    settled_frame { p with artifacts := store, workspace := ws } c outcome f q
  refine ⟨store', ws', troubles, p.notices ++ [⟨f.scope, f.members, outcome, f.progress⟩], ?_⟩
  rw [rounded, hrun]
  exact hsettled p.queue p.workers

/-- What a round says, and what it leaves in the store and in the world. -/
theorem rounded_spec (p : Pipeline W) (s : Scope) (c : Claimed) (f : Finished) (q : Queue)
    (hf : f.retracted = false) :
    let run := Build.run p.pchDir p.artifacts p.workspace c.key s c.task
    let left := Build.record run.2.1 run.2.2.world f.scope f.members run.1
    (p.rounded s c f q).notices = p.notices ++ [⟨f.scope, f.members, run.1, f.progress⟩] ∧
      (p.rounded s c f q).artifacts = left.2.1 ∧
      (p.rounded s c f q).workspace = { run.2.2 with world := left.2.2 } := by
  rw [rounded]
  rcases Build.run p.pchDir p.artifacts p.workspace c.key s c.task with ⟨outcome, store, ws⟩
  refine ⟨rfl, ?_⟩
  obtain ⟨troubles, hnote⟩ :=
    noteFailure_eq { p with artifacts := store, workspace := ws } c.key outcome
  simp only [settled, hnote, recordOutcome, hf, Bool.false_eq_true, if_false]
  rcases Build.record store ws.world f.scope f.members outcome with ⟨_ | _, store', w⟩
  · exact ⟨rfl, rfl⟩
  · exact ⟨rfl, rfl⟩

/-- The pipeline that is left when `e`, the first of the pending tasks in the scope, was built. -/
structure Next (p q : Pipeline W) (s : Scope) (e : Pending) (rest : List Pending) : Prop where
  quiet : q.Quiet
  exits : q.exitWhenIdle = p.exitWhenIdle
  workers : q.workers = p.workers
  pending : q.queue.pending = p.queue.pending.set s rest
  dir : q.pchDir = p.pchDir
  left : let run := Build.run p.pchDir p.artifacts p.workspace e.key s e.task
    let left := Build.record run.2.1 run.2.2.world s e.task.members run.1
    q.notices.map Notice.gist = p.notices.map Notice.gist ++ [(s, e.task.members, run.1)] ∧
      q.artifacts = left.2.1 ∧ q.workspace = { run.2.2 with world := left.2.2 }

/-- The first pending task of a scope that is not blocked is done with, and nobody is busy. -/
theorem Quiet.next (h : p.Quiet) (hw : p.workers[i]? = some ⟨s, .idle⟩) {e : Pending}
    {rest : List Pending} (hp : p.queue.pending.get s = e :: rest)
    (hs : s = .project → p.queue.pending.system = []) :
    let steps := p.roundSteps i s e.key e.task
    (∀ {α : Type} {f : Pipeline W → Step → List α} {g}, NotesPlans f g → p.noted f steps =
      footnotes (g p.workspace ⟨e.key, s, e.task⟩)
        (Build.footing p.artifacts p.workspace.world s e.task)) ∧
      ((p.exitWhenIdle = true ∧ (p.after steps).queue.isIdle = true) ∨
        Next p (p.after steps) s e rest) := by
  obtain ⟨q, hclaim, _, _, f, q', hfinish, hscope, hf, hmembers, hpending, hrunning, hunreported⟩ :=
    Queue.claim_first hp h.running hs
  obtain ⟨hround, hnoted⟩ := round h hw hclaim hfinish hf hscope
  obtain ⟨store, ws, troubles, notices, hframe⟩ := rounded_frame p s ⟨e.key, s, e.task⟩ f q'
  have hspec := rounded_spec p s ⟨e.key, s, e.task⟩ f q' hf
  rw [hframe] at hround hspec
  refine ⟨hnoted, ?_⟩
  dsimp only at hround ⊢
  rw [hround]
  by_cases hexit : p.exitWhenIdle && q'.reported.isIdle
  · rw [exited, if_pos hexit]
    exact Or.inl (Bool.and_eq_true_iff.mp hexit)
  · rw [exited, if_neg hexit]
    have hreported : q'.reported.unreported = 0 := by
      rw [Queue.reported, hunreported, h.unreported]
    obtain ⟨hnotices, hleft⟩ := hspec
    rw [hscope, hmembers] at hleft
    refine Or.inr ⟨⟨h.opened, h.live, h.inbox, hrunning, hreported⟩, rfl, rfl, hpending, rfl, ?_,
      hleft⟩
    dsimp only at hnotices ⊢
    rw [hnotices, List.map_append, List.map_singleton, Notice.gist, hscope, hmembers]

/-- The steps of worker `i` for a task of the scope that the compiler is run for. -/
def fullRound (i : Nat) (s : Scope) : List Step :=
  List.replicate 4 (.work i false false) ++ endSteps i s

/-- A task that was never built is compiled, and what comes of it goes on record for all members. -/
theorem Quiet.builds {W : Type} [Workshop W] [LawfulWorkshop W] {p : Pipeline W} (h : p.Quiet)
    (hexits : p.exitWhenIdle = false) {x : ArtifactIndex} (hx : p.artifacts = .memory x)
    (hw : p.workers[i]? = some ⟨s, .idle⟩) {t : Task} {rest : List Pending}
    (hp : p.queue.pending.get s = ⟨t.key s, t⟩ :: rest) (hs : s = .project → p.queue.pending.system = [])
    (ht : t.Known p.workspace.files) (hi : t.includes ≠ []) {base : Option FilePath}
    (hbase : x.holdings.base s t = base) {content : String}
    (hprint : Build.print p.workspace.files p.workspace.world s t base = content)
    (hnew : x.holdings.artifact content = none) :
    let job := Build.jobFor p.pchDir (t.key s) s t (p.workspace.files.names t.includes) content base
    let outcome := Workshop.verdict p.workspace.world job
    let q := p.after (fullRound i s)
    Next p q s ⟨t.key s, t⟩ rest ∧
      (∀ {α : Type} {f : Pipeline W → Step → List α} {g}, NotesPlans f g →
        p.noted f (fullRound i s) = g p.workspace ⟨t.key s, s, t⟩ base) ∧
      q.notices.map Notice.gist = p.notices.map Notice.gist ++ [(s, t.members, outcome)] ∧
      q.workspace = { p.workspace with world := (World.build p.workspace.world job).2 } ∧
      q.artifacts = .memory ((x.entered content outcome).recorded t.members s outcome) := by
  intro job outcome q
  obtain ⟨hfooting, hplan, hrun⟩ := Build.run_memory p.pchDir ht hi hbase hprint hnew
  have hsteps : p.roundSteps i s (t.key s) t = fullRound i s := by
    simp only [roundSteps, buildSteps, hx, hfooting, hplan, fullRound]
  obtain ⟨hnoted, ⟨hexit, _⟩ | hnext⟩ := @Quiet.next _ _ i s _ h hw _ _ hp hs
  · rw [hexits] at hexit
    cases hexit
  rw [hsteps] at hnoted hnext
  have hleft := hnext.left
  rw [hx, hrun] at hleft
  simp only [Build.record_memory] at hleft
  refine ⟨hnext, fun hf => ?_, hleft.1, hleft.2.2, hleft.2.1⟩
  rw [hnoted hf, hx, hfooting]
  rfl

/-- The steps of worker `i` for a task of the scope with nothing to build. -/
def bareRound (i : Nat) (s : Scope) : List Step :=
  List.replicate 2 (.work i false false) ++ endSteps i s

/-- A task with nothing to build is done with; its members have no header. -/
theorem Quiet.passes_over {W : Type} [Workshop W] {p : Pipeline W} (h : p.Quiet)
    (hexits : p.exitWhenIdle = false) {x : ArtifactIndex} (hx : p.artifacts = .memory x)
    (hw : p.workers[i]? = some ⟨s, .idle⟩) {t : Task} {rest : List Pending}
    (hp : p.queue.pending.get s = ⟨t.key s, t⟩ :: rest) (hs : s = .project → p.queue.pending.system = [])
    (hi : t.includes = []) :
    let q := p.after (bareRound i s)
    Next p q s ⟨t.key s, t⟩ rest ∧
      (∀ {α : Type} {f : Pipeline W → Step → List α} {g}, NotesPlans f g →
        p.noted f (bareRound i s) = []) ∧
      q.notices.map Notice.gist = p.notices.map Notice.gist ++ [(s, t.members, .empty)] ∧
      q.workspace = p.workspace ∧ q.artifacts = .memory (x.deleteHeaders t.members s) := by
  intro q
  have hfooting := Build.footing_empty p.artifacts p.workspace.world s hi
  have hsteps : p.roundSteps i s (t.key s) t = bareRound i s := by
    simp only [roundSteps, buildSteps, hfooting, bareRound]
  obtain ⟨hnoted, ⟨hexit, _⟩ | hnext⟩ := @Quiet.next _ _ i s _ h hw _ _ hp hs
  · rw [hexits] at hexit
    cases hexit
  rw [hsteps] at hnoted hnext
  have hrun : Build.run p.pchDir p.artifacts p.workspace (t.key s) s t =
      (.empty, .memory x, p.workspace) := by
    rw [Build.run, hfooting, hx]
  have hleft := hnext.left
  rw [hrun] at hleft
  simp only [Build.record_memory] at hleft
  refine ⟨hnext, fun hf => ?_, hleft.1, hleft.2.2, hleft.2.1⟩
  rw [hnoted hf, hfooting]
  rfl

/-- With workers for both scopes, a quiet pipeline gets idle. -/
theorem Quiet.gets_idle (h : p.Quiet)
    (hw : ∀ s, ∃ i : Nat, p.workers[i]? = some (⟨s, .idle⟩ : Worker)) :
    ∃ steps, (p.after steps).queue.isIdle = true := by
  obtain ⟨n, hn⟩ : ∃ n, p.queue.pending.system.length + p.queue.pending.project.length = n :=
    ⟨_, rfl⟩
  induction n generalizing p with
  | zero =>
    have hsystem := List.length_eq_zero_iff.mp (Nat.eq_zero_of_add_eq_zero_right hn)
    have hproject := List.length_eq_zero_iff.mp (Nat.eq_zero_of_add_eq_zero_left hn)
    exact ⟨[], by simp [after, Queue.isIdle, hsystem, hproject, h.running, h.unreported]⟩
  | succ n ih =>
    obtain ⟨hsystem, hproject⟩ | ⟨s, e, rest, he, hfirst⟩ := p.queue.first_pending
    · simp [hsystem, hproject] at hn
    obtain ⟨i, hi⟩ := hw s
    obtain ⟨_, ⟨_, hidle⟩ | hnext⟩ := h.next hi he hfirst
    · exact ⟨_, hidle⟩
    · generalize p.roundSteps i s e.key e.task = steps at hnext
      have hless := Queue.length_pending_set he hnext.pending
      obtain ⟨more, hmore⟩ := ih hnext.quiet (hnext.workers ▸ hw) (by omega)
      exact ⟨steps ++ more, by rw [after_append]; exact hmore⟩

end Pipeline
end PrecompiledHeaders
