import PrecompiledHeaders.Build
import PrecompiledHeaders.Provider
import PrecompiledHeaders.Queue
import PrecompiledHeaders.Split
import PrecompiledHeaders.Watch
/-! The running pipeline. A coordinator owns the parts, their dependencies and the merged tasks,
and handles one event at a time; workers claim tasks from the queue and build them. Every step of
the coordinator and of a worker is a function on the state, so a run is any interleaving of them.
Between a claim, the look at the header to build upon, and the plan, anything may happen.
-/
namespace PrecompiledHeaders

structure Notice where
  scope : Scope
  members : List PartId
  outcome : Outcome
  progress : Progress
  deriving DecidableEq, Repr

inductive Event where
  | addParts (parts : List Part) (extra : List String)
  | removeParts (ids : List PartId)
  | updateUnsaved (files : List UnsavedFile)
  | removeUnsaved (paths : List FilePath)
  | filesChanged (paths : List FilePath)
  | taskFinished (scope : Scope) (notice : Option Notice)
  | shutdown
  deriving DecidableEq, Repr

/-- How far a worker is with the task in its hands. -/
inductive Stage where
  | idle
  /-- Nothing was looked up for the task. -/
  | claimed (claimed : Claimed)
  /-- The header to build upon was looked up, and nothing else. -/
  | based (claimed : Claimed) (base : Option FilePath)
  /-- The compiler runs; it waits for permission first if `waits` says so. -/
  | compiling (claimed : Claimed) (job : Job) (fingerprint : String) (waits : Bool)
  /-- The outcome is known to the worker alone. -/
  | ended (claimed : Claimed) (outcome : Outcome)
  /-- The queue knows; the notice of a system task is still to be sent. -/
  | notifying (scope : Scope) (notice : Notice)
  /-- The coordinator is still to be told. -/
  | reporting (scope : Scope) (notice : Option Notice)
  deriving DecidableEq, Repr

structure Worker where
  scope : Scope
  stage : Stage
  deriving DecidableEq, Repr

inductive CoordinatorState where
  | running
  | stopped
  | failed (fault : Fault)
  deriving DecidableEq, Repr

structure Pipeline (W : Type) where
  workspace : Workspace W
  pchDir : FilePath
  exitWhenIdle : Bool
  provider : Provider
  merger : Merger
  queue : Queue
  artifacts : ArtifactStore
  parts : TextMap Part
  extra : List String
  watch : Option Watch
  coordinator : CoordinatorState
  /-- Events sent and not handled yet, oldest first. -/
  inbox : List Event
  workers : List Worker
  /-- No worker takes up a new task. -/
  closing : Bool
  /-- Notices delivered, oldest first. -/
  notices : List Notice
  troubles : List Trouble

namespace Pipeline

variable {W : Type} [World W]

/-- A pipeline with one worker for each of `workers`. -/
def start (workspace : Workspace W) (pchDir : FilePath) (records : RecordStore)
    (artifacts : ArtifactStore) (workers : List Scope) (exitWhenIdle watches : Bool) :
    Pipeline W :=
  { workspace := workspace
    pchDir := pchDir
    exitWhenIdle := exitWhenIdle
    provider := .start records
    merger := .empty
    queue := .empty
    artifacts := artifacts
    parts := {}
    extra := []
    watch := if watches then some .empty else none
    coordinator := .running
    inbox := []
    workers := workers.map (⟨·, .idle⟩)
    closing := false
    notices := []
    troubles := [] }

/-! ### The coordinator -/

/-- The tasks of the parts, one after the other; the first fault ends it. -/
def collectTasks (provider : Provider) (ws : Workspace W) :
    List Part → Except Fault (List TaskSet) × Provider × Workspace W
  | [] => (.ok [], provider, ws)
  | part :: rest =>
    match provider.create ws part with
    | (.error f, provider, ws) => (.error f, provider, ws)
    | (.ok d, provider, ws) =>
      match collectTasks provider ws rest with
      | (.error f, provider, ws) => (.error f, provider, ws)
      | (.ok sets, provider, ws) => (.ok (part.tasks d :: sets), provider, ws)

/-- Whatever is read by now is watched from now on. -/
def refreshWatch (p : Pipeline W) : Pipeline W :=
  match p.watch with
  | none => p
  | some watch =>
    let paths := p.provider.dependencyFiles.filterMap p.workspace.files.path?
    let watch := watch.setFiles p.workspace.world (paths.map FilePath.mk)
    { p with watch := some watch
             troubles := p.troubles ++ watch.unwatched.map (.directoryUnwatched ·.text) }

/-- Merges the parts' tasks and tells the queue, unless a part cannot be collected at all. -/
def submit (p : Pipeline W) (parts : List Part) : Pipeline W :=
  match collectTasks p.provider p.workspace parts with
  | (.error f, provider, ws) =>
    { p with provider := provider, workspace := ws, coordinator := .failed f }
  | (.ok sets, provider, ws) =>
    let (merger, dispatches) := p.merger.merge sets p.extra
    refreshWatch { p with provider := provider, workspace := ws, merger := merger
                          queue := p.queue.applyAll dispatches }

/-- Submits those of the parts that are registered, if there is any. -/
def resubmit (p : Pipeline W) (ids : List PartId) : Pipeline W :=
  match ids.filterMap (p.parts[·]?) with
  | [] => p
  | parts => p.submit parts

def forgetHeaders (p : Pipeline W) (ids : List PartId) (scope : Scope) : Pipeline W :=
  match p.artifacts.deleteHeader p.workspace.world ids scope with
  | (.ok (), store, w) =>
    { p with artifacts := store, workspace := { p.workspace with world := w } }
  | (.error _, store, w) =>
    { p with artifacts := store, workspace := { p.workspace with world := w }
             troubles := p.troubles ++ [.headersUnrecorded ids] }

def removeParts (p : Pipeline W) (ids : List PartId) : Pipeline W :=
  let (merger, dispatches) := p.merger.remove ids
  let p := { p with parts := ids.foldl (fun m id => m.erase id) p.parts
                    provider := p.provider.removeParts ids
                    merger := merger
                    queue := p.queue.applyAll dispatches }
  refreshWatch (Scope.all.foldl (fun p scope => p.forgetHeaders ids scope) p)

/-- One event, handled. -/
def handle (p : Pipeline W) : Event → Pipeline W
  | .addParts parts extra =>
    { p with parts := parts.foldl (fun m (part : Part) => m.insert part.id part) p.parts
             extra := extra }.submit parts
  | .removeParts ids => p.removeParts ids
  | .updateUnsaved fs =>
    let (hit, provider, files) := p.provider.updateUnsaved p.workspace.files fs
    { p with provider := provider, workspace := { p.workspace with files := files } }.resubmit hit
  | .removeUnsaved paths =>
    let (hit, provider, files) := p.provider.removeUnsaved p.workspace.files paths
    { p with provider := provider, workspace := { p.workspace with files := files } }.resubmit hit
  | .filesChanged paths =>
    match paths.filterMap (fun path => p.workspace.files.id? path.text) with
    | [] => p
    | ids =>
      let (hit, provider) := p.provider.invalidate ids
      { p with provider := provider }.resubmit hit
  | .taskFinished _ notice =>
    { p with queue := p.queue.reported, notices := p.notices ++ notice.toList }
  | .shutdown => { p with coordinator := .stopped }

def noticeOf? : Event → Option Notice
  | .taskFinished _ notice => notice
  | _ => none

/-- The coordinator stops. Reports that were sent before are still passed on; all else that was
sent is lost. -/
def leave (p : Pipeline W) : Pipeline W :=
  { p with coordinator := .stopped, inbox := []
           notices := p.notices ++ p.inbox.filterMap noticeOf? }

/-- The coordinator takes the next event. -/
def coordinate (p : Pipeline W) : Option (Pipeline W) :=
  match p.coordinator, p.inbox with
  | .running, event :: rest =>
    let p := { p with inbox := rest }.handle event
    match p.coordinator with
    | .running => if p.exitWhenIdle && p.queue.isIdle then some p.leave else some p
    | .stopped => some p.leave
    | .failed _ => some { p with inbox := [] }
  | _, _ => none

/-- Accepted as long as the coordinator runs. -/
def send (p : Pipeline W) (event : Event) : Bool × Pipeline W :=
  match p.coordinator with
  | .running => (true, { p with inbox := p.inbox ++ [event] })
  | _ => (false, p)

/-- No worker takes up anything more. -/
def close (p : Pipeline W) : Pipeline W := { p with closing := true }

def isRunning (p : Pipeline W) : Bool := p.coordinator = .running

/-! ### The workers -/

def setStage (p : Pipeline W) (i : Nat) (stage : Stage) : Pipeline W :=
  { p with workers := p.workers.modify i ({ · with stage := stage }) }

/-- An idle worker claims a task. -/
def claim (p : Pipeline W) (i : Nat) (scope : Scope) : Option (Pipeline W) :=
  if p.closing then none
  else
    match p.queue.claim scope with
    | none => none
    | some (claimed, queue) => some ({ p with queue := queue }.setStage i (.claimed claimed))

/-- The worker looks up which header its task is to be built upon. -/
def lookUp (p : Pipeline W) (i : Nat) (claimed : Claimed) : Pipeline W :=
  match Build.footing p.artifacts p.workspace.world claimed.scope claimed.task with
  | .settled outcome => p.setStage i (.ended claimed outcome)
  | .upon base => p.setStage i (.based claimed base)

/-- The worker plans the build upon that header. -/
def plan (p : Pipeline W) (i : Nat) (claimed : Claimed) (base : Option FilePath) (waits : Bool) :
    Pipeline W :=
  match Build.plan p.pchDir p.artifacts p.workspace claimed.key claimed.scope claimed.task base with
  | .settled outcome => p.setStage i (.ended claimed outcome)
  | .compile job print => p.setStage i (.compiling claimed job print waits)

/-- The worker's compiler run. -/
def compile (p : Pipeline W) (i : Nat) (claimed : Claimed) (job : Job) (print : String) :
    Pipeline W :=
  let (outcome, store, w) := Build.compile p.artifacts p.workspace.world job print
  { p with artifacts := store, workspace := { p.workspace with world := w } }.setStage i
    (.ended claimed outcome)

/-- The parts' new headers are recorded in one step with the end of the build, so that a project
build unblocked by it finds them. -/
def recordOutcome (p : Pipeline W) (f : Finished) (outcome : Outcome) : Pipeline W :=
  if f.retracted then p
  else
    match Build.record p.artifacts p.workspace.world f.scope f.members outcome with
    | (.ok (), store, w) =>
      { p with artifacts := store, workspace := { p.workspace with world := w } }
    | (.error _, store, w) =>
      { p with artifacts := store, workspace := { p.workspace with world := w }
               troubles := p.troubles ++ [.headersUnrecorded f.members] }

def noteFailure (p : Pipeline W) (key : TaskKey) : Outcome → Pipeline W
  | .failed _ => { p with troubles := p.troubles ++ [.buildFailed key.short] }
  | _ => p

/-- The next stage after the queue was told: a void result gives no notice, and system notices
are sent by the worker itself. -/
def stageAfter (f : Finished) (outcome : Outcome) : Stage :=
  if f.retracted then .reporting f.scope none
  else
    let notice : Notice := ⟨f.scope, f.members, outcome, f.progress⟩
    match f.scope with
    | .system => .notifying .system notice
    | .project => .reporting .project (some notice)

def finish (p : Pipeline W) (i : Nat) (claimed : Claimed) (outcome : Outcome) : Pipeline W :=
  let p := p.noteFailure claimed.key outcome
  match p.queue.finish claimed.key with
  | none => p.setStage i .idle
  | some (f, queue) =>
    ({ p with queue := queue }.recordOutcome f outcome).setStage i (stageAfter f outcome)

/-- One step of worker `i`, if it has something to do. `waits` says whether a build that is planned
now has to wait for permission; a build that waits goes on only with `permitted`. -/
def work (p : Pipeline W) (i : Nat) (waits permitted : Bool) : Option (Pipeline W) :=
  match p.workers[i]? with
  | none => none
  | some worker =>
    match worker.stage with
    | .idle => p.claim i worker.scope
    | .claimed claimed => some (p.lookUp i claimed)
    | .based claimed base => some (p.plan i claimed base waits)
    | .compiling claimed job print waiting =>
      if waiting && !permitted then none else some (p.compile i claimed job print)
    | .ended claimed outcome => some (p.finish i claimed outcome)
    | .notifying scope notice =>
      some ({ p with notices := p.notices ++ [notice] }.setStage i (.reporting scope none))
    | .reporting scope notice =>
      some ((p.send (.taskFinished scope notice)).2.setStage i .idle)

/-- The coordinator in words. -/
def describe (p : Pipeline W) : String :=
  "PchManager \x7b " ++ s!"parts: {p.parts.size}, options: ManagerOptions " ++ "\x7b "
    ++ s!"exit_when_idle: {p.exitWhenIdle}" ++ " \x7d, .. \x7d"

end Pipeline
end PrecompiledHeaders
