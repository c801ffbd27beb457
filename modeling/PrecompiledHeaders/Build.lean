import PrecompiledHeaders.Arguments
import PrecompiledHeaders.Artifacts
/-! Building one claimed task. The header to build upon is looked up first; then what is to be done is
planned, from the artifact index and the time stamps as they are by then; a compiler run, if one is
needed, comes after. -/
namespace PrecompiledHeaders

inductive Outcome where
  | built (path : FilePath) (reused : Bool)
  /-- Nothing to precompile. -/
  | empty
  | failed (reason : String)
  deriving DecidableEq, Repr

/-- What the first look comes to. -/
inductive Footing where
  | settled (outcome : Outcome)
  | upon (base : Option FilePath)
  deriving DecidableEq, Repr

inductive Plan where
  | settled (outcome : Outcome)
  | compile (job : Job) (fingerprint : String)
  deriving DecidableEq, Repr

namespace Build

variable {W : Type} [World W]

/-- Eight bytes of two's complement, least first. -/
def stampBytes (t : Stamp) : List UInt8 :=
  (List.range 8).map fun i => ((t % UInt64.size).toNat >>> (8 * i)).toUInt8

/-- A file as it enters the fingerprint: its path and its time stamp. -/
def fileBytes (w : W) (path : FilePath) : List UInt8 :=
  Text.Utf8.encode path.text ++ match World.modified? w path with
    | some t => stampBytes t
    | none => Text.Utf8.encode "missing"

def baseBytes (w : W) : Option FilePath → List UInt8
  | some path => Text.Utf8.encode "base" ++ fileBytes w path
  | none => Text.Utf8.encode "no-base"

/-- What the fingerprint digests. -/
def fingerprintBytes (w : W) (content : String) (sources : List String)
    (base : Option FilePath) : List UInt8 :=
  Text.Utf8.encode content ++ sources.flatMap (fun s => fileBytes w ⟨s⟩) ++ baseBytes w base

/-- The name of the artifact that a build of `task` now would give: the same for the same content,
the same state of every source and the same header to build upon. -/
def fingerprint (ws : Workspace W) (scope : Scope) (task : Task) (base : Option FilePath) :
    Except Fault String :=
  match task.contentDigest scope ws.files with
  | .error f => .error f
  | .ok content =>
    match ws.files.resolveAll task.sources with
    | .error id => .error (.unknownFile id)
    | .ok sources => .ok (digest (fingerprintBytes ws.world content sources base))

/-- A project header is built upon its first member's system header. -/
def baseOf (store : ArtifactStore) (w : W) (scope : Scope) (task : Task) :
    Except Fault (Option FilePath) :=
  match scope, task.members with
  | .project, first :: _ => store.header? w first .system
  | _, _ => .ok none

def jobFor (pchDir : FilePath) (key : TaskKey) (scope : Scope) (task : Task)
    (includes : List String) (fingerprint : String) (base : Option FilePath) : Job :=
  { key := key
    scope := scope
    headerPath := pchDir / s!"{scope.text}-{key.short}.h"
    outputPath :=
      pchDir / s!"{scope.text}-{key.short}-{String.ofList (fingerprint.toList.take 16)}.pch"
    includes := includes.map FilePath.mk
    arguments := task.settings.arguments .header
    base := base }

/-- The artifact built earlier under that fingerprint, if its file is still there. -/
def reusable? (store : ArtifactStore) (w : W) (fingerprint : String) :
    Except Fault (Option FilePath) :=
  (store.artifact? w fingerprint).map (·.filter (World.hasFile w ·))

/-- The look at the header to build upon, if there is anything to build. -/
def footing (store : ArtifactStore) (w : W) (scope : Scope) (task : Task) : Footing :=
  if task.includes.isEmpty then .settled .empty
  else
    match baseOf store w scope task with
    | .ok base => .upon base
    | .error f => .settled (.failed f.message)

def tryPlan (pchDir : FilePath) (store : ArtifactStore) (ws : Workspace W) (key : TaskKey)
    (scope : Scope) (task : Task) (base : Option FilePath) : Except Fault Plan := do
  let print ← fingerprint ws scope task base
  match ← reusable? store ws.world print with
  | some path => return .settled (.built path true)
  | none =>
    match ws.files.resolveAll task.includes with
    | .error id => throw (.unknownFile id)
    | .ok includes => return .compile (jobFor pchDir key scope task includes print base) print

/-- The plan for a build upon `base`, which was looked up before. -/
def plan (pchDir : FilePath) (store : ArtifactStore) (ws : Workspace W) (key : TaskKey)
    (scope : Scope) (task : Task) (base : Option FilePath) : Plan :=
  match tryPlan pchDir store ws key scope task base with
  | .ok p => p
  | .error f => .settled (.failed f.message)

/-- The compiler run of a plan, and the entry for what it built. -/
def compile (store : ArtifactStore) (w : W) (job : Job) (fingerprint : String) :
    Outcome × ArtifactStore × W :=
  match World.build w job with
  | (.error f, w) => (.failed f.message, store, w)
  | (.ok path, w) =>
    match store.insertArtifact w fingerprint path with
    | (.error f, store, w) => (.failed f.message, store, w)
    | (.ok (), store, w) => (.built path false, store, w)

/-- All of it at one go. -/
def run (pchDir : FilePath) (store : ArtifactStore) (ws : Workspace W) (key : TaskKey)
    (scope : Scope) (task : Task) : Outcome × ArtifactStore × Workspace W :=
  match footing store ws.world scope task with
  | .settled outcome => (outcome, store, ws)
  | .upon base =>
    match plan pchDir store ws key scope task base with
    | .settled outcome => (outcome, store, ws)
    | .compile job print =>
      let (outcome, store, w) := compile store ws.world job print
      (outcome, store, { ws with world := w })

/-- The parts now use what was built, or have no header. -/
def record (store : ArtifactStore) (w : W) (scope : Scope) (parts : List PartId) :
    Outcome → Except Fault Unit × ArtifactStore × W
  | .built path _ => store.insertHeader w parts scope path
  | .empty | .failed _ => store.deleteHeader w parts scope

end Build
end PrecompiledHeaders
