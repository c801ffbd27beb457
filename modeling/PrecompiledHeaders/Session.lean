import PrecompiledHeaders.Config.Reader
import PrecompiledHeaders.Schedule
import PrecompiledHeaders.Site
/-! Sessions: a pipeline set up from a configuration, at work in a site. Without a watch a session
ends when everything is built; with one it goes on with every change of a file that counts, until
it is stopped. -/
namespace PrecompiledHeaders

structure Session where
  run : Run Site
  /-- How many of the touched names the watch has seen. -/
  seen : Nat

namespace Session

/-! ### Setting up -/

/-- Where the relative paths of a configuration start: at its own directory, if it has one. -/
def root (s : Site) (config : FilePath) : FilePath :=
  match config.parent? with
  | some parent => if parent.isEmpty then FileTree.absolute s.cwd else parent
  | none => FileTree.absolute s.cwd

/-- Workers beyond the number of parts would never have anything to do. -/
def workers (c : Config) : List Scope :=
  let count := fun wanted => min (max 1 wanted) c.parts.length
  List.replicate (count c.manager.systemWorkers) .system
    ++ List.replicate (count c.manager.projectWorkers) .project

def stores (m : Config.Manager) (root : FilePath) : RecordStore × ArtifactStore :=
  match m.storage with
  | .file => (.files (root.join m.stateDir), .file (root.join m.stateDir))
  | .memory => (.memory {}, .memory .empty)

/-- All parts are submitted, and nothing is done yet. -/
def start (s : Site) (c : Config) (config : FilePath) (once : Bool) : Session :=
  let root := root s config
  let (parts, files) := c.toParts root .empty
  let (records, artifacts) := stores c.manager root
  let p := Pipeline.start ⟨{ s with tools := c.tools }, files⟩ (root.join c.manager.pchDir)
    records artifacts (workers c) once (c.manager.watch && !once)
  ⟨.start (p.send (.addParts parts c.manager.extraArguments)).2, s.tree.touched.length⟩

def begin (s : Site) (config : FilePath) (once : Bool) : Except Fault Session := do
  return start s (← Config.loadValid s config) config once

/-! ### Going on -/

def site (x : Session) : Site := x.run.pipeline.workspace.world

/-- The files that were changed since the watch looked last. -/
def changes (x : Session) : List FilePath :=
  match x.run.pipeline.watch with
  | some watch => watch.changed (x.site.tree.touched.drop x.seen)
  | none => []

def look (x : Session) : Session := { x with seen := x.site.tree.touched.length }

def send (x : Session) (e : Event) : Session :=
  { x with run := { x.run with pipeline := (x.run.pipeline.send e).2 } }

def settle (x : Session) : Session := { x with run := x.run.settle }

/-- Changes are told and dealt with, which may change files again. -/
def followFor : Nat → Session → Session
  | 0, x => x
  | fuel + 1, x =>
    match x.changes with
    | [] => x.look
    | paths => followFor fuel (x.look.send (.filesChanged paths)).settle

/-- Tools that change their own sources are followed so many times. -/
def rounds : Nat := 100

def follow (x : Session) : Session := followFor rounds x.settle

/-- Something happens in the site, and the session takes notice. -/
def act (x : Session) (f : Site → Site) : Session :=
  let p := x.run.pipeline
  let ws := { p.workspace with world := f p.workspace.world }
  follow { x with run := { x.run with pipeline := { p with workspace := ws } } }

/-! ### Ending -/

/-- What could not be done, however it went on. -/
def troubles (x : Session) : List Trouble :=
  x.run.pipeline.troubles ++ x.run.pipeline.provider.troubles

def result (x : Session) : Except Fault Unit :=
  match x.run.pipeline.coordinator with
  | .failed f => .error f
  | _ => .ok ()

def stop (x : Session) : Session := (x.send .shutdown).settle

/-- Everything is built once. -/
def once (s : Site) (config : FilePath) : Except Fault Session :=
  (begin s config true).map fun x => x.settle.stop

end Session
end PrecompiledHeaders
