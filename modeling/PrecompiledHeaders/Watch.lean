import PrecompiledHeaders.World
/-! Watching files through their directories. Directories are watched one level deep, and what
happens in them counts only for the wanted files. A directory that is removed takes its watch with
it, even if another one takes its place. -/
namespace PrecompiledHeaders

structure WatchedDirectory where
  path : FilePath
  /-- The path that changes are told with. -/
  shown : FilePath
  identity : Nat
  /-- Changes are told. -/
  active : Bool
  deriving DecidableEq, Repr

/-- A directory has one watch, however often it is asked for: other ways to it fall silent. -/
def WatchedDirectory.silenced (d : WatchedDirectory) (identities : List Nat) : WatchedDirectory :=
  if d.identity ∈ identities then { d with active := false } else d

structure Watch where
  wanted : List FilePath
  directories : List WatchedDirectory
  deriving DecidableEq, Repr

namespace Watch

variable {W : Type} [World W]

def empty : Watch := ⟨[], []⟩

/-- Places in order, each once, in its last spelling. -/
def insertPlace (p : FilePath) : List FilePath → List FilePath
  | [] => [p]
  | q :: rest =>
    if q.same p then p :: rest
    else if p.before q then p :: q :: rest
    else q :: insertPlace p rest

def places (paths : List FilePath) : List FilePath :=
  paths.foldl (fun set p => insertPlace p set) []

/-- The directories that hold the wanted files; a bare file name has none. -/
def directoriesOf (wanted : List FilePath) : List FilePath :=
  places ((wanted.filterMap (·.parent?)).filter fun d => !d.isEmpty)

/-- One more directory is watched, unless it is already, or is not there. -/
def addDirectory (w : W) (held : List WatchedDirectory) (d : FilePath) : List WatchedDirectory :=
  if held.any (·.path.same d) then held
  else match World.directory? w d with
    | some (shown, identity) => held.map (·.silenced [identity]) ++ [⟨d, shown, identity, true⟩]
    | none => held

/-- `paths` take the place of the wanted files. The directories that are not needed any more are
let go first. -/
def setFiles (watch : Watch) (w : W) (paths : List FilePath) : Watch :=
  let wanted := places paths
  let needed := directoriesOf wanted
  let (kept, stale) := watch.directories.partition fun d => needed.any (·.same d.path)
  let held := kept.map (·.silenced (stale.map (·.identity)))
  ⟨wanted, needed.foldl (addDirectory w) held⟩

/-- The directories of wanted files that could not be watched. -/
def unwatched (watch : Watch) : List FilePath :=
  (directoriesOf watch.wanted).filter fun d => !watch.directories.any (·.path.same d)

/-- The wanted files among the names touched in directories given by identity. -/
def changed (watch : Watch) (touched : List (Nat × String)) : List FilePath :=
  let seen := touched.flatMap fun t =>
    (watch.directories.filter fun d => d.active ∧ d.identity = t.1).map fun d => d.shown / t.2
  places (seen.filter fun p => watch.wanted.any (·.same p))

def describe (watch : Watch) : String :=
  "IncludeWatcher \x7b " ++ s!"dirs: {watch.directories.length}, files: {watch.wanted.length}"
    ++ " \x7d"

end Watch
end PrecompiledHeaders
