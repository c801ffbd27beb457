import PrecompiledHeaders.Collection
import PrecompiledHeaders.Freshness
import PrecompiledHeaders.Record
/-! Dependencies on demand. A part is collected again only if a file that its last record names
changed, if it was marked by hand, or if its configuration changed, which changes the key of its
record. A collection that fails leaves the part with what was known before. -/
namespace PrecompiledHeaders

structure KnownDependency where
  key : String
  dependency : Dependency
  deriving DecidableEq, Repr

structure Provider where
  store : RecordStore
  overlay : Overlay
  known : TextMap KnownDependency
  /-- Parts to be collected again whatever their time stamps say. -/
  forced : List PartId
  /-- How often a time stamp was read. -/
  lookups : Nat
  troubles : List Trouble

namespace Provider

variable {W : Type} [World W]

def start (store : RecordStore) : Provider := ⟨store, [], {}, [], 0, []⟩

def remember (p : Provider) (id : PartId) (key : String) (d : Dependency) : Provider :=
  { p with known := p.known.insert id ⟨key, d⟩ }

def note (p : Provider) (t : Trouble) : Provider := { p with troubles := p.troubles ++ [t] }

/-- The stored dependency under that key. A record that cannot be read is as good as none. -/
def loadStored (p : Provider) (ws : Workspace W) (part : PartId) (key : String) :
    Option Dependency × Provider × Workspace W :=
  match p.store.load ws.world key with
  | .error _ => (none, p.note (.recordUnreadable part), ws)
  | .ok none => (none, p, ws)
  | .ok (some r) =>
    let (d, files) := r.toDependency ws.files
    (some d, p, { ws with files := files })

def cached (p : Provider) (ws : Workspace W) (part : PartId) (key : String) :
    Option Dependency × Provider × Workspace W :=
  match p.known[part]? with
  | some k => if k.key = key then (some k.dependency, p, ws) else p.loadStored ws part key
  | none => p.loadStored ws part key

def saveRecord (p : Provider) (ws : Workspace W) (part : PartId) (key : String) (d : Dependency) :
    Provider × Workspace W :=
  match Record.ofDependency part d ws.files with
  | .error _ => (p.note (.recordUnsaved part), ws)
  | .ok r =>
    match p.store.save ws.world key r with
    | (.ok (), store, w) => ({ p with store := store }, { ws with world := w })
    | (.error _, store, w) =>
      ({ p with store := store }.note (.recordUnsaved part), { ws with world := w })

/-- A new collection, with `old` to fall back on. -/
def recollect (p : Provider) (ws : Workspace W) (part : Part) (key : String)
    (old : Option Dependency) : Dependency × Provider × Workspace W :=
  match Collection.collect ws p.overlay part with
  | (.ok d, ws) =>
    let p := { p with lookups := p.lookups + d.statuses.length }
    let (p, ws) := p.saveRecord ws part.id key d
    (d, p.remember part.id key d, ws)
  | (.error _, ws) =>
    let d := old.getD .empty
    (d, (p.note (.collectionFailed part.id)).remember part.id key d, ws)

def create (p : Provider) (ws : Workspace W) (part : Part) :
    Except Fault Dependency × Provider × Workspace W :=
  match part.recordKey ws.files with
  | .error f => (.error f, p, ws)
  | .ok key =>
    let isForced := decide (part.id ∈ p.forced)
    let p := { p with forced := p.forced.filter (· ≠ part.id) }
    let (old, p, ws) := p.cached ws part.id key
    match old with
    | none =>
      let (d, p, ws) := p.recollect ws part key none
      (.ok d, p, ws)
    | some d =>
      if isForced then
        let (d, p, ws) := p.recollect ws part key (some d)
        (.ok d, p, ws)
      else
        let p := { p with lookups := p.lookups + Freshness.lookups ws d.statuses }
        if Freshness.isUpToDate ws d.statuses then (.ok d, p.remember part.id key d, ws)
        else
          let (d, p, ws) := p.recollect ws part key (some d)
          (.ok d, p, ws)

/-! ### Marking parts -/

def mentions (d : Dependency) (ids : List FileId) : Bool := d.referencedFiles.any (· ∈ ids)

/-- The parts that read one of the files, in the order of their ids. -/
def affected (p : Provider) (ids : List FileId) : List PartId :=
  (p.known.toList.filter fun e => mentions e.2.dependency ids).map (·.1)

/-- Marks the parts that read one of the files. -/
def invalidate (p : Provider) (ids : List FileId) : List PartId × Provider :=
  let hit := p.affected ids
  (hit, { p with forced := Task.appendNew p.forced hit })

def updateUnsaved (p : Provider) (files : FileTable) (fs : List UnsavedFile) :
    List PartId × Provider × FileTable :=
  let (ids, files) := files.internAll (fs.map (·.path.text))
  let (hit, p) := { p with overlay := p.overlay.insertAll fs }.invalidate ids
  (hit, p, files)

def removeUnsaved (p : Provider) (files : FileTable) (paths : List FilePath) :
    List PartId × Provider × FileTable :=
  let (ids, files) := files.internAll (paths.map (·.text))
  let (hit, p) := { p with overlay := p.overlay.remove paths }.invalidate ids
  (hit, p, files)

def removeParts (p : Provider) (ids : List PartId) : Provider :=
  { p with known := ids.foldl (fun m id => m.erase id) p.known
           forced := p.forced.filter (· ∉ ids) }

/-- Every file that some part reads, by number. -/
def dependencyFiles (p : Provider) : List FileId :=
  keepFirst (fun id : FileId => id) []
    ((p.known.toList.flatMap fun e => e.2.dependency.referencedFiles).mergeSort
      fun a b => a.index ≤ b.index)

end Provider
end PrecompiledHeaders
