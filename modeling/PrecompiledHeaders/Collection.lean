import PrecompiledHeaders.Arguments
import PrecompiledHeaders.World
/-! Collecting what a part depends on: one scan, its report put in order of use, the part's own
files left out, and a time stamp for every file that was read. -/
namespace PrecompiledHeaders

/-- The unsaved files, one for each place, in the order of places. -/
abbrev Overlay := List UnsavedFile

namespace Overlay

def insert (f : UnsavedFile) : Overlay → Overlay
  | [] => [f]
  | g :: rest =>
    if g.path.same f.path then f :: rest
    else if f.path.before g.path then f :: g :: rest
    else g :: insert f rest

def insertAll (o : Overlay) (fs : List UnsavedFile) : Overlay := fs.foldl (fun o f => o.insert f) o

def remove (o : Overlay) (paths : List FilePath) : Overlay :=
  o.filter fun f => !paths.any (·.same f.path)

end Overlay

namespace Collection

variable {W : Type} [World W]

def inOrder (includes : List ScannedInclude) : List ScannedInclude :=
  includes.mergeSort fun a b => a.order ≤ b.order

/-- The entries for the reported includes: own files are skipped without being numbered, and the
first mention of a file decides its role. -/
def entries (own : List String) (files : FileTable) (seen : List FileId) :
    List ScannedInclude → List IncludeEntry × FileTable
  | [] => ([], files)
  | i :: rest =>
    if i.path.text ∈ own then entries own files seen rest
    else
      let (id, files) := files.intern i.path.text
      if id ∈ seen then entries own files seen rest
      else
        let (more, files) := entries own files (id :: seen) rest
        (⟨id, i.role, i.order⟩ :: more, files)

/-- One status for every referenced file, in order of first mention. -/
def statuses (ws : Workspace W) (d : Dependency) : List FileStatus :=
  (keepFirst (fun id : FileId => id) [] d.referencedFiles).map fun id =>
    ⟨id, (ws.files.path? id).bind fun p => World.modified? ws.world ⟨p⟩⟩

def request (part : Part) (sources : List String) (overlay : Overlay) : ScanRequest :=
  ⟨part.id, part.settings.arguments .source, sources.map FilePath.mk, overlay⟩

/-- What a report says about `part`. -/
def digestReport (ws : Workspace W) (part : Part) (own : List String) (r : ScanReport) :
    Dependency × Workspace W :=
  let (includes, files) := entries own ws.files [] (inOrder r.includes)
  let ws := { ws with files := files }
  let d : Dependency := ⟨includes, UsedMacro.normalize r.usedMacros, part.sources, []⟩
  ({ d with statuses := statuses ws d }, ws)

def collect (ws : Workspace W) (overlay : Overlay) (part : Part) :
    Except Fault Dependency × Workspace W :=
  match ws.files.resolveAll part.sources with
  | .error id => (.error (.unknownFile id), ws)
  | .ok sources =>
    match ws.files.resolveAll part.ownFiles with
    | .error id => (.error (.unknownFile id), ws)
    | .ok own =>
      match World.scan ws.world (request part sources overlay) with
      | (.error f, w) => (.error f, { ws with world := w })
      | (.ok report, w) =>
        let (d, ws) := digestReport { ws with world := w } part own report
        (.ok d, ws)

end Collection
end PrecompiledHeaders
