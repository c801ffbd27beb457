import PrecompiledHeaders.Document
import Std.Data.TreeMap.Basic
/-! Records of dependencies that outlive a run. A record names files by path, because numbers
mean nothing to the next run, and is found under a key made of everything that configures the
part. -/
namespace PrecompiledHeaders

abbrev TextMap (α : Type) := Std.TreeMap String α

namespace Part

def keyJson (id : PartId) (headers sources : List String) (s : Settings) : Json :=
  .object ([("id", .text id), s.toolchainField, s.macrosField] ++ s.pathFields
    ++ [("headers", .ofTexts headers), ("sources", .ofTexts sources)] ++ s.languageFields)

/-- The key of the part's record. -/
def recordKey (p : Part) (files : FileTable) : Except Fault String :=
  match files.resolveAll p.headers with
  | .error id => .error (.unknownFile id)
  | .ok headers =>
    match files.resolveAll p.sources with
    | .error id => .error (.unknownFile id)
    | .ok sources => .ok (digestText (keyJson p.id headers sources p.settings).compact)

end Part

structure RecordedStatus where
  path : FilePath
  modified : Option Stamp
  deriving DecidableEq, Repr

structure Record where
  part : PartId
  includes : List ScannedInclude
  usedMacros : List UsedMacro
  sources : List FilePath
  statuses : List RecordedStatus
  deriving DecidableEq, Repr

namespace RecordedStatus

def toJson (s : RecordedStatus) : Json :=
  .object [("path", s.path.toJson), ("last_modified", .ofOption .int s.modified)]

def ofJson? (j : Json) : Option RecordedStatus := do
  let fs ← j.fields? ["path", "last_modified"]
  return ⟨← fs.required "path" FilePath.ofJson?, ← fs.optional "last_modified" Json.int64?⟩

end RecordedStatus

namespace Record

def toJson (r : Record) : Json :=
  .object [("project_part", .text r.part),
    ("includes", .list (r.includes.map ScannedInclude.toJson)),
    ("used_macros", .list (r.usedMacros.map UsedMacro.toJson)),
    ("source_files", .list (r.sources.map FilePath.toJson)),
    ("file_statuses", .list (r.statuses.map RecordedStatus.toJson))]

def ofJson? (j : Json) : Option Record := do
  let fs ← j.fields? ["project_part", "includes", "used_macros", "source_files", "file_statuses"]
  return ⟨← fs.required "project_part" Json.text?,
    ← fs.required "includes" (Json.list? ScannedInclude.ofJson?),
    ← fs.required "used_macros" (Json.list? UsedMacro.ofJson?),
    ← fs.required "source_files" (Json.list? FilePath.ofJson?),
    ← fs.required "file_statuses" (Json.list? RecordedStatus.ofJson?)⟩

/-! ### Numbers to paths and back -/

def pathOf (files : FileTable) (id : FileId) : Except Fault FilePath :=
  match files.path? id with
  | some p => .ok ⟨p⟩
  | none => .error (.unknownFile id)

def includeOf (files : FileTable) (e : IncludeEntry) : Except Fault ScannedInclude :=
  (pathOf files e.file).map fun p => ⟨p, e.role, e.order⟩

def statusOf (files : FileTable) (s : FileStatus) : Except Fault RecordedStatus :=
  (pathOf files s.file).map fun p => ⟨p, s.modified⟩

/-- Unknown numbers are found among the includes first, then the statuses, then the sources. -/
def ofDependency (part : PartId) (d : Dependency) (files : FileTable) : Except Fault Record := do
  let includes ← d.includes.mapM (includeOf files)
  let statuses ← d.statuses.mapM (statusOf files)
  let sources ← d.sources.mapM (pathOf files)
  return ⟨part, includes, d.usedMacros, sources, statuses⟩

def internIncludes (files : FileTable) : List ScannedInclude → List IncludeEntry × FileTable
  | [] => ([], files)
  | i :: rest =>
    let (id, files) := files.intern i.path.text
    let (entries, files) := internIncludes files rest
    (⟨id, i.role, i.order⟩ :: entries, files)

def internStatuses (files : FileTable) : List RecordedStatus → List FileStatus × FileTable
  | [] => ([], files)
  | s :: rest =>
    let (id, files) := files.intern s.path.text
    let (statuses, files) := internStatuses files rest
    (⟨id, s.modified⟩ :: statuses, files)

/-- New paths are numbered in the order of includes, sources, statuses. -/
def toDependency (r : Record) (files : FileTable) : Dependency × FileTable :=
  let (includes, files) := internIncludes files r.includes
  let (sources, files) := files.internAll (r.sources.map (·.text))
  let (statuses, files) := internStatuses files r.statuses
  (⟨includes, r.usedMacros, sources, statuses⟩, files)

end Record

/-! ### Keeping records -/

inductive RecordStore where
  | memory (records : TextMap Record)
  | files (root : FilePath)

namespace RecordStore

/-- The store as the next run finds it: what was only in memory is gone. -/
def reopened : RecordStore → RecordStore
  | .memory _ => .memory {}
  | .files root => .files root

def pathFor (root : FilePath) (key : String) : FilePath :=
  root / "build-dependencies" / (key ++ ".json")

variable {W : Type} [World W]

def load (s : RecordStore) (w : W) (key : String) : Except Fault (Option Record) :=
  match s with
  | .memory records => .ok records[key]?
  | .files root => Document.load w (pathFor root key) Record.ofJson?

def save (s : RecordStore) (w : W) (key : String) (r : Record) :
    Except Fault Unit × RecordStore × W :=
  match s with
  | .memory records => (.ok (), .memory (records.insert key r), w)
  | .files root =>
    let (result, w) := Document.save w (pathFor root key) r.toJson
    (result, .files root, w)

def remove (s : RecordStore) (w : W) (key : String) : Except Fault Unit × RecordStore × W :=
  match s with
  | .memory records => (.ok (), .memory (records.erase key), w)
  | .files root =>
    if World.hasFile w (pathFor root key) then
      match World.removeFile w (pathFor root key) with
      | (.ok (), w) => (.ok (), .files root, w)
      | (.error f, w) => (.error f.toFault, .files root, w)
    else (.ok (), .files root, w)

end RecordStore
end PrecompiledHeaders
