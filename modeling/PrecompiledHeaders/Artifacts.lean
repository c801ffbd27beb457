import PrecompiledHeaders.Record
/-! The artifact index: which file was built under which fingerprint, and which header each part
currently uses in each scope. It is kept in memory, or as one document that every operation reads
anew. -/
namespace PrecompiledHeaders

/-- The headers of one part. -/
abbrev PartHeaders := PerScope (Option FilePath)

namespace PartHeaders

def none : PartHeaders := ⟨.none, .none⟩

def isEmpty (h : PartHeaders) : Bool := h.system.isNone && h.project.isNone

def toJson (h : PartHeaders) : Json :=
  .object [("system", .ofOption FilePath.toJson h.system),
    ("project", .ofOption FilePath.toJson h.project)]

def ofJson? (j : Json) : Option PartHeaders := do
  let fs ← j.fields? ["system", "project"]
  return ⟨← fs.defaulted "system" .none (Json.option? FilePath.ofJson?),
    ← fs.defaulted "project" .none (Json.option? FilePath.ofJson?)⟩

end PartHeaders

structure ArtifactIndex where
  artifacts : TextMap FilePath
  headers : TextMap PartHeaders

namespace ArtifactIndex

def empty : ArtifactIndex := ⟨{}, {}⟩

instance : Inhabited ArtifactIndex := ⟨empty⟩

def header? (x : ArtifactIndex) (part : PartId) (scope : Scope) : Option FilePath :=
  x.headers[part]?.bind (·.get scope)

def insertArtifact (x : ArtifactIndex) (fingerprint : String) (path : FilePath) : ArtifactIndex :=
  { x with artifacts := x.artifacts.insert fingerprint path }

def setHeader (x : ArtifactIndex) (scope : Scope) (path : FilePath) (part : PartId) :
    ArtifactIndex :=
  let current := (x.headers[part]?).getD .none
  { x with headers := x.headers.insert part (current.set scope (some path)) }

/-- A part without any header left is forgotten. -/
def deleteHeader (x : ArtifactIndex) (scope : Scope) (part : PartId) : ArtifactIndex :=
  match x.headers[part]? with
  | .none => x
  | .some current =>
    let left : PartHeaders := current.set scope .none
    if left.isEmpty then { x with headers := x.headers.erase part }
    else { x with headers := x.headers.insert part left }

def setHeaders (x : ArtifactIndex) (parts : List PartId) (scope : Scope) (path : FilePath) :
    ArtifactIndex :=
  parts.foldl (fun x part => x.setHeader scope path part) x

def deleteHeaders (x : ArtifactIndex) (parts : List PartId) (scope : Scope) : ArtifactIndex :=
  parts.foldl (fun x part => x.deleteHeader scope part) x

/-- Whether one of `parts` has a header in that scope. -/
def hasHeader (x : ArtifactIndex) (parts : List PartId) (scope : Scope) : Bool :=
  parts.any fun part => (x.header? part scope).isSome

def toJson (x : ArtifactIndex) : Json :=
  .object [
    ("artifacts", .object (x.artifacts.toList.map fun e => (e.1, e.2.toJson))),
    ("headers", .object (x.headers.toList.map fun e => (e.1, PartHeaders.toJson e.2)))]

/-- Of repeated names in a map the last one counts. -/
def map? (decode : Json → Option α) : Json → Option (TextMap α)
  | .object fields =>
    fields.foldlM (fun m f => (decode f.2).map (m.insert f.1 ·)) {}
  | _ => .none

def ofJson? (j : Json) : Option ArtifactIndex := do
  let fs ← j.fields? ["artifacts", "headers"]
  return ⟨← fs.defaulted "artifacts" {} (map? FilePath.ofJson?),
    ← fs.defaulted "headers" {} (map? PartHeaders.ofJson?)⟩

end ArtifactIndex

inductive ArtifactStore where
  | memory (index : ArtifactIndex)
  | file (root : FilePath)

namespace ArtifactStore

/-- The store as the next run finds it: what was only in memory is gone. -/
def reopened : ArtifactStore → ArtifactStore
  | .memory _ => .memory .empty
  | .file root => .file root

def documentPath (root : FilePath) : FilePath := root / "artifacts.json"

variable {W : Type} [World W]

def index (s : ArtifactStore) (w : W) : Except Fault ArtifactIndex :=
  match s with
  | .memory x => .ok x
  | .file root => (Document.load w (documentPath root) ArtifactIndex.ofJson?).map (·.getD .empty)

/-- `x` takes the place of the index. -/
def replace (s : ArtifactStore) (w : W) (x : ArtifactIndex) :
    Except Fault Unit × ArtifactStore × W :=
  match s with
  | .memory _ => (.ok (), .memory x, w)
  | .file root =>
    let (result, w) := Document.save w (documentPath root) x.toJson
    (result, .file root, w)

def artifact? (s : ArtifactStore) (w : W) (fingerprint : String) : Except Fault (Option FilePath) :=
  (s.index w).map (·.artifacts[fingerprint]?)

def header? (s : ArtifactStore) (w : W) (part : PartId) (scope : Scope) :
    Except Fault (Option FilePath) :=
  (s.index w).map (·.header? part scope)

/-- What a store logs is left out. For a document that is the first 16 bytes of the fingerprint, which
are whole characters as long as it is a digest; of a text with a character across that place they
cannot be taken, and with a log of that level the call would not return. -/
def insertArtifact (s : ArtifactStore) (w : W) (fingerprint : String) (path : FilePath) :
    Except Fault Unit × ArtifactStore × W :=
  match s.index w with
  | .error f => (.error f, s, w)
  | .ok x => s.replace w (x.insertArtifact fingerprint path)

def insertHeader (s : ArtifactStore) (w : W) (parts : List PartId) (scope : Scope)
    (path : FilePath) : Except Fault Unit × ArtifactStore × W :=
  match s.index w with
  | .error f => (.error f, s, w)
  | .ok x => s.replace w (x.setHeaders parts scope path)

/-- The document is written only if something in it is deleted. -/
def deleteHeader (s : ArtifactStore) (w : W) (parts : List PartId) (scope : Scope) :
    Except Fault Unit × ArtifactStore × W :=
  match s with
  | .memory x => (.ok (), .memory (x.deleteHeaders parts scope), w)
  | .file root =>
    match index (.file root) w with
    | .error f => (.error f, .file root, w)
    | .ok x =>
      if x.hasHeader parts scope then replace (.file root) w (x.deleteHeaders parts scope)
      else (.ok (), .file root, w)

end ArtifactStore
end PrecompiledHeaders
