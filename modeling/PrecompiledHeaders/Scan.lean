import PrecompiledHeaders.Dependency
import PrecompiledHeaders.FilePath
import PrecompiledHeaders.Json.Decode
import PrecompiledHeaders.Json.Reader
import PrecompiledHeaders.Json.Writer
/-! What is said to a dependency scanner and what it answers, and the written form of both. -/
namespace PrecompiledHeaders

/-- The content of an editor buffer that stands in for a file on disk. -/
structure UnsavedFile where
  path : FilePath
  content : String
  deriving DecidableEq, Repr

structure ScanRequest where
  part : PartId
  arguments : List String
  sources : List FilePath
  unsavedFiles : List UnsavedFile
  deriving DecidableEq, Repr

structure ScannedInclude where
  path : FilePath
  role : IncludeRole
  order : Nat
  deriving DecidableEq, Repr

structure ScanReport where
  includes : List ScannedInclude
  usedMacros : List UsedMacro
  deriving DecidableEq, Repr

instance : Inhabited ScanReport := ⟨⟨[], []⟩⟩

def FilePath.toJson (p : FilePath) : Json := .text p.text

def FilePath.ofJson? (j : Json) : Option FilePath := j.text?.map FilePath.mk

namespace ScanRequest

def toJson (r : ScanRequest) : Json :=
  .object [("project_part", .text r.part), ("arguments", .ofTexts r.arguments),
    ("sources", .list (r.sources.map FilePath.toJson)),
    ("unsaved_files", .list (r.unsavedFiles.map fun f =>
      .object [("path", f.path.toJson), ("content", .text f.content)]))]

end ScanRequest

def IncludeRole.ofJson? (j : Json) : Option IncludeRole := j.name?.bind ofText?

namespace UsedMacro

def toJson (m : UsedMacro) : Json :=
  .object [("name", .text m.name), ("usage_order", .ofNat m.order)]

def ofJson? (j : Json) : Option UsedMacro := do
  let fs ← j.fields? ["name", "usage_order"]
  return ⟨← fs.required "name" Json.text?, ← fs.required "usage_order" Json.nat32?⟩

end UsedMacro

namespace ScannedInclude

def toJson (i : ScannedInclude) : Json :=
  .object [("path", i.path.toJson), ("source_type", .text i.role.text),
    ("usage_order", .ofNat i.order)]

def ofJson? (j : Json) : Option ScannedInclude := do
  let fs ← j.fields? ["path", "source_type", "usage_order"]
  return ⟨← fs.required "path" FilePath.ofJson?, ← fs.required "source_type" IncludeRole.ofJson?,
    ← fs.required "usage_order" Json.nat32?⟩

end ScannedInclude

namespace ScanReport

def toJson (r : ScanReport) : Json :=
  .object [("includes", .list (r.includes.map ScannedInclude.toJson)),
    ("used_macros", .list (r.usedMacros.map UsedMacro.toJson))]

def ofJson? (j : Json) : Option ScanReport := do
  let fs ← j.fields? ["includes", "used_macros"]
  return ⟨← fs.defaulted "includes" [] (Json.list? ScannedInclude.ofJson?),
    ← fs.defaulted "used_macros" [] (Json.list? UsedMacro.ofJson?)⟩

def encode (r : ScanReport) : String := r.toJson.compact

def decode? (s : String) : Option ScanReport := (Json.read s).bind ofJson?

end ScanReport
end PrecompiledHeaders
