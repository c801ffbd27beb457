import PrecompiledHeaders.Scan
import PrecompiledHeaders.Task
/-! The exchange form of settings, parts, tasks and dependencies, read leniently: what is left out
is empty. Files are given by number or by path, and paths are numbered as they are read. -/
namespace PrecompiledHeaders.Exchange

def field (j : Json) (name : String) : Json := (j.field? name).getD .null
def text (j : Json) : String := j.text?.getD ""

def items : Json → List Json
  | .list xs => xs
  | _ => []

def item (j : Json) (i : Nat) : Json := (items j)[i]?.getD .null
def texts (j : Json) : List String := (items j).map text

def integer : Json → Int
  | .int n => n
  | _ => 0

def number (j : Json) : Nat := (integer j).toNat
def bytes (j : Json) : List UInt8 := (items j).map fun x => (number x).toUInt8

def flagOr (d : Bool) : Json → Bool
  | .bool b => b
  | _ => d

def flag (j : Json) (name : String) : Bool := flagOr false (field j name)

/-- Nothing is written `null`. -/
def maybe (f : Json → α) : Json → Option α
  | .null => none
  | j => some (f j)

def path (j : Json) : FilePath := ⟨text j⟩
def paths (j : Json) : List FilePath := (items j).map path
def scope (j : Json) : Scope := (Scope.ofText? (text j)).getD .system
def language (j : Json) : Language := (Language.ofText? (text j)).getD .cxx
def version (j : Json) : LanguageVersion := (LanguageVersion.ofText? (text j)).getD .cxx17
def role (j : Json) : IncludeRole := (IncludeRole.ofJson? j).getD .userInclude

def definition (j : Json) : MacroDefinition :=
  ⟨text (field j "name"), text (field j "value"), number (field j "order")⟩

def searchPath (j : Json) : SearchPath :=
  ⟨text (field j "path"), number (field j "index"),
    (SearchPathKind.ofText? (text (field j "kind"))).getD .system⟩

def extensions (j : Json) : Extensions :=
  ⟨flag j "gnu", flag j "microsoft", flag j "borland", flag j "open_mp", flag j "objective_c"⟩

def settings (j : Json) : Settings :=
  { toolchainArguments := texts (field j "toolchain_arguments")
    macros := (items (field j "compiler_macros")).map definition
    systemPaths := (items (field j "system_include_search_paths")).map searchPath
    projectPaths := (items (field j "project_include_search_paths")).map searchPath
    language := language (field j "language")
    version := version (field j "language_version")
    extensions := extensions (field j "language_extension") }

def usedMacros (j : Json) : List UsedMacro :=
  (items j).map fun m => ⟨text (field m "name"), number (field m "usage_order")⟩

def unsavedFiles (j : Json) : List UnsavedFile :=
  (items j).map fun f => ⟨path (field f "path"), text (field f "content")⟩

/-! ### What names files -/

abbrev Reading := StateM FileTable

def file : Json → Reading FileId
  | .int n => return ⟨n.toNat⟩
  | j => modifyGet (·.intern (text j))

def files (j : Json) : Reading (List FileId) := (items j).mapM file

def part (j : Json) : Reading Part := do
  let headers ← files (field j "headers")
  let sources ← files (field j "sources")
  return ⟨text (field j "id"), settings j, headers, sources⟩

def task (j : Json) : Reading Task := do
  let includes ← files (field j "includes")
  let sources ← files (field j "sources")
  return ⟨texts (field j "project_part_ids"), includes, sources, usedMacros (field j "used_macros"),
    settings j⟩

def taskSet (j : Json) : Reading TaskSet := do
  let system ← task (field j "system")
  let project ← task (field j "project")
  return ⟨system, project⟩

def includeEntry (j : Json) : Reading IncludeEntry := do
  return ⟨← file (item j 0), role (item j 1), number (item j 2)⟩

def status (j : Json) : Reading FileStatus := do
  return ⟨← file (item j 0), maybe integer (item j 1)⟩

def dependency (j : Json) : Reading Dependency := do
  let includes ← (items (field j "includes")).mapM includeEntry
  let sources ← files (field j "source_files")
  let statuses ← (items (field j "file_statuses")).mapM status
  return ⟨includes, usedMacros (field j "used_macros"), sources, statuses⟩

end PrecompiledHeaders.Exchange
