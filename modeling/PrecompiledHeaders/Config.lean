import PrecompiledHeaders.FilePath
import PrecompiledHeaders.Part
import PrecompiledHeaders.Scope
/-! Configurations: where results go, which tools are run, and the parts of the project. -/
namespace PrecompiledHeaders

namespace Config

structure Manager where
  pchDir : FilePath
  stateDir : FilePath
  storage : StorageMode
  /-- Zero leaves the number open. -/
  systemWorkers : Nat
  projectWorkers : Nat
  watch : Bool
  extraArguments : List String
  deriving DecidableEq, Repr

structure Tools where
  scanner : String
  scannerArguments : List String
  compiler : String
  deriving DecidableEq, Repr

structure MacroEntry where
  name : String
  value : String
  deriving DecidableEq, Repr

structure PathEntry where
  path : String
  kind : Option SearchPathKind
  deriving DecidableEq, Repr

structure PartEntry where
  id : PartId
  toolchainArguments : List String
  macros : List MacroEntry
  systemPaths : List PathEntry
  projectPaths : List PathEntry
  headers : List FilePath
  sources : List FilePath
  language : Language
  version : LanguageVersion
  extensions : Extensions
  deriving DecidableEq, Repr

def Manager.default : Manager := ⟨⟨".pchdeps/pch"⟩, ⟨".pchdeps"⟩, .file, 0, 0, true, []⟩

def Tools.default : Tools := ⟨"", [], ""⟩

def PartEntry.empty (id : PartId) : PartEntry :=
  ⟨id, [], [], [], [], [], [], .cxx, .cxx17, .none⟩

/-- The name of the configuration file where none is given. -/
def defaultPath : FilePath := ⟨"Pchdeps.toml"⟩

end Config

structure Config where
  manager : Config.Manager
  tools : Config.Tools
  parts : List Config.PartEntry
  deriving DecidableEq, Repr

namespace Config

def empty : Config := ⟨.default, .default, []⟩

/-- The usual tools and no parts yet. -/
def usual : Config := ⟨.default, ⟨"pchdeps-scan", [], "clang++"⟩, []⟩

namespace PartEntry

/-- The settings, with macros and search paths numbered in order of mention. -/
def settings (e : PartEntry) : Settings :=
  let s : Settings := { Settings.default with
    toolchainArguments := e.toolchainArguments
    language := e.language
    version := e.version
    extensions := e.extensions }
  let s := e.macros.foldl (fun s m => s.define m.name m.value) s
  let s := e.systemPaths.foldl (fun s p => s.addSystemPath p.path (p.kind.getD .system)) s
  e.projectPaths.foldl (fun s p => s.addProjectPath p.path (p.kind.getD .user)) s

/-- The part that an entry stands for. Relative paths start from `base`; headers are numbered
before sources. -/
def toPart (e : PartEntry) (base : FilePath) (files : FileTable) : Part × FileTable :=
  let (headers, files) := files.internAll (e.headers.map fun p => (base.join p).text)
  let (sources, files) := files.internAll (e.sources.map fun p => (base.join p).text)
  (⟨e.id, e.settings, headers, sources⟩, files)

end PartEntry

def partsFrom (base : FilePath) : List PartEntry → FileTable → List Part × FileTable
  | [], files => ([], files)
  | e :: rest, files =>
    let (part, files) := e.toPart base files
    let (parts, files) := partsFrom base rest files
    (part :: parts, files)

/-- All parts, in order. -/
def toParts (c : Config) (base : FilePath) (files : FileTable) : List Part × FileTable :=
  partsFrom base c.parts files

end Config
end PrecompiledHeaders
