import PrecompiledHeaders.Scan
import PrecompiledHeaders.Task
import PrecompiledHeaders.Text.Quoted
import PrecompiledHeaders.Text.Utf8
/-! The surroundings: files with time stamps, and the two tools that are run, the dependency
scanner and the compiler. Everything else is a function of what these operations on files and
these two tools answer. -/
namespace PrecompiledHeaders

/-! ### Files -/

inductive FileAction where
  | reading
  | writing
  | removing
  | canonicalizing
  | creatingDirectory
  | creatingFile
  deriving DecidableEq, Repr

def FileAction.text : FileAction → String
  | .reading => "reading file"
  | .writing => "writing to file"
  | .removing => "removing file"
  | .canonicalizing => "canonicalizing"
  | .creatingDirectory => "creating dir"
  | .creatingFile => "creating file"

inductive FileFault where
  | missing (path : FilePath)
  | notText (fault : Text.Utf8.Fault)
  | failed (action : FileAction) (path : FilePath) (reason : String)
  deriving DecidableEq, Repr

namespace FileFault

def message : FileFault → String
  | .missing path => s!"File not found: {Text.quoted path.text}"
  | .notText fault => s!"Invalid UTF-8: {fault.message}"
  | .failed action path _ => s!"{action.text} {Text.quoted path.text}"

/-- The cause alone, as the operating system names it. -/
def reason : FileFault → String
  | .missing _ => "No such file or directory (os error 2)"
  | .notText _ => "stream did not contain valid UTF-8"
  | .failed _ _ reason => reason

def toFault : FileFault → Fault
  | .failed action path reason => .other (message (.failed action path reason)) [reason]
  | f => .other f.message []

end FileFault

/-! ### Tools -/

/-- One compiler run: the header of `includes` is written to `headerPath` and compiled to
`outputPath`, on top of `base` if there is one. -/
structure Job where
  key : TaskKey
  scope : Scope
  headerPath : FilePath
  outputPath : FilePath
  includes : List FilePath
  arguments : List String
  base : Option FilePath
  deriving DecidableEq, Repr

namespace Job

def header (j : Job) : String :=
  String.join (j.includes.map fun p => "#include \"" ++ p.text ++ "\"\n")

def baseArguments (j : Job) : List String :=
  match j.base with
  | some path => ["-Xclang", "-include-pch", "-Xclang", path.text]
  | none => []

def commandLine (j : Job) : List String :=
  j.arguments ++ j.baseArguments
    ++ ["-Xclang", "-emit-pch", "-o", j.outputPath.text, j.headerPath.text]

end Job

/-- Operations that fail may still have changed the world. -/
class World (W : Type) where
  hasFile : W → FilePath → Bool
  readText : W → FilePath → Except FileFault String
  writeText : W → FilePath → String → Except FileFault Unit × W
  removeFile : W → FilePath → Except FileFault Unit × W
  modified? : W → FilePath → Option Stamp
  /-- The directory at that path, if there is one: its absolute path and its identity. -/
  directory? : W → FilePath → Option (FilePath × Nat)
  scan : W → ScanRequest → Except Fault ScanReport × W
  build : W → Job → Except Fault FilePath × W

/-- The world together with the numbering of its files. -/
structure Workspace (W : Type) where
  world : W
  files : FileTable

end PrecompiledHeaders
