import PrecompiledHeaders.Settings
/-! Compiler arguments for given settings, shared by dependency scans (of sources) and by builds
(of headers). -/
namespace PrecompiledHeaders

inductive InputKind where
  | header
  | source
  deriving DecidableEq, Repr

namespace Arguments

def languageName (language : Language) (objectiveC : Bool) : String :=
  match language, objectiveC with
  | .c, false => "c"
  | .c, true => "objective-c"
  | .cxx, false => "c++"
  | .cxx, true => "objective-c++"

def ofLanguage (s : Settings) (input : InputKind) : List String :=
  let base := languageName s.language s.extensions.objectiveC
  ["-x", match input with | .header => base ++ "-header" | .source => base]

def ofVersion (s : Settings) : List String :=
  ["-std=" ++ (if s.extensions.gnu then "gnu" else "c") ++ s.version.standardTail]

def ofExtensions (e : Extensions) : List String :=
  (if e.microsoft then ["-fms-extensions"] else [])
    ++ (if e.borland then ["-fborland-extensions"] else [])
    ++ (if e.openMp then ["-fopenmp"] else [])

def ofMacro (m : MacroDefinition) : String :=
  if m.value.isEmpty then "-D" ++ m.name else "-D" ++ m.name ++ "=" ++ m.value

def byIndex (paths : List SearchPath) : List SearchPath :=
  paths.mergeSort fun a b => a.index ≤ b.index

def isBuiltin (p : SearchPath) : Bool := p.kind = .builtin

/-- A framework directory has a flag of its own, whatever list it stands in. -/
def flagged (flag : String) (p : SearchPath) : List String :=
  [if p.kind = .framework then "-F" else flag, p.path]

def ofProjectPaths (paths : List SearchPath) : List String :=
  (byIndex paths).flatMap (flagged "-I")

/-- Built-in directories come last. -/
def ofSystemPaths (paths : List SearchPath) : List String :=
  let sorted := byIndex paths
  (sorted.filter (! isBuiltin ·) ++ sorted.filter isBuiltin).flatMap (flagged "-isystem")

end Arguments

/-- The arguments for an input of that kind, without the input itself. -/
def Settings.arguments (s : Settings) (input : InputKind) : List String :=
  s.toolchainArguments ++ Arguments.ofLanguage s input ++ Arguments.ofVersion s
    ++ Arguments.ofExtensions s.extensions ++ s.macros.map Arguments.ofMacro
    ++ Arguments.ofProjectPaths s.projectPaths ++ Arguments.ofSystemPaths s.systemPaths

end PrecompiledHeaders
