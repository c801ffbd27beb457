import PrecompiledHeaders.Config.Validity
import PrecompiledHeaders.Toml.Decode
import PrecompiledHeaders.Toml.Document
import PrecompiledHeaders.World
/-! Configuration files. Everything but a part's id and the names in it may be left out. -/
namespace PrecompiledHeaders.Config

def path? (t : Toml) : Option FilePath := t.text?.map FilePath.mk
def texts? : Toml → Option (List String) := Toml.list? Toml.text?
def paths? : Toml → Option (List FilePath) := Toml.list? path?

def manager? (t : Toml) : Option Manager := do
  let d := Manager.default
  let fs ← t.fields? ["pch_dir", "state_dir", "storage", "system_workers", "project_workers",
    "watch", "extra_toolchain_arguments"]
  return ⟨← fs.defaulted "pch_dir" d.pchDir path?, ← fs.defaulted "state_dir" d.stateDir path?,
    ← fs.defaulted "storage" d.storage (·.name?.bind StorageMode.ofWord?),
    ← fs.defaulted "system_workers" 0 Toml.word64?, ← fs.defaulted "project_workers" 0 Toml.word64?,
    ← fs.defaulted "watch" d.watch Toml.bool?,
    ← fs.defaulted "extra_toolchain_arguments" [] texts?⟩

def tools? (t : Toml) : Option Tools := do
  let fs ← t.fields? ["scanner", "scanner_args", "compiler"]
  return ⟨← fs.defaulted "scanner" "" Toml.text?, ← fs.defaulted "scanner_args" [] texts?,
    ← fs.defaulted "compiler" "" Toml.text?⟩

def macroEntry? (t : Toml) : Option MacroEntry := do
  let fs ← t.fields? ["name", "value"]
  return ⟨← fs.required "name" Toml.text?, ← fs.defaulted "value" "" Toml.text?⟩

def searchPath? (t : Toml) : Option PathEntry := do
  let fs ← t.fields? ["path", "kind"]
  return ⟨← fs.required "path" Toml.text?,
    ← fs.defaulted "kind" none fun v => (v.name?.bind SearchPathKind.ofText?).map some⟩

def extensions? (t : Toml) : Option Extensions := do
  let fs ← t.fields? ["gnu", "microsoft", "borland", "open_mp", "objective_c"]
  return ⟨← fs.defaulted "gnu" false Toml.bool?, ← fs.defaulted "microsoft" false Toml.bool?,
    ← fs.defaulted "borland" false Toml.bool?, ← fs.defaulted "open_mp" false Toml.bool?,
    ← fs.defaulted "objective_c" false Toml.bool?⟩

def part? (t : Toml) : Option PartEntry := do
  let fs ← t.fields? ["id", "toolchain_arguments", "macros", "system_include_paths",
    "project_include_paths", "headers", "sources", "language", "language_version",
    "language_extension"]
  return ⟨← fs.required "id" Toml.text?, ← fs.defaulted "toolchain_arguments" [] texts?,
    ← fs.defaulted "macros" [] (Toml.list? macroEntry?),
    ← fs.defaulted "system_include_paths" [] (Toml.list? searchPath?),
    ← fs.defaulted "project_include_paths" [] (Toml.list? searchPath?),
    ← fs.defaulted "headers" [] paths?, ← fs.defaulted "sources" [] paths?,
    ← fs.defaulted "language" .cxx (·.name?.bind Language.ofText?),
    ← fs.defaulted "language_version" .cxx17 (·.name?.bind LanguageVersion.ofText?),
    ← fs.defaulted "language_extension" .none extensions?⟩

def ofToml? (t : Toml) : Option Config := do
  let fs ← t.fields? ["manager", "tools", "project_part"]
  return ⟨← fs.defaulted "manager" .default manager?, ← fs.defaulted "tools" .default tools?,
    ← fs.defaulted "project_part" [] (Toml.list? part?)⟩

def read (s : String) : Except Fault Config :=
  match (Toml.read s).bind ofToml? with
  | some c => .ok c
  | none => .error .toml

variable {W : Type} [World W]

def load (w : W) (path : FilePath) : Except Fault Config :=
  match World.readText w path with
  | .ok s => read s
  | .error f => .error (.io f.reason)

def loadValid (w : W) (path : FilePath) : Except Fault Config := do
  (← load w path).validate

end PrecompiledHeaders.Config
