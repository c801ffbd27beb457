import PrecompiledHeaders.Json.Value
/-! Compile settings: everything about a compiler invocation but its input files. -/
namespace PrecompiledHeaders

structure MacroDefinition where
  name : String
  value : String
  order : Nat
  deriving DecidableEq, Repr

inductive SearchPathKind where
  | system
  | builtin
  | user
  | framework
  deriving DecidableEq, Repr

namespace SearchPathKind

def text : SearchPathKind → String
  | .system => "system"
  | .builtin => "builtin"
  | .user => "user"
  | .framework => "framework"

def ofText? : String → Option SearchPathKind
  | "system" => some .system
  | "builtin" => some .builtin
  | "user" => some .user
  | "framework" => some .framework
  | _ => none

end SearchPathKind

structure SearchPath where
  path : String
  index : Nat
  kind : SearchPathKind
  deriving DecidableEq, Repr

inductive Language where
  | c
  | cxx
  deriving DecidableEq, Repr

namespace Language

def text : Language → String
  | .c => "c"
  | .cxx => "cxx"

def ofText? : String → Option Language
  | "c" => some .c
  | "cxx" => some .cxx
  | _ => none

end Language

inductive LanguageVersion where
  | c89 | c99 | c11 | c18
  | cxx98 | cxx03 | cxx11 | cxx14 | cxx17 | cxx20
  deriving DecidableEq, Repr

namespace LanguageVersion

def all : List LanguageVersion :=
  [.c89, .c99, .c11, .c18, .cxx98, .cxx03, .cxx11, .cxx14, .cxx17, .cxx20]

def text : LanguageVersion → String
  | .c89 => "c89"
  | .c99 => "c99"
  | .c11 => "c11"
  | .c18 => "c18"
  | .cxx98 => "cxx98"
  | .cxx03 => "cxx03"
  | .cxx11 => "cxx11"
  | .cxx14 => "cxx14"
  | .cxx17 => "cxx17"
  | .cxx20 => "cxx20"

def ofText? (s : String) : Option LanguageVersion := all.find? (·.text == s)

/-- The standard's name without its leading `c`, which dialects with extensions replace. -/
def standardTail : LanguageVersion → String
  | .c89 => "89"
  | .c99 => "99"
  | .c11 => "11"
  | .c18 => "18"
  | .cxx98 => "++98"
  | .cxx03 => "++03"
  | .cxx11 => "++11"
  | .cxx14 => "++14"
  | .cxx17 => "++17"
  | .cxx20 => "++20"

end LanguageVersion

/-- Language extensions that are switched on. -/
structure Extensions where
  gnu : Bool
  microsoft : Bool
  borland : Bool
  openMp : Bool
  objectiveC : Bool
  deriving DecidableEq, Repr

namespace Extensions

def none : Extensions := ⟨false, false, false, false, false⟩
def all : Extensions := ⟨true, true, true, true, true⟩

end Extensions

structure Settings where
  toolchainArguments : List String
  macros : List MacroDefinition
  systemPaths : List SearchPath
  projectPaths : List SearchPath
  language : Language
  version : LanguageVersion
  extensions : Extensions
  deriving DecidableEq, Repr

namespace Settings

def default : Settings := ⟨[], [], [], [], .cxx, .cxx17, .none⟩

instance : Inhabited Settings := ⟨default⟩

/-- The value of the first definition of that name. -/
def macroValue? (s : Settings) (name : String) : Option String :=
  (s.macros.find? (·.name = name)).map (·.value)

/-! Macros and search paths are numbered from one, in the order in which they are added. -/

def define (s : Settings) (name value : String) : Settings :=
  { s with macros := s.macros ++ [⟨name, value, s.macros.length + 1⟩] }

def addSystemPath (s : Settings) (path : String) (kind : SearchPathKind) : Settings :=
  { s with systemPaths := s.systemPaths ++ [⟨path, s.systemPaths.length + 1, kind⟩] }

def addProjectPath (s : Settings) (path : String) (kind : SearchPathKind) : Settings :=
  { s with projectPaths := s.projectPaths ++ [⟨path, s.projectPaths.length + 1, kind⟩] }

end Settings

/-! ### Written form -/

def MacroDefinition.toJson (m : MacroDefinition) : Json :=
  .object [("name", .text m.name), ("value", .text m.value), ("order", .ofNat m.order)]

def SearchPath.toJson (p : SearchPath) : Json :=
  .object [("path", .text p.path), ("index", .ofNat p.index), ("kind", .text p.kind.text)]

def Extensions.toJson (e : Extensions) : Json :=
  .object [("gnu", .bool e.gnu), ("microsoft", .bool e.microsoft), ("borland", .bool e.borland),
    ("open_mp", .bool e.openMp), ("objective_c", .bool e.objectiveC)]

namespace Settings

def toolchainField (s : Settings) : String × Json :=
  ("toolchain_arguments", .ofTexts s.toolchainArguments)

def macrosField (s : Settings) : String × Json :=
  ("compiler_macros", .list (s.macros.map MacroDefinition.toJson))

def pathFields (s : Settings) : List (String × Json) :=
  [("system_include_search_paths", .list (s.systemPaths.map SearchPath.toJson)),
   ("project_include_search_paths", .list (s.projectPaths.map SearchPath.toJson))]

def languageFields (s : Settings) : List (String × Json) :=
  [("language", .text s.language.text), ("language_version", .text s.version.text),
   ("language_extension", s.extensions.toJson)]

end Settings
end PrecompiledHeaders
