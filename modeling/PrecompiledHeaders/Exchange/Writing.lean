import PrecompiledHeaders.Config
import PrecompiledHeaders.Pipeline
/-! The exchange form of parts, tasks, dependencies and of what a run does, written with every
field. Files are given by number. -/
namespace PrecompiledHeaders

def FileId.listJson (ids : List FileId) : Json := .list (ids.map fun id => .ofNat id.index)

def FilePath.listJson (ps : List FilePath) : Json := .list (ps.map FilePath.toJson)

def FileTable.toJson (t : FileTable) : Json := .ofTexts t.paths

def UsedMacro.listJson (ms : List UsedMacro) : Json := .list (ms.map UsedMacro.toJson)

def Settings.toFields (s : Settings) : List (String × Json) :=
  [s.toolchainField, s.macrosField] ++ s.pathFields ++ s.languageFields

def Task.toJson (t : Task) : Json :=
  .object ([("project_part_ids", .ofTexts t.members), ("includes", FileId.listJson t.includes),
    ("sources", FileId.listJson t.sources), ("used_macros", UsedMacro.listJson t.usedMacros)]
    ++ t.settings.toFields)

/-- A task by its key, members and files. -/
def Task.briefJson (scope : Scope) (t : Task) : Json :=
  .object [("key", .text (t.key scope).hex), ("ids", .ofTexts t.members),
    ("includes", FileId.listJson t.includes), ("sources", FileId.listJson t.sources)]

def Task.briefListJson (scope : Scope) (ts : List Task) : Json := .list (ts.map (briefJson scope))

def TaskKey.toJson (k : TaskKey) : Json :=
  .object [("key", .text k.hex), ("short", .text k.short), ("display", .text k.short)]

def Part.toJson (p : Part) : Json :=
  .object ([("id", .text p.id), ("headers", FileId.listJson p.headers),
    ("sources", FileId.listJson p.sources)] ++ p.settings.toFields)

def IncludeEntry.toJson (e : IncludeEntry) : Json :=
  .list [.ofNat e.file.index, .text e.role.text, .ofNat e.order]

def FileStatus.toJson (s : FileStatus) : Json :=
  .list [.ofNat s.file.index, .ofOption .int s.modified]

def Dependency.toJson (d : Dependency) : Json :=
  .object [("includes", .list (d.includes.map IncludeEntry.toJson)),
    ("used_macros", UsedMacro.listJson d.usedMacros), ("source_files", FileId.listJson d.sources),
    ("file_statuses", .list (d.statuses.map FileStatus.toJson))]

def Progress.toJson (p : Progress) : Json :=
  .object [("completed", .ofNat p.completed), ("total", .ofNat p.total)]

def Dispatch.toJson : Dispatch → Json
  | .add scope tasks => .object [("call", .text "add"), ("scope", .text scope.text),
      ("tasks", .list (tasks.map Task.toJson))]
  | .update scope tasks => .object [("call", .text "update"), ("scope", .text scope.text),
      ("tasks", Task.briefListJson scope tasks)]
  | .remove scope keys => .object [("call", .text "remove"), ("scope", .text scope.text),
      ("keys", .list (keys.map (.text ·.hex)))]

def Job.toJson (j : Job) : Json :=
  .object [("key", .text j.key.hex), ("scope", .text j.scope.text),
    ("header_path", j.headerPath.toJson), ("output_path", j.outputPath.toJson),
    ("includes", FilePath.listJson j.includes), ("arguments", .ofTexts j.arguments),
    ("system_pch", .ofOption FilePath.toJson j.base)]

def Outcome.toFields : Outcome → List (String × Json)
  | .built path reused => [("built", path.toJson), ("reused", .bool reused)]
  | .empty => [("empty", .bool true)]
  | .failed reason => [("failed", .text reason)]

def Outcome.toJson : Outcome → Json
  | .empty => .text "empty"
  | outcome => .object outcome.toFields

def Notice.toJson (n : Notice) : Json :=
  .object (n.outcome.toFields ++ [("ids", .ofTexts n.members), ("progress", n.progress.toJson)])

namespace Config

def Manager.toJson (m : Manager) : Json :=
  .object [("pch_dir", m.pchDir.toJson), ("state_dir", m.stateDir.toJson),
    ("storage", .text m.storage.name), ("system_workers", .ofNat m.systemWorkers),
    ("project_workers", .ofNat m.projectWorkers), ("watch", .bool m.watch),
    ("extra_toolchain_arguments", .ofTexts m.extraArguments)]

def Tools.toJson (t : Tools) : Json :=
  .object [("scanner", .text t.scanner), ("scanner_args", .ofTexts t.scannerArguments),
    ("compiler", .text t.compiler)]

/-- An entry with the part that it stands for. -/
def PartEntry.toJson (e : PartEntry) (p : Part) : Json :=
  .object [("raw_headers", FilePath.listJson e.headers),
    ("raw_sources", FilePath.listJson e.sources), ("part", p.toJson)]

/-- The configuration with its parts, whose relative paths start from `base`. -/
def toJson (c : Config) (base : FilePath) : Json :=
  let (parts, files) := c.toParts base .empty
  .object [("manager", c.manager.toJson), ("tools", c.tools.toJson),
    ("project_parts", .list ((c.parts.zip parts).map fun e => e.1.toJson e.2)),
    ("paths", files.toJson)]

end Config

namespace Fault

/-- The kind of a fault, as reports name it. -/
def kindText : Fault → String
  | .config _ => "ConfigError"
  | .io _ => "IoError"
  | .toml => "TomlError"
  | .json => "JsonError"
  | .collection _ _ => "Collection"
  | .buildFailed _ _ _ => "BuildFailed"
  | .unknownFile _ => "UnknownFile"
  | .other _ _ => "Other"

end Fault
end PrecompiledHeaders
