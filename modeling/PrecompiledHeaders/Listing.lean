import PrecompiledHeaders.Arguments
import PrecompiledHeaders.Config
import PrecompiledHeaders.Text.Quoted
/-! The listing of a configuration: what would be scanned, and how. -/
namespace PrecompiledHeaders.Config

open Text (quotedList)

def managerLines (c : Config) : List String :=
  let extra := c.manager.extraArguments
  ["pchdeps dry-run",
   "  manager.storage = " ++ c.manager.storage.name,
   "  manager.state_dir = " ++ c.manager.stateDir.text,
   "  manager.pch_dir = " ++ c.manager.pchDir.text,
   "  tools.scanner = " ++ c.tools.scanner,
   "  tools.compiler = " ++ c.tools.compiler]
    ++ (if extra.isEmpty then []
      else ["  manager.extra_toolchain_arguments = " ++ quotedList extra])

/-- Files are listed as they are written in the configuration. -/
def PartEntry.lines (e : PartEntry) : List String :=
  ["  - " ++ e.id, "      sources: " ++ quotedList (e.sources.map (·.text))]
    ++ (if e.headers.isEmpty then []
      else ["      headers: " ++ quotedList (e.headers.map (·.text))])
    ++ ["      scanner args: " ++ " ".intercalate (e.settings.arguments .source)]

def listing (c : Config) : String :=
  let lines := c.managerLines ++ ["", s!"project parts ({c.parts.length}):"]
    ++ c.parts.flatMap PartEntry.lines
  String.join (lines.map (· ++ "\n"))

end PrecompiledHeaders.Config
