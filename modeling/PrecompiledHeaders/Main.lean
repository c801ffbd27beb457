import PrecompiledHeaders.Program
/-! The command line. Configurations are checked and listed; no other program is started from here,
so that a session which needs its tools is refused. -/
namespace PrecompiledHeaders.CommandLine

/-- What went wrong with the file, in the system's words. -/
def faultOfError : IO.Error → Fault
  | .noFileOrDirectory .. => .io OsFault.notFound.message
  | .permissionDenied .. => .io OsFault.denied.message
  | .inappropriateType .. => .io OsFault.isDirectory.message
  | e => .io (toString e)

def readConfig (path : String) : IO (Except Fault Config) := do
  try
    let bytes ← IO.FS.readBinFile path
    match Text.Utf8.decode bytes.toList with
    | .ok text => return (Config.read text).bind Config.validate
    | .error _ => return .error (.io "stream did not contain valid UTF-8")
  catch e => return .error (faultOfError e)

def report (e : Program.End) : IO UInt32 := do
  IO.print e.output
  IO.eprint e.errors
  return e.code.toUInt32

def run (arguments : List String) : IO UInt32 := do
  match Options.read arguments with
  | .error stop => report (.ofStop stop)
  | .ok o =>
    match ← readConfig o.config with
    | .error f => report (.ofFault [] f)
    | .ok c =>
      if o.dryRun then report ⟨0, c.listing, "", []⟩
      else report (.ofFault [] (.other "no tools can be started here" []))

end PrecompiledHeaders.CommandLine

def main (arguments : List String) : IO UInt32 := PrecompiledHeaders.CommandLine.run arguments
