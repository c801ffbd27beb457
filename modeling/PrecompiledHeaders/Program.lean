import PrecompiledHeaders.Listing
import PrecompiledHeaders.LogLevel
import PrecompiledHeaders.Options
import PrecompiledHeaders.Session
/-! The program as it is started from a command line: what it writes, which kinds of records it
logs, and how it ends. -/
namespace PrecompiledHeaders

namespace Program

structure End where
  code : Nat
  output : String
  errors : String
  levels : List LogLevel
  deriving DecidableEq, Repr

def version : String := "pchdeps 0.1.0"

/-- A text under its heading. -/
def causeText (cause : String) : String := "\n\nCaused by:\n    " ++ cause

/-- A fault with its first cause. Complaints about the form of a configuration are left open. -/
def faultText (f : Fault) : String :=
  "pchdeps error: " ++ f.message ++ match f, f.causes with
    | .toml, _ => ""
    | _, [] => "\n"
    | _, cause :: _ => causeText cause ++ "\n"

/-- The end of a program that was not to run, or could not. -/
def End.ofStop : Options.Stop → End
  | .help => ⟨0, "", "", []⟩
  | .version => ⟨0, version ++ "\n", "", []⟩
  | _ => ⟨2, "", "", []⟩

def End.ofFault (levels : List LogLevel) (f : Fault) : End := ⟨1, "", faultText f, levels⟩

/-- What a session logs: its steps, and that there was trouble. -/
def sessionLevels (x : Session) : List LogLevel :=
  [.debug, .info] ++ if x.troubles.isEmpty then [] else [.warn]

def End.ofSession (shown : List LogLevel → List LogLevel) (x : Session) : End :=
  match x.result with
  | .ok () => ⟨0, "", "", shown (sessionLevels x)⟩
  | .error f => .ofFault (shown (sessionLevels x)) f

/-- A program that was told what to do. One that watches is stopped when it has nothing to do. -/
def runWith (s : Site) (o : Options) (environment : Option String) : End × Site :=
  let shown := fun levels => levels.filter (LogLevel.choose o.logLevel environment).shows
  let config : FilePath := ⟨o.config⟩
  if o.dryRun then
    match Config.loadValid s config with
    | .ok c => (⟨0, c.listing, "", shown [.debug]⟩, s)
    | .error f => (.ofFault [] f, s)
  else
    match Session.begin s config o.once with
    | .ok x =>
      let x := x.follow.stop
      (.ofSession shown x, x.site)
    | .error f => (.ofFault [] f, s)

/-- `environment` is the level that the environment asks for. -/
def run (s : Site) (arguments : List String) (environment : Option String) : End × Site :=
  match Options.read arguments with
  | .ok o => runWith s o environment
  | .error stop => (.ofStop stop, s)

end Program
end PrecompiledHeaders
