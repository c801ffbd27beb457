import PrecompiledHeaders.LogLevel
/-! The options of the command line. An option's value is looked at when the next option is read
or at the end, so that an unknown argument behind it is found first. -/
namespace PrecompiledHeaders

structure Options where
  config : String
  once : Bool
  dryRun : Bool
  logLevel : Option LogLevel
  deriving DecidableEq, Repr

namespace Options

/-- Why there are no options: a misuse, or a question about the program. -/
inductive Stop where
  | unknownArgument
  | invalidValue
  | argumentConflict
  | tooManyValues
  | help
  | version
  deriving DecidableEq, Repr

/-- An option that was named last, with its value if that was read. -/
inductive Waiting where
  | config (value : Option String)
  | logLevel (value : Option String)
  deriving DecidableEq, Repr

/-- What was read so far. -/
structure Draft where
  config : Option String
  logLevel : Option LogLevel
  once : Bool
  dryRun : Bool
  waiting : Option Waiting
  deriving DecidableEq, Repr

namespace Draft

def empty : Draft := ⟨none, none, false, false, none⟩

/-- No option is given twice. -/
def setConfig (d : Draft) (value : String) : Except Stop Draft :=
  if d.config.isSome then .error .argumentConflict
  else .ok { d with config := some value }

def setLevel (d : Draft) (value : String) : Except Stop Draft :=
  if d.logLevel.isSome then .error .argumentConflict
  else match LogLevel.ofWord? value with
    | some level => .ok { d with logLevel := some level }
    | none => .error .invalidValue

def setOnce (d : Draft) : Except Stop Draft :=
  if d.once then .error .argumentConflict else .ok { d with once := true }

def setDryRun (d : Draft) : Except Stop Draft :=
  if d.dryRun then .error .argumentConflict else .ok { d with dryRun := true }

/-- The option that was named last gets its value now. -/
def resolve (d : Draft) : Except Stop Draft :=
  let done := { d with waiting := none }
  match d.waiting with
  | none => .ok d
  | some (.config (some value)) => done.setConfig value
  | some (.logLevel (some value)) => done.setLevel value
  | some _ => .error .invalidValue

def flag (d : Draft) (value : Option String) (set : Draft → Except Stop Draft) :
    Except Stop Draft :=
  if value.isSome then .error .tooManyValues else do set (← d.resolve)

def valued (d : Draft) (value : Option String) (set : Draft → String → Except Stop Draft)
    (waiting : Waiting) : Except Stop Draft := do
  let d ← d.resolve
  match value with
  | some v => set d v
  | none => return { d with waiting := some waiting }

/-- An argument that starts with two dashes, with the text behind its first equals sign. -/
def long (d : Draft) (name : String) (value : Option String) : Except Stop Draft :=
  match name with
  | "config" => d.valued value setConfig (.config none)
  | "log-level" => d.valued value setLevel (.logLevel none)
  | "once" => d.flag value setOnce
  | "dry-run" => d.flag value setDryRun
  | "help" => d.flag value fun _ => .error .help
  | "version" => d.flag value fun _ => .error .version
  | _ => .error .unknownArgument

/-- An argument that starts with one dash: its first letter decides. -/
def short (d : Draft) (letter : Char) : Except Stop Draft :=
  if letter = 'h' then d.flag none fun _ => .error .help
  else if letter = 'V' then d.flag none fun _ => .error .version
  else .error .unknownArgument

/-- An argument that is no option is a value or nothing. -/
def plain (d : Draft) (arg : String) : Except Stop Draft :=
  match d.waiting with
  | some (.config none) => .ok { d with waiting := some (.config (some arg)) }
  | some (.logLevel none) => .ok { d with waiting := some (.logLevel (some arg)) }
  | _ => .error .unknownArgument

def argument (d : Draft) (arg : String) : Except Stop Draft :=
  match arg.toList with
  | '-' :: '-' :: rest =>
    let name := String.ofList (rest.takeWhile (· ≠ '='))
    match rest.dropWhile (· ≠ '=') with
    | [] => d.long name none
    | _ :: value => d.long name (some (String.ofList value))
  | '-' :: letter :: _ => d.short letter
  | _ => d.plain arg

end Draft

/-- Behind `--` stand no options, and there is nothing else to stand there. -/
def readFrom (d : Draft) : List String → Except Stop Draft
  | [] => d.resolve
  | "--" :: [] => d.resolve
  | "--" :: _ => .error .unknownArgument
  | arg :: rest => do readFrom (← d.argument arg) rest

/-- The options that the arguments give. -/
def read (arguments : List String) : Except Stop Options := do
  let d ← readFrom .empty arguments
  return ⟨d.config.getD "Pchdeps.toml", d.once, d.dryRun, d.logLevel⟩

end Options
end PrecompiledHeaders
