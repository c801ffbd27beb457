import PrecompiledHeaders.Shell.Tools
/-! Running scripts. A subshell shares files and streams with the shell around it and nothing else;
a process that a script starts gets the exported variables, too. Fuel bounds how deep and how often
a script goes. -/
namespace PrecompiledHeaders.Shell

/-! ### Expanded words -/

inductive Bit where
  /-- An active character may be a wildcard. -/
  | char (active : Bool) (c : Char)
  /-- A blank at which the word is split. -/
  | blank (c : Char)
  /-- Nothing, but in quotes, so that there is a word. -/
  | quotes
  deriving DecidableEq, Repr

def Bit.char? : Bit → Option Char
  | .char _ c => some c
  | .blank c => some c
  | .quotes => none

def Bit.isBlank : Bit → Bool
  | .blank _ => true
  | _ => false

def Bit.isWild : Bit → Bool
  | .char true c => c = '*' || c = '?'
  | _ => false

def bitsText (bs : List Bit) : String := String.ofList (bs.filterMap Bit.char?)

/-- The text of an expansion. -/
def textBits (quoted : Bool) (text : String) : List Bit :=
  text.toList.map fun c =>
    if quoted then .char false c
    else if c = ' ' || c = '\t' || c = '\n' then .blank c
    else .char true c

/-- Each text in quotes of its own. -/
def quotedBits (texts : List String) : List Bit :=
  [Bit.blank ' '].intercalate (texts.map fun t => .quotes :: textBits true t)

def variableBits (s : State) (quoted : Bool) (name : String) : List Bit :=
  if name = "@" && quoted then quotedBits s.arguments
  else if name = "@" || name = "*" then textBits quoted (joinBlank s.arguments)
  else textBits quoted (s.valueOf name)

def toPattern (bs : List Bit) : Pattern :=
  wildcards (bs.filterMap fun
    | .char active c => some (!active, c)
    | .blank c => some (true, c)
    | .quotes => none)

def isSeparator (b : Bit) : Bool := b.char? = some '/'

/-- The names in a directory that a wildcard pattern stands for. -/
def matchingNames (s : State) (directory : String) (bs : List Bit) : List String :=
  match s.locate (if directory.isEmpty then "." else directory) with
  | .ok place =>
    let names := (s.tree.children place).filterMap (·.place.getLast?)
    let hidden := (bitsText bs).startsWith "."
    (names.filter fun n =>
      matchesWhole (toPattern bs) n.toList && (hidden || !n.startsWith ".")).mergeSort
  | .error _ => []

/-- The paths that begin with `start` and go on as the patterns say. -/
def matchingPaths (s : State) (start : String) : List (List Bit) → List String
  | [] => if (s.entry? start).isSome then [start] else []
  | bs :: rest =>
    let names := if bs.any Bit.isWild then matchingNames s start bs else [bitsText bs]
    names.flatMap fun n =>
      matchingPaths s (start ++ n ++ if rest.isEmpty then "" else "/") rest

/-- A word as one or more arguments. -/
def fieldTexts (s : State) (bs : List Bit) : List String :=
  if bs.any Bit.isWild then
    match matchingPaths s "" (bs.splitOnP isSeparator) with
    | [] => [bitsText bs]
    | paths => paths
  else [bitsText bs]

def fields (s : State) (bs : List Bit) : List String :=
  ((bs.splitOnP Bit.isBlank).filter (!·.isEmpty)).flatMap (fieldTexts s)

/-- Whether the word is the list of all arguments in quotes, and nothing else. -/
def isAllArguments (w : Word) : Bool :=
  match w with
  | [.text true "", .parameter true "@"] => true
  | _ => false

/-! ### Redirections -/

def Channels.sink (ch : Channels) (n : Nat) : Sink :=
  if n = 1 then ch.output else if n = 2 then ch.errors else .nowhere

def Channels.setSink (ch : Channels) (n : Nat) (sink : Sink) : Channels :=
  if n = 1 then { ch with output := sink }
  else if n = 2 then { ch with errors := sink }
  else ch

/-- Writing goes to this place from now on. -/
def openForWriting (s : State) (keeps : Bool) (target : String) :
    Except OsFault (Sink × State) := do
  let place ← s.locate target
  if place = nullDevice then return (.nowhere, s)
  match s.tree.entry? place with
  | some ⟨_, .file _ _, _⟩ => if keeps then return (.file place, s)
  | _ => pure ()
  return (.file place, { s with tree := ← s.tree.write place [] })

def openForReading (s : State) (target : String) : Except OsFault (Option Nat × State) := do
  let place ← s.locate target
  if place = nullDevice then return (none, s)
  let (n, s) := s.newStream ⟨← s.tree.read place, []⟩
  return (some n, s)

/-- What a shell says of a fault, with words of its own for what is not there. -/
def absence (missing : String) (f : OsFault) : String :=
  if f = .notFound || f = .notDirectory then missing else f.text

/-- The channels after a redirection; none if it failed. -/
def redirectedChannels (ch : Channels) (channel : Nat) (mode : RedirectMode) (target : String)
    (s : State) : Option Channels × State :=
  match mode with
  | .copy => (some (ch.setSink channel (match target.toNat? with
      | some n => ch.sink n
      | none => .nowhere)), s)
  | .read =>
    match openForReading s target with
    | .ok (input, s) => (some { ch with input := input }, s)
    | .error f => (none, s.warn ch (s!"cannot open {target}: " ++ absence "No such file" f))
  | .write | .append =>
    match openForWriting s (mode = .append) target with
    | .ok (sink, s) => (some (ch.setSink channel sink), s)
    | .error f =>
      (none, s.warn ch (s!"cannot create {target}: " ++ absence "Directory nonexistent" f))

/-! ### Programs -/

inductive Program where
  | tool (t : Tool)
  | shell

def isSystemDirectory (place : Place) : Bool := place = ["bin"] || place = ["usr", "bin"]

def systemProgram? (name : String) : Option Program :=
  if name = "sh" || name = "dash" || name = "bash" then some .shell
  else (program? name).map .tool

def systemProgramAt? (place : Place) : Option Program :=
  if isSystemDirectory place.dropLast then systemProgram? (place.getLast?.getD "") else none

/-- The words of the first line of a script that names its interpreter. -/
def interpreterWords? (text : List Char) : Option (List String) :=
  match text with
  | '#' :: '!' :: rest =>
    some (((String.ofList (rest.takeWhile (· ≠ '\n'))).splitOn " ").filter (!·.isEmpty))
  | _ => none

/-- The program of that name, with the arguments that come first. A file without the name of an
interpreter has no program. -/
def findProgram (s : State) (name : String) : Except OsFault (Option Program × List String) := do
  if !name.toList.contains '/' then
    match systemProgram? name with
    | some p => return (some p, [])
    | none => throw .notFound
  let place ← s.locate name
  if let some p := systemProgramAt? place then return (some p, [])
  match s.tree.entry? place with
  | some ⟨_, .file content true, _⟩ =>
    match interpreterWords? (Text.Utf8.lossy content).toList with
    | none => return (none, [name])
    | some ("/usr/bin/env" :: program :: options) =>
      match systemProgram? program with
      | some p => return (some p, options ++ [name])
      | none => throw .notFound
    | some (path :: options) =>
      match systemProgramAt? (← s.locate path) with
      | some p => return (some p, options ++ [name])
      | none => throw .notFound
    | some [] => throw .notExecutable
  | some _ => throw .denied
  | none => throw .notFound

/-- A shell's arguments: its script, if there is one at all, its name and what is left. -/
def shellOperands (s : State) (ch : Channels) :
    List String → Except OsFault (String × String × List String) × State
  | "-c" :: script :: operands => (.ok (script, operands.headD "sh", operands.drop 1), s)
  | operand :: rest =>
    if operand.startsWith "-" && operand ≠ "-" then shellOperands s ch rest
    else match readFile s operand with
      | .ok bytes => (.ok (Text.Utf8.lossy bytes, operand, rest), s)
      | .error f => (.error f, s)
  | [] =>
    let (bytes, s) := s.allInput ch
    (.ok (Text.Utf8.lossy bytes, "sh", []), s)

/-! ### Shells within shells -/

/-- Files and streams stay as a shell left them. -/
def State.keep (outer inner : State) : State :=
  { outer with tree := inner.tree, streams := inner.streams }

/-- A subshell has ended. A signal meets the whole script. -/
def State.afterSubshell (outer inner : State) : State :=
  match inner.ended with
  | some (.exit n) => (outer.keep inner).withStatus n
  | some (.signal n) => (outer.keep inner).stop (.signal n)
  | none => (outer.keep inner).withStatus inner.status

/-- A process has ended. -/
def State.afterProcess (outer inner : State) : State :=
  match inner.ended with
  | some (.exit n) => (outer.keep inner).withStatus n
  | some (.signal n) => (outer.keep inner).withStatus (128 + n)
  | none => (outer.keep inner).withStatus inner.status

/-- The start of a process. -/
def State.child (s : State) : State :=
  { s with process := s.process + 1
           bindings := s.bindings.filter fun v => s.exported.contains v.1, status := 0 }

/-! ### Commands of the shell itself -/

def exitShell : Tool := fun ch args s =>
  match args with
  | [] => s.stop (.exit s.status)
  | n :: _ =>
    match n.toNat? with
    | some code => s.stop (.exit (code % 256))
    | none => (s.warn ch s!"exit: Illegal number: {n}").stop (.exit 2)

def changeDirectory : Tool := fun ch args s =>
  let target := args.headD "/"
  match s.locate target with
  | .ok place =>
    if (s.tree.directory? place).isSome then { s with cwd := place }.withStatus 0
    else s.warn ch s!"cd: can't cd to {target}"
  | .error _ => s.warn ch s!"cd: can't cd to {target}"

def shift : Tool := fun ch args s =>
  let n := ((args.headD "1").toNat?).getD 1
  if s.arguments.length < n then (s.warn ch "shift: can't shift that many").stop (.exit 2)
  else { s with arguments := s.arguments.drop n }.withStatus 0

/-- Options have no effect. -/
def setArguments : Tool := fun _ args s =>
  let operands := args.dropWhile fun a => a.startsWith "-" && a ≠ "--"
  match operands with
  | [] => s.withStatus 0
  | "--" :: rest => { s with arguments := rest }.withStatus 0
  | rest => { s with arguments := rest }.withStatus 0

def exportNames : Tool := fun _ args s =>
  args.foldl (fun s a =>
    let name := String.ofList (a.toList.takeWhile (· ≠ '='))
    let s := { s with exported := name :: s.exported }
    if name = a then s
    else s.setVariable name (String.ofList ((a.toList.dropWhile (· ≠ '=')).drop 1)))
    (s.withStatus 0)

/-- The last name takes all that is left. -/
def assignWords (names words : List String) (s : State) : State :=
  match names with
  | [] => s
  | [name] => s.setVariable name (joinBlank words)
  | name :: rest => assignWords rest (words.drop 1) (s.setVariable name (words.headD ""))

def readLine : Tool := fun ch args s =>
  let names := args.filter (!·.startsWith "-")
  match s.takeLine ch with
  | (none, s) => (assignWords names [] s).withStatus 1
  | (some line, s) =>
    let words := (Text.Utf8.lossy line).toList.splitOnP fun c => c = ' ' || c = '\t'
    let words := (words.filter (!·.isEmpty)).map fun w => String.ofList w
    (assignWords names words s).withStatus 0

def shellCommands : List (String × Tool) :=
  [("cd", changeDirectory), ("shift", shift), ("set", setArguments), ("export", exportNames),
   ("read", readLine), ("wait", succeed), ("trap", succeed), ("umask", succeed),
   ("exit", exitShell)]

def ownCommand? (name : String) : Option Tool :=
  (shellCommands.lookup name).orElse fun _ => builtin? name

/-! ### Running -/

/-- A redirection of the shell itself, from the outermost one on. -/
def Script.ownRedirections? : Script → Option (List Redirection)
  | .redirect inner channel mode target =>
    inner.ownRedirections?.map ((channel, mode, target) :: ·)
  | .simple [] [w] => if Word.plainText? w = some "exec" then some [] else none
  | _ => none

mutual

/-- What a word expands to. -/
def expand : Nat → Channels → Word → State → List Bit × State
  | 0, _, _, s => ([], s)
  | _ + 1, _, [], s => ([], s)
  | fuel + 1, ch, piece :: rest, s =>
    let (here, s) : List Bit × State := match piece with
      | .text true "" => ([.quotes], s)
      | .text quoted text => (text.toList.map (.char !quoted), s)
      | .parameter quoted name => (variableBits s quoted name, s)
      | .result quoted script =>
        let (n, s) := s.newStream .empty
        let s := s.afterSubshell (run fuel { ch with output := .stream n } script s)
        let text := Text.Utf8.lossy (s.stream n).bytes
        let kept := (text.toList.reverse.dropWhile (· = '\n')).reverse
        (textBits quoted (String.ofList kept), s)
    let (more, s) := expand fuel ch rest s
    (here ++ more, s)

/-- The arguments that the words stand for. -/
def expandAll : Nat → Channels → List Word → State → List String × State
  | 0, _, _, s => ([], s)
  | _ + 1, _, [], s => ([], s)
  | fuel + 1, ch, w :: rest, s =>
    let (bits, s) := expand fuel ch w s
    let here := if isAllArguments w then s.arguments else fields s bits
    let (more, s) := expandAll fuel ch rest s
    (here ++ more, s)

def assignAll : Nat → Channels → List (String × Word) → State → State
  | 0, _, _, s => s
  | _ + 1, _, [], s => s
  | fuel + 1, ch, (name, w) :: rest, s =>
    let (bits, s) := expand fuel ch w s
    assignAll fuel ch rest (s.setVariable name (bitsText bits))

/-- The channels after all redirections; none if one failed. -/
def redirectAll : Nat → Channels → List Redirection → State → Option Channels × State
  | 0, _, _, s => (none, s)
  | _ + 1, ch, [], s => (some ch, s)
  | fuel + 1, ch, (channel, mode, target) :: rest, s =>
    let (bits, s) := expand fuel ch target s
    match redirectedChannels ch channel mode (bitsText bits) s with
    | (some ch, s) => redirectAll fuel ch rest s
    | (none, s) => (none, s)

/-- A program in a process that is its own already. -/
def runProgram : Nat → Channels → Program → List String → State → State
  | 0, _, _, _, s => s
  | fuel + 1, ch, program, args, s =>
    match program with
    | .tool t => t ch args s
    | .shell =>
      match shellOperands s ch args with
      | (.error f, s) =>
        (s.complain ch
          ("sh: 0: cannot open " ++ args.headD "" ++ ": " ++ absence "No such file" f)).withStatus 2
      | (.ok (text, name, operands), s) =>
        match Script.read text with
        | some script => run fuel ch script { s with name := name, arguments := operands }
        | none => (s.complain ch s!"{name}: Syntax error").withStatus 2

/-- A command with its arguments. -/
def runCommand : Nat → Channels → String → List String → State → State
  | 0, _, _, _, s => s
  | fuel + 1, ch, name, args, s =>
    match name, args with
    | "eval", _ =>
      match Script.read (joinBlank args) with
      | some script => run fuel ch script (s.withStatus 0)
      | none => (s.complain ch "eval: Syntax error").stop (.exit 2)
    | "exec", command :: rest =>
      let s := runCommand fuel ch command rest s
      if s.ended.isSome then s else s.stop (.exit s.status)
    | "exec", [] => s.withStatus 0
    | "command", command :: rest => runCommand fuel ch command rest s
    | _, _ =>
      match ownCommand? name with
      | some t => t ch args s
      | none =>
        match findProgram s name with
        | .ok (program, first) =>
          s.afterProcess (runProgram fuel ch (program.getD .shell) (first ++ args) s.child)
        | .error f =>
          let text := absence "not found" f
          (s.warn ch s!"{name}: {text}").withStatus (if f = .denied then 126 else 127)

/-- The body for each of the values. -/
def runEach : Nat → Channels → String → List String → Script → State → State
  | 0, _, _, _, _, s => s
  | _ + 1, _, _, [], _, s => s
  | fuel + 1, ch, name, value :: rest, body, s =>
    runEach fuel ch name rest body (run fuel ch body (s.setVariable name value))

/-- The branch whose pattern matches first. -/
def runBranch : Nat → Channels → String → List (List Word × Script) → State → State
  | 0, _, _, _, s => s
  | _ + 1, _, _, [], s => s.withStatus 0
  | fuel + 1, ch, value, (patterns, body) :: rest, s =>
    let (found, s) := patterns.foldl (fun (found, s) w =>
      let (bits, s) := expand fuel ch w s
      (found || matchesWhole (toPattern bits) value.toList, s)) (false, s)
    if found then run fuel ch body (s.withStatus 0) else runBranch fuel ch value rest s

def runLoop : Nat → Channels → Bool → Script → Script → State → State
  | 0, _, _, _, _, s => s.stop (.exit 2)
  | fuel + 1, ch, negated, condition, body, s =>
    let tested := run fuel ch condition s
    if tested.ended.isSome then tested
    else if (tested.status = 0) = negated then tested.withStatus 0
    else runLoop fuel ch negated condition body (run fuel ch body tested)

def run : Nat → Channels → Script → State → State
  | 0, _, _, s => s.stop (.exit 2)
  | fuel + 1, ch, script, s =>
    if s.ended.isSome then s
    else match script with
      | .nothing => s
      | .simple assignments words =>
        let (args, s) := expandAll fuel ch words s
        match args with
        | [] =>
          let left := assignAll fuel ch assignments s
          if assignments.any (·.2.any Piece.isResult) then left else left.withStatus 0
        | name :: args =>
          let set := assignAll fuel ch assignments s
          let given := { set with exported := assignments.map (·.1) ++ s.exported }
          let left := runCommand fuel ch name args given
          if assignments.isEmpty then left
          else { left with bindings := s.bindings, exported := s.exported }
      | .redirect inner channel mode target =>
        let (bits, s) := expand fuel ch target s
        match redirectedChannels ch channel mode (bitsText bits) s with
        | (some ch, s) => run fuel ch inner s
        | (none, s) => s
      | .sequence first second =>
        match first.ownRedirections? with
        | some rs =>
          match redirectAll fuel ch rs s with
          | (some ch, s) => run fuel ch second (s.withStatus 0)
          | (none, s) => s.stop (.exit 2)
        | none => run fuel ch second (run fuel ch first s)
      | .both first second =>
        let s := run fuel ch first s
        if s.status = 0 then run fuel ch second s else s
      | .either first second =>
        let s := run fuel ch first s
        if s.status = 0 then s else run fuel ch second s
      | .negate inner =>
        let s := run fuel ch inner s
        if s.ended.isSome then s else s.withStatus (if s.status = 0 then 1 else 0)
      | .pipe first second =>
        let (n, s) := s.newStream .empty
        let s := s.afterSubshell (run fuel { ch with output := .stream n } first s)
        s.afterSubshell (run fuel { ch with input := some n } second s)
      | .subshell inner => s.afterSubshell (run fuel ch inner s)
      | .choice condition yes no =>
        let s := run fuel ch condition s
        if s.status = 0 then run fuel ch yes s else run fuel ch no (s.withStatus 0)
      | .each name words body =>
        match words with
        | none => runEach fuel ch name s.arguments body (s.withStatus 0)
        | some ws =>
          let (values, s) := expandAll fuel ch ws s
          runEach fuel ch name values body (s.withStatus 0)
      | .loop negated condition body => runLoop fuel ch negated condition body s
      | .cases word branches =>
        let (bits, s) := expand fuel ch word s
        runBranch fuel ch (bitsText bits) branches s

end

/-! ### Starting a program -/

/-- A program that has ended. -/
structure Completed where
  ending : Ending
  output : List UInt8
  errors : List UInt8
  tree : FileTree

/-- Steps that a script may take. -/
def fuelLimit : Nat := 100000

/-- Runs a command to its end, or says why it cannot be started. -/
def launch (tree : FileTree) (cwd : Place) (command : String) (arguments : List String)
    (input : List UInt8) : Except OsFault Completed := do
  if (command :: arguments).any (·.toList.contains '\x00') then throw .nulInCommand
  let s : State :=
    { tree := tree, cwd := cwd, process := 4000, name := command, arguments := []
      bindings := [("PATH", "/usr/bin:/bin")], exported := ["PATH"]
      streams := #[⟨input, []⟩, .empty, .empty], status := 0, ended := none }
  match ← findProgram s command with
  | (none, _) => throw .notExecutable
  | (some program, first) =>
    let s := runProgram fuelLimit ⟨some 0, .stream 1, .stream 2⟩ program (first ++ arguments) s
    return ⟨s.ended.getD (.exit (s.status % 256)), (s.stream 1).bytes, (s.stream 2).bytes, s.tree⟩

end PrecompiledHeaders.Shell
