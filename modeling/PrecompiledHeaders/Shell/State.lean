import PrecompiledHeaders.FileTree
import PrecompiledHeaders.Shell.Script
/-! The state of a running shell. What is written goes to numbered streams or to files; streams are
read from their start. -/
namespace PrecompiledHeaders

/-- How a process ended. -/
inductive Ending where
  | exit (code : Nat)
  | signal (number : Nat)
  deriving DecidableEq, Repr

namespace Shell

/-- Bytes, and then a line over and over again if `cycle` is one. -/
structure Stream where
  bytes : List UInt8
  cycle : List UInt8
  deriving DecidableEq, Repr

def Stream.empty : Stream := ⟨[], []⟩

/-- At most `n` bytes, with what is left. -/
def Stream.take (s : Stream) (n : Nat) : List UInt8 × Stream :=
  let missing := n - s.bytes.length
  let more := if s.cycle.isEmpty then []
    else ((List.replicate (missing / s.cycle.length + 1) s.cycle).flatten).take missing
  (s.bytes.take n ++ more, { s with bytes := s.bytes.drop n })

inductive Sink where
  | stream (number : Nat)
  | file (place : Place)
  | nowhere
  deriving DecidableEq, Repr

/-- Where a command reads and writes. -/
structure Channels where
  /-- Without a stream there is nothing to read. -/
  input : Option Nat
  output : Sink
  errors : Sink
  deriving DecidableEq, Repr

structure State where
  tree : FileTree
  cwd : Place
  process : Nat
  name : String
  arguments : List String
  bindings : List (String × String)
  /-- The variables that processes started from here get to see. -/
  exported : List String
  streams : Array Stream
  status : Nat
  ended : Option Ending

namespace State

def locate (s : State) (path : String) : Except OsFault Place := s.tree.locate s.cwd ⟨path⟩

def entry? (s : State) (path : String) : Option Entry := s.tree.find? s.cwd ⟨path⟩

def withStatus (s : State) (n : Nat) : State := { s with status := n }

def stop (s : State) (e : Ending) : State := { s with ended := some e }

/-- A new stream with its number. -/
def newStream (s : State) (stream : Stream) : Nat × State :=
  (s.streams.size, { s with streams := s.streams.push stream })

def stream (s : State) (n : Nat) : Stream := s.streams[n]?.getD .empty

def setStream (s : State) (n : Nat) (stream : Stream) : State :=
  { s with streams := s.streams.setIfInBounds n stream }

def put (s : State) (sink : Sink) (bytes : List UInt8) : State :=
  match sink with
  | .nowhere => s
  | .stream n => s.setStream n { s.stream n with bytes := (s.stream n).bytes ++ bytes }
  | .file place =>
    if bytes.isEmpty then s
    else match s.tree.append place bytes with
      | .ok tree => { s with tree := tree }
      | .error _ => s

def say (s : State) (ch : Channels) (text : String) : State :=
  s.put ch.output (Text.Utf8.encode text)

/-- A failed command says why. -/
def complain (s : State) (ch : Channels) (text : String) : State :=
  (s.put ch.errors (Text.Utf8.encode (text ++ "\n"))).withStatus 1

/-- A complaint of the shell itself, which gives its name and the line. -/
def warn (s : State) (ch : Channels) (text : String) : State :=
  (s.complain ch s!"{s.name}: 1: {text}").withStatus 2

/-- How much of the input there is to read for `n` lines. -/
def reach (s : State) (ch : Channels) (n : Nat) : Nat :=
  match ch.input with
  | none => 0
  | some i => (s.stream i).bytes.length + n * (s.stream i).cycle.length

/-- At most `n` bytes of input. -/
def takeInput (s : State) (ch : Channels) (n : Nat) : List UInt8 × State :=
  match ch.input with
  | none => ([], s)
  | some i =>
    let (bytes, rest) := (s.stream i).take n
    (bytes, s.setStream i rest)

/-- All input that ends. -/
def allInput (s : State) (ch : Channels) : List UInt8 × State :=
  match ch.input with
  | none => ([], s)
  | some i => ((s.stream i).bytes, s.setStream i { s.stream i with bytes := [] })

/-- One line of input, if there is any. -/
def takeLine (s : State) (ch : Channels) : Option (List UInt8) × State :=
  match ch.input with
  | none => (none, s)
  | some i =>
    match (s.stream i).bytes with
    | [] => (none, s)
    | bytes =>
      (some (bytes.takeWhile (· ≠ 10)),
        s.setStream i { s.stream i with bytes := (bytes.dropWhile (· ≠ 10)).drop 1 })

def setVariable (s : State) (name value : String) : State :=
  { s with bindings := (name, value) :: s.bindings.filter (·.1 ≠ name) }

def valueOf (s : State) (name : String) : String :=
  match name with
  | "$" => toString s.process
  | "?" => toString s.status
  | "#" => toString s.arguments.length
  | "0" => s.name
  | "PWD" => (FileTree.absolute s.cwd).text
  | _ =>
    match name.toNat? with
    | some n => s.arguments[n - 1]?.getD ""
    | none => (s.bindings.lookup name).getD ""

end State
end Shell
end PrecompiledHeaders
