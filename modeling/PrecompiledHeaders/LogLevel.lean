import PrecompiledHeaders.Text.Blank
import PrecompiledHeaders.Text.LowerCase
/-! How much is logged: the level given on the command line, else the one in the environment, else
`info`. -/
namespace PrecompiledHeaders

inductive LogLevel where
  | error
  | warn
  | info
  | debug
  | trace
  deriving DecidableEq, Repr

namespace LogLevel

def all : List LogLevel := [.error, .warn, .info, .debug, .trace]

def word : LogLevel → String
  | .error => "error"
  | .warn => "warn"
  | .info => "info"
  | .debug => "debug"
  | .trace => "trace"

def name : LogLevel → String
  | .error => "Error"
  | .warn => "Warn"
  | .info => "Info"
  | .debug => "Debug"
  | .trace => "Trace"

/-- The level's mark in a log record. -/
def label : LogLevel → String
  | .error => "ERROR"
  | .warn => "WARN"
  | .info => "INFO"
  | .debug => "DEBUG"
  | .trace => "TRACE"

def ofWord? (s : String) : Option LogLevel := all.find? (·.word == s)

/-- Blanks around the word and its case do not matter. -/
def ofVariable? (s : String) : Option LogLevel :=
  match Text.lower (Text.trim s) with
  | "warning" => some .warn
  | word => ofWord? word

def rank : LogLevel → Nat
  | .error => 0
  | .warn => 1
  | .info => 2
  | .debug => 3
  | .trace => 4

/-- Whether a record of level `l` is kept where `max` is the limit. -/
def shows (max l : LogLevel) : Bool := l.rank ≤ max.rank

def choose (option : Option LogLevel) (environment : Option String) : LogLevel :=
  option.getD ((environment.bind ofVariable?).getD .info)

end LogLevel
end PrecompiledHeaders
