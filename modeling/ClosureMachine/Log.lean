/-!
# Log lines

The library does not print its log: it keeps the lines, in order, and only those that somebody wants.
The text of a line is made when it is known to be wanted, so a run that nobody follows costs nothing.
-/

set_option autoImplicit false

namespace ClosureMachine

/-- How much a line matters, from the most to the least. -/
inductive LogLevel where
  | error
  | warn
  | info
  | debug
  | trace
deriving DecidableEq, Repr

namespace LogLevel

/-- The place in the order: a level comes with all levels before it. -/
def rank : LogLevel → Nat
  | .error => 1
  | .warn => 2
  | .info => 3
  | .debug => 4
  | .trace => 5

def text : LogLevel → String
  | .error => "ERROR"
  | .warn => "WARN"
  | .info => "INFO"
  | .debug => "DEBUG"
  | .trace => "TRACE"

end LogLevel

/-- Which part of the library a line is about. -/
inductive LogTopic where
  | session
  | compilation
  | collection
  | machine
deriving DecidableEq, Repr

/-- One line. -/
structure LogLine where
  level : LogLevel
  topic : LogTopic
  message : String
deriving DecidableEq, Repr

/-- The lines so far, and which lines to keep. -/
structure Log where
  wanted : LogTopic → LogLevel → Bool
  lines : Array LogLine

namespace Log

/-- A log that keeps nothing. -/
def silent : Log := ⟨fun _ _ => false, #[]⟩

/-- A log that keeps the lines of one level and those that matter more, on every topic. -/
def upTo (level : LogLevel) : Log := ⟨fun _ l => l.rank ≤ level.rank, #[]⟩

/-- Adds a line if it is wanted. -/
def add (log : Log) (level : LogLevel) (topic : LogTopic) (message : Unit → String) : Log :=
  if log.wanted topic level then
    { log with lines := log.lines.push ⟨level, topic, message ()⟩ }
  else log

end Log

end ClosureMachine
