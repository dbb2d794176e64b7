import ClosureMachine.CommandLine.FileError
import ClosureMachine.CommandLine.LogFilter
import ClosureMachine.CommandLine.Options
import ClosureMachine.Compile.Emit
import ClosureMachine.Demo
import ClosureMachine.Machine.Run
import ClosureMachine.Program.Listing
import ClosureMachine.Program.Log
import ClosureMachine.Wire.Tree

/-!
# Sessions

A session is one use of the command line: it runs a file, a demonstration or all of them, or writes a
demonstration to a file. It is a function from what the user gave to what the user sees. A session
needs at most one file, so it comes as a `Job`: either it is done, or it waits for the outcome of one
operation on a file, which somebody else carries out.
-/

set_option autoImplicit false

namespace ClosureMachine

/-- What the user sees. -/
structure Transcript where
  status : Nat
  stdout : String
  stderr : String
deriving DecidableEq, Repr

/-- A session, up to the operation on a file that it needs. -/
inductive Job where
  | finished (transcript : Transcript)
  | readFile (path : String) (next : Except FileError (List UInt8) → Transcript)
  | writeFile (path : String) (bytes : List UInt8) (next : Except FileError Unit → Transcript)

/-- What a session has shown so far. -/
structure Console where
  stdout : String
  log : Log

/-- Why a session stops early. -/
inductive Exit where
  /-- Something failed, for the reason that the message gives. -/
  | failed (message : String)
  /-- A program took more instructions than there was fuel. -/
  | outOfFuel

/-- An action of a session. -/
abbrev SessionM := EStateM Exit Console

namespace Session

/-- Shows text. -/
def print (text : String) : SessionM Unit :=
  modify fun c => { c with stdout := c.stdout ++ text }

/-- Shows a line. -/
def printLine (text : String) : SessionM Unit := print (text ++ "\n")

/-- Adds to the log. -/
def addLog (change : Log → Log) : SessionM Unit :=
  modify fun c => { c with log := change c.log }

/-- Lets an action use the log. -/
def withLog {α : Type} (act : Log → α × Log) : SessionM α :=
  modifyGet fun ⟨stdout, log⟩ =>
    let (a, log) := act log
    (a, ⟨stdout, log⟩)

/-- The line about a run that is over. -/
def logRun (s : Machine.Statistics) (log : Log) : Log :=
  log.add .info .session fun _ =>
    s!"{s.steps} steps, peak control depth {s.peakDepth}, {s.collections} collections ({s.wordsCopied} words copied)"

/-- The machine that the options ask for. -/
def machineConfig (o : Options) : Config :=
  ⟨o.heapSize.getD Config.default.heapSize, o.maxSteps⟩

/-- Runs a machine to the end, and shows what it displayed. -/
def runMachine (fuel : Nat) (config : Config) (program : Program) (m : Machine) :
    SessionM Answer := do
  match ← withLog fun log =>
    match Machine.run config program fuel m log with
    | some (outcome, m, log) => (some (outcome, m), log)
    | none => (none, .silent) with
  | none => throw .outOfFuel
  | some (outcome, m) =>
    print (String.join (m.host.output.toList.map (· ++ "\n")))
    addLog (logRun m.statistics)
    match outcome with
    | .ok answer => return answer
    | .error failure => throw (.failed failure.message)

/-- Compiles a tree and runs it. -/
def runTree (fuel : Nat) (o : Options) (tree : Tree) : SessionM Answer := do
  match tree.assemble Primitive.globals with
  | .error e => throw (.failed e.message)
  | .ok program =>
    addLog program.logCompiled
    if o.bytecode then printLine (program.listing ++ program.statistics)
    match ← withLog (Machine.boot (machineConfig o) program) with
    | .error failure => throw (.failed failure.message)
    | .ok m => runMachine fuel (machineConfig o) program m

/-- Runs a demonstration and checks its answer. -/
def runDemo (fuel : Nat) (o : Options) (demo : Demo) : SessionM Unit := do
  printLine s!"── {demo.name} ──"
  printLine demo.source
  let answer ← runTree fuel o demo.tree
  if answer = .literal demo.expected then
    printLine s!"=> {answer.text}\n"
  else
    throw (.failed s!"=> {answer.text} (expected {demo.expected.text})")

/-- Runs one demonstration after the other, until one fails. -/
def runDemos (fuel : Nat) (o : Options) : List Demo → SessionM Unit
  | [] => return
  | demo :: rest => do
    runDemo fuel o demo
    runDemos fuel o rest

/-- Runs the tree in the bytes of a file. -/
def runBytes (fuel : Nat) (o : Options) (path : String) (bytes : Except FileError (List UInt8)) :
    SessionM Unit := do
  match bytes with
  | .error e => throw (.failed s!"Failed to read '{path}': {e.message}")
  | .ok bytes =>
    match Tree.decode bytes with
    | .error e => throw (.failed s!"Failed to decode '{path}': {e.message}")
    | .ok tree =>
      let answer ← runTree fuel o tree
      printLine answer.text

/-- The reply to a name that no demonstration has. -/
def unknownDemo (name : String) : String :=
  s!"Unknown demo '{name}'. Available demos:"
    ++ String.join (Demo.all.map fun demo => "\n  " ++ demo.name)

/-- Runs the demonstrations that are asked for. -/
def runNamed (fuel : Nat) (o : Options) : SessionM Unit :=
  match o.demo with
  | none => runDemos fuel o Demo.all
  | some name =>
    match Demo.find? name with
    | some demo => runDemo fuel o demo
    | none => throw (.failed (unknownDemo name))

/-! ## From the first argument to the transcript -/

/-- What the user sees of a session that is over. -/
def transcript (filter : LogFilter) (act : SessionM Unit) : Transcript :=
  let shown (c : Console) : String := filter.warningText ++ filter.render c.log
  match act ⟨"", ⟨filter.wants, #[]⟩⟩ with
  | .ok _ c => ⟨0, c.stdout, shown c⟩
  | .error (.failed message) c => ⟨1, c.stdout, shown c ++ message ++ "\n"⟩
  | .error .outOfFuel c => ⟨1, c.stdout, shown c ++ "out of fuel\n"⟩

/-- The name and version of the program. -/
def version : String := "cinder 0.1.0\n"

/-- How to use the command line. -/
def usage : String :=
  "Usage: cinder [OPTIONS] [FILE]\n\n"
    ++ "Arguments:\n"
    ++ "  [FILE]  Postcard-encoded syntax tree to run (runs the built-in demos when omitted)\n\n"
    ++ "Options:\n"
    ++ "      --heap-size <HEAP_SIZE>    Heap capacity in words, both semispaces together "
    ++ "[default: 65536]\n"
    ++ "      --max-steps <MAX_STEPS>    Abort after this many instructions\n"
    ++ "      --bc                       Print the disassembly and op statistics before running\n"
    ++ "      --demo <DEMO>              Run a single built-in demo by name\n"
    ++ "      --emit-demo <NAME> <PATH>  Write the syntax tree of a built-in demo to a file and exit\n"
    ++ "  -h, --help                     Print help\n"
    ++ "  -V, --version                  Print version\n"

/-- What is wrong with a command line. -/
def objection : OptionError → String
  | .argumentConflict => "these arguments cannot be used together"
  | .unknownArgument => "unexpected argument found"
  | .invalidValue => "a value is required"
  | .valueValidation => "a value is not a number"
  | .wrongNumberOfValues => "wrong number of values"
  | .tooManyValues => "unexpected value for an option that takes none"
  | .displayHelp => usage
  | .displayVersion => version

/-- The reply to a command line that asks for nothing that can be done. -/
def reply (filter : LogFilter) (e : OptionError) : Transcript :=
  match e with
  | .displayHelp | .displayVersion => ⟨0, objection e, filter.warningText⟩
  | _ =>
    ⟨2, "", filter.warningText
      ++ s!"error: {objection e}\n\nFor more information, try '--help'.\n"⟩

/-- Writes a demonstration to a file. -/
def emitDemo (filter : LogFilter) (name path : String) : Job :=
  match Demo.find? name with
  | none => .finished (transcript filter (throw (.failed s!"Unknown demo '{name}'")))
  | some demo => .writeFile path demo.tree.encode fun outcome =>
    transcript filter (match outcome with
      | .ok _ => pure ()
      | .error e => throw (.failed s!"Failed to write '{path}': {e.message}"))

/-- The session of some arguments and a choice of log lines. Programs get `fuel` for their
instructions. -/
def start (fuel : Nat) (logSpec : Option String) (args : List String) : Job :=
  let filter := LogFilter.parse logSpec
  match Options.parse args with
  | .error e => .finished (reply filter e)
  | .ok o =>
    match o.emitDemo, o.file with
    | some [name, path], _ => emitDemo filter name path
    | some _, _ => .finished (transcript filter (pure ()))
    | none, some path => .readFile path fun bytes => transcript filter (runBytes fuel o path bytes)
    | none, none => .finished (transcript filter (runNamed fuel o))

end Session

end ClosureMachine
