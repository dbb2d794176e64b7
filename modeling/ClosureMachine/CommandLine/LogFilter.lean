import ClosureMachine.Log
import ClosureMachine.Pattern.Meaning
import ClosureMachine.Text.Blank
import ClosureMachine.Text.Column
import ClosureMachine.Text.Terminal

/-!
# Which log lines to show

The user chooses log lines by a comma-separated list of directives. A directive is a level, which
holds for all lines; the name of a part of the program, all of whose lines are wanted; or both, joined
by an equals sign. A name stands for all parts whose names begin with it, and the longest name that
fits a line decides. Behind a slash there may be a pattern that must occur in the messages.
-/

set_option autoImplicit false

namespace ClosureMachine

/-- The name of a topic in directives and in front of its lines. -/
def LogTopic.target : LogTopic → String
  | .session => "cinder"
  | .compilation => "cinder::bytecode::compile"
  | .collection => "cinder::runtime::gc"
  | .machine => "cinder::runtime::machine"

/-- A line as it is shown. The further lines of a message are indented, and what would steer a terminal
is left out. -/
def LogLine.render (line : LogLine) : String :=
  Terminal.strip ("[" ++ Text.alignLeft 5 line.level.text ++ " " ++ line.topic.target ++ "] "
    ++ line.message.replace "\n" "\n    " ++ "\n")

/-- How far down the levels the lines of some parts are wanted. -/
structure LogDirective where
  /-- The beginning of the names of the parts; without it, all parts. -/
  name : Option String
  /-- The rank of the last level that is wanted, 0 for none. -/
  rank : Nat
deriving DecidableEq, Repr

/-- A choice of log lines. -/
structure LogFilter where
  /-- The directives, those with longer names later. -/
  directives : List LogDirective
  /-- A pattern that must occur in the messages. -/
  pattern : Option Pattern
  /-- Objections to what was left out. -/
  warnings : List String

namespace LogFilter

/-- The rank of a level by name, in letters of either case. -/
def rankOfName? (name : String) : Option Nat :=
  match name.toLower with
  | "off" => some 0
  | "error" => some LogLevel.error.rank
  | "warn" => some LogLevel.warn.rank
  | "info" => some LogLevel.info.rank
  | "debug" => some LogLevel.debug.rank
  | "trace" => some LogLevel.trace.rank
  | _ => none

/-- A directive, or the objection to it. -/
def parseDirective (s : String) : Except String LogDirective :=
  let all := LogLevel.trace.rank
  match s.splitOn "=" with
  | [single] =>
    match rankOfName? single with
    | some rank => .ok ⟨none, rank⟩
    | none => .ok ⟨some single, all⟩
  | [name, level] =>
    let level := Text.trim level
    if level.isEmpty then .ok ⟨some name, all⟩
    else match rankOfName? level with
      | some rank => .ok ⟨some name, rank⟩
      | none => .error s!"invalid logging spec '{level}'"
  | _ => .error s!"invalid logging spec '{s}'"

/-- Adds a directive; of two with one name the later holds. -/
def insert (directives : List LogDirective) (d : LogDirective) : List LogDirective :=
  if directives.any (·.name = d.name) then
    directives.map fun other => if other.name = d.name then d else other
  else directives ++ [d]

/-- The number of bytes of a directive's name. -/
def nameSize (d : LogDirective) : Nat := (d.name.map (·.utf8ByteSize)).getD 0

/-- Reads directives one after the other. -/
def addAll (filter : LogFilter) : List String → LogFilter
  | [] => filter
  | s :: rest =>
    let s := Text.trim s
    if s.isEmpty then filter.addAll rest
    else match parseDirective s with
      | .ok d => { filter with directives := insert filter.directives d }.addAll rest
      | .error warning => { filter with warnings := filter.warnings ++ [warning] }.addAll rest

/-- Directives in the order of their names' lengths. If there is none, errors are shown. -/
def arrange (directives : List LogDirective) : List LogDirective :=
  if directives.isEmpty then [⟨none, LogLevel.error.rank⟩]
  else directives.mergeSort fun a b => nameSize a ≤ nameSize b

/-- Reads a pattern for messages. -/
def addPattern (filter : LogFilter) (source : String) : LogFilter :=
  match Pattern.parse source with
  | .ok p => { filter with pattern := some p }
  | .error e =>
    { filter with warnings := filter.warnings ++ [s!"invalid regex filter - {e.message source}"] }

/-- Reads a choice of lines. Nothing chosen is the same as an empty choice. -/
def parse (spec : Option String) : LogFilter :=
  let spec := spec.getD ""
  let filter : LogFilter := match spec.splitOn "/" with
    | [directives] => addAll ⟨[], none, []⟩ (directives.splitOn ",")
    | [directives, source] => (addAll ⟨[], none, []⟩ (directives.splitOn ",")).addPattern source
    | _ => ⟨[], none, [s!"invalid logging spec '{spec}' (too many '/'s)"]⟩
  { filter with directives := arrange filter.directives }

/-- Whether lines on a topic at a level are wanted: the last directive that fits decides. -/
def wants (filter : LogFilter) (topic : LogTopic) (level : LogLevel) : Bool :=
  let fits (d : LogDirective) : Bool := match d.name with
    | some name => name.toList.isPrefixOf topic.target.toList
    | none => true
  match filter.directives.reverse.find? fits with
  | some d => level.rank ≤ d.rank
  | none => false

/-- The text of all lines of a log that the filter lets through. -/
def render (filter : LogFilter) (log : Log) : String :=
  let shown (line : LogLine) : Bool := filter.pattern.all (·.occursIn line.message)
  String.join ((log.lines.toList.filter shown).map LogLine.render)

/-- The objections, one a line. -/
def warningText (filter : LogFilter) : String :=
  String.join (filter.warnings.map fun w => s!"warning: {w}, ignoring it\n")

end LogFilter

end ClosureMachine
