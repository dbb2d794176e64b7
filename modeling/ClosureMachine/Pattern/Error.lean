/-!
# Errors in written patterns

What can be wrong with a written pattern, and how it is told. An error shows the pattern and marks the
place below it. A pattern of several lines gets line numbers.
-/

set_option autoImplicit false

namespace ClosureMachine.Pattern

/-- A place in a written pattern. Lines and columns are counted from 1. -/
structure Position where
  line : Nat
  column : Nat
deriving DecidableEq, Repr

/-- The position behind a character. -/
def Position.after (p : Position) (c : Char) : Position :=
  if c = '\n' then ⟨p.line + 1, 1⟩ else ⟨p.line, p.column + 1⟩

/-- A part of a written pattern. -/
structure Span where
  start : Position
  stop : Position
deriving DecidableEq, Repr

/-- What can be wrong with a part of a written pattern. -/
inductive Problem where
  | setEscape
  | setRangeOrder
  | setRangeEnd
  | setUnclosed
  | decimalEmpty
  | decimalTooLarge
  | hexEmpty
  | hexNoCharacter
  | hexDigit
  | escapeIncomplete
  | escapeUnknown
  | flagDanglingNegation
  | flagTwice
  | flagNegationTwice
  | flagMissing
  | flagUnknown
  | nameTwice
  | nameEmpty
  | nameCharacter
  | nameUnclosed
  | groupUnclosed
  | groupUnopened
  | nesting (limit : Nat)
  | countOrder
  | countEmpty
  | countUnclosed
  | repetitionOfNothing
  | wordEdgeUnclosed
  | wordEdgeUnknown
  | wordEdgeOrCountUnclosed
  | propertyEscape
  | backreference
  | lookAround
  | everyScriptForbidden
  | notText
  | propertyUnknown
  | propertyValueUnknown
  | shorthandUnavailable
  | caseUnavailable
deriving DecidableEq, Repr

/-- A problem in words. -/
def Problem.text : Problem → String
  | .setEscape => "invalid escape sequence found in character class"
  | .setRangeOrder => "invalid character class range, the start must be <= the end"
  | .setRangeEnd => "invalid range boundary, must be a literal"
  | .setUnclosed => "unclosed character class"
  | .decimalEmpty => "decimal literal empty"
  | .decimalTooLarge => "decimal literal invalid"
  | .hexEmpty => "hexadecimal literal empty"
  | .hexNoCharacter => "hexadecimal literal is not a Unicode scalar value"
  | .hexDigit => "invalid hexadecimal digit"
  | .escapeIncomplete => "incomplete escape sequence, reached end of pattern prematurely"
  | .escapeUnknown => "unrecognized escape sequence"
  | .flagDanglingNegation => "dangling flag negation operator"
  | .flagTwice => "duplicate flag"
  | .flagNegationTwice => "flag negation operator repeated"
  | .flagMissing => "expected flag but got end of regex"
  | .flagUnknown => "unrecognized flag"
  | .nameTwice => "duplicate capture group name"
  | .nameEmpty => "empty capture group name"
  | .nameCharacter => "invalid capture group character"
  | .nameUnclosed => "unclosed capture group name"
  | .groupUnclosed => "unclosed group"
  | .groupUnopened => "unopened group"
  | .nesting limit => s!"exceed the maximum number of nested parentheses/brackets ({limit})"
  | .countOrder => "invalid repetition count range, the start must be <= the end"
  | .countEmpty => "repetition quantifier expects a valid decimal"
  | .countUnclosed => "unclosed counted repetition"
  | .repetitionOfNothing => "repetition operator missing expression"
  | .wordEdgeUnclosed =>
    "special word boundary assertion is either unclosed or contains an invalid character"
  | .wordEdgeUnknown =>
    "unrecognized special word boundary assertion, "
      ++ "valid choices are: start, end, start-half or end-half"
  | .wordEdgeOrCountUnclosed =>
    "found either the beginning of a special word boundary or a bounded repetition on a \\b "
      ++ "with an opening brace, but no closing brace"
  | .propertyEscape => "invalid Unicode character class"
  | .backreference => "backreferences are not supported"
  | .lookAround => "look-around, including look-ahead and look-behind, is not supported"
  | .everyScriptForbidden => "Unicode not allowed here"
  | .notText => "pattern can match invalid UTF-8"
  | .propertyUnknown => "Unicode property not found"
  | .propertyValueUnknown => "Unicode property value not found"
  | .shorthandUnavailable =>
    "Unicode-aware Perl class not found (make sure the unicode-perl feature is enabled)"
  | .caseUnavailable =>
    "Unicode-aware case insensitivity matching is not available "
      ++ "(make sure the unicode-case feature is enabled)"

/-- Why a written pattern is refused. -/
inductive Error where
  /-- A part of it has a problem; `related` is another part that the problem comes from. -/
  | malformed (problem : Problem) (span : Span) (related : Option Span)
  /-- It would take more memory than patterns may. -/
  | tooLarge
  /-- It looks for the edges of words of every script, which are not known. -/
  | wordEdges
deriving DecidableEq, Repr

/-! ## Showing errors -/

/-- The memory that a pattern may take, in bytes. -/
def sizeLimit : Nat := 10485760

/-- The lines of a text, without line ends. -/
def linesOf (s : String) : List String :=
  let parts := s.splitOn "\n"
  let ended := parts.dropLast.map fun line =>
    if line.endsWith "\r" then String.ofList line.toList.dropLast else line
  match parts.getLast? with
  | some "" | none => ended
  | some last => ended ++ [last]

/-- Whether a span starts before another, or where it does and ends earlier. -/
def Span.le (a b : Span) : Bool :=
  let key (s : Span) : List Nat := [s.start.line, s.start.column, s.stop.line, s.stop.column]
  !(key b).lex (key a) Nat.blt

/-- Marks under the columns of spans that lie in one line and come in order. -/
def marks (spans : List Span) : String :=
  spans.foldl
    (fun line span =>
      let gap := span.start.column - 1 - line.length
      let width := max 1 (span.stop.column - span.start.column)
      line ++ String.ofList (List.replicate gap ' ' ++ List.replicate width '^'))
    ""

/-- A written pattern with marks under the spans that lie in one line. The lines are numbered in
`width` places, unless that is 0. -/
def notated (source : String) (width : Nat) (spans : List Span) : String :=
  let margin (n : Nat) : String :=
    if width = 0 then "    "
    else
      let number := toString n
      String.ofList (List.replicate (width - number.length) ' ') ++ number ++ ": "
  let shown (n : Nat) (line : String) : String :=
    let here := spans.filter fun s => s.start.line = n ∧ s.stop.line = n
    let indent := String.ofList (List.replicate (if width = 0 then 4 else width + 2) ' ')
    margin n ++ line ++ "\n"
      ++ (if here.isEmpty then "" else indent ++ marks here ++ "\n")
  String.join ((linesOf source).zipIdx.map fun (line, i) => shown (i + 1) line)

/-- Remarks on the spans that go over several lines. -/
def remarks (spans : List Span) : String :=
  match spans.filter fun s => s.start.line ≠ s.stop.line with
  | [] => ""
  | long => "\n".intercalate (long.map fun s =>
      s!"on line {s.start.line} (column {s.start.column}) through line {s.stop.line} "
        ++ s!"(column {s.stop.column - 1})") ++ "\n"

/-- An error in a written pattern, in words and marks. -/
def Error.message (source : String) : Error → String
  | .tooLarge => s!"Compiled regex exceeds size limit of {sizeLimit} bytes."
  | .wordEdges => "error building NFA"
  | .malformed problem span related =>
    let spans := (span :: related.toList).mergeSort Span.le
    let count := (linesOf source).length + (if source.endsWith "\n" then 1 else 0)
    let width := if count ≤ 1 then 0 else (toString count).length
    let body := notated source width spans
    if source.contains '\n' then
      let divider := String.ofList (List.replicate 79 '~') ++ "\n"
      "regex parse error:\n" ++ divider ++ body ++ divider ++ remarks spans
        ++ "error: " ++ problem.text
    else "regex parse error:\n" ++ body ++ "error: " ++ problem.text

end ClosureMachine.Pattern
