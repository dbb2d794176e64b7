import ClosureMachine.Pattern.Basic
import ClosureMachine.Pattern.Error

/-!
# Written patterns as trees

What a written pattern says, part by part, each with its place in the text, so that errors which show
only later can still be told where they belong.
-/

set_option autoImplicit false

namespace ClosureMachine.Pattern

/-- A character of a written pattern. -/
structure Letter where
  span : Span
  char : Char
  /-- It was written as a byte, by two hexadecimal digits. -/
  asByte : Bool
deriving DecidableEq, Repr

/-- Sets of ASCII characters that have a name. -/
inductive NamedSet where
  | alnum
  | alpha
  | ascii
  | blank
  | cntrl
  | digit
  | graph
  | lower
  | print
  | punct
  | space
  | upper
  | word
  | xdigit
deriving DecidableEq, Repr

/-- The set of a name. -/
def NamedSet.ofName? : String → Option NamedSet
  | "alnum" => some .alnum
  | "alpha" => some .alpha
  | "ascii" => some .ascii
  | "blank" => some .blank
  | "cntrl" => some .cntrl
  | "digit" => some .digit
  | "graph" => some .graph
  | "lower" => some .lower
  | "print" => some .print
  | "punct" => some .punct
  | "space" => some .space
  | "upper" => some .upper
  | "word" => some .word
  | "xdigit" => some .xdigit
  | _ => none

/-- The characters of a named set. -/
def NamedSet.toCharSet : NamedSet → CharSet
  | .alnum => .ofRanges [('0', '9'), ('A', 'Z'), ('a', 'z')]
  | .alpha => .ofRanges [('A', 'Z'), ('a', 'z')]
  | .ascii => .range '\x00' '\x7f'
  | .blank => .ofRanges [('\t', '\t'), (' ', ' ')]
  | .cntrl => .ofRanges [('\x00', '\x1f'), ('\x7f', '\x7f')]
  | .digit => .range '0' '9'
  | .graph => .range '!' '~'
  | .lower => .range 'a' 'z'
  | .print => .range ' ' '~'
  | .punct => .ofRanges [('!', '/'), (':', '@'), ('[', '\x60'), ('\x7b', '~')]
  | .space => .ofRanges [('\t', '\r'), (' ', ' ')]
  | .upper => .range 'A' 'Z'
  | .word => .ofRanges [('0', '9'), ('A', 'Z'), ('_', '_'), ('a', 'z')]
  | .xdigit => .ofRanges [('0', '9'), ('A', 'F'), ('a', 'f')]

/-- Sets that are written as an escaped letter. -/
inductive Shorthand where
  | digit
  | space
  | word
deriving DecidableEq, Repr

/-- The named set that a shorthand stands for in ASCII. -/
def Shorthand.toNamedSet : Shorthand → NamedSet
  | .digit => .digit
  | .space => .space
  | .word => .word

/-- A set of characters by a property. -/
structure Property where
  span : Span
  /-- The property, with the value if `valued` is set. -/
  name : String
  valued : Bool
deriving DecidableEq, Repr

/-- What two sets can be combined by. -/
inductive SetOperation where
  | intersection
  | difference
  | symmetricDifference
deriving DecidableEq, Repr

/-- A written set of characters. -/
inductive SetTree where
  | nothing (span : Span)
  | letter (l : Letter)
  | range (span : Span) (first last : Letter)
  | named (span : Span) (set : NamedSet) (negated : Bool)
  | property (p : Property)
  | shorthand (span : Span) (set : Shorthand) (negated : Bool)
  | bracketed (span : Span) (negated : Bool) (inner : SetTree)
  | union (span : Span) (items : List SetTree)
  | operation (span : Span) (op : SetOperation) (left right : SetTree)

/-- Where a written set stands. -/
def SetTree.span : SetTree → Span
  | .nothing span => span
  | .letter l => l.span
  | .range span _ _ => span
  | .named span _ _ => span
  | .property p => p.span
  | .shorthand span _ _ => span
  | .bracketed span _ _ => span
  | .union span _ => span
  | .operation span _ _ _ => span

/-- A written question about a place. -/
inductive AnchorSign where
  | lineStart
  | lineEnd
  | textStart
  | textEnd
  | word (edge : WordEdge)
deriving DecidableEq, Repr

/-- What can be switched on and off inside of a pattern. -/
inductive Flag where
  /-- Letters of either case are the same. -/
  | caseless
  /-- The signs for the ends of the text stand for the ends of lines. -/
  | multiLine
  /-- The dot stands for line feeds too. -/
  | dotAll
  /-- Repetitions are short rather than long. -/
  | swapGreed
  /-- Characters are those of every script. -/
  | everyScript
  /-- A carriage return ends lines too. -/
  | returns
  /-- White space and comments are left out. -/
  | verbose
deriving DecidableEq, Repr

/-- Flags in the order in which they were switched, on or off. -/
abbrev Switches := List (Flag × Bool)

/-- How a flag was switched, if it was. -/
def Switches.state? (s : Switches) (flag : Flag) : Option Bool := List.lookup flag s

/-- A written pattern. -/
inductive Tree where
  | empty (span : Span)
  | switches (span : Span) (s : Switches)
  | letter (l : Letter)
  | dot (span : Span)
  | anchor (span : Span) (sign : AnchorSign)
  | property (p : Property)
  | shorthand (span : Span) (set : Shorthand) (negated : Bool)
  | set (s : SetTree)
  | repetition (span : Span) (least : Nat) (most : Option Nat) (sub : Tree)
  | group (span : Span) (s : Switches) (sub : Tree)
  | sequence (span : Span) (items : List Tree)
  | choice (span : Span) (items : List Tree)

namespace Tree

/-- Where a written pattern stands. -/
def span : Tree → Span
  | .empty span => span
  | .switches span _ => span
  | .letter l => l.span
  | .dot span => span
  | .anchor span _ => span
  | .property p => p.span
  | .shorthand span _ _ => span
  | .set s => s.span
  | .repetition span _ _ _ => span
  | .group span _ _ => span
  | .sequence span _ => span
  | .choice span _ => span

/-- Parts one after the other. -/
def ofItems (span : Span) : List Tree → Tree
  | [] => .empty span
  | [item] => item
  | items => .sequence span items

end Tree

/-! ## How deep parts stand inside of each other -/

mutual

/-- The first part of a set that stands below more than `room` others. -/
def SetTree.tooDeep (room : Nat) : SetTree → Option Span
  | .bracketed span _ inner =>
    match room with
    | 0 => some span
    | room + 1 => inner.tooDeep room
  | .union span items =>
    match room with
    | 0 => some span
    | room + 1 => SetTree.anyTooDeep room items
  | .operation span _ left right =>
    match room with
    | 0 => some span
    | room + 1 => (left.tooDeep room).or (right.tooDeep room)
  | _ => none

/-- The first part of some sets that stands below more than `room` others. -/
def SetTree.anyTooDeep (room : Nat) : List SetTree → Option Span
  | [] => none
  | s :: rest => (s.tooDeep room).or (SetTree.anyTooDeep room rest)

end

mutual

/-- The first part of a pattern that stands below more than `room` others. -/
def Tree.tooDeep (room : Nat) : Tree → Option Span
  | .set s => s.tooDeep room
  | .repetition span _ _ sub =>
    match room with
    | 0 => some span
    | room + 1 => sub.tooDeep room
  | .group span _ sub =>
    match room with
    | 0 => some span
    | room + 1 => sub.tooDeep room
  | .sequence span items =>
    match room with
    | 0 => some span
    | room + 1 => Tree.anyTooDeep room items
  | .choice span items =>
    match room with
    | 0 => some span
    | room + 1 => Tree.anyTooDeep room items
  | _ => none

/-- The first part of some patterns that stands below more than `room` others. -/
def Tree.anyTooDeep (room : Nat) : List Tree → Option Span
  | [] => none
  | t :: rest => (t.tooDeep room).or (Tree.anyTooDeep room rest)

end

end ClosureMachine.Pattern
