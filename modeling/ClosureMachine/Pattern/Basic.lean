/-!
# Patterns

A pattern is a regular expression: it describes texts by what may stand at one place, what follows
what, and how often. Besides characters a pattern may ask about the place where it stands, such as the
beginning of a line. The question here is only whether some part of a text fits.

It is answered by following all possibilities at once. A possibility is again a pattern, for what must
still come. `Pattern.rests` says what can be left of a pattern once a character has been read, and
`Pattern.isDone` whether nothing has to be left. A counted repetition counts down as it is read, so
large counts cost nothing until they are met.
-/

set_option autoImplicit false

namespace ClosureMachine

/-- A set of characters. -/
inductive CharSet where
  | none
  /-- The characters between two, both included. -/
  | range (first last : Char)
  | union (a b : CharSet)
  | intersection (a b : CharSet)
  | difference (a b : CharSet)
  | symmetricDifference (a b : CharSet)
  | complement (a : CharSet)
  /-- The set and the same letters of the other case, for the letters of ASCII. -/
  | eitherCase (a : CharSet)
deriving DecidableEq, Repr

/-- The same letter of the other case, for the letters of ASCII. -/
def otherCase (c : Char) : Char := if c.isUpper then c.toLower else c.toUpper

namespace CharSet

/-- Whether a character is in the set. -/
def contains : CharSet → Char → Bool
  | .none, _ => false
  | .range first last, c => first ≤ c && c ≤ last
  | .union a b, c => a.contains c || b.contains c
  | .intersection a b, c => a.contains c && b.contains c
  | .difference a b, c => a.contains c && !b.contains c
  | .symmetricDifference a b, c => a.contains c != b.contains c
  | .complement a, c => !a.contains c
  | .eitherCase a, c => a.contains c || a.contains (otherCase c)

/-- The set of one character. -/
def single (c : Char) : CharSet := .range c c

/-- The set of the characters in some ranges. -/
def ofRanges : List (Char × Char) → CharSet
  | [] => .none
  | [(first, last)] => .range first last
  | (first, last) :: rest => .union (.range first last) (ofRanges rest)

end CharSet

/-- A place of a text, by the characters before and behind it. -/
structure Place where
  before : Option Char
  behind : Option Char

/-- What can be asked about a place and words. -/
inductive WordEdge where
  /-- A word begins or ends. -/
  | boundary
  | noBoundary
  | start
  | stop
  /-- No word reaches here from before. -/
  | startHalf
  /-- No word goes on from here. -/
  | stopHalf
deriving DecidableEq, Repr

/-- What can be asked about a place. -/
inductive Anchor where
  | textStart
  | textEnd
  | lineStart
  | lineEnd
  /-- The start of a line, where a carriage return ends lines too. -/
  | returnLineStart
  /-- The end of a line, where a carriage return ends lines too. -/
  | returnLineEnd
  /-- Words are made of ASCII letters, digits and underscores, or, if `everyScript` is set, of those of
  every script. -/
  | word (edge : WordEdge) (everyScript : Bool)
deriving DecidableEq, Repr

/-- Whether a character of ASCII can be part of a word. -/
def isWordChar (c : Char) : Bool := c.isAlphanum || c == '_'

/-- Whether the answer at a place is yes. -/
def WordEdge.holds (edge : WordEdge) (place : Place) : Bool :=
  let before := place.before.any isWordChar
  let behind := place.behind.any isWordChar
  match edge with
  | .boundary => before != behind
  | .noBoundary => before == behind
  | .start => !before && behind
  | .stop => before && !behind
  | .startHalf => !before
  | .stopHalf => !behind

/-- Whether the answer at a place is yes. Words are looked for in ASCII only. -/
def Anchor.holds (anchor : Anchor) (place : Place) : Bool :=
  match anchor with
  | .textStart => place.before.isNone
  | .textEnd => place.behind.isNone
  | .lineStart => place.before.isNone || place.before == some '\n'
  | .lineEnd => place.behind.isNone || place.behind == some '\n'
  | .returnLineStart =>
    place.before.isNone || place.before == some '\n'
      || (place.before == some '\r' && place.behind != some '\n')
  | .returnLineEnd =>
    place.behind.isNone || place.behind == some '\r'
      || (place.behind == some '\n' && place.before != some '\r')
  | .word edge _ => edge.holds place

/-- A regular expression. -/
inductive Pattern where
  | empty
  | oneOf (s : CharSet)
  | anchor (a : Anchor)
  | sequence (p q : Pattern)
  | choice (p q : Pattern)
  /-- The same pattern `least` times or more, but not more than `most` times. -/
  | repetition (least : Nat) (most : Option Nat) (p : Pattern)
deriving DecidableEq, Repr

namespace Pattern

/-- Whether the pattern asks for no character at a place. -/
def isDone (place : Place) : Pattern → Bool
  | .empty => true
  | .oneOf _ => false
  | .anchor a => a.holds place
  | .sequence p q => p.isDone place && q.isDone place
  | .choice p q => p.isDone place || q.isDone place
  | .repetition least _ p => least == 0 || p.isDone place

/-- One pattern and then another, of which the first may be over. -/
def followedBy (p q : Pattern) : Pattern :=
  match p with
  | .empty => q
  | p => .sequence p q

/-- What can be left of a pattern once a character has been read. If what is repeated can be empty at
this place, any number of the repetitions that are required may have been spent here. -/
def rests (before : Option Char) (c : Char) : Pattern → List Pattern
  | .empty => []
  | .oneOf s => if s.contains c then [.empty] else []
  | .anchor _ => []
  | .sequence p q =>
    let first := (p.rests before c).map (followedBy · q)
    if p.isDone ⟨before, some c⟩ then first ++ q.rests before c else first
  | .choice p q => p.rests before c ++ q.rests before c
  | .repetition least most p =>
    if most = some 0 then []
    else
      let least := if p.isDone ⟨before, some c⟩ then 0 else least - 1
      (p.rests before c).map (followedBy · (.repetition least (most.map (· - 1)) p))

/-- Whether a text goes on with one of `live`, or has a part that fits `p`. -/
def search (p : Pattern) (live : List Pattern) (before : Option Char) : List Char → Bool
  | [] => (p :: live).any (isDone ⟨before, none⟩)
  | c :: rest =>
    let live := p :: live
    live.any (isDone ⟨before, some c⟩)
      || search p (live.flatMap (rests before c)).eraseDups (some c) rest

/-- Whether some part of a text fits the pattern. -/
def occursIn (p : Pattern) (text : String) : Bool := p.search [] none text.toList

end Pattern

end ClosureMachine
