import ClosureMachine.Pattern.Tree
import ClosureMachine.Text.Blank

/-!
# Reading written patterns

Reads a pattern from left to right, one part after the other, and stops at the first error. Every part
that is read takes at least one character, so the number of characters bounds the number of steps and
the depth of the reading; it is the fuel of the functions that read many parts.
-/

set_option autoImplicit false

namespace ClosureMachine.Pattern

/-- How far a pattern has been read. -/
structure Cursor where
  rest : List Char
  position : Position
  /-- White space and comments are left out. -/
  verbose : Bool
  /-- The names of groups so far, and where they stand. -/
  names : List (String × Span)

/-- An action that reads. -/
abbrev Reader := StateT Cursor (Except Error)

namespace Reader

/-! ## Characters and places -/

/-- Refuses the pattern for a problem in a part of it. -/
def fail {α : Type} (problem : Problem) (span : Span) (related : Option Span) : Reader α :=
  throw (.malformed problem span related)

/-- The next character. -/
def peek : Reader (Option Char) := return (← get).rest.head?

/-- The character behind the next one. -/
def peekSecond : Reader (Option Char) := return (← get).rest.tail.head?

/-- The current position. -/
def position : Reader Position := return (← get).position

/-- From a position to the current one. -/
def spanFrom (start : Position) : Reader Span := return ⟨start, ← position⟩

/-- The current position, as a span. -/
def spanHere : Reader Span := return ⟨← position, ← position⟩

/-- The span of the next character. -/
def charSpan : Reader Span := do
  let here ← position
  match ← peek with
  | some c => return ⟨here, here.after c⟩
  | none => return ⟨here, here⟩

/-- Goes over the next character. -/
def advance : Reader Unit :=
  modify fun s =>
    match s.rest with
    | [] => s
    | c :: rest => { s with rest := rest, position := s.position.after c }

/-- The rest of a pattern behind white space and comments, and where it begins. In a comment `comment`
is set. -/
def skipFrom (comment : Bool) : List Char → Position → List Char × Position
  | [], p => ([], p)
  | c :: rest, p =>
    if comment then skipFrom (c ≠ '\n') rest (p.after c)
    else if Text.isBlank c then skipFrom false rest (p.after c)
    else if c = '#' then skipFrom true rest (p.after c)
    else (c :: rest, p)

/-- Goes over white space and comments, where these are left out. -/
def skipBlanks : Reader Unit :=
  modify fun s =>
    if s.verbose then
      let (rest, p) := skipFrom false s.rest s.position
      { s with rest := rest, position := p }
    else s

/-- Goes over the next character and what is left out behind it, and tells whether there is more. -/
def advanceOver : Reader Bool := do
  advance
  if (← peek).isNone then return false
  skipBlanks
  return (← peek).isSome

/-- Goes over a text, if it is next. -/
def accept (text : String) : Reader Bool := do
  if text.toList.isPrefixOf (← get).rest then
    text.toList.forM fun _ => advance
    return true
  else return false

/-- Goes over the characters that have a property, at most as many as there is fuel. -/
def takeRun (p : Char → Bool) : Nat → Reader (List Char)
  | 0 => return []
  | fuel + 1 => do
    match ← peek with
    | some c =>
      if p c then
        let _ ← advanceOver
        return c :: (← takeRun p fuel)
      else return []
    | none => return []

/-- Goes over the characters that have a property, and what is left out between them. -/
def takeWhile (p : Char → Bool) : Reader (List Char) := do
  takeRun p (← get).rest.length

/-- Goes over the characters that have a property, with nothing left out between them. -/
def takeStrictly (p : Char → Bool) : Reader (List Char) := do
  let run := (← get).rest.takeWhile p
  run.forM fun _ => advance
  return run

/-- The character behind the next one and what is left out there. -/
def peekOver : Reader (Option Char) := do
  let s ← get
  if s.verbose then
    let behind := s.rest.tail
    -- One number sign may stand among the white space.
    let (_, rest) := behind.span Text.isBlank
    let rest := match rest with
      | '#' :: more => more.dropWhile Text.isBlank
      | rest => rest
    return if rest.isEmpty then behind.head? else rest.head?
  else return s.rest.tail.head?

/-! ## Numbers -/

/-- The number that digits write. -/
def numberOf (base : Nat) (digits : List Char) : Nat :=
  let value (c : Char) : Nat :=
    if c.isDigit then c.toNat - '0'.toNat
    else if c.isUpper then c.toNat - 'A'.toNat + 10
    else c.toNat - 'a'.toNat + 10
  digits.foldl (fun n c => base * n + value c) 0

/-- Reads a decimal number. -/
def decimal : Reader Nat := do
  let _ ← takeStrictly Text.isBlank
  let start ← position
  let digits ← takeWhile Char.isDigit
  let span ← spanFrom start
  let _ ← takeWhile Text.isBlank
  if digits.isEmpty then fail .decimalEmpty span none
  else if numberOf 10 digits < UInt32.size then return numberOf 10 digits
  else fail .decimalTooLarge span none

def isHexDigit (c : Char) : Bool :=
  c.isDigit || ('a' ≤ c && c ≤ 'f') || ('A' ≤ c && c ≤ 'F')

/-- The character of a number. -/
def charOf? (n : Nat) : Option Char := if n.isValidChar then some (Char.ofNat n) else none

/-- Reads hexadecimal digits in braces. -/
def hexInBraces : Reader Letter := do
  let brace ← position
  let start := (← charSpan).stop
  let _ ← advanceOver
  let digits ← takeWhile isHexDigit
  match ← peek with
  | none => fail .escapeIncomplete (← spanFrom brace) none
  | some '}' =>
    let stop ← position
    let _ ← advanceOver
    if digits.isEmpty then fail .hexEmpty (← spanFrom brace) none
    else match charOf? (numberOf 16 digits) with
      | some c => return ⟨← spanFrom start, c, false⟩
      | none => fail .hexNoCharacter ⟨start, stop⟩ none
  | some _ => fail .hexDigit (← charSpan) none

/-- Reads as many hexadecimal digits as there are to be. -/
def hexDigits : Nat → Reader (List Char)
  | 0 => return []
  | count + 1 => do
    match ← peek with
    | none => fail .escapeIncomplete (← spanHere) none
    | some c =>
      if isHexDigit c then
        let _ ← advanceOver
        return c :: (← hexDigits count)
      else fail .hexDigit (← charSpan) none

/-- Reads a character by its number, of so many digits unless they stand in braces. -/
def hexLetter (count : Nat) : Reader Letter := do
  if !(← advanceOver) then fail .escapeIncomplete (← spanHere) none
  else if (← peek) = some '{' then hexInBraces
  else
    let start ← position
    let digits ← hexDigits count
    match charOf? (numberOf 16 digits) with
    | some c => return ⟨← spanFrom start, c, count = 2⟩
    | none => fail .hexNoCharacter (← spanFrom start) none

/-! ## Escapes -/

/-- Characters that mean something in patterns. -/
def isMeta (c : Char) : Bool := "\\.+*?()|[]\x7b\x7d^$#&-~".toList.contains c

/-- Whether a character may be escaped although it means nothing special. -/
def isEscapable (c : Char) : Bool :=
  c.toNat < 0x80 && !c.isAlphanum && c != '<' && c != '>'

/-- Reads the name of a property, `start` being where the escape begins. -/
def property (start : Position) : Reader Property := do
  if !(← advanceOver) then fail .escapeIncomplete (← spanHere) none
  else match ← peek with
    | some '{' =>
      let _ ← advanceOver
      let name ← takeWhile (· ≠ '}')
      if (← peek).isNone then fail .escapeIncomplete (← spanHere) none
      else
        advance
        let valued := name.contains ':' || name.contains '='
        return ⟨← spanFrom start, String.ofList name, valued⟩
    | some '\\' => fail .propertyEscape (← charSpan) none
    | c =>
      let _ ← advanceOver
      return ⟨← spanFrom start, String.ofList c.toList, false⟩

/-- The edge of a word by its name. -/
def edgeOfName? : String → Option WordEdge
  | "start" => some .start
  | "end" => some .stop
  | "start-half" => some .startHalf
  | "end-half" => some .stopHalf
  | _ => none

/-- Reads the name of an edge of a word in braces, if there is one. Otherwise the braces hold a count,
and nothing is read. -/
def wordEdge? (start : Position) : Reader (Option WordEdge) := do
  let isNameChar (c : Char) : Bool := c.isAlpha || c == '-'
  let before ← get
  let brace ← position
  if !(← advanceOver) then fail .wordEdgeOrCountUnclosed (← spanFrom start) none
  else
    let contents ← position
    if !(← peek).any isNameChar then
      set before
      return none
    else
      let name ← takeWhile isNameChar
      if (← peek) ≠ some '}' then fail .wordEdgeUnclosed (← spanFrom brace) none
      else
        let stop ← position
        advance
        match edgeOfName? (String.ofList name) with
        | some edge => return some edge
        | none => fail .wordEdgeUnknown ⟨contents, stop⟩ none

/-- Reads an escape that is one letter, behind which the reading goes on. -/
def shortEscape (start : Position) (c : Char) : Reader Tree := do
  advance
  let span ← spanFrom start
  let letter (c : Char) : Reader Tree := return .letter ⟨span, c, false⟩
  if isMeta c || isEscapable c then letter c
  else match c with
    | 'a' => letter '\x07'
    | 'f' => letter '\x0c'
    | 't' => letter '\t'
    | 'n' => letter '\n'
    | 'r' => letter '\r'
    | 'v' => letter '\x0b'
    | 'A' => return .anchor span .textStart
    | 'z' => return .anchor span .textEnd
    | 'b' =>
      if (← peek) = some '{' then
        match ← wordEdge? start with
        | some edge => return .anchor (← spanFrom start) (.word edge)
        | none => return .anchor span (.word .boundary)
      else return .anchor span (.word .boundary)
    | 'B' => return .anchor span (.word .noBoundary)
    | '<' => return .anchor span (.word .start)
    | '>' => return .anchor span (.word .stop)
    | _ => fail .escapeUnknown span none

/-- Reads an escape. -/
def escape : Reader Tree := do
  let start ← position
  let shorthand (set : Shorthand) (negated : Bool) : Reader Tree := do
    advance
    return .shorthand (← spanFrom start) set negated
  let hex (count : Nat) : Reader Tree := do
    let l ← hexLetter count
    return .letter { l with span := ⟨start, l.span.stop⟩ }
  advance
  match ← peek with
  | none => fail .escapeIncomplete (← spanFrom start) none
  | some 'x' => hex 2
  | some 'u' => hex 4
  | some 'U' => hex 8
  | some 'p' | some 'P' => return .property (← property start)
  | some 'd' => shorthand .digit false
  | some 'D' => shorthand .digit true
  | some 's' => shorthand .space false
  | some 'S' => shorthand .space true
  | some 'w' => shorthand .word false
  | some 'W' => shorthand .word true
  | some c =>
    if c.isDigit then fail .backreference ⟨start, (← charSpan).stop⟩ none
    else shortEscape start c

/-- Reads a part that is a character, a sign for a place, a dot or an escape. -/
def primitive (c : Char) : Reader Tree := do
  let span ← charSpan
  match c with
  | '\\' => escape
  | '.' => advance; return .dot span
  | '^' => advance; return .anchor span .lineStart
  | '$' => advance; return .anchor span .lineEnd
  | c => advance; return .letter ⟨span, c, false⟩

/-! ## Sets -/

/-- Reads the opening of a set in brackets: where it stands, whether the set is negated, and the first
members, which may be characters that mean something further inside. -/
def setOpening : Reader (Span × Bool × List SetTree) := do
  let start ← position
  if !(← advanceOver) then fail .setUnclosed (← spanFrom start) none
  else
    let negated := (← peek) = some '^'
    let more ← if negated then advanceOver else pure true
    if !more then fail .setUnclosed (← spanFrom start) none
    else
      let dashes ← leadingDashes start (← get).rest.length
      if dashes.isEmpty && (← peek) = some ']' then
        let span ← charSpan
        if !(← advanceOver) then fail .setUnclosed (← spanFrom start) none
        else return (← spanFrom start, negated, [.letter ⟨span, ']', false⟩])
      else return (← spanFrom start, negated, dashes)
where
  /-- Reads dashes, which stand for themselves here. -/
  leadingDashes (start : Position) : Nat → Reader (List SetTree)
    | 0 => return []
    | fuel + 1 => do
      if (← peek) = some '-' then
        let span ← charSpan
        if !(← advanceOver) then fail .setUnclosed ⟨start, start⟩ none
        else return .letter ⟨span, '-', false⟩ :: (← leadingDashes start fuel)
      else return []

/-- Reads a named set, if there is one. Otherwise nothing is read. -/
def namedSet? : Reader (Option SetTree) := do
  let before ← get
  let start ← position
  let found? ← do
    if ← accept "[:" then
      let negated ← accept "^"
      let name ← takeStrictly (· ≠ ':')
      if ← accept ":]" then
        pure ((NamedSet.ofName? (String.ofList name)).map fun set => (set, negated))
      else pure none
    else pure none
  match found? with
  | some (set, negated) => return some (.named (← spanFrom start) set negated)
  | none =>
    set before
    return none

/-- Reads a member of a set, which may be the end of a range. -/
def setMember : Reader Tree := do
  match ← peek with
  | some '\\' => escape
  | some c =>
    let span ← charSpan
    advance
    return .letter ⟨span, c, false⟩
  | none => return .empty (← spanHere)

/-- What was read as a member of a set. -/
def asMember : Tree → Reader SetTree
  | .letter l => return .letter l
  | .shorthand span set negated => return .shorthand span set negated
  | .property p => return .property p
  | other => fail .setEscape other.span none

/-- What was read as an end of a range. -/
def asRangeEnd : Tree → Reader Letter
  | .letter l => return l
  | other => fail .setRangeEnd other.span none

/-- Reads a member or a range of a set that was opened at `opening`. -/
def setRange (opening : Span) : Reader SetTree := do
  let first ← setMember
  skipBlanks
  match ← peek with
  | none => fail .setUnclosed opening none
  | some '-' =>
    let behind ← peekOver
    if behind = some ']' || behind = some '-' then asMember first
    else if !(← advanceOver) then fail .setUnclosed opening none
    else
      let last ← setMember
      let span : Span := ⟨first.span.start, last.span.stop⟩
      let first ← asRangeEnd first
      let last ← asRangeEnd last
      if first.char ≤ last.char then return .range span first last
      else fail .setRangeOrder span none
  | some _ => asMember first

/-- Members that have been read of a set, the last first, and where they began. -/
structure Members where
  start : Position
  items : List SetTree

/-- The set of the members. -/
def Members.toSet (m : Members) : SetTree :=
  match m.items with
  | [] => .nothing ⟨m.start, m.start⟩
  | [item] => item
  | last :: more =>
    let first := (more.getLast?.getD last).span.start
    .union ⟨first, last.span.stop⟩ (last :: more).reverse

/-- A set, combined with what stood to the left of it. -/
def combine (left : Option (SetOperation × SetTree)) (right : SetTree) : SetTree :=
  match left with
  | none => right
  | some (op, left) => .operation ⟨left.span.start, right.span.stop⟩ op left right

/-- The operation on sets that is next. -/
def setOperation? : Reader (Option SetOperation) := do
  match ← peek, ← peekSecond with
  | some '&', some '&' => return some .intersection
  | some '-', some '-' => return some .difference
  | some '~', some '~' => return some .symmetricDifference
  | _, _ => return none

/-- Reads a set that was opened at `opening`, up to its closing bracket. -/
def setBody : Nat → Span → Option (SetOperation × SetTree) → Members → Reader SetTree
  | 0, _, left, members => return combine left members.toSet
  | fuel + 1, opening, left, members => do
    let continueWith (item : SetTree) : Reader SetTree :=
      setBody fuel opening left { members with items := item :: members.items }
    skipBlanks
    match ← peek with
    | none => fail .setUnclosed opening none
    | some ']' => return combine left members.toSet
    | some '[' =>
      match ← namedSet? with
      | some item => continueWith item
      | none =>
        let start ← position
        let (nested, negated, first) ← setOpening
        let inner ← setBody fuel nested none ⟨← position, first.reverse⟩
        advance
        continueWith (.bracketed (← spanFrom start) negated inner)
    | some _ =>
      match ← setOperation? with
      | some op =>
        advance
        advance
        setBody fuel opening (some (op, combine left members.toSet)) ⟨← position, []⟩
      | none => continueWith (← setRange opening)

/-- Reads a set in brackets. -/
def bracketed : Reader SetTree := do
  let start ← position
  let fuel := (← get).rest.length
  let (opening, negated, first) ← setOpening
  let inner ← setBody fuel opening none ⟨← position, first.reverse⟩
  advance
  return .bracketed (← spanFrom start) negated inner

/-! ## Groups -/

/-- The flag of a letter. -/
def flagOf? : Char → Option Flag
  | 'i' => some .caseless
  | 'm' => some .multiLine
  | 's' => some .dotAll
  | 'U' => some .swapGreed
  | 'u' => some .everyScript
  | 'R' => some .returns
  | 'x' => some .verbose
  | _ => none

/-- Reads flags up to the end of them, given those before, the last first. The sign that switches off
is among them as `none`. -/
def flagItems : Nat → List (Option Flag × Span) → Reader (List (Option Flag × Span))
  | 0, items => return items
  | fuel + 1, items => do
    match ← peek with
    | none | some ':' | some ')' => return items
    | some c =>
      let span ← charSpan
      let item ← match c with
        | '-' => pure none
        | c => match flagOf? c with
          | some flag => pure (some flag)
          | none => fail .flagUnknown span none
      match items.find? (·.1 = item) with
      | some (_, earlier) =>
        fail (if item.isNone then .flagNegationTwice else .flagTwice) span (some earlier)
      | none =>
        advance
        if (← peek).isNone then fail .flagMissing (← spanHere) none
        else flagItems fuel ((item, span) :: items)

/-- The switches of flags: what stands behind the sign is switched off. -/
def switchesOf (on : Bool) : List (Option Flag × Span) → Switches
  | [] => []
  | (none, _) :: rest => switchesOf false rest
  | (some flag, _) :: rest => (flag, on) :: switchesOf on rest

/-- Reads flags. -/
def switches : Reader Switches := do
  let items ← flagItems (← get).rest.length []
  match items with
  | (none, span) :: _ => fail .flagDanglingNegation span none
  | _ => return switchesOf true items.reverse

/-- Whether a character can be part of the name of a group. Characters beyond ASCII are taken for
letters. -/
def isNameChar (first : Bool) (c : Char) : Bool :=
  c == '_' || c.isAlpha || c.toNat ≥ 0x80
    || (!first && (c.isDigit || c == '.' || c == '[' || c == ']'))

/-- Reads the name of a group. -/
def groupName : Reader Unit := do
  let start ← position
  let first ← takeFirst
  let more ← if first.isEmpty then pure [] else takeStrictly (isNameChar false)
  match ← peek with
  | none => fail .nameUnclosed (← spanHere) none
  | some '>' =>
    let span ← spanFrom start
    advance
    if first.isEmpty then fail .nameEmpty ⟨start, start⟩ none
    else
      let name := String.ofList (first ++ more)
      match (← get).names.lookup name with
      | some earlier => fail .nameTwice span (some earlier)
      | none => modify fun s => { s with names := (name, span) :: s.names }
  | some _ => fail .nameCharacter (← charSpan) none
where
  /-- Reads the first character of a name. -/
  takeFirst : Reader (List Char) := do
    match ← peek with
    | some c =>
      if isNameChar true c then
        advance
        return [c]
      else return []
    | none => return []

/-- What an opening parenthesis begins. -/
inductive Opening where
  /-- Flags for what follows. -/
  | flags (span : Span) (s : Switches)
  /-- A group, with flags for what is in it. -/
  | group (span : Span) (s : Switches)

/-- Whether a group that looks around begins here. -/
def lookAround : Reader Bool := do
  if ← accept "?=" then return true
  else if ← accept "?!" then return true
  else if ← accept "?<=" then return true
  else accept "?<!"

/-- Whether a group with a name begins here. -/
def named : Reader Bool := do
  if ← accept "?P<" then return true
  else accept "?<"

/-- Reads an opening parenthesis and what belongs to it. -/
def opening : Reader Opening := do
  let span ← charSpan
  advance
  skipBlanks
  if ← lookAround then fail .lookAround (← spanFrom span.start) none
  else
    let inner ← spanHere
    if ← named then
      groupName
      return .group span []
    else if ← accept "?" then
      if (← peek).isNone then fail .groupUnclosed span none
      else
        let s ← switches
        let closing := (← peek) = some ')'
        advance
        if !closing then return .group span s
        else if s.isEmpty then fail .repetitionOfNothing inner none
        else return .flags (← spanFrom span.start) s
    else return .group span []

/-! ## Sequences -/

/-- Parts that have been read and are not over yet. -/
structure Pending where
  /-- The alternatives before the current one, the last first. -/
  choices : List Tree
  /-- Where the first alternative begins. -/
  choicesStart : Position
  /-- The parts of the current alternative, the last first. -/
  items : List Tree
  /-- Where the current alternative begins. -/
  itemsStart : Position

namespace Pending

/-- Nothing read yet. -/
def start (p : Position) : Pending := ⟨[], p, [], p⟩

/-- One more part. -/
def push (pending : Pending) (item : Tree) : Pending :=
  { pending with items := item :: pending.items }

/-- The current alternative. -/
def current (pending : Pending) (stop : Position) : Tree :=
  .ofItems ⟨pending.itemsStart, stop⟩ pending.items.reverse

/-- Begins another alternative: the current one ends at `stop`, and the next begins at `next`. -/
def split (pending : Pending) (stop next : Position) : Pending :=
  ⟨pending.current stop :: pending.choices, pending.choicesStart, [], next⟩

/-- All that was read. -/
def finish (pending : Pending) (stop : Position) : Tree :=
  match pending.choices with
  | [] => pending.current stop
  | choices => .choice ⟨pending.choicesStart, stop⟩ (pending.current stop :: choices).reverse

end Pending

/-- The part that a repetition is about, and those before it. -/
def repeated (pending : Pending) : Reader (Tree × Pending) := do
  match pending.items with
  | [] | .switches _ _ :: _ => fail .repetitionOfNothing (← spanHere) none
  | item :: items => return (item, { pending with items := items })

/-- Goes over the sign that makes a repetition short, which does not matter here. -/
def laziness : Reader Unit := do
  if (← peek) = some '?' then advance

/-- Reads a repetition by one sign. -/
def signRepetition (least : Nat) (most : Option Nat) (pending : Pending) : Reader Pending := do
  let (item, pending) ← repeated pending
  advance
  laziness
  return pending.push (.repetition (← spanFrom item.span.start) least most item)

/-- Reads a number in a count. -/
def countNumber : Reader (Except Error Nat) := do
  let s ← get
  match decimal.run s with
  | .ok (n, s) =>
    set s
    return .ok n
  | .error (.malformed .decimalEmpty span _) =>
    -- Nothing but white space stood there.
    let _ ← takeStrictly Text.isBlank
    let _ ← takeWhile Text.isBlank
    return .error (.malformed .countEmpty span none)
  | .error e =>
    let _ ← takeStrictly Text.isBlank
    let _ ← takeWhile Char.isDigit
    let _ ← takeWhile Text.isBlank
    return .error e

/-- Reads the bounds of a count, behind the opening brace at `start`. -/
def countBounds (start : Position) : Reader (Nat × Option Nat) := do
  let least ← countNumber
  match ← peek with
  | none => fail .countUnclosed (← spanFrom start) none
  | some ',' =>
    if !(← advanceOver) then fail .countUnclosed (← spanFrom start) none
    else if (← peek) = some '}' then return (← liftExcept least, none)
    else
      let least ← liftExcept least
      let most ← countNumber
      return (least, some (← liftExcept most))
  | some _ =>
    let n ← liftExcept least
    return (n, some n)
where
  /-- Refuses the pattern now for an error that was found before. -/
  liftExcept (n : Except Error Nat) : Reader Nat :=
    match n with
    | .ok n => return n
    | .error e => throw e

/-- Reads a repetition with a count in braces. -/
def countedRepetition (pending : Pending) : Reader Pending := do
  let start ← position
  let (item, pending) ← repeated pending
  if !(← advanceOver) then fail .countUnclosed (← spanFrom start) none
  else
    let (least, most) ← countBounds start
    if (← peek) ≠ some '}' then fail .countUnclosed (← spanFrom start) none
    else
      if ← advanceOver then laziness
      if most.any (· < least) then fail .countOrder (← spanFrom start) none
      else return pending.push (.repetition (← spanFrom item.span.start) least most item)

/-- Reads parts up to the end, or up to the parenthesis that closes the group opened at `group`. -/
def body : Nat → Option Span → Pending → Reader Tree
  | 0, _, pending => return pending.finish (← position)
  | fuel + 1, group, pending => do
    skipBlanks
    match ← peek with
    | none =>
      match group with
      | some span => fail .groupUnclosed span none
      | none => return pending.finish (← position)
    | some ')' =>
      match group with
      | some _ => return pending.finish (← position)
      | none => fail .groupUnopened (← charSpan) none
    | some '(' =>
      match ← opening with
      | .flags span s =>
        modify fun c => { c with verbose := (s.state? .verbose).getD c.verbose }
        body fuel group (pending.push (.switches span s))
      | .group span s =>
        let outer := (← get).verbose
        modify fun c => { c with verbose := (s.state? .verbose).getD c.verbose }
        let inner ← body fuel (some span) (.start (← position))
        modify fun c => { c with verbose := outer }
        advance
        body fuel group (pending.push (.group (← spanFrom span.start) s inner))
    | some '|' =>
      let stop ← position
      advance
      body fuel group (pending.split stop (← position))
    | some '[' => body fuel group (pending.push (.set (← bracketed)))
    | some '?' => body fuel group (← signRepetition 0 (some 1) pending)
    | some '*' => body fuel group (← signRepetition 0 none pending)
    | some '+' => body fuel group (← signRepetition 1 none pending)
    | some '{' => body fuel group (← countedRepetition pending)
    | some c => body fuel group (pending.push (← primitive c))

end Reader

/-- How deep the parts of a pattern may stand inside of each other. -/
def nestingLimit : Nat := 250

/-- Reads a written pattern. -/
def Tree.parse (source : String) : Except Error Tree := do
  let chars := source.toList
  let start : Position := ⟨1, 1⟩
  let (tree, _) ← (Reader.body (chars.length + 1) none (.start start)).run
    ⟨chars, start, false, []⟩
  match tree.tooDeep nestingLimit with
  | some span => throw (.malformed (.nesting nestingLimit) span none)
  | none => return tree

end ClosureMachine.Pattern
