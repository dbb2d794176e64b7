import ClosureMachine.Pattern.Parser

/-!
# What a written pattern means

The signs of a written pattern mean different things under different flags, so it is gone through from
left to right with the flags that hold. There is no knowledge here about the letters of the world's
scripts beyond their numbers: what would need it is refused, unless the flag for every script is off.
With that flag off a pattern is about ASCII, and what could fit a part of a letter is refused.
-/

set_option autoImplicit false

namespace ClosureMachine.Pattern

/-- The flags that matter for what a pattern means. -/
structure Flags where
  caseless : Bool
  multiLine : Bool
  dotAll : Bool
  everyScript : Bool
  returns : Bool

namespace Flags

/-- The flags at the beginning. -/
def initial : Flags := ⟨false, false, false, true, false⟩

/-- The flags behind some switches. -/
def switch (f : Flags) (s : Switches) : Flags where
  caseless := (s.state? .caseless).getD f.caseless
  multiLine := (s.state? .multiLine).getD f.multiLine
  dotAll := (s.state? .dotAll).getD f.dotAll
  everyScript := (s.state? .everyScript).getD f.everyScript
  returns := (s.state? .returns).getD f.returns

end Flags

/-- The result of finding out what something means. -/
abbrev Meaning := Except Error

/-- Refuses a pattern for a problem in a part of it. -/
def refuse {α : Type} (problem : Problem) (span : Span) : Meaning α :=
  .error (.malformed problem span none)

/-! ## Sets -/

/-- A property by its name: none is known, and of three it is known that they are values. -/
def Property.meaning (f : Flags) (p : Property) : Meaning CharSet :=
  let plain := (p.name.toList.filter fun c => c ≠ ' ' ∧ c ≠ '_' ∧ c ≠ '-').map Char.toLower
  let plain := match plain with
    | 'i' :: 's' :: rest => rest
    | plain => plain
  if !f.everyScript then refuse .everyScriptForbidden p.span
  else if !p.valued && ["cf", "sc", "lc"].contains (String.ofList plain) then
    refuse .propertyValueUnknown p.span
  else refuse .propertyUnknown p.span

/-- A shorthand. -/
def Shorthand.meaning (f : Flags) (span : Span) (set : Shorthand) (negated : Bool) :
    Meaning CharSet :=
  if f.everyScript then refuse .shorthandUnavailable span
  else if negated then refuse .notText span
  else return set.toNamedSet.toCharSet

/-- A character of a set, under flags that make it one of ASCII. -/
def Letter.inSet (f : Flags) (l : Letter) : Meaning Char :=
  if f.everyScript || l.char.toNat < 0x80 then return l.char
  else refuse (if l.asByte then .notText else .everyScriptForbidden) l.span

/-- A set where the case of letters may not matter. That is refused beyond ASCII, where `blank` is not
set, which it is for sets without members. -/
def foldCase (f : Flags) (span : Span) (blank : Bool) (s : CharSet) : Meaning CharSet :=
  if !f.caseless then return s
  else if !f.everyScript then return .eitherCase s
  else if blank then return s
  else refuse .caseUnavailable span

/-- A set that may be negated. -/
def foldAndNegate (f : Flags) (span : Span) (blank negated : Bool) (s : CharSet) :
    Meaning CharSet := do
  let s ← foldCase f span blank s
  if !negated then return s
  else if f.everyScript then return .complement s
  else refuse .notText span

/-- Two sets, combined. -/
def SetOperation.apply : SetOperation → CharSet → CharSet → CharSet
  | .intersection => .intersection
  | .difference => .difference
  | .symmetricDifference => .symmetricDifference

mutual

/-- Whether a written set has no members at all. -/
def SetTree.isBlank : SetTree → Bool
  | .nothing _ => true
  | .bracketed _ _ inner => inner.isBlank
  | .union _ items => SetTree.allBlank items
  | .operation _ _ left right => left.isBlank && right.isBlank
  | _ => false

/-- Whether some written sets have no members at all. -/
def SetTree.allBlank : List SetTree → Bool
  | [] => true
  | s :: rest => s.isBlank && SetTree.allBlank rest

end

mutual

/-- The characters of a written set. -/
def SetTree.meaning (f : Flags) : SetTree → Meaning CharSet
  | .nothing _ => return .none
  | .letter l => return .single (← l.inSet f)
  | .range _ first last => return .range (← first.inSet f) (← last.inSet f)
  | .named span set negated => foldAndNegate f span false negated set.toCharSet
  | .property p => p.meaning f
  | .shorthand span set negated => set.meaning f span negated
  | .bracketed span negated inner => do
    let s ← inner.meaning f
    foldAndNegate f span inner.isBlank negated s
  | .union _ items => SetTree.meaningOfAll f items
  | .operation _ op left right => do
    let l ← left.meaning f
    let r ← right.meaning f
    let r ← foldCase f right.span right.isBlank r
    let l ← foldCase f left.span left.isBlank l
    return op.apply l r

/-- The characters of some written sets. -/
def SetTree.meaningOfAll (f : Flags) : List SetTree → Meaning CharSet
  | [] => return .none
  | s :: rest => return .union (← s.meaning f) (← SetTree.meaningOfAll f rest)

end

/-! ## Patterns -/

/-- A character that stands for itself. -/
def Letter.meaning (f : Flags) (l : Letter) : Meaning Pattern :=
  if f.everyScript then
    if f.caseless then refuse .caseUnavailable l.span else return .oneOf (.single l.char)
  else if l.asByte && l.char.toNat ≥ 0x80 then refuse .notText l.span
  else if f.caseless && l.char.isAlpha then return .oneOf (.eitherCase (.single l.char))
  else return .oneOf (.single l.char)

/-- The dot. -/
def dotMeaning (f : Flags) (span : Span) : Meaning Pattern :=
  if !f.everyScript then refuse .notText span
  else if f.dotAll then return .oneOf (.complement .none)
  else if f.returns then
    return .oneOf (.complement (.union (.single '\n') (.single '\r')))
  else return .oneOf (.complement (.single '\n'))

/-- A sign for a place. -/
def AnchorSign.meaning (f : Flags) : AnchorSign → Pattern
  | .textStart => .anchor .textStart
  | .textEnd => .anchor .textEnd
  | .lineStart =>
    .anchor (if !f.multiLine then .textStart
      else if f.returns then .returnLineStart else .lineStart)
  | .lineEnd =>
    .anchor (if !f.multiLine then .textEnd else if f.returns then .returnLineEnd else .lineEnd)
  | .word edge => .anchor (.word edge f.everyScript)

/-- A repetition. None at all is the same as nothing. -/
def repetitionOf (least : Nat) (most : Option Nat) (p : Pattern) : Pattern :=
  if most = some 0 then .empty else .repetition least most p

mutual

/-- The pattern that a tree means, and the flags behind it. -/
def Tree.meaning (f : Flags) : Tree → Meaning (Pattern × Flags)
  | .empty _ => return (.empty, f)
  | .switches _ s => return (.empty, f.switch s)
  | .letter l => return (← l.meaning f, f)
  | .dot span => return (← dotMeaning f span, f)
  | .anchor _ sign => return (sign.meaning f, f)
  | .property p => return (.oneOf (← p.meaning f), f)
  | .shorthand span kind negated => return (.oneOf (← kind.meaning f span negated), f)
  | .set s => return (.oneOf (← s.meaning f), f)
  | .repetition _ least most sub => do
    let (p, f) ← sub.meaning f
    return (repetitionOf least most p, f)
  | .group _ s sub => do
    let (p, _) ← sub.meaning (f.switch s)
    return (p, f)
  | .sequence _ items => Tree.meaningOfAll f items
  | .choice _ items => Tree.meaningOfAny f items

/-- The pattern of some trees one after the other, and the flags behind them. -/
def Tree.meaningOfAll (f : Flags) : List Tree → Meaning (Pattern × Flags)
  | [] => return (.empty, f)
  | t :: rest => do
    let (p, f) ← t.meaning f
    let (q, f) ← Tree.meaningOfAll f rest
    return (p.followedBy q, f)

/-- The pattern of any one of some trees, and the flags behind them. -/
def Tree.meaningOfAny (f : Flags) : List Tree → Meaning (Pattern × Flags)
  | [] => return (.oneOf .none, f)
  | t :: rest => do
    let (p, f) ← t.meaning f
    let (q, f) ← Tree.meaningOfAny f rest
    return (.choice p q, f)

end

/-! ## Limits -/

/-- About how many bytes a set of characters takes: ranges of ASCII are cheap, and what goes beyond is
written in several bytes each of which has a place. -/
def setWeight : CharSet → Nat
  | .none => 32
  | .range first last =>
    if first = last then 32 * first.utf8Size else if last.toNat < 0x80 then 32 else 128
  | .union a b => setWeight a + setWeight b
  | .intersection a b | .difference a b | .symmetricDifference a b => max (setWeight a) (setWeight b)
  | .complement _ => 368
  | .eitherCase a => setWeight a + 8

/-- About how many bytes a pattern takes. What is repeated is there as often as it can be counted. -/
def weight : Pattern → Nat
  | .empty => 0
  | .oneOf s => setWeight s
  | .anchor _ => 32
  | .sequence p q => p.weight + q.weight
  | .choice p q => p.weight + q.weight + 40
  | .repetition least (some most) p => least * p.weight + (most - least) * (p.weight + 40)
  | .repetition least none p => max least 1 * p.weight + 40

/-- Whether a pattern looks for the edges of words of every script. -/
def needsScripts : Pattern → Bool
  | .anchor (.word _ everyScript) => everyScript
  | .sequence p q | .choice p q => p.needsScripts || q.needsScripts
  | .repetition _ _ p => p.needsScripts
  | _ => false

/-- The pattern that a text writes. -/
def parse (source : String) : Except Error Pattern := do
  let tree ← Tree.parse source
  let (p, _) ← tree.meaning .initial
  if p.weight > sizeLimit then throw .tooLarge
  else if p.needsScripts then throw .wordEdges
  else return p

end ClosureMachine.Pattern
