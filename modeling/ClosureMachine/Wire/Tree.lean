import ClosureMachine.Tree.Basic
import ClosureMachine.Wire.Decoder

/-!
# Trees as bytes

A tree is written as the number of its variant and then its fields in order, each in the way of its
type. Nothing marks the end: the variant says which fields follow, and lists say how long they are,
so the encoding of a tree tells where it ends and bytes behind it do no harm.

Reading recurs through a tree of unknown shape. Every tree takes at least the byte of its variant
before its parts are read, so a tree inside `n` others has at least `n` bytes before it, and the
number of bytes bounds the depth.
-/

set_option autoImplicit false

namespace ClosureMachine

namespace Wire

/-- A whole number in base 128, the lowest digit first, in as few bytes as possible. -/
def varint (n : Nat) : List UInt8 :=
  if n < 128 then [n.toUInt8] else (n % 128 + 128).toUInt8 :: varint (n / 128)

/-- The eight bytes of a double, the lowest first. -/
def bits (pattern : UInt64) : List UInt8 :=
  (List.range 8).map fun i => (pattern >>> (8 * i).toUInt64).toUInt8

def boolean (b : Bool) : List UInt8 := [if b then 1 else 0]

def text (s : String) : List UInt8 :=
  varint s.utf8ByteSize ++ s.toUTF8.data.toList

def texts (ss : List String) : List UInt8 :=
  varint ss.length ++ ss.flatMap text

end Wire

open Wire

/-- The bytes of a literal. -/
def Literal.encode : Literal → List UInt8
  | .number value => varint 0 ++ Wire.bits value.bits
  | .boolean value => varint 1 ++ Wire.boolean value
  | .string s => varint 2 ++ Wire.text s
  | .undefined => varint 3
  | .null => varint 4

/-- Reads a literal. -/
def Literal.read : Decoder Literal := do
  match ← readVarint variantWidth with
  | 0 => return .number ⟨← readBits⟩
  | 1 => return .boolean (← readBoolean)
  | 2 => return .string (← readText)
  | 3 => return .undefined
  | 4 => return .null
  | _ => throw .unknownVariant

namespace Tree

mutual

/-- The bytes of a tree. -/
def encode : Tree → List UInt8
  | .literal value => varint 0 ++ value.encode
  | .identifier name => varint 1 ++ text name
  | .binary operator left right => varint 2 ++ text operator ++ left.encode ++ right.encode
  | .unary operator operand => varint 3 ++ text operator ++ operand.encode
  | .logical operator left right => varint 4 ++ text operator ++ left.encode ++ right.encode
  | .conditional predicate consequent alternative =>
    varint 5 ++ predicate.encode ++ consequent.encode ++ alternative.encode
  | .lambda parameters body => varint 6 ++ texts parameters ++ body.encode
  | .application function arguments =>
    varint 7 ++ function.encode ++ varint arguments.length ++ encodeAll arguments
  | .sequence statements => varint 8 ++ varint statements.length ++ encodeAll statements
  | .block body => varint 9 ++ body.encode
  | .declaration name value constant =>
    varint 10 ++ text name ++ value.encode ++ Wire.boolean constant
  | .assignment name value => varint 11 ++ text name ++ value.encode
  | .functionDeclaration name parameters body =>
    varint 12 ++ text name ++ texts parameters ++ body.encode
  | .ret expression => varint 13 ++ expression.encode

/-- The bytes of several trees. -/
def encodeAll : List Tree → List UInt8
  | [] => []
  | t :: rest => t.encode ++ encodeAll rest

end

/-- Reads a tree from an input of at most `bound` bytes. With no byte left there is none for the
variant either. -/
def read : (bound : Nat) → Decoder Tree
  | 0 => throw .endOfInput
  | bound + 1 => do
    let part := read bound
    match ← readVarint variantWidth with
    | 0 => return .literal (← Literal.read)
    | 1 => return .identifier (← readText)
    | 2 => return .binary (← readText) (← part) (← part)
    | 3 => return .unary (← readText) (← part)
    | 4 => return .logical (← readText) (← part) (← part)
    | 5 => return .conditional (← part) (← part) (← part)
    | 6 => return .lambda (← readList readText) (← part)
    | 7 => return .application (← part) (← readList part)
    | 8 => return .sequence (← readList part)
    | 9 => return .block (← part)
    | 10 => return .declaration (← readText) (← part) (← readBoolean)
    | 11 => return .assignment (← readText) (← part)
    | 12 => return .functionDeclaration (← readText) (← readList readText) (← part)
    | 13 => return .ret (← part)
    | _ => throw .unknownVariant

/-- The tree at the front of the bytes, and the bytes behind it. -/
def decodeFront (bytes : List UInt8) : Except WireError (Tree × List UInt8) :=
  (read bytes.length).run bytes

/-- The tree at the front of the bytes. -/
def decode (bytes : List UInt8) : Except WireError Tree :=
  (decodeFront bytes).map (·.1)

end Tree

end ClosureMachine
