/-!
# Reading bytes from the front

A decoder takes what it needs from the front of the input and leaves the rest. Each of the decoders
here reads one kind of field; the first byte that does not fit ends the reading.

Whole numbers are written in base 128, the lowest digit first, with the top bit set in every byte but
the last. Padding with zero digits is accepted. How many bytes a number may have, and how large the
last of them, follows from the width of the number.
-/

set_option autoImplicit false

namespace ClosureMachine

/-- Why bytes do not decode. -/
inductive WireError where
  | endOfInput
  /-- A number that is longer or larger than its width allows. -/
  | badVarint
  | badBoolean
  /-- The bytes of a text are not UTF-8. -/
  | badText
  /-- The number of a variant that does not exist. -/
  | unknownVariant
deriving DecidableEq, Repr

/-- The message to the user. -/
def WireError.message (e : WireError) : String :=
  "syntax tree codec error: " ++ match e with
    | .endOfInput => "Hit the end of buffer, expected more data"
    | .badVarint =>
      "Found a varint that didn't terminate. Is the usize too big for this platform?"
    | .badBoolean => "Found a bool that wasn't 0 or 1"
    | .badText => "Tried to parse invalid utf-8"
    | .unknownVariant => "Serde Deserialization Error"

/-- A reader of the front of a list of bytes. -/
abbrev Decoder := StateT (List UInt8) (Except WireError)

namespace Wire

/-- The limits on numbers of some width. -/
structure Width where
  /-- The greatest number of bytes. -/
  bytes : Nat
  /-- The greatest value of the last byte, if all are used. -/
  last : Nat

/-- Numbers of 32 bits, as which variants are written. -/
def variantWidth : Width := ⟨5, 0x0f⟩

/-- Numbers of 64 bits, as which lengths are written. -/
def lengthWidth : Width := ⟨10, 0x01⟩

/-- A number of at most `bytes` bytes, the last of which is at most `last` if it is needed. -/
def readDigits (last : Nat) : (bytes : Nat) → Decoder Nat
  | 0 => throw .badVarint
  | bytes + 1 => do
    match ← get with
    | [] => throw .endOfInput
    | b :: rest =>
      set rest
      if b.toNat < 128 then
        if bytes = 0 ∧ last < b.toNat then throw .badVarint else return b.toNat
      else
        return b.toNat - 128 + 128 * (← readDigits last bytes)

/-- A whole number. -/
def readVarint (width : Width) : Decoder Nat := readDigits width.last width.bytes

/-- The first `n` elements of a list and the others, if there are as many. -/
def splitFront {α : Type} : Nat → List α → Option (List α × List α)
  | 0, xs => some ([], xs)
  | _ + 1, [] => none
  | n + 1, x :: xs => (splitFront n xs).map fun (front, rest) => (x :: front, rest)

/-- Exactly `n` bytes. -/
def readBytes (n : Nat) : Decoder (List UInt8) := do
  match splitFront n (← get) with
  | none => throw .endOfInput
  | some (front, rest) =>
    set rest
    return front

/-- Eight bytes as the pattern of a double, the lowest byte first. -/
def readBits : Decoder UInt64 := do
  let bytes ← readBytes 8
  return bytes.foldr (fun b high => high <<< 8 ||| b.toUInt64) 0

/-- A truth value: one byte, 0 or 1. -/
def readBoolean : Decoder Bool := do
  match ← readBytes 1 with
  | [0] => return false
  | [1] => return true
  | _ => throw .badBoolean

/-- A text: its length in bytes, then its bytes. -/
def readText : Decoder String := do
  let bytes ← readBytes (← readVarint lengthWidth)
  match String.fromUTF8? ⟨bytes.toArray⟩ with
  | some text => return text
  | none => throw .badText

/-- `n` items one after the other. -/
def readMany {α : Type} (item : Decoder α) : (n : Nat) → Decoder (List α)
  | 0 => return []
  | n + 1 => return (← item) :: (← readMany item n)

/-- A list: its length, then its items. -/
def readList {α : Type} (item : Decoder α) : Decoder (List α) := do
  readMany item (← readVarint lengthWidth)

end Wire

end ClosureMachine
