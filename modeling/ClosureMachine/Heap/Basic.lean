import ClosureMachine.Heap.Word

/-!
# The heap

The array is split into two halves of equal size, of which one is active. Nodes are put one behind
the other into the active half, from `base` on, and `free` is the first word behind them. The other
half waits for the next collection (`Heap/Collect.lean`).

Three kinds of actions work on a heap. A `Probe` looks and changes nothing. A `HeapM` action may
change words. Both can fail, and an action that fails leaves the heap as it was at that moment, which
is what a later action then finds. Actions that need more memory also move what they must not lose;
they are in `Heap/Collect.lean`.

Every access to a node goes through its reference, which is checked: it must be of the current epoch
and point at a header in the allocated part of the active half.

Two sorts of errors are not for a caller to handle: the program stops where they arise. A position,
a size or an offset that is not below `wordLimit` cannot be formed, and a position that is not one of
the array's cannot be looked at. The array is only touched by `look`, `put`, `clear` and `copy`, and
each of them makes sure of its positions first.
-/

set_option autoImplicit false

namespace ClosureMachine

/-- Numbers of words, positions and offsets are below this, they have 64 bits. No array has as many words. -/
def wordLimit : Nat := 0x10000000000000000

/-- The sums of which it is not known beforehand that they stay below the limit. -/
inductive Quantity where
  /-- The words of a node that is to be made. -/
  | nodeSize
  /-- The offset of a slot. -/
  | slotOffset
  /-- The position behind a header. -/
  | headerEnd
deriving DecidableEq, Repr

/-- Why an action on memory fails. -/
inductive HeapError where
  /-- A collection did not make enough room. -/
  | outOfMemory (requested available : Nat)
  /-- The reference is of an earlier epoch, or there is no header where it points. -/
  | staleReference (index : Nat)
  | kindMismatch (index : Nat) (expected found : Kind)
  /-- The offset is in the header or behind the end of the node. -/
  | offsetOutOfBounds (index offset : Nat)
  /-- The word has another form than its place asks for. -/
  | unexpectedWord (index offset : Nat) (expected : String) (found : Word)
  | corruptHeader (index : Nat)
  | operandStackOverflow (capacity : Nat)
  | operandStackUnderflow
  /-- A sum is not below the limit. The program stops. -/
  | overflow (sum : Quantity)
  /-- The position is not one of the array's. The program stops. -/
  | outsideArray (position size : Nat)
deriving DecidableEq, Repr

/-- The message to the user. -/
def HeapError.message : HeapError → String
  | .outOfMemory requested available =>
    s!"out of memory: requested {requested} words, {available} available after collection"
  | .staleReference index => s!"stale node reference @{index} (node moved or freed)"
  | .kindMismatch index expected found =>
    s!"node @{index} is {found.text}, expected {expected.text}"
  | .offsetOutOfBounds index offset => s!"offset {offset} is outside node @{index}"
  | .unexpectedWord index offset expected found =>
    s!"node @{index} offset {offset} holds {found.text}, expected {expected}"
  | .corruptHeader index => s!"corrupt node header @{index}"
  | .operandStackOverflow capacity =>
    s!"operand stack overflow: push beyond static bound of {capacity}"
  | .operandStackUnderflow => "operand stack underflow"
  | .overflow _ => "attempt to add with overflow"
  | .outsideArray position size =>
    s!"index out of bounds: the len is {size} but the index is {position}"

/-- The program does not go on after the error. -/
def HeapError.stops : HeapError → Bool
  | .overflow _ | .outsideArray .. => true
  | _ => false

/-- The error for a sum that is too large for the heap, if it can be formed at all. -/
def HeapError.tooLarge (what : Quantity) (sum : Nat) (e : HeapError) : HeapError :=
  if wordLimit ≤ sum then .overflow what else e

/-- What one completed collection did. -/
structure Collection where
  /-- The words in use before. -/
  before : Nat
  /-- The words in use after: those of the nodes that were moved. -/
  live : Nat
deriving DecidableEq, Repr

/-- Memory in two halves. -/
structure Heap where
  words : Array Word
  /-- The size of one half. -/
  semispace : Nat
  /-- Where the active half begins. -/
  base : Nat
  /-- The first word behind the nodes of the active half. -/
  free : Nat
  epoch : UInt32
  /-- The completed collections, the latest last. -/
  collections : Array Collection
deriving Inhabited

/-- An action that looks at a heap. -/
abbrev Probe := ReaderT Heap (Except HeapError)

/-- An action that may change a heap. -/
abbrev HeapM := EStateM HeapError Heap

/-- To look is a special case of acting. -/
instance : MonadLift Probe HeapM where
  monadLift look := fun h =>
    match look h with
    | .ok a => .ok a h
    | .error e => .error e h

namespace Heap

/-- The words of a header: kind, size, number of children. -/
def headerSize : Nat := 3

/-- A heap of two halves that together have at most `capacity` words. -/
def ofCapacity (capacity : Nat) : Heap where
  words := Array.replicate (2 * (capacity / 2)) .empty
  semispace := capacity / 2
  base := 0
  free := 0
  epoch := 0
  collections := #[]

/-- The words of both halves. -/
def capacity (h : Heap) : Nat := 2 * h.semispace

/-- The words in use in the active half. -/
def used (h : Heap) : Nat := h.free - h.base

/-- The words that can be allocated without a collection. -/
def available (h : Heap) : Nat := h.base + h.semispace - h.free

/-- The allocated part of the active half. -/
def liveWords (h : Heap) : Array Word := h.words.extract h.base h.free

/-- The words that all collections together have moved. -/
def wordsCopied (h : Heap) : Nat := h.collections.foldl (fun n c => n + c.live) 0

/-- The words that were in use after the last collection. -/
def liveAfterCollection (h : Heap) : Nat := (h.collections.back?.map (·.live)).getD 0

/-! ## Words by position -/

/-- The word at a position of the array. -/
def word (h : Heap) (i : Nat) : Word := h.words.getD i .empty

/-- The heap with another word at a position. -/
def setWord (h : Heap) (i : Nat) (w : Word) : Heap :=
  { h with words := h.words.setIfInBounds i w }

/-- The heap with the words from `start` on replaced, one after the other. -/
def setWords (h : Heap) (start : Nat) : List Word → Heap
  | [] => h
  | w :: rest => (h.setWord start w).setWords (start + 1) rest

/-- The heap with `n` words from `start` on all replaced by the same one. -/
def fill (h : Heap) (start : Nat) (w : Word) : (n : Nat) → Heap
  | 0 => h
  | n + 1 => (h.setWord start w).fill (start + 1) w n

/-- Insists on a position of the array. -/
def within (i : Nat) : Probe Unit := fun h =>
  if i < h.words.size then .ok () else .error (.outsideArray i h.words.size)

/-- Insists on a stretch of positions of the array. -/
def spans (start stop : Nat) : Probe Unit := fun h =>
  if start ≤ stop ∧ stop ≤ h.words.size then .ok () else .error (.outsideArray stop h.words.size)

/-- Looks at the word at a position. -/
def look (i : Nat) : Probe Word := do
  within i
  return (← ReaderT.read).word i

/-- Replaces the word at a position. -/
def put (i : Nat) (w : Word) : HeapM Unit := do
  within i
  modify (·.setWord i w)

/-- Empties the words from `start` to `stop`. -/
def clear (start stop : Nat) : HeapM Unit := do
  spans start stop
  modify (·.fill start .empty (stop - start))

/-- Copies the `size` words from `source` on to where `target` is. -/
def copy (source target size : Nat) : HeapM Unit := do
  spans source (source + size)
  spans target (target + size)
  modify fun h => h.setWords target (h.words.extract source (source + size)).toList

/-- The number in a header word. -/
def countAt (i : Nat) : Probe Nat := do
  match ← look i with
  | .count n => return n
  | _ => throw (.corruptHeader i)

/-! ## Words by node -/

/-- The kind of a node. Everything else about a node asks for its kind first, and so notices
references that are not current. -/
def kind (r : Ref) : Probe Kind := do
  let h ← ReaderT.read
  if r.epoch ≠ h.epoch ∨ r.index < h.base then throw (.staleReference r.index)
  if h.free < r.index + headerSize then
    throw (.tooLarge .headerEnd (r.index + headerSize) (.staleReference r.index))
  match ← look r.index with
  | .tag kind => return kind
  | _ => throw (.staleReference r.index)

/-- Insists on a kind. -/
def expect (r : Ref) (expected : Kind) : Probe Unit := do
  let found ← kind r
  if found ≠ expected then throw (.kindMismatch r.index expected found)

/-- The number of words of a node, its header included. -/
def size (r : Ref) : Probe Nat := do
  let _ ← kind r
  countAt (r.index + 1)

/-- The number of words behind the header that may be references. -/
def childCount (r : Ref) : Probe Nat := do
  let _ ← kind r
  countAt (r.index + 2)

/-- Insists that an offset is behind the header and inside the node. -/
def checkOffset (r : Ref) (offset : Nat) : Probe Unit := do
  if offset < headerSize then throw (.offsetOutOfBounds r.index offset)
  if (← size r) ≤ offset then throw (.offsetOutOfBounds r.index offset)

/-- The word of a node at an offset from its header. -/
def read (r : Ref) (offset : Nat) : Probe Word := do
  checkOffset r offset
  look (r.index + offset)

/-- Replaces the word of a node at an offset from its header. -/
def write (r : Ref) (offset : Nat) (w : Word) : HeapM Unit := do
  checkOffset r offset
  put (r.index + offset) w

/-- Replaces words of a node from an offset on, one after the other. -/
def writeWords (r : Ref) (offset : Nat) : List Word → HeapM Unit
  | [] => return
  | w :: rest => do
    write r offset w
    writeWords r (offset + 1) rest

/-- A reference in a node. -/
def readRef (r : Ref) (offset : Nat) : Probe Ref := do
  match ← read r offset with
  | .ref target => return target
  | found => throw (.unexpectedWord r.index offset "node reference" found)

/-- A number in a node. -/
def readCount (r : Ref) (offset : Nat) : Probe Nat := do
  match ← read r offset with
  | .count n => return n
  | found => throw (.unexpectedWord r.index offset "count" found)

end Heap

end ClosureMachine
