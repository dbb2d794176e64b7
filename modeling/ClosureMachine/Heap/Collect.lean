import ClosureMachine.Heap.Basic

/-!
# Collection and allocation

A collection moves what is reachable from the roots into the other half and leaves everything else
behind. First each root's node is moved. Then a cursor walks over the moved nodes in the order in
which they arrived and moves what they refer to, behind them; when it has caught up with `free`, no
reference into the old half is left. Where a node was, a forwarding word tells where it went, so a
node is moved once however many references there are to it, and cycles come to an end.

A reference that does not lead to a node of the old half is an error. All roots are visited even if
one of them is bad, and those that can be moved are; after that, the first error ends the collection.
The halves have changed roles by then, and they stay so.
-/

set_option autoImplicit false

namespace ClosureMachine

/-- The references from which everything in use can be reached. A collection replaces them. -/
class RootSet (ρ : Type) where
  /-- The references, in the order in which a collection visits them. -/
  toList : ρ → List Ref
  /-- The same roots with other references, as many as `toList` gives. -/
  replace : ρ → List Ref → ρ

instance : RootSet (Array Ref) where
  toList roots := roots.toList
  replace _ moved := moved.toArray

/-- A heap and its roots. -/
structure Store (ρ : Type) where
  heap : Heap
  roots : ρ

/-- An action that may collect, and so may replace the roots. -/
abbrev StoreM (ρ : Type) := EStateM HeapError (Store ρ)

/-- An action on the heap alone. -/
instance {ρ : Type} : MonadLift HeapM (StoreM ρ) where
  monadLift act := fun s =>
    match act s.heap with
    | .ok a h => .ok a { s with heap := h }
    | .error e h => .error e { s with heap := h }

namespace Heap

/-- The part of the array that a collection empties, and the epoch of the references to it. -/
structure FromSpace where
  start : Nat
  stop : Nat
  epoch : UInt32

/-- The allocated part of the active half. -/
def fromSpace (h : Heap) : FromSpace := ⟨h.base, h.free, h.epoch⟩

/-- The heap with the other half active and empty, in the next epoch. -/
def flip (h : Heap) : Heap :=
  let base := if h.base = 0 then h.semispace else 0
  { h with base := base, free := base, epoch := h.epoch + 1 }

/-- Copies the node of `size` words at `index` to `free`, and leaves a forwarding word behind. -/
def move (index size : Nat) : HeapM Ref := do
  let moved : Ref := ⟨(← get).free, (← get).epoch⟩
  copy index moved.index size
  modify fun h => { h with free := h.free + size }
  put index (.forward moved)
  return moved

/-- The new reference to a node of the old half, which is moved unless it already was. -/
def evacuate (old : FromSpace) (r : Ref) : HeapM Ref := do
  if r.epoch ≠ old.epoch ∨ r.index < old.start ∨ old.stop ≤ r.index then
    throw (.staleReference r.index)
  match ← look r.index with
  | .forward moved => return moved
  | .tag _ => move r.index (← countAt (r.index + 1))
  | _ => throw (.staleReference r.index)

/-- How far a collection has got with the roots. -/
structure RootPass where
  heap : Heap
  /-- The roots seen so far: the new references, or the old ones where there is none. -/
  moved : Array Ref
  /-- The first error, or one at which the program stops. -/
  failure : Option HeapError

/-- Moves the node of one root. -/
def RootPass.visit (old : FromSpace) (p : RootPass) (r : Ref) : RootPass :=
  match evacuate old r p.heap with
  | .ok moved h => ⟨h, p.moved.push moved, p.failure⟩
  | .error e h => ⟨h, p.moved.push r, if e.stops then some e else p.failure.or (some e)⟩

/-- Moves what `count` words from `start` on refer to, and updates the references. -/
def scanChildren (old : FromSpace) (start : Nat) : (count : Nat) → HeapM Unit
  | 0 => return
  | count + 1 => do
    match ← look start with
    | .ref child => put start (.ref (← evacuate old child))
    | _ => pure ()
    scanChildren old (start + 1) count

/-- Moves what the nodes from `cursor` to `free` refer to, and what those refer to in turn, in at
most `rounds` nodes. -/
def scan (old : FromSpace) (cursor : Nat) : (rounds : Nat) → HeapM Unit
  | 0 => return
  | rounds + 1 => do
    if cursor < (← get).free then
      let size ← countAt (cursor + 1)
      let children ← countAt (cursor + 2)
      scanChildren old (cursor + headerSize) children
      scan old (cursor + size) rounds

/-- Records the collection and wipes the old half. -/
def retire (old : FromSpace) : HeapM Unit := do
  modify fun h =>
    { h with collections := h.collections.push ⟨old.stop - old.start, h.used⟩ }
  clear old.start (old.start + (← get).semispace)

/-- Moves what the nodes of the active half lead to and ends the collection. A node has at least a
header, so there are fewer nodes to scan than words. -/
def complete (old : FromSpace) : HeapM Unit := do
  scan old (← get).base (← get).words.size
  retire old

/-- Puts a node behind the others: its header, and empty words. -/
def append (kind : Kind) (size children : Nat) : HeapM Ref := do
  let node : Ref := ⟨(← get).free, (← get).epoch⟩
  put node.index (.tag kind)
  put (node.index + 1) (.count size)
  put (node.index + 2) (.count children)
  clear (node.index + headerSize) (node.index + size)
  modify fun h => { h with free := h.free + size }
  return node

end Heap

namespace Store

variable {ρ : Type} [RootSet ρ]

/-- Moves everything that is reachable from the roots into the other half. -/
def collect : StoreM ρ Unit := fun ⟨heap, roots⟩ =>
  let old := heap.fromSpace
  let pass := (RootSet.toList roots).foldl (Heap.RootPass.visit old) ⟨heap.flip, #[], none⟩
  let roots := RootSet.replace roots pass.moved.toList
  match pass.failure with
  | some e => .error e ⟨pass.heap, roots⟩
  | none => (liftM (Heap.complete old) : StoreM ρ Unit) ⟨pass.heap, roots⟩

/-- Makes sure that there are `size` words to allocate, by a collection if need be. -/
def reserve (size : Nat) : StoreM ρ Unit := do
  if (← get).heap.available < size then
    collect
    let available := (← get).heap.available
    if available < size then throw (.outOfMemory size available)

/-- A new node of `size` words, of which `children` behind the header may be references. The words
behind the header are empty. A collection may come first, after which no references are current but
those that the roots lead to. -/
def allocate (kind : Kind) (size children : Nat) : StoreM ρ Ref := do
  reserve size
  Heap.append kind size children

/-- The words of a node with so many behind its header. A sum that is not below the limit is too much
for any heap. -/
def nodeSize (payload : Nat) : StoreM ρ Nat := do
  let size := Heap.headerSize + payload
  if (← get).heap.semispace < size ∧ wordLimit ≤ size then throw (.overflow .nodeSize)
  return size

end Store

end ClosureMachine
