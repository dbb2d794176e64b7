import ClosureMachine.Heap.Collect

/-!
# Environments

An environment holds the values of one scope's names and the environment around it:

    header | slot 0 | … | slot n-1 | enclosing

A slot is unassigned until the declaration of its name runs. The outermost environment has no
enclosing one.

No constructor of a node takes references: the allocation could move what they point to. New nodes
are linked afterwards, with references read again from the roots.
-/

set_option autoImplicit false

namespace ClosureMachine.Environment

open Heap (headerSize)

variable {ρ : Type} [RootSet ρ]

/-- A new environment of unassigned slots, with none around it. -/
def new (slots : Nat) : StoreM ρ Ref := do
  let env ← Store.allocate .environment (← Store.nodeSize (slots + 1)) (slots + 1)
  Heap.writeWords env headerSize (List.replicate slots .unassigned ++ [.nil])
  return env

/-- The number of slots. -/
def size (env : Ref) : Probe Nat := do
  Heap.expect env .environment
  return (← Heap.childCount env) - 1

/-- The offset of a slot. -/
def slotOffset (env : Ref) (slot : Nat) : Probe Nat := do
  let offset := headerSize + slot
  if (← size env) ≤ slot then
    throw (.tooLarge .slotOffset offset (.offsetOutOfBounds env.index offset))
  return offset

/-- The value in a slot, if it has one yet. -/
def slot? (env : Ref) (slot : Nat) : Probe (Option Ref) := do
  let offset ← slotOffset env slot
  match ← Heap.read env offset with
  | .ref value => return some value
  | .unassigned => return none
  | found => throw (.unexpectedWord env.index offset "value reference" found)

/-- Puts a value into a slot. -/
def setSlot (env : Ref) (slot : Nat) (value : Ref) : HeapM Unit := do
  let offset ← slotOffset env slot
  Heap.write env offset (.ref value)

/-- The environment around this one. -/
def enclosing? (env : Ref) : Probe (Option Ref) := do
  let offset := headerSize + (← size env)
  match ← Heap.read env offset with
  | .ref outer => return some outer
  | .nil => return none
  | found => throw (.unexpectedWord env.index offset "environment reference" found)

/-- Puts an environment inside another one. -/
def setEnclosing (env outer : Ref) : HeapM Unit := do
  Heap.expect outer .environment
  let offset := headerSize + (← size env)
  Heap.write env offset (.ref outer)

/-- The environment that is `frames` steps outward, if the chain is that long. -/
def outward (env : Ref) : (frames : Nat) → Probe (Option Ref)
  | 0 => return some env
  | frames + 1 => do
    match ← enclosing? env with
    | some outer => outward outer frames
    | none => return none

end ClosureMachine.Environment
