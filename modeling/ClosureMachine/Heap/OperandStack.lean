import ClosureMachine.Heap.Collect

/-!
# Operand stacks

Each call works on an operand stack of its own, of a capacity known in advance:

    header | place 0 | … | place n-1 | top

`top` is the number of operands. The places from `top` on are empty, so that nothing that was popped
is kept alive.
-/

set_option autoImplicit false

namespace ClosureMachine.OperandStack

open Heap (headerSize)

variable {ρ : Type} [RootSet ρ]

/-- A new operand stack without operands. -/
def new (capacity : Nat) : StoreM ρ Ref := do
  let stack ← Store.allocate .operandStack (← Store.nodeSize (capacity + 1)) capacity
  Heap.write stack (headerSize + capacity) (.count 0)
  return stack

/-- The greatest number of operands. -/
def capacity (stack : Ref) : Probe Nat := do
  Heap.expect stack .operandStack
  Heap.childCount stack

/-- The number of operands. -/
def depth (stack : Ref) : Probe Nat := do
  Heap.readCount stack (headerSize + (← capacity stack))

/-- Puts an operand on top. -/
def push (stack value : Ref) : HeapM Unit := do
  let capacity ← capacity stack
  let top ← Heap.readCount stack (headerSize + capacity)
  if top = capacity then throw (.operandStackOverflow capacity)
  Heap.write stack (headerSize + top) (.ref value)
  Heap.write stack (headerSize + capacity) (.count (top + 1))

/-- Takes the top operand off. -/
def pop (stack : Ref) : HeapM Ref := do
  let capacity ← capacity stack
  let top ← Heap.readCount stack (headerSize + capacity)
  if top = 0 then throw .operandStackUnderflow
  let value ← Heap.readRef stack (headerSize + top - 1)
  Heap.write stack (headerSize + top - 1) .empty
  Heap.write stack (headerSize + capacity) (.count (top - 1))
  return value

/-- The operand that is `below` places below the top one. -/
def peek (stack : Ref) (below : Nat) : Probe Ref := do
  let top ← depth stack
  if top ≤ below then throw .operandStackUnderflow
  Heap.readRef stack (headerSize + top - 1 - below)

end ClosureMachine.OperandStack
