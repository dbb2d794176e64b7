import ClosureMachine.Heap.Collect

/-!
# Functions

A closure is code with the environment in which it was built; a primitive function is a number in
the table of primitives:

    header | environment | arity | entry | stack
    header | id

The environment of a new closure is missing until it is set.
-/

set_option autoImplicit false

namespace ClosureMachine

open Heap (headerSize)

namespace Closure

variable {ρ : Type} [RootSet ρ]

/-- A new closure for the code at `entry`, which needs an operand stack of capacity `stack`. -/
def new (arity entry stack : Nat) : StoreM ρ Ref := do
  let closure ← Store.allocate .closure (headerSize + 4) 1
  Heap.writeWords closure headerSize [.nil, .count arity, .count entry, .count stack]
  return closure

/-- The environment in which the closure was built. -/
def env (closure : Ref) : Probe Ref := do
  Heap.expect closure .closure
  Heap.readRef closure headerSize

def setEnv (closure env : Ref) : HeapM Unit := do
  Heap.expect closure .closure
  Heap.expect env .environment
  Heap.write closure headerSize (.ref env)

/-- The number of parameters. -/
def arity (closure : Ref) : Probe Nat := do
  Heap.expect closure .closure
  Heap.readCount closure (headerSize + 1)

/-- The address of the body. -/
def entry (closure : Ref) : Probe Nat := do
  Heap.expect closure .closure
  Heap.readCount closure (headerSize + 2)

/-- The capacity of the operand stack that the body needs. -/
def stack (closure : Ref) : Probe Nat := do
  Heap.expect closure .closure
  Heap.readCount closure (headerSize + 3)

end Closure

namespace PrimitiveFunction

variable {ρ : Type} [RootSet ρ]

/-- A new function node for a primitive. -/
def new (id : Nat) : StoreM ρ Ref := do
  let node ← Store.allocate .primitive (headerSize + 1) 0
  Heap.writeWords node headerSize [.count id]
  return node

/-- The number of the primitive. -/
def id (node : Ref) : Probe Nat := do
  Heap.expect node .primitive
  Heap.readCount node headerSize

end PrimitiveFunction

end ClosureMachine
