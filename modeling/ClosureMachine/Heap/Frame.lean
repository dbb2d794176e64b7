import ClosureMachine.Heap.Collect

/-!
# Frames

A frame remembers what to come back to. A call frame keeps the caller's environment, operand stack
and the address behind the call; a block frame keeps the environment around the block:

    header | environment | operand stack | return address
    header | environment
-/

set_option autoImplicit false

namespace ClosureMachine

open Heap (headerSize)

namespace Frame

/-- Insists on a frame of either kind. -/
def expect (frame : Ref) : Probe Unit := do
  match ← Heap.kind frame with
  | .callFrame | .blockFrame => return
  | found => throw (.kindMismatch frame.index .callFrame found)

/-- The environment to come back to. -/
def env (frame : Ref) : Probe Ref := do
  expect frame
  Heap.readRef frame headerSize

def setEnv (frame env : Ref) : HeapM Unit := do
  expect frame
  Heap.expect env .environment
  Heap.write frame headerSize (.ref env)

end Frame

namespace CallFrame

variable {ρ : Type} [RootSet ρ]

/-- A new call frame, with nothing saved but the address to return to. -/
def new (returnAddress : Nat) : StoreM ρ Ref := do
  let frame ← Store.allocate .callFrame (headerSize + 3) 2
  Heap.writeWords frame headerSize [.nil, .nil, .count returnAddress]
  return frame

/-- The caller's operand stack. -/
def stack (frame : Ref) : Probe Ref := do
  Heap.expect frame .callFrame
  Heap.readRef frame (headerSize + 1)

def setStack (frame stack : Ref) : HeapM Unit := do
  Heap.expect frame .callFrame
  Heap.expect stack .operandStack
  Heap.write frame (headerSize + 1) (.ref stack)

/-- The address behind the call. -/
def returnAddress (frame : Ref) : Probe Nat := do
  Heap.expect frame .callFrame
  Heap.readCount frame (headerSize + 2)

end CallFrame

namespace BlockFrame

variable {ρ : Type} [RootSet ρ]

/-- A new block frame, with nothing saved. -/
def new : StoreM ρ Ref := do
  let frame ← Store.allocate .blockFrame (headerSize + 1) 1
  Heap.writeWords frame headerSize [.nil]
  return frame

end BlockFrame

end ClosureMachine
