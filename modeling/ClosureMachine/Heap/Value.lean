import ClosureMachine.Heap.Function

/-!
# Values

The values of a program are nodes of three kinds: boxes, closures and primitive functions. A box holds
a datum:

    header | datum

An `Operand` is a value as a primitive function sees it: what the node holds, without the memory
around it. A closure stays a reference, which is good until memory is next allocated.
-/

set_option autoImplicit false

namespace ClosureMachine

open Heap (headerSize)

namespace Boxed

variable {ρ : Type} [RootSet ρ]

/-- A new box. -/
def new (value : Datum) : StoreM ρ Ref := do
  let node ← Store.allocate .boxed (headerSize + 1) 0
  Heap.writeWords node headerSize [.datum value]
  return node

/-- What is in the box. -/
def value (node : Ref) : Probe Datum := do
  Heap.expect node .boxed
  match ← Heap.read node headerSize with
  | .datum value => return value
  | found => throw (.unexpectedWord node.index headerSize "primitive payload" found)

end Boxed

/-- A value taken out of its node. -/
inductive Operand where
  | datum (value : Datum)
  | closure (node : Ref) (arity : Nat)
  | primitive (id : Nat)
deriving DecidableEq, Repr

/-- The type of a datum, as programs and messages name it. -/
def Datum.typeName : Datum → String
  | .number _ => "number"
  | .boolean _ => "boolean"
  | .string _ => "string"
  | .undefined => "undefined"
  | .null => "null"

/-- The type of an operand. -/
def Operand.typeName : Operand → String
  | .datum value => value.typeName
  | .closure .. | .primitive _ => "function"

/-- The value of a node. -/
def Operand.of (node : Ref) : Probe Operand := do
  match ← Heap.kind node with
  | .boxed => return .datum (← Boxed.value node)
  | .closure => return .closure node (← Closure.arity node)
  | .primitive => return .primitive (← PrimitiveFunction.id node)
  | found => throw (.kindMismatch node.index .boxed found)

end ClosureMachine
