import ClosureMachine.Machine.Basic

/-!
# Instructions at work

`Machine.execute` carries out one instruction. Every instruction but the last of a program leaves the
machine at another instruction; `done` gives the answer.

A call of a closure first allocates everything that the callee needs, while the arguments are still on
the caller's operand stack and so are moved along by a collection. Only then are they taken over into
the callee's environment. A tail call makes no frame: the callee returns to where the current function
would have returned to.
-/

set_option autoImplicit false

namespace ClosureMachine.Machine

/-! ## Calls -/

/-- Hands the top operand to the function that is waiting, which goes on behind its call. -/
def returnFromCall : MachineM Unit := do
  let value ← pop
  leaveBlocks
  let frame ← popFrame
  jump (← CallFrame.returnAddress frame)
  setEnv (← Frame.env frame)
  setStack (← CallFrame.stack frame)
  push value

/-- Applies a primitive function to the `n` top operands. -/
def callPrimitive (callee : Ref) (n : Nat) (tail : Bool) : MachineM Unit := do
  let id ← PrimitiveFunction.id callee
  match Primitive.ofId? id with
  | none => throw (.internal s!"no primitive with id {id}")
  | some primitive =>
    if primitive.arity ≠ n then
      throw (.arityMismatch (some primitive.name) primitive.arity n)
    let operands ← popOperands [] n
    let _ ← pop
    let result ← primitive.apply operands
    push (← fresh (Boxed.new result))
    if tail then returnFromCall else advance

/-- Moves the `n` top operands into the first `n` slots of an environment, the top one into the last
of them. -/
def moveArguments (env : Ref) : (n : Nat) → MachineM Unit
  | 0 => return
  | n + 1 => do
    Environment.setSlot env n (← pop)
    moveArguments env n

/-- Makes a call frame, unless the call is a tail call. -/
def newFrame (tail : Bool) : MachineM (Option Ref) := do
  if tail then return none
  return some (← fresh (CallFrame.new ((← get).registers.pc + 1)))

/-- Makes the current function wait in a new frame, or be done with. -/
def suspend (frame : Option Ref) : MachineM Unit := do
  match frame with
  | some frame =>
    Frame.setEnv frame (← get).registers.env
    CallFrame.setStack frame (← get).registers.stack
    pushFrame frame
  | none => leaveBlocks

/-- Enters a closure with the `n` top operands as arguments. -/
def callClosure (callee : Ref) (n : Nat) (tail : Bool) : MachineM Unit := do
  let arity ← Closure.arity callee
  let entry ← Closure.entry callee
  let capacity ← Closure.stack callee
  if arity ≠ n then throw (.arityMismatch none arity n)
  pin (← fresh (Environment.new n))
  pin (← fresh (OperandStack.new capacity))
  let frame ← newFrame tail
  -- Nothing is allocated from here on, so these references stay current.
  let stack ← unpin
  let env ← unpin
  moveArguments env n
  let closure ← pop
  Environment.setEnclosing env (← Closure.env closure)
  suspend frame
  setEnv env
  setStack stack
  jump entry

/-- The type of a node in a message. -/
def typeNameOf (node : Ref) : MachineM String := do
  match Operand.of node (← get).heap with
  | .ok operand => return operand.typeName
  | .error _ => return "non-value node"

/-- Applies the function below the `n` top operands to them. -/
def call (n : Nat) (tail : Bool) : MachineM Unit := do
  let callee ← OperandStack.peek (← get).registers.stack n
  match ← Heap.kind callee with
  | .primitive => callPrimitive callee n tail
  | .closure => callClosure callee n tail
  | _ => throw (.notAFunction (← typeNameOf callee))

/-! ## The other instructions -/

/-- Pushes a literal in a new box. -/
def loadConstant (value : Literal) : MachineM Unit := do
  let datum ← Host.datumOf value
  push (← fresh (Boxed.new datum))
  advance

/-- Pushes the value of a slot. -/
def load (source : Address) : MachineM Unit := do
  let env ← outward source.frame
  match ← Environment.slot? env source.slot with
  | none => throw (.unassignedName source)
  | some value =>
    push value
    advance

/-- Stores the top operand in a slot. -/
def assign (target : Address) : MachineM Unit := do
  let value ← OperandStack.peek (← get).registers.stack 0
  let env ← outward target.frame
  Environment.setSlot env target.slot value
  advance

/-- Takes a truth value off the operand stack, and jumps if it is false. -/
def jumpIfFalse (target : Nat) : MachineM Unit := do
  match ← Operand.of (← pop) with
  | .datum (.boolean true) => advance
  | .datum (.boolean false) => jump target
  | other => throw (.typeError "conditional" "boolean" other.typeName)

/-- Continues in a new environment inside the current one, which waits in a block frame. -/
def enterScope (slots : Nat) : MachineM Unit := do
  let frame ← fresh BlockFrame.new
  Frame.setEnv frame (← get).registers.env
  pushFrame frame
  let env ← fresh (Environment.new slots)
  Environment.setEnclosing env (← get).registers.env
  setEnv env
  advance

/-- Continues in the environment of the innermost frame, which must be a block's. -/
def exitScope : MachineM Unit := do
  let frame ← popFrame
  Heap.expect frame .blockFrame
  setEnv (← Frame.env frame)
  advance

/-- Pushes a closure over the current environment. -/
def loadFunction (arity entry stack : Nat) : MachineM Unit := do
  let closure ← fresh (Closure.new arity entry stack)
  Closure.setEnv closure (← get).registers.env
  push closure
  advance

/-- Takes the only operand off as the answer. -/
def finish : MachineM Answer := do
  let depth ← OperandStack.depth (← get).registers.stack
  if depth ≠ 1 then
    throw (.internal s!"program finished with {depth} values on the operand stack")
  match ← Operand.of (← pop) with
  | .datum value => return .literal ((← get).host.literalOf value)
  | .closure _ arity => return .function arity
  | .primitive id => return .primitive (((Primitive.ofId? id).map (·.name)).getD "?")

/-- Carries out one instruction. -/
def execute : Instruction → MachineM (Option Answer)
  | .loadConstant value => do loadConstant value; return none
  | .load source => do load source; return none
  | .assign target => do assign target; return none
  | .jumpIfFalse target => do jumpIfFalse target; return none
  | .jump target => do jump target; return none
  | .pop => do let _ ← pop; advance; return none
  | .enterScope slots => do enterScope slots; return none
  | .exitScope => do exitScope; return none
  | .loadFunction arity entry stack => do loadFunction arity entry stack; return none
  | .call n => do call n false; return none
  | .tailCall n => do call n true; return none
  | .ret => do returnFromCall; return none
  | .done => do return some (← finish)

end ClosureMachine.Machine
