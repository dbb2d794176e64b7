import ClosureMachine.Heap.Environment
import ClosureMachine.Heap.Frame
import ClosureMachine.Heap.OperandStack
import ClosureMachine.Host.Primitive
import ClosureMachine.Machine.Control

/-!
# The machine

The machine keeps all its data in the heap. Its registers say which instruction comes next, in which
environment and on which operand stack it works, and which frames are waiting. The registers are the
roots of the heap: an instruction that allocates may find all of them replaced, so what it needs
afterwards it reads from the registers again, and a node that nothing refers to yet is pinned.

Actions of the machine include those on the heap with the registers as roots, and those of the host.
A fault leaves the machine as it was at that moment.
-/

set_option autoImplicit false

namespace ClosureMachine

/-- The state of a computation outside the heap. -/
structure Registers where
  /-- The address of the next instruction. -/
  pc : Nat
  env : Ref
  stack : Ref
  /-- Frames that are waiting. -/
  control : ControlStack
  /-- New nodes that nothing refers to yet, the latest first. -/
  pinned : List Ref
deriving DecidableEq, Repr, Inhabited

namespace Registers

/-- At the first instruction, with no frames. -/
def start (env stack : Ref) : Registers := ⟨0, env, stack, .empty, []⟩

/-- Frames and pinned nodes are visited in the order in which they came. -/
instance : RootSet Registers where
  toList r := r.env :: r.stack :: (r.control.frames.reverse ++ r.pinned.reverse)
  replace r moved :=
    match moved with
    | env :: stack :: rest =>
      { r with
        env := env
        stack := stack
        control := .ofList (rest.take r.control.depth).reverse
        pinned := (rest.drop r.control.depth).reverse }
    | _ => r

end Registers

/-- A machine between two instructions. -/
structure Machine where
  heap : Heap
  registers : Registers
  host : Host
  /-- The number of instructions begun. -/
  steps : Nat
  /-- The greatest number of frames that were waiting at once. -/
  peakDepth : Nat
  /-- The number of collections at the last sweep of the string table. -/
  sweptAt : Nat
deriving Inhabited

/-- An action of the machine. -/
abbrev MachineM := EStateM Fault Machine

/-- An action on the heap, with the registers as roots. -/
instance : MonadLift (StoreM Registers) MachineM where
  monadLift act := fun m =>
    match act ⟨m.heap, m.registers⟩ with
    | .ok a ⟨heap, registers⟩ => .ok a { m with heap := heap, registers := registers }
    | .error e ⟨heap, registers⟩ =>
      .error (.heap e) { m with heap := heap, registers := registers }

/-- An action of the host. -/
instance : MonadLift HostM MachineM where
  monadLift act := fun m =>
    match act m.host with
    | .ok a host => .ok a { m with host := host }
    | .error e host => .error e { m with host := host }

/-- What a program ends with. -/
inductive Answer where
  | literal (value : Literal)
  | function (arity : Nat)
  | primitive (name : String)
deriving DecidableEq, Repr

/-- The text of an answer. -/
def Answer.text : Answer → String
  | .literal value => value.text
  | .function arity => s!"<function/{arity}>"
  | .primitive name => s!"<primitive {name}>"

namespace Machine

/-! ## Registers -/

/-- Changes the registers. -/
def setRegisters (change : Registers → Registers) : MachineM Unit :=
  modify fun m => { m with registers := change m.registers }

/-- Goes to an address. -/
def jump (target : Nat) : MachineM Unit :=
  setRegisters fun r => { r with pc := target }

/-- Goes to the next instruction. -/
def advance : MachineM Unit :=
  setRegisters fun r => { r with pc := r.pc + 1 }

def setEnv (env : Ref) : MachineM Unit :=
  setRegisters fun r => { r with env := env }

def setStack (stack : Ref) : MachineM Unit :=
  setRegisters fun r => { r with stack := stack }

/-- The environment that is `frames` steps outward. -/
def outward (frames : Nat) : MachineM Ref := do
  match ← Environment.outward (← get).registers.env frames with
  | some env => return env
  | none => throw (.chainTooShort frames)

/-- A new node, for which a collection may come first. -/
def fresh (make : StoreM Registers Ref) : MachineM Ref := make

/-! ## Operands -/

/-- Puts a value on the operand stack. -/
def push (value : Ref) : MachineM Unit := do
  OperandStack.push (← get).registers.stack value

/-- Takes a value off the operand stack. -/
def pop : MachineM Ref := do
  OperandStack.pop (← get).registers.stack

/-- Takes `n` values off the operand stack and unboxes them: the values in front of `rest`, in the
order in which they were pushed. -/
def popOperands (rest : List Operand) : (n : Nat) → MachineM (List Operand)
  | 0 => return rest
  | n + 1 => do
    let operand ← Operand.of (← pop)
    popOperands (operand :: rest) n

/-! ## Frames -/

/-- Adds a frame to those that are waiting. -/
def pushFrame (frame : Ref) : MachineM Unit := do
  setRegisters fun r => { r with control := r.control.push frame }
  modify fun m => { m with peakDepth := max m.peakDepth m.registers.control.depth }

/-- Forgets the innermost frame. -/
def dropFrame : MachineM Unit :=
  setRegisters fun r => { r with control := r.control.tail }

/-- Takes off the innermost frame. -/
def popFrame : MachineM Ref := do
  match (← get).registers.control.frames with
  | [] => throw .controlStackEmpty
  | frame :: _ =>
    dropFrame
    return frame

/-- Takes off block frames until a call frame is innermost. The frames that are waiting are given. -/
def unwindBlocks : (frames : List Ref) → MachineM Unit
  | [] => throw .noCallFrame
  | frame :: rest => do
    match ← Heap.kind frame with
    | .callFrame => return
    | .blockFrame =>
      dropFrame
      unwindBlocks rest
    | other => throw (.internal s!"{other.text} node on the control stack")

/-- Takes off all blocks of the current function. -/
def leaveBlocks : MachineM Unit := do
  unwindBlocks (← get).registers.control.frames

/-! ## Pinned nodes -/

/-- Replaces the pinned nodes. -/
def setPinned (pinned : List Ref) : MachineM Unit :=
  setRegisters fun r => { r with pinned := pinned }

/-- Keeps a new node through the allocations to come. -/
def pin (node : Ref) : MachineM Unit := do
  setPinned (node :: (← get).registers.pinned)

/-- The node that was pinned last, where it is now. -/
def unpin : MachineM Ref := do
  match (← get).registers.pinned with
  | [] => throw (.internal "temporary root stack is empty")
  | node :: rest =>
    setPinned rest
    return node

end Machine

end ClosureMachine
