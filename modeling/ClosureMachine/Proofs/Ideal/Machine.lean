import ClosureMachine.Proofs.Ideal.Update

/-!
# The ideal machine

The machine once more, on ideal nodes. It takes the same instructions in the same steps and objects to the
same things; what it lacks is everything that has to do with where a node is. There is one parameter, the
room that nodes may take: `some n` for a memory whose halves have `n` words, `none` for a memory that
never ends.

Each definition stands for the one of the same name in `ClosureMachine.Machine`, and can be read beside it.
-/

set_option autoImplicit false

namespace ClosureMachine

/-! ## Turns

A run takes turns until one of them gives an answer or fails. -/

/-- Takes turns until one of them is the last, at most `fuel` of them. -/
def follow {σ : Type} (turn : σ → Turn × σ) : (fuel : Nat) → σ → Option (Except Failure Answer × σ)
  | 0, _ => none
  | fuel + 1, s =>
    match turn s with
    | (.ok none, s') => follow turn fuel s'
    | (.ok (some answer), s') => some (.ok answer, s')
    | (.error failure, s') => some (.error failure, s')

/-- A run that has ended does not go on. -/
theorem follow_of_le {σ : Type} {turn : σ → Turn × σ} {fuel fuel' : Nat} {s : σ}
    {out : Except Failure Answer × σ} (h : follow turn fuel s = some out) (hle : fuel ≤ fuel') :
    follow turn fuel' s = some out := by
  induction fuel generalizing fuel' s with
  | zero => cases h
  | succ fuel ih =>
    cases fuel' with
    | zero => exact absurd hle (Nat.not_succ_le_zero fuel)
    | succ fuel' =>
      rw [follow] at h ⊢
      rcases hturn : turn s with ⟨outcome | answer, s'⟩ <;> rw [hturn] at h
      · exact h
      · cases answer with
        | none => exact ih h (Nat.le_of_succ_le_succ hle)
        | some answer => exact h

@[simp] theorem Failure.fault_locatedAt (f : Failure) (pc : Nat) (i : Instruction) :
    (f.locatedAt pc i).fault = f.fault := by
  unfold Failure.locatedAt
  split <;> rfl

namespace Ideal

/-- The state of the ideal machine. -/
structure State where
  nodes : List Node
  pc : Nat
  env : Loc
  stack : Loc
  /-- Frames that are waiting, the innermost first. -/
  control : List Loc
  pinned : List Loc
  output : Array String
  steps : Nat
  peakDepth : Nat

/-- From where everything in use can be reached. -/
def State.roots (s : State) : List Loc :=
  s.env :: s.stack :: (s.control.reverse ++ s.pinned.reverse)

/-- An action of the ideal machine. -/
abbrev Act := EStateM Fault State

/-- An action on the nodes. -/
instance : MonadLift NodeM Act where
  monadLift act := fun s =>
    match act s.nodes with
    | .ok a nodes => .ok a { s with nodes := nodes }
    | .error e nodes => .error (.heap e) { s with nodes := nodes }

/-! ## Registers -/

def jump (target : Nat) : Act Unit := modify fun s => { s with pc := target }

def advance : Act Unit := modify fun s => { s with pc := s.pc + 1 }

def setEnv (env : Loc) : Act Unit := modify fun s => { s with env := env }

def setStack (stack : Loc) : Act Unit := modify fun s => { s with stack := stack }

/-- The environment that is `frames` steps outward from the current one. -/
def environmentAt (frames : Nat) : Act Loc := do
  match ← outward (← get).env frames with
  | some env => return env
  | none => throw (.chainTooShort frames)

/-- A new node. -/
noncomputable def fresh (room : Option Nat) (n : Node) : Act Loc := fun s =>
  match allocate room s.roots n s.nodes with
  | .ok nodes => .ok s.nodes.length { s with nodes := nodes }
  | .error e => .error (.heap e) s

/-! ## Operands -/

def push (value : Loc) : Act Unit := do
  change (← get).stack (Node.push value)

def pop : Act Loc := do
  alter (← get).stack Node.pop

def popOperands (rest : List Argument) : (n : Nat) → Act (List Argument)
  | 0 => return rest
  | n + 1 => do
    let l ← pop
    let operand ← look l (Node.argument l)
    popOperands (operand :: rest) n

/-! ## Frames -/

def pushFrame (frame : Loc) : Act Unit := do
  modify fun s => { s with control := frame :: s.control }
  modify fun s => { s with peakDepth := max s.peakDepth s.control.length }

def dropFrame : Act Unit := modify fun s => { s with control := s.control.tail }

def popFrame : Act Loc := do
  match (← get).control with
  | [] => throw .controlStackEmpty
  | frame :: _ =>
    dropFrame
    return frame

def unwindBlocks : (frames : List Loc) → Act Unit
  | [] => throw .noCallFrame
  | frame :: rest => do
    match ← look frame (fun n => .ok n.kind) with
    | .callFrame => return
    | .blockFrame =>
      dropFrame
      unwindBlocks rest
    | other => throw (.internal s!"{other.text} node on the control stack")

def leaveBlocks : Act Unit := do
  unwindBlocks (← get).control

/-! ## Pinned nodes -/

def setPinned (pinned : List Loc) : Act Unit := modify fun s => { s with pinned := pinned }

def pin (node : Loc) : Act Unit := do
  setPinned (node :: (← get).pinned)

def unpin : Act Loc := do
  match (← get).pinned with
  | [] => throw (.internal "temporary root stack is empty")
  | node :: rest =>
    setPinned rest
    return node

/-! ## Calls -/

def returnFromCall : Act Unit := do
  let value ← pop
  leaveBlocks
  let frame ← popFrame
  jump (← look frame Node.returnAddress)
  setEnv (← look frame Node.frameEnv)
  setStack (← look frame Node.frameStack)
  push value

/-- What a primitive function computes and shows. -/
def applyPrimitive (p : Primitive) (args : List Argument) : Act Literal := fun s =>
  match p.meaning args with
  | .ok value => .ok value { s with output := s.output ++ p.shows args }
  | .error e => .error e s

def moveArguments (env : Loc) : (n : Nat) → Act Unit
  | 0 => return
  | n + 1 => do
    let value ← pop
    change env (Node.setSlot n value)
    moveArguments env n

def suspend (frame : Option Loc) : Act Unit := do
  match frame with
  | some frame =>
    setFrameEnv frame (← get).env
    setFrameStack frame (← get).stack
    pushFrame frame
  | none => leaveBlocks

/-- The part of a call of a closure that comes after the allocations. -/
def enterClosure (n entry : Nat) (frame : Option Loc) (stack env : Loc) : Act Unit := do
  moveArguments env n
  let closure ← pop
  setEnclosing env (← look closure Node.closureEnv)
  suspend frame
  setEnv env
  setStack stack
  jump entry

def typeNameOf (node : Loc) : Act String := do
  match look node (Node.argument node) (← get).nodes with
  | .ok operand _ => return operand.typeName
  | .error .. => return "non-value node"

section Room

variable (room : Option Nat)

noncomputable def callPrimitive (callee : Loc) (n : Nat) (tail : Bool) : Act Unit := do
  let id ← look callee Node.primitiveId
  match Primitive.ofId? id with
  | none => throw (.internal s!"no primitive with id {id}")
  | some primitive =>
    if primitive.arity ≠ n then
      throw (.arityMismatch (some primitive.name) primitive.arity n)
    let operands ← popOperands [] n
    let _ ← pop
    let result ← applyPrimitive primitive operands
    push (← fresh room (.boxed result))
    if tail then returnFromCall else advance

noncomputable def newFrame (tail : Bool) : Act (Option Loc) := do
  if tail then return none
  return some (← fresh room (.callFrame none none ((← get).pc + 1)))

noncomputable def callClosure (callee : Loc) (n : Nat) (tail : Bool) : Act Unit := do
  let arity ← look callee Node.arity
  let entry ← look callee Node.entry
  let capacity ← look callee Node.capacity
  if arity ≠ n then throw (.arityMismatch none arity n)
  pin (← fresh room (.environment (List.replicate n none) none))
  pin (← fresh room (.operandStack [] capacity))
  let frame ← newFrame room tail
  let stack ← unpin
  let env ← unpin
  enterClosure n entry frame stack env

noncomputable def call (n : Nat) (tail : Bool) : Act Unit := do
  let callee ← look (← get).stack (Node.peek n)
  match ← look callee (fun n => .ok n.kind) with
  | .primitive => callPrimitive room callee n tail
  | .closure => callClosure room callee n tail
  | _ => throw (.notAFunction (← typeNameOf callee))

/-! ## The other instructions -/

noncomputable def loadConstant (value : Literal) : Act Unit := do
  push (← fresh room (.boxed value))
  advance

def load (source : Address) : Act Unit := do
  let env ← environmentAt source.frame
  match ← look env (Node.slot? source.slot) with
  | none => throw (.unassignedName source)
  | some value =>
    push value
    advance

def assign (target : Address) : Act Unit := do
  let value ← look (← get).stack (Node.peek 0)
  let env ← environmentAt target.frame
  change env (Node.setSlot target.slot value)
  advance

def jumpIfFalse (target : Nat) : Act Unit := do
  let l ← pop
  match ← look l (Node.argument l) with
  | .literal (.boolean true) => advance
  | .literal (.boolean false) => jump target
  | other => throw (.typeError "conditional" "boolean" other.typeName)

noncomputable def enterScope (slots : Nat) : Act Unit := do
  let frame ← fresh room (.blockFrame none)
  setFrameEnv frame (← get).env
  pushFrame frame
  let env ← fresh room (.environment (List.replicate slots none) none)
  setEnclosing env (← get).env
  setEnv env
  advance

def exitScope : Act Unit := do
  let frame ← popFrame
  look frame (Node.expect .blockFrame)
  setEnv (← look frame Node.frameEnv)
  advance

noncomputable def loadFunction (arity entry stack : Nat) : Act Unit := do
  let closure ← fresh room (.closure none arity entry stack)
  setClosureEnv closure (← get).env
  push closure
  advance

def finish : Act Answer := do
  let depth ← look (← get).stack Node.depth
  if depth ≠ 1 then
    throw (.internal s!"program finished with {depth} values on the operand stack")
  let l ← pop
  match ← look l (Node.argument l) with
  | .literal value => return .literal value
  | .function _ arity => return .function arity
  | .primitive id => return .primitive (((Primitive.ofId? id).map (·.name)).getD "?")

noncomputable def execute : Instruction → Act (Option Answer)
  | .loadConstant value => do loadConstant room value; return none
  | .load source => do load source; return none
  | .assign target => do assign target; return none
  | .jumpIfFalse target => do jumpIfFalse target; return none
  | .jump target => do jump target; return none
  | .pop => do let _ ← pop; advance; return none
  | .enterScope slots => do enterScope room slots; return none
  | .exitScope => do exitScope; return none
  | .loadFunction arity entry stack => do loadFunction room arity entry stack; return none
  | .call n => do call room n false; return none
  | .tailCall n => do call room n true; return none
  | .ret => do returnFromCall; return none
  | .done => do return some (← finish)

/-! ## Turns and booting -/

def countStep (limit : Option Nat) : Act Unit := do
  modify fun s => { s with steps := s.steps + 1 }
  match limit with
  | some limit => if limit < (← get).steps then throw (.tooManySteps limit)
  | none => return

/-- One turn of the ideal machine. -/
noncomputable def turn (limit : Option Nat) (program : Program) (s : State) : Turn × State :=
  match program.code[s.pc]? with
  | none => (.error (.ofFault (.outsideProgram s.pc program.code.size)), s)
  | some i =>
    match (do countStep limit; execute room i) s with
    | .ok outcome s' => (.ok outcome, s')
    | .error fault s' => (.error ((Failure.ofFault fault).locatedAt s.pc i), s')

/-- One more node, and its name. -/
noncomputable def make (roots : List Loc) (n : Node) : NodeM Loc := fun nodes =>
  match allocate room roots n nodes with
  | .ok nodes' => .ok nodes.length nodes'
  | .error e => .error e nodes

noncomputable def loadPrimitives (globals : Loc) (id : Nat) : (n : Nat) → NodeM Unit
  | 0 => return
  | n + 1 => do
    let node ← make room [globals] (.primitive id)
    change globals (Node.setSlot id node)
    loadPrimitives globals (id + 1) n

/-- The environment of primitives and the operand stack of the main program. -/
noncomputable def loadGlobals (mainStack : Nat) : NodeM (Loc × Loc) := do
  let globals ← make room [] (.environment (List.replicate Primitive.all.length none) none)
  loadPrimitives room globals 0 Primitive.all.length
  let stack ← make room [globals] (.operandStack [] mainStack)
  return (globals, stack)

/-- The state in which a program starts, or the error that there is too little room for it. -/
noncomputable def boot (program : Program) : Except HeapError State :=
  match loadGlobals room program.mainStack [] with
  | .ok (globals, stack) nodes => .ok ⟨nodes, 0, globals, stack, [], [], #[], 0, 0⟩
  | .error e _ => .error e

end Room

end Ideal

/-! ## Turns of the machine in memory -/

namespace Machine

/-- A run takes turns, whatever it writes to the log. -/
theorem run_eq_follow (config : Config) (program : Program) (fuel : Nat) (m : Machine) (log : Log) :
    (run config program fuel m log).map (fun out => (out.1, out.2.1)) =
      follow (turn config program) fuel m := by
  induction fuel generalizing m log with
  | zero => rfl
  | succ fuel ih =>
    rw [run, follow]
    rcases m.turn config program with ⟨failure | _ | answer, m'⟩
    · rfl
    · exact ih m' _
    · rfl

end Machine

end ClosureMachine
