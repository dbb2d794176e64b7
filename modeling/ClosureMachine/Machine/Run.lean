import ClosureMachine.Log
import ClosureMachine.Machine.Step

/-!
# Booting and running

A machine boots with an environment of all primitives and an operand stack for the main program. It
then carries out instructions until one of them ends the program or fails. The same machine can be run
again: it goes on from the state in which it stopped.

One instruction with everything around it is a turn, and a run takes turns. Programs need not end, so
a run is given `fuel`, one unit for each turn, and has no outcome if it uses that up. This is not the
limit on steps that a user sets: reaching that is a fault of the program.

A collection may leave texts in the string table that no box refers to any more. They are released
before the next instruction. An instruction that fails or ends the program is not followed by one.
-/

set_option autoImplicit false

namespace ClosureMachine

/-- What a machine is given besides a program. -/
structure Config where
  /-- The words of both halves of the heap. -/
  heapSize : Nat
  /-- The greatest number of instructions, if there is one. -/
  maxSteps : Option Nat
deriving DecidableEq, Repr

/-- The heap of machines for which no other is asked. -/
def Config.default : Config := ⟨65536, none⟩

/-! ## Roots while booting -/

/-- No roots at all. -/
instance : RootSet Unit where
  toList _ := []
  replace _ _ := ()

/-- One root. -/
instance : RootSet Ref where
  toList root := [root]
  replace root moved := moved.headD root

/-- What a turn ends in: nothing yet, an answer, or a failure. -/
abbrev Turn := Except Failure (Option Answer)

namespace Machine

/-- Puts a new function node for each of `n` primitives from number `id` on into the slot of its
number. The environment is the root. -/
def loadPrimitives (id : Nat) : (n : Nat) → StoreM Ref Unit
  | 0 => return
  | n + 1 => do
    let node ← PrimitiveFunction.new id
    Environment.setSlot (← get).roots id node
    loadPrimitives (id + 1) n

/-- Fills the environment of primitives and makes the operand stack of the main program. -/
def loadGlobals (mainStack : Nat) : StoreM Ref Ref := do
  loadPrimitives 0 Primitive.all.length
  OperandStack.new mainStack

/-- A machine at the start of a program, or the error that memory is too short for one; and in either
case the heap. -/
def bootStore (heapSize mainStack : Nat) : EStateM.Result HeapError Heap Registers :=
  match Environment.new Primitive.all.length ⟨Heap.ofCapacity heapSize, ()⟩ with
  | .error e s => .error e s.heap
  | .ok globals s =>
    match loadGlobals mainStack ⟨s.heap, globals⟩ with
    | .error e s => .error e s.heap
    | .ok stack s => .ok (.start s.roots stack) s.heap

/-- A machine with nothing done yet. -/
def ofRegisters (heap : Heap) (registers : Registers) : Machine where
  heap := heap
  registers := registers
  host := .empty
  steps := 0
  peakDepth := 0
  sweptAt := 0

/-! ## One turn -/

/-- The numbers of the texts that boxes in use refer to. -/
def textsInUse (heap : Heap) : List Nat :=
  heap.liveWords.toList.filterMap fun
    | .datum (.string id) => some id
    | _ => none

/-- Releases texts, if there was a collection since the last time. -/
def sweep (m : Machine) : Machine :=
  let collections := m.heap.collections.size
  if collections = m.sweptAt then m
  else
    let live := textsInUse m.heap
    { m with
      sweptAt := collections
      host := { m.host with strings := m.host.strings.retain live } }

/-- Counts a step, unless the user's limit forbids it. -/
def countStep (limit : Option Nat) : MachineM Unit := do
  modify fun m => { m with steps := m.steps + 1 }
  match limit with
  | some limit => if limit < (← get).steps then throw (.tooManySteps limit)
  | none => return

/-- One turn: an instruction and, if the program goes on, the sweep behind it. -/
def turn (config : Config) (program : Program) (m : Machine) : Turn × Machine :=
  match program.code[m.registers.pc]? with
  | none => (.error (.ofFault (.outsideProgram m.registers.pc program.code.size)), m)
  | some i =>
    match (do countStep config.maxSteps; execute i) m with
    | .ok none m' => (.ok none, m'.sweep)
    | .ok (some answer) m' => (.ok (some answer), m')
    | .error fault m' => (.error ((Failure.ofFault fault).locatedAt m.registers.pc i), m')

/-! ## The log of a run -/

/-- The lines for the collections after the first `known` ones. -/
def logCollections (heap : Heap) (known : Nat) (log : Log) : Log :=
  if heap.collections.size = known then log
  else
    let latest := (heap.collections.extract known heap.collections.size).toList
    (latest.zipIdx (known + 1)).foldl
      (fun log (c, n) => log.add .debug .collection fun _ =>
        s!"gc #{n}: {c.live} of {c.before} words live") log

/-- The line for an instruction. -/
def logInstruction (pc : Nat) (i : Instruction) (log : Log) : Log :=
  log.add .trace .machine fun _ => Text.alignRight 5 (toString pc) ++ "  " ++ i.text

/-- The lines for a turn at `pc` that led to `m`: the instruction, unless it was one step too many,
and the collections after the first `known` ones. -/
def logTurn (config : Config) (program : Program) (pc known : Nat) (m : Machine) (log : Log) : Log :=
  match program.code[pc]? with
  | none => log
  | some i =>
    if config.maxSteps.any (· < m.steps) then log
    else logCollections m.heap known (logInstruction pc i log)

/-- The line for the end of a program. -/
def logDone (m : Machine) (log : Log) : Log :=
  log.add .debug .machine fun _ =>
    s!"done after {m.steps} steps, {m.heap.collections.size} collections"

/-! ## Whole runs -/

/-- Boots a machine. -/
def boot (config : Config) (program : Program) (log : Log) : Except Failure Machine × Log :=
  match bootStore config.heapSize program.mainStack with
  | .error e heap => (.error (.ofFault (.heap e)), logCollections heap 0 log)
  | .ok registers heap =>
    let log := logCollections heap 0 log
    let log := log.add .debug .machine fun _ =>
      s!"booted: {Primitive.all.length} primitives, heap {heap.capacity} words ({heap.used} in use)"
    (.ok (ofRegisters heap registers), log)

/-- Runs a machine until the program ends or fails, in at most `fuel` turns. -/
def run (config : Config) (program : Program) : (fuel : Nat) → Machine → Log →
    Option (Except Failure Answer × Machine × Log)
  | 0, _, _ => none
  | fuel + 1, m, log =>
    -- what the log needs of `m` is taken out first, so that the turn can update the heap in place
    let pc := m.registers.pc
    let known := m.heap.collections.size
    let next := m.turn config program
    let log := logTurn config program pc known next.2 log
    match next.1 with
    | .ok none => run config program fuel next.2 log
    | .ok (some answer) => some (.ok answer, next.2, logDone next.2 log)
    | .error failure => some (.error failure, next.2, log)

/-- The figures of a machine: steps, greatest depth, words of heap, collections, words moved, and
words in use after the last collection. -/
structure Statistics where
  steps : Nat
  peakDepth : Nat
  capacity : Nat
  collections : Nat
  wordsCopied : Nat
  liveWords : Nat
deriving DecidableEq, Repr

def statistics (m : Machine) : Statistics where
  steps := m.steps
  peakDepth := m.peakDepth
  capacity := m.heap.capacity
  collections := m.heap.collections.size
  wordsCopied := m.heap.wordsCopied
  liveWords := m.heap.liveAfterCollection

end Machine

end ClosureMachine
