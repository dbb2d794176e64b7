import ClosureMachine.Heap.Basic
import ClosureMachine.Program.Basic

/-!
# What can go wrong in a run

A run ends at the first fault; there is no way for a program to catch one. Some faults are the
program's own (a wrong type, a wrong number of arguments, a name used too early), some are about
resources, and the rest mean that the code does not fit the machine. `FaultKind` is the coarse sort
that callers tell apart.
-/

set_option autoImplicit false

namespace ClosureMachine

/-- The sorts of faults. -/
inductive FaultKind where
  | outOfMemory
  | typeError
  | notAFunction
  | arityMismatch
  | unassignedName
  | operandStackOverflow
  | operandStackUnderflow
  | controlStackUnderflow
  | invalidAddress
  | staleReference
  | stepLimit
  | internal
deriving DecidableEq, Repr

/-- The cause of a failed run. -/
inductive Fault where
  /-- An action on memory failed. -/
  | heap (error : HeapError)
  /-- An operand is not of a type that the operation takes. -/
  | typeError (context expected got : String)
  | notAFunction (got : String)
  /-- A call with the wrong number of arguments, of the named primitive or of a closure. -/
  | arityMismatch (primitive : Option String) (expected got : Nat)
  /-- A slot was read before the declaration of its name ran. -/
  | unassignedName (address : Address)
  /-- A scope was left that was not entered. -/
  | controlStackEmpty
  /-- A return without a call. -/
  | noCallFrame
  /-- Control left the program. -/
  | outsideProgram (pc size : Nat)
  /-- An address points beyond the outermost environment. -/
  | chainTooShort (frames : Nat)
  | stepLimit (message : String)
  | internal (message : String)
deriving DecidableEq, Repr

namespace Fault

/-- The sort of a memory error. A header that is not one counts as a stale reference. A sum that
cannot be formed counts as what it would have been too large for. -/
def kindOfHeapError : HeapError → FaultKind
  | .outOfMemory .. | .overflow .nodeSize => .outOfMemory
  | .staleReference _ | .corruptHeader _ | .overflow .headerEnd => .staleReference
  | .operandStackOverflow _ => .operandStackOverflow
  | .operandStackUnderflow => .operandStackUnderflow
  | .kindMismatch .. | .offsetOutOfBounds .. | .unexpectedWord .. | .overflow .slotOffset
  | .outsideArray .. => .internal

/-- The sort of a fault. -/
def kind : Fault → FaultKind
  | .heap error => kindOfHeapError error
  | .typeError .. => .typeError
  | .notAFunction _ => .notAFunction
  | .arityMismatch .. => .arityMismatch
  | .unassignedName _ => .unassignedName
  | .controlStackEmpty | .noCallFrame => .controlStackUnderflow
  | .outsideProgram .. | .chainTooShort _ => .invalidAddress
  | .stepLimit _ => .stepLimit
  | .internal _ => .internal

/-- A run that took more steps than it was given. -/
def tooManySteps (limit : Nat) : Fault :=
  .stepLimit s!"execution step limit exceeded ({limit})"

/-- The cause in words. -/
def message : Fault → String
  | .heap error => error.message
  | .typeError context expected got => s!"{context} expects {expected}, got {got}"
  | .notAFunction got => s!"cannot call a value of type {got}"
  | .arityMismatch primitive expected got =>
    (match primitive with | some name => name ++ ": " | none => "")
      ++ s!"expected {expected} argument(s), got {got}"
  | .unassignedName a =>
    s!"name at ({a.frame}, {a.slot}) is used before its declaration runs"
  | .controlStackEmpty => "control stack is empty"
  | .noCallFrame => "return with no enclosing call frame"
  | .outsideProgram pc size => s!"pc {pc} is outside the program ({size} instructions)"
  | .chainTooShort frames => s!"environment chain is shorter than {frames} frames"
  | .stepLimit message => message
  | .internal message => message

end Fault

/-- A fault and the instruction that raised it, if it was an instruction. -/
structure Failure where
  fault : Fault
  /-- The address and mnemonic of the instruction. -/
  location : Option (Nat × String)
deriving DecidableEq, Repr

namespace Failure

/-- A fault outside any instruction. -/
def ofFault (fault : Fault) : Failure := ⟨fault, none⟩

/-- Names the instruction, unless one was already named: the innermost one counts. -/
def locatedAt (f : Failure) (pc : Nat) (i : Instruction) : Failure :=
  match f.location with
  | some _ => f
  | none => { f with location := some (pc, i.mnemonic) }

/-- The message to the user. -/
def message (f : Failure) : String :=
  (match f.location with
    | some (pc, mnemonic) => s!"runtime error at pc={pc} ({mnemonic}): "
    | none => "runtime error: ")
    ++ f.fault.message

end Failure

end ClosureMachine
