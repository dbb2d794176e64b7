import ClosureMachine.Scope
import ClosureMachine.Tree.Basic

/-!
# Instructions and programs

A program is one array of instructions, the bodies of functions included: each body stands behind
the instruction that builds its closure and is jumped over. Addresses of instructions are positions
in that array.
-/

set_option autoImplicit false

namespace ClosureMachine

/-- One instruction. The comments show the operand stack before and after, its top to the right. -/
inductive Instruction where
  /-- `( -- v )` Push a literal. -/
  | loadConstant (value : Literal)
  /-- `( -- v )` Push the value of a slot. -/
  | load (source : Address)
  /-- `( v -- v )` Store the top operand in a slot. -/
  | assign (target : Address)
  /-- `( b -- )` Go to `target` unless the condition holds. -/
  | jumpIfFalse (target : Nat)
  /-- `( -- )` Go to `target`. -/
  | jump (target : Nat)
  /-- `( v -- )` Forget the top operand. -/
  | pop
  /-- `( -- )` Continue in a fresh environment of `slots` slots. -/
  | enterScope (slots : Nat)
  /-- `( -- )` Continue in the environment before the matching `enterScope`. -/
  | exitScope
  /-- `( -- f )` Push a closure over the current environment. -/
  | loadFunction (arity entry stack : Nat)
  /-- `( f a₁ … aₙ -- r )` Apply a function and come back with its result. -/
  | call (arguments : Nat)
  /-- `( f a₁ … aₙ -- )` Apply a function whose result is the result of the current one. -/
  | tailCall (arguments : Nat)
  /-- `( v -- )` Give the top operand to the caller. -/
  | ret
  /-- `( v -- )` End the program with the only operand. -/
  | done
deriving DecidableEq, Repr, Inhabited

namespace Instruction

/-- The short name of the operation. -/
def mnemonic : Instruction → String
  | .loadConstant _ => "LDC"
  | .load _ => "LDL"
  | .assign _ => "ASSL"
  | .jumpIfFalse _ => "JOF"
  | .jump _ => "GOTO"
  | .pop => "POP"
  | .enterScope _ => "ENTER_SCOPE"
  | .exitScope => "EXIT_SCOPE"
  | .loadFunction .. => "LDF"
  | .call _ => "CALL"
  | .tailCall _ => "TAIL_CALL"
  | .ret => "RTN"
  | .done => "DONE"

/-- Where a jump goes. -/
def jumpTarget : Instruction → Option Nat
  | .jumpIfFalse target | .jump target => some target
  | _ => none

/-- Where the body of a function begins that the instruction builds. -/
def functionEntry : Instruction → Option Nat
  | .loadFunction _ entry _ => some entry
  | _ => none

/-- The operands of an instruction as text; instructions without any have none to show. -/
def operands : Instruction → Option String
  | .loadConstant value => some value.text
  | .load a | .assign a => some s!"({a.frame}, {a.slot})"
  | .jumpIfFalse target | .jump target => some s!"→ {Text.address target}"
  | .enterScope n | .call n | .tailCall n => some (toString n)
  | .loadFunction arity entry stack =>
    some s!"arity={arity} → {Text.address entry} stack={stack}"
  | .pop | .exitScope | .ret | .done => none

/-- One line for an instruction: mnemonic and operands in columns. -/
def text (i : Instruction) : String :=
  match i.operands with
  | some operands => Text.alignLeft 12 i.mnemonic ++ operands
  | none => i.mnemonic

end Instruction

/-- Code and the capacity of the operand stack on which it starts. -/
structure Program where
  code : Array Instruction
  mainStack : Nat
deriving Inhabited

/-- The addresses where bodies of functions begin, in the order of the instructions that build
them. -/
def Program.functionEntries (p : Program) : List Nat :=
  p.code.toList.filterMap Instruction.functionEntry

end ClosureMachine
