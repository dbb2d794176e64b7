import ClosureMachine.Compile.Basic

/-!
# Code in one pass

Here the code of a tree is written into one array, from its first instruction to its last. Where a jump
goes is known only when what it jumps over has been written; until then it has no target but the
placeholder `Compiler.unpatched`. The compiler keeps the addresses of such jumps and patches them as soon
as their targets are the next address. What stands in between is written, and patched, in the same way, so
many jumps can be open at the same time.

`Tree.compile` computes the same addresses in advance, from the lengths of the parts; it is what can be
reasoned about. That both give the same programs and the same objections is shown in
`ClosureMachine.Proofs.Compile.Patching`.
-/

set_option autoImplicit false

namespace ClosureMachine

/-! ## Instructions in reports -/

/-- A literal in reports. -/
def Literal.report : Literal → String
  | .number value => s!"Number({value.render Number.wordFormat})"
  | .boolean value => s!"Bool({value})"
  | .string text => s!"Str({text.quote})"
  | .undefined => "Undefined"
  | .null => "Null"

/-- An instruction in reports about the compiler itself. -/
def Instruction.report : Instruction → String
  | .loadConstant value => s!"LoadConstant({value.report})"
  | .load a => s!"LoadLexical \x7b frame: {a.frame}, slot: {a.slot} \x7d"
  | .assign a => s!"AssignLexical \x7b frame: {a.frame}, slot: {a.slot} \x7d"
  | .jumpIfFalse target => s!"JumpOnFalse({target})"
  | .jump target => s!"Goto({target})"
  | .pop => "Pop"
  | .enterScope slots => s!"EnterScope({slots})"
  | .exitScope => "ExitScope"
  | .loadFunction arity entry stack =>
    s!"LoadFunction \x7b arity: {arity}, address: {entry}, max_stack: {stack} \x7d"
  | .call n => s!"Call({n})"
  | .tailCall n => s!"TailCall({n})"
  | .ret => "Return"
  | .done => "Done"

/-! ## The compiler -/

/-- The state of the compiler. -/
structure Compiler where
  /-- The code so far. -/
  code : Array Instruction
  /-- The number of functions around the tree that is being compiled. -/
  functionDepth : Nat

/-- An action of the compiler. -/
abbrev CompileM := EStateM CompileError Compiler

namespace Compiler

/-- The target of a jump that has none yet, the greatest address of 64 bits. -/
def unpatched : Nat := 0xFFFFFFFFFFFFFFFF

/-- The jump with its target filled in, if the instruction is a jump without one. -/
def retarget (target : Nat) : Instruction → Option Instruction
  | .jumpIfFalse old => if old = unpatched then some (.jumpIfFalse target) else none
  | .jump old => if old = unpatched then some (.jump target) else none
  | _ => none

/-- Writes an instruction behind the others, and gives its address. -/
def emit (i : Instruction) : CompileM Nat :=
  modifyGet fun c => (c.code.size, { c with code := c.code.push i })

/-- Lets the jump at an address go to the instruction that is written next. -/
def patchJump (address : Nat) : CompileM Unit := fun c =>
  match c.code[address]? with
  | none => .error (.internal s!"no instruction at {address}") c
  | some i =>
    match retarget c.code.size i with
    | none => .error (.internal s!"cannot patch {i.report} at {address}") c
    | some patched => .ok () { c with code := c.code.setIfInBounds address patched }

/-- Lets the function that is built at an address begin with the instruction that is written next. -/
def patchEntry (address : Nat) : CompileM Unit :=
  modify fun c =>
    match c.code[address]? with
    | some (.loadFunction arity _ stack) =>
      { c with code := c.code.setIfInBounds address (.loadFunction arity c.code.size stack) }
    | _ => c

/-- Writes what the position of a tree asks for behind its value. -/
def finish (pos : Position) : CompileM Unit := do
  if pos = .tail then discard (emit .ret)

/-- Pushes the value of a name. -/
def load (scopes : Scopes) (name : String) : CompileM Unit :=
  match scopes.resolve name with
  | some address => discard (emit (.load address))
  | none => throw (.unresolvedName name)

/-- Stores the top operand under a name that the innermost scope declares. -/
def initialise (scopes : Scopes) (name : String) : CompileM Unit :=
  match scopes.resolve name with
  | some ⟨0, slot⟩ => discard (emit (.assign ⟨0, slot⟩))
  | _ => throw (.internal s!"declaration of '{name}' was not pre-scanned")

/-- A condition and two branches, which come together again behind the second one. -/
def conditional (predicate consequent alternative : CompileM Unit) : CompileM Unit := do
  predicate
  let choice ← emit (.jumpIfFalse unpatched)
  consequent
  let skip ← emit (.jump unpatched)
  patchJump choice
  alternative
  patchJump skip

/-- A condition and two branches that both return. -/
def tailConditional (predicate consequent alternative : CompileM Unit) : CompileM Unit := do
  predicate
  let choice ← emit (.jumpIfFalse unpatched)
  consequent
  patchJump choice
  alternative

/-- A body in a scope of its own, given how to write the body in such scopes. -/
def scope (scopes : Scopes) (body : Tree) (write : Scopes → CompileM Unit) : CompileM Unit := do
  let scope ← MonadExcept.ofExcept body.declarations
  let _ ← emit (.enterScope scope.length)
  write (scope :: scopes)
  let _ ← emit .exitScope

/-- What is written inside one more function. -/
def inFunction (act : CompileM Unit) : CompileM Unit := do
  modify fun c => { c with functionDepth := c.functionDepth + 1 }
  act
  modify fun c => { c with functionDepth := c.functionDepth - 1 }

/-- A function. A body without declarations needs no scope beyond the parameters. -/
def function (scopes : Scopes) (parameters : List String) (body : Tree)
    (write : Scopes → CompileM Unit) : CompileM Unit := do
  match Tree.firstRepeated [] parameters with
  | some name => throw (.duplicateDeclaration name)
  | none =>
    let address ← emit (.loadFunction parameters.length unpatched body.bodyDemand)
    let skip ← emit (.jump unpatched)
    patchEntry address
    let inner := parameters.map (⟨·, false⟩) :: scopes
    inFunction do
      let declared ← MonadExcept.ofExcept body.declarations
      if declared.isEmpty then write inner else scope inner body write
    let _ ← emit .pop
    let _ ← emit (.loadConstant .undefined)
    let _ ← emit .ret
    patchJump skip

end Compiler

namespace Tree

open Compiler (finish)

mutual

/-- Writes the code of a tree. -/
def emit (scopes : Scopes) (pos : Position) : Tree → CompileM Unit
  | .literal value => do
    let _ ← Compiler.emit (.loadConstant value)
    finish pos
  | .identifier name => do
    Compiler.load scopes name
    finish pos
  | .binary operator left right => do
    Compiler.load scopes operator
    left.emit scopes .operand
    right.emit scopes .operand
    let _ ← Compiler.emit (.call 2)
    finish pos
  | .unary operator operand => do
    Compiler.load scopes (unaryName operator)
    operand.emit scopes .operand
    let _ ← Compiler.emit (.call 1)
    finish pos
  | .logical operator left right => do
    if operator = "&&" then
      Compiler.conditional (left.emit scopes .operand) (right.emit scopes .operand)
        (discard (Compiler.emit (.loadConstant (.boolean false))))
    else if operator = "||" then
      Compiler.conditional (left.emit scopes .operand)
        (discard (Compiler.emit (.loadConstant (.boolean true)))) (right.emit scopes .operand)
    else
      throw (.unhandledNode (.logical operator left right)
        (some s!"unknown logical operator '{operator}'"))
    finish pos
  | .conditional predicate consequent alternative =>
    match pos with
    | .tail =>
      Compiler.tailConditional (predicate.emit scopes .operand) (consequent.emit scopes .tail)
        (alternative.emit scopes .tail)
    | _ =>
      Compiler.conditional (predicate.emit scopes .operand) (consequent.emit scopes .operand)
        (alternative.emit scopes .operand)
  | .lambda parameters body => do
    Compiler.function scopes parameters body fun inner => body.emit inner .statement
    finish pos
  | .application function arguments => do
    function.emit scopes .operand
    emitOperands scopes arguments
    discard (Compiler.emit
      (if pos = .tail then .tailCall arguments.length else .call arguments.length))
  | .sequence statements => do
    emitSequence scopes (if pos = .statement then .statement else .operand) statements
    finish pos
  | .block body => do
    Compiler.scope scopes body fun inner => body.emit inner .statement
    finish pos
  | .declaration name value constant =>
    match pos with
    | .statement => do
      value.emit scopes .operand
      Compiler.initialise scopes name
    | _ => throw (.misplacedDeclaration (typeName (.declaration name value constant)) name)
  | .assignment name value =>
    match scopes.lookup name with
    | none => throw (.unresolvedName name)
    | some (address, b) => do
      if b.constant then throw (.constantAssignment name)
      value.emit scopes .operand
      let _ ← Compiler.emit (.assign address)
      finish pos
  | .functionDeclaration name parameters body =>
    match pos with
    | .statement => do
      Compiler.function scopes parameters body fun inner => body.emit inner .statement
      Compiler.initialise scopes name
    | _ =>
      throw (.misplacedDeclaration (typeName (.functionDeclaration name parameters body)) name)
  | .ret expression => do
    if (← get).functionDepth = 0 then throw .returnOutsideFunction
    expression.emit scopes .tail
    finish pos

/-- Writes the code of operands, all of which stay on the stack. -/
def emitOperands (scopes : Scopes) : List Tree → CompileM Unit
  | [] => return
  | t :: rest => do
    t.emit scopes .operand
    emitOperands scopes rest

/-- Writes the code of statements, of which only the last one's value stays. -/
def emitSequence (scopes : Scopes) (pos : Position) : List Tree → CompileM Unit
  | [] => discard (Compiler.emit (.loadConstant .undefined))
  | [t] => t.emit scopes pos
  | t :: rest => do
    t.emit scopes pos
    let _ ← Compiler.emit .pop
    emitSequence scopes pos rest

end

/-- The program of a tree, written in one pass. -/
def assemble (globals : Scopes) (tree : Tree) : Except CompileError Program :=
  let act : CompileM Unit := do
    Compiler.scope globals tree fun inner => tree.emit inner .statement
    discard (Compiler.emit .done)
  match act ⟨#[], 0⟩ with
  | .ok _ c => .ok ⟨c.code, tree.stackDemand⟩
  | .error e _ => .error e

end Tree

end ClosureMachine
