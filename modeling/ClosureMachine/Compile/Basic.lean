import ClosureMachine.Program.Basic
import ClosureMachine.Tree.Declarations
import ClosureMachine.Tree.StackDemand

/-!
# From trees to code

`Tree.compile` gives the code of a tree as a list, for the address at which the list will stand.
Jumps are absolute, so the address is needed; everything else about the code depends on the tree
alone, and the code of a tree is the concatenation of the codes of its parts with a few
instructions in between.

What a tree's code has to do depends on where the tree stands, its `Position`:

* an *operand* leaves one value on the operand stack;
* a *statement* of a scope's body does too, and may also be a declaration, because the scope has
  slots for the names that the body declares;
* a tree in *tail* position, which is what `return` is applied to, hands its value to the caller. An
  application there becomes a tail call, and a conditional returns from each branch.

Objections come in the order of the code: the first part that has one decides.
-/

set_option autoImplicit false

namespace ClosureMachine

/-- How the value of a tree is used. -/
inductive Position where
  /-- The value goes on the operand stack. -/
  | operand
  /-- Like `operand`, directly in the body of a scope. -/
  | statement
  /-- The value is the result of the function around. -/
  | tail
deriving DecidableEq, Repr

/-- What the compiler knows about the surroundings of a tree. -/
structure Context where
  scopes : Scopes
  /-- Whether there is a function to return from. -/
  inFunction : Bool

/-- The context of a body in a scope of its own. -/
def Context.enter (ctx : Context) (scope : Scope) : Context :=
  { ctx with scopes := scope :: ctx.scopes }

/-- The context of a function's body. Parameters may be assigned to. -/
def Context.enterFunction (ctx : Context) (parameters : List String) : Context :=
  { scopes := parameters.map (⟨·, false⟩) :: ctx.scopes, inFunction := true }

/-- Pieces of code. -/
abbrev Code := List Instruction

namespace Code

/-- Code that leaves a value, followed by what its position asks for. -/
def finish (pos : Position) (code : Code) : Code :=
  match pos with
  | .tail => code ++ [.ret]
  | _ => code

/-- A condition and two branches, which come together again behind the second one. -/
def branch (start : Nat) (predicate consequent alternative : Code) : Code :=
  let otherwise := start + predicate.length + 1 + consequent.length + 1
  predicate ++ .jumpIfFalse otherwise ::
    consequent ++ .jump (otherwise + alternative.length) :: alternative

/-- A condition and two branches that both return. -/
def tailBranch (start : Nat) (predicate consequent alternative : Code) : Code :=
  predicate ++ .jumpIfFalse (start + predicate.length + 1 + consequent.length) ::
    consequent ++ alternative

/-- The instructions that enter and leave a scope, around the code of its body. -/
def inScope (scope : Scope) (body : Code) : Code :=
  .enterScope scope.length :: body ++ [.exitScope]

/-- The instruction that builds a closure, and behind a jump the body it runs. A body that ends
without `return` gives `undefined`. -/
def function (start : Nat) (arity stack : Nat) (body : Code) : Code :=
  let body := body ++ [.pop, .loadConstant .undefined, .ret]
  .loadFunction arity (start + 2) stack :: .jump (start + 2 + body.length) :: body

end Code

namespace Context

/-- Code that pushes the value of a name. -/
def load (ctx : Context) (name : String) : Except CompileError Code :=
  match ctx.scopes.resolve name with
  | some address => .ok [.load address]
  | none => .error (.unresolvedName name)

/-- Code that stores the top operand under a name that the innermost scope declares. -/
def initialise (ctx : Context) (name : String) : Except CompileError Code :=
  match ctx.scopes.resolve name with
  | some ⟨0, slot⟩ => .ok [.assign ⟨0, slot⟩]
  | _ => .error (.internal s!"declaration of '{name}' was not pre-scanned")

/-- Where an assignment to a name goes. -/
def assignable (ctx : Context) (name : String) : Except CompileError Address :=
  match ctx.scopes.lookup name with
  | none => .error (.unresolvedName name)
  | some (address, b) => if b.constant then .error (.constantAssignment name) else .ok address

/-- The code of a scope at `start`, given how to compile its body in a context and at an address. -/
def scope (ctx : Context) (start : Nat) (body : Tree)
    (compileBody : Context → Nat → Except CompileError Code) : Except CompileError Code := do
  let scope ← body.declarations
  let code ← compileBody (ctx.enter scope) (start + 1)
  return Code.inScope scope code

/-- The code of a function at `start`. A body without declarations needs no scope beyond the
parameters. -/
def function (ctx : Context) (start : Nat) (parameters : List String) (body : Tree)
    (compileBody : Context → Nat → Except CompileError Code) : Except CompileError Code := do
  match Tree.firstRepeated [] parameters with
  | some name => throw (.duplicateDeclaration name)
  | none =>
    let inner := ctx.enterFunction parameters
    let scope ← body.declarations
    let code ←
      if scope.isEmpty then compileBody inner (start + 2)
      else inner.scope (start + 2) body compileBody
    return Code.function start parameters.length body.bodyDemand code

end Context

namespace Tree

mutual

/-- The code of a tree in a context and a position, to stand at address `start`. -/
def compile (ctx : Context) (pos : Position) (start : Nat) : Tree → Except CompileError Code
  | .literal value => return Code.finish pos [.loadConstant value]
  | .identifier name => return Code.finish pos (← ctx.load name)
  | .binary operator left right => do
    let callee ← ctx.load operator
    let left ← left.compile ctx .operand (start + 1)
    let right ← right.compile ctx .operand (start + 1 + left.length)
    return Code.finish pos (callee ++ left ++ right ++ [.call 2])
  | .unary operator operand => do
    let callee ← ctx.load (unaryName operator)
    let operand ← operand.compile ctx .operand (start + 1)
    return Code.finish pos (callee ++ operand ++ [.call 1])
  | .logical operator left right =>
    if operator = "&&" then do
      let left ← left.compile ctx .operand start
      let right ← right.compile ctx .operand (start + left.length + 1)
      return Code.finish pos (Code.branch start left right [.loadConstant (.boolean false)])
    else if operator = "||" then do
      let left ← left.compile ctx .operand start
      let right ← right.compile ctx .operand (start + left.length + 3)
      return Code.finish pos (Code.branch start left [.loadConstant (.boolean true)] right)
    else
      throw (.unhandledNode (.logical operator left right)
        (some s!"unknown logical operator '{operator}'"))
  | .conditional predicate consequent alternative => do
    let predicate ← predicate.compile ctx .operand start
    match pos with
    | .tail =>
      let consequent ← consequent.compile ctx .tail (start + predicate.length + 1)
      let alternative ←
        alternative.compile ctx .tail (start + predicate.length + 1 + consequent.length)
      return Code.tailBranch start predicate consequent alternative
    | _ =>
      let consequent ← consequent.compile ctx .operand (start + predicate.length + 1)
      let alternative ←
        alternative.compile ctx .operand (start + predicate.length + 1 + consequent.length + 1)
      return Code.branch start predicate consequent alternative
  | .lambda parameters body => do
    let code ← ctx.function start parameters body
      fun inner start => body.compile inner .statement start
    return Code.finish pos code
  | .application function arguments => do
    let callee ← function.compile ctx .operand start
    let operands ← compileOperands ctx (start + callee.length) arguments
    let apply := if pos = .tail then .tailCall arguments.length else .call arguments.length
    return callee ++ operands ++ [apply]
  | .sequence statements => do
    let inner := if pos = .statement then .statement else .operand
    return Code.finish pos (← compileSequence ctx inner start statements)
  | .block body => do
    let code ← ctx.scope start body fun inner start => body.compile inner .statement start
    return Code.finish pos code
  | .declaration name value constant => do
    match pos with
    | .statement =>
      let value ← value.compile ctx .operand start
      return value ++ (← ctx.initialise name)
    | _ => throw (.misplacedDeclaration (typeName (.declaration name value constant)) name)
  | .assignment name value => do
    let address ← ctx.assignable name
    let value ← value.compile ctx .operand start
    return Code.finish pos (value ++ [.assign address])
  | .functionDeclaration name parameters body => do
    match pos with
    | .statement =>
      let code ← ctx.function start parameters body
        fun inner start => body.compile inner .statement start
      return code ++ (← ctx.initialise name)
    | _ =>
      throw (.misplacedDeclaration (typeName (.functionDeclaration name parameters body)) name)
  | .ret expression => do
    if ctx.inFunction then
      return Code.finish pos (← expression.compile ctx .tail start)
    else
      throw .returnOutsideFunction

/-- The code of operands, all of which stay on the stack. -/
def compileOperands (ctx : Context) (start : Nat) : List Tree → Except CompileError Code
  | [] => return []
  | t :: rest => do
    let code ← t.compile ctx .operand start
    return code ++ (← compileOperands ctx (start + code.length) rest)

/-- The code of statements, of which only the last one's value stays. -/
def compileSequence (ctx : Context) (pos : Position) (start : Nat) :
    List Tree → Except CompileError Code
  | [] => return [.loadConstant .undefined]
  | [t] => t.compile ctx pos start
  | t :: rest => do
    let code ← t.compile ctx pos start
    return code ++ .pop :: (← compileSequence ctx pos (start + code.length + 1) rest)

end

/-- The program of a tree whose free names are bound in the `globals`: a scope of its own around
the whole tree, and the end of the run behind it. -/
def toProgram (globals : Scopes) (tree : Tree) : Except CompileError Program := do
  let ctx : Context := ⟨globals, false⟩
  let code ← ctx.scope 0 tree fun inner start => tree.compile inner .statement start
  let whole : Code := code ++ [.done]
  return ⟨whole.toArray, tree.stackDemand⟩

end Tree

end ClosureMachine
