import ClosureMachine.Compile.Basic
import ClosureMachine.Proofs.Host.Meaning

/-!
# What trees mean

The language, explained without a machine. A scope is a frame of cells, one for each of its names, and the
frames in sight of a tree are a list, the innermost first. Names are looked up in it by name. Nothing is
compiled, there are no addresses, no operands and no control stack: a tree is evaluated by evaluating
its parts in order, and a `return` abandons everything up to the call around it.

Functions are values like others. Each time one is built it is given an identity of its own, because `===` tells
two of them apart even if they look alike.

Evaluation need not end. `eval` is by recursion on the tree and leaves open what a call of a function does;
`call` says that, with fuel for the calls that may be inside one another. A tree that has a value with some
fuel has the same value with more, and one that never ends runs out of any fuel.
-/

set_option autoImplicit false

namespace ClosureMachine

/-- The number of a primitive in the table. -/
def Primitive.id (p : Primitive) : Nat := Primitive.all.idxOf p

theorem Primitive.ofId?_id (p : Primitive) : Primitive.ofId? p.id = some p := by
  cases p <;> rfl

namespace Source

/-! ## Values and memory -/

inductive Value where
  | literal (value : Literal)
  /-- A function of the program, with the frames that were in sight where it was built. -/
  | closure (identity : Nat) (parameters : List String) (body : Tree) (scopes : List Nat)
  | primitive (p : Primitive)

/-- A value as primitive functions see it. -/
def Value.argument : Value → Argument
  | .literal value => .literal value
  | .closure identity parameters _ _ => .function identity parameters.length
  | .primitive p => .primitive p.id

/-- A value as the answer of a program. -/
def Value.answer : Value → Answer
  | .literal value => .literal value
  | .closure _ parameters _ _ => .function parameters.length
  | .primitive p => .primitive p.name

/-- The cells of one scope: names with their values, as far as they have one yet. -/
abbrev Frame := List (String × Option Value)

/-- The frame of a scope, before any of its declarations have run. -/
def Frame.unassigned (scope : Scope) : Frame := scope.map fun b => (b.name, none)

/-- Everything that changes. -/
structure Memory where
  /-- The frames of all scopes entered so far. Scopes are known by their place in this list. -/
  frames : List Frame
  /-- The number of functions built so far. -/
  closures : Nat
  output : Array String

namespace Memory

/-- The primitive functions are in the first frame. -/
def initial : Memory where
  frames := [Primitive.all.map fun p => (p.name, some (.primitive p))]
  closures := 0
  output := #[]

def frame (m : Memory) (f : Nat) : Frame := m.frames[f]?.getD []

/-- The innermost of the frames that has the name, and the place of its cell there. -/
def locate (m : Memory) (name : String) : (scopes : List Nat) → Option (Nat × Nat)
  | [] => none
  | f :: outer =>
    match (m.frame f).findIdx? (·.1 = name) with
    | some place => some (f, place)
    | none => m.locate name outer

def read (m : Memory) (scopes : List Nat) (name : String) : Option Value := do
  let (f, place) ← m.locate name scopes
  let cell ← (m.frame f)[place]?
  cell.2

def write (m : Memory) (scopes : List Nat) (name : String) (v : Value) : Memory :=
  match m.locate name scopes with
  | some (f, place) =>
    { m with frames := m.frames.set f ((m.frame f).set place (name, some v)) }
  | none => m

end Memory

/-! ## Evaluation -/

/-- The ways in which an evaluation is abandoned. -/
inductive Exit where
  /-- A `return` with its value. -/
  | returned (v : Value)
  | failed (fault : Fault)
  /-- A name was used that has no value yet. -/
  | unassigned (name : String)
  /-- Too many calls inside one another. -/
  | outOfFuel

abbrev Eval := EStateM Exit Memory

/-- A new scope in front of those in sight. -/
def enter (frame : Frame) (scopes : List Nat) : Eval (List Nat) :=
  modifyGet fun m => (m.frames.length :: scopes, { m with frames := m.frames ++ [frame] })

def valueOf (scopes : List Nat) (name : String) : Eval Value := do
  match (← get).read scopes name with
  | some v => return v
  | none => throw (.unassigned name)

theorem valueOf_some {m : Memory} {scopes : List Nat} {name : String} {v : Value}
    (h : m.read scopes name = some v) : valueOf scopes name m = .ok v m := by
  rw [valueOf, Actions.bind_apply, Actions.get_apply]
  dsimp only
  rw [h]
  rfl

theorem valueOf_none {m : Memory} {scopes : List Nat} {name : String}
    (h : m.read scopes name = none) : valueOf scopes name m = .error (.unassigned name) m := by
  rw [valueOf, Actions.bind_apply, Actions.get_apply]
  dsimp only
  rw [h]
  rfl

/-- Declarations and assignments do the same. They are expressions, with the value that was stored. -/
def store (scopes : List Nat) (name : String) (v : Value) : Eval Value := do
  modify fun m => m.write scopes name v
  return v

def build (scopes : List Nat) (parameters : List String) (body : Tree) : Eval Value :=
  modifyGet fun m =>
    (.closure m.closures parameters body scopes, { m with closures := m.closures + 1 })

/-- What a condition has to be. -/
def truth (v : Value) : Eval Bool :=
  match v with
  | .literal (.boolean b) => return b
  | v => throw (.failed (.typeError "conditional" "boolean" v.argument.typeName))

def applyPrimitive (p : Primitive) (args : List Argument) : Eval Value := fun m =>
  match p.meaning args with
  | .ok value => .ok (.literal value) { m with output := m.output ++ p.shows args }
  | .error fault => .error (.failed fault) m

/-- What happens when a function of the program is called with as many arguments as it has parameters. -/
abbrev Call := (parameters : List String) → (body : Tree) → (scopes : List Nat) → List Value → Eval Value

/-- Callee and arguments have been evaluated before anything is said about them. -/
def apply (call : Call) (f : Value) (args : List Value) : Eval Value :=
  match f with
  | .primitive p =>
    if p.arity ≠ args.length then
      throw (.failed (.arityMismatch (some p.name) p.arity args.length))
    else applyPrimitive p (args.map Value.argument)
  | .closure _ parameters body scopes =>
    if parameters.length ≠ args.length then
      throw (.failed (.arityMismatch none parameters.length args.length))
    else call parameters body scopes args
  | .literal value => throw (.failed (.notAFunction (Argument.literal value).typeName))

mutual

/-- The value of a tree in the scopes that are in sight. -/
def eval (call : Call) (scopes : List Nat) : Tree → Eval Value
  | .literal value => return .literal value
  | .identifier name => valueOf scopes name
  | .binary operator left right => do
    let f ← valueOf scopes operator
    let a ← eval call scopes left
    let b ← eval call scopes right
    apply call f [a, b]
  | .unary operator operand => do
    let f ← valueOf scopes (Tree.unaryName operator)
    let a ← eval call scopes operand
    apply call f [a]
  | .logical operator left right => do
    let holds ← truth (← eval call scopes left)
    -- There are two such operators, and one of them is not `&&`.
    if operator = "&&" then
      if holds then eval call scopes right else return .literal (.boolean false)
    else
      if holds then return .literal (.boolean true) else eval call scopes right
  | .conditional predicate consequent alternative => do
    if ← truth (← eval call scopes predicate) then eval call scopes consequent
    else eval call scopes alternative
  | .lambda parameters body => build scopes parameters body
  | .application function arguments => do
    let f ← eval call scopes function
    let args ← evalOperands call scopes arguments
    apply call f args
  | .sequence statements => evalSequence call scopes statements
  | .block body => do
    let inner ← enter (.unassigned body.declared) scopes
    eval call inner body
  | .declaration name value _ => do
    let v ← eval call scopes value
    store scopes name v
  | .assignment name value => do
    let v ← eval call scopes value
    store scopes name v
  | .functionDeclaration name parameters body => do
    let v ← build scopes parameters body
    store scopes name v
  | .ret expression => do
    let v ← eval call scopes expression
    throw (.returned v)

/-- The values of operands, from left to right. -/
def evalOperands (call : Call) (scopes : List Nat) : List Tree → Eval (List Value)
  | [] => return []
  | t :: rest => do
    let v ← eval call scopes t
    let vs ← evalOperands call scopes rest
    return v :: vs

/-- The value of the last of some statements. -/
def evalSequence (call : Call) (scopes : List Nat) : List Tree → Eval Value
  | [] => return .literal .undefined
  | [t] => eval call scopes t
  | t :: rest => do
    let _ ← eval call scopes t
    evalSequence call scopes rest

end

/-- The value of a call, given the evaluation of its body: what the body returns, or `undefined` if it
comes to its end. -/
def resultOf (body : Eval Value) : Eval Value := fun m =>
  match body m with
  | .ok _ m' => .ok (.literal .undefined) m'
  | .error (.returned v) m' => .ok v m'
  | .error e m' => .error e m'

/-- Calls, at most `fuel` of them inside one another. The parameters are a scope, and the declarations of the body
are another one if there are any. -/
def call : (fuel : Nat) → Call
  | 0, _, _, _, _ => throw .outOfFuel
  | fuel + 1, parameters, body, scopes, args => do
    let outer ← enter (parameters.zip (args.map some)) scopes
    let inner ← if body.declared.isEmpty then pure outer else enter (.unassigned body.declared) outer
    resultOf (eval (call fuel) inner body)

/-- The outcome of a program, which is a scope around the whole tree. -/
def evaluate (fuel : Nat) (tree : Tree) : EStateM.Result Exit Memory Value :=
  (do
    let inner ← enter (.unassigned tree.declared) [0]
    eval (call fuel) inner tree) Memory.initial

end Source

end ClosureMachine
