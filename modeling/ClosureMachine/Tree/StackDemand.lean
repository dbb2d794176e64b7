import ClosureMachine.Tree.Basic

/-!
# How many operands a tree needs

Code runs on an operand stack of fixed capacity, so the compiler has to know how deep the stack gets
while a tree is evaluated. The demand of a tree counts from the depth at which its evaluation
starts: every tree leaves one value, so the demand is at least one, and while an operand is evaluated
the operands before it are still on the stack.

A function's body runs on a stack of its own. Building the function costs one slot, whatever the
body needs.
-/

set_option autoImplicit false

namespace ClosureMachine.Tree

mutual

/-- The greatest number of operands on the stack at once while the tree is evaluated. -/
def stackDemand : Tree → Nat
  | .literal _ | .identifier _ | .lambda .. | .functionDeclaration .. => 1
  | .binary _ left right => max 1 (max (1 + left.stackDemand) (2 + right.stackDemand))
  | .unary _ operand => max 1 (1 + operand.stackDemand)
  | .logical _ left right => max (max left.stackDemand right.stackDemand) 1
  | .conditional predicate consequent alternative =>
    max predicate.stackDemand (max consequent.stackDemand alternative.stackDemand)
  | .application function arguments => max function.stackDemand (operandDemand 1 arguments)
  | .sequence statements => statementDemand statements
  | .block body => body.stackDemand
  | .declaration _ value _ => value.stackDemand
  | .assignment _ value => value.stackDemand
  | .ret expression => expression.stackDemand

/-- The demand of operands that are evaluated on top of `below` others and all stay. -/
def operandDemand (below : Nat) : List Tree → Nat
  | [] => 0
  | t :: rest => max (below + t.stackDemand) (operandDemand (below + 1) rest)

/-- The demand of statements, each of which starts where the one before it started. A sequence of
none still leaves a value. -/
def statementDemand : List Tree → Nat
  | [] => 1
  | t :: rest => max t.stackDemand (statementDemand rest)

end

/-- The capacity of the operand stack on which a function with this body runs. The value that a
function returns when its body ends needs a slot in any case. -/
def bodyDemand (body : Tree) : Nat := max body.stackDemand 1

end ClosureMachine.Tree
