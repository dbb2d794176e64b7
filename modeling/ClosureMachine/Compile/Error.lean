import ClosureMachine.Tree.Basic

/-!
# What a compiler can object to

The compiler stops at the first objection. Each cause carries what its message needs.
-/

set_option autoImplicit false

namespace ClosureMachine

/-- Why a tree has no code. -/
inductive CompileError where
  /-- No scope around the use binds the name. -/
  | unresolvedName (name : String)
  /-- A tree of a form for which there is no code. -/
  | unhandledNode (node : Tree) (hint : Option String)
  /-- A statement where statements of its kind are not allowed. -/
  | invalidPosition (nodeType : String) (name : Option String) (reason : String)
      (hint : Option String)
  /-- A scope or parameter list that names something twice. -/
  | duplicateDeclaration (name : String)
  /-- An assignment to a name that was declared constant. -/
  | constantAssignment (name : String)
  /-- A rule of the compiler itself was broken. -/
  | internal (message : String)

namespace CompileError

/-- A `return` that no function is there to return from. -/
def returnOutsideFunction : CompileError :=
  .invalidPosition "return" none "return statements cannot appear outside a function body"
    (some "wrap the code in a function, or drop the return")

/-- A declaration that no scope was opened for. -/
def misplacedDeclaration (nodeType name : String) : CompileError :=
  .invalidPosition nodeType (some name)
    "declarations must appear directly in a block, function body or program"
    (some "wrap the declaration in braces")

/-- Advice goes on a line of its own. -/
def hintLine : Option String → String
  | some hint => "\n  hint: " ++ hint
  | none => ""

/-- The message to the programmer. -/
def message : CompileError → String
  | .unresolvedName name => s!"compile error: unresolved name '{name}'"
  | .unhandledNode node hint =>
    s!"compile error: cannot compile '{node.typeName}' node" ++ hintLine hint
  | .invalidPosition nodeType (some name) reason hint =>
    s!"compile error: {nodeType} '{name}': {reason}" ++ hintLine hint
  | .invalidPosition nodeType none reason hint =>
    s!"compile error: {nodeType}: {reason}" ++ hintLine hint
  | .duplicateDeclaration name =>
    s!"compile error: '{name}' is declared twice in the same scope"
  | .constantAssignment name => s!"compile error: cannot assign to constant '{name}'"
  | .internal message => s!"compile error: internal error: {message}"

end CompileError

end ClosureMachine
