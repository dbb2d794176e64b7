import ClosureMachine.Number.Text

/-!
# Syntax trees

The language is a small functional one with statements: first-class functions over lexically nested
scopes, `const` and `let` declarations, assignment, and an early `return`. There is one numeric
type. Trees come from a parser elsewhere; here they are read from bytes, compiled and run.

A tree says nothing about scoping. `declarations` (in `Tree/Declarations.lean`) reads off which
names a body declares, and the compiler decides whether every use has a binding.
-/

set_option autoImplicit false

namespace ClosureMachine

/-- A value that can be written down in a program. Functions cannot. -/
inductive Literal where
  | number (value : Number)
  | boolean (value : Bool)
  | string (text : String)
  | undefined
  | null
deriving DecidableEq, Repr, Inhabited

/-- The text of a literal. The quotes around a string are only decoration: nothing inside is
escaped. -/
def Literal.text : Literal → String
  | .number value => toString value
  | .boolean true => "true"
  | .boolean false => "false"
  | .string text => "\"" ++ text ++ "\""
  | .undefined => "undefined"
  | .null => "null"

instance : ToString Literal := ⟨Literal.text⟩

/-- A program, statement or expression. -/
inductive Tree where
  | literal (value : Literal)
  /-- An occurrence of a name. -/
  | identifier (name : String)
  /-- An operator between two operands. The operator is a name like any other, bound to a function
  of two parameters. -/
  | binary (operator : String) (left right : Tree)
  /-- An operator before one operand. -/
  | unary (operator : String) (operand : Tree)
  /-- `&&` or `||`, which may leave the right operand alone. -/
  | logical (operator : String) (left right : Tree)
  | conditional (predicate consequent alternative : Tree)
  | lambda (parameters : List String) (body : Tree)
  | application (function : Tree) (arguments : List Tree)
  /-- Statements one after the other; the value is that of the last one. -/
  | sequence (statements : List Tree)
  /-- A body with a scope of its own. -/
  | block (body : Tree)
  /-- `const name = value` or `let name = value`. -/
  | declaration (name : String) (value : Tree) (constant : Bool)
  | assignment (name : String) (value : Tree)
  | functionDeclaration (name : String) (parameters : List String) (body : Tree)
  | ret (expression : Tree)
deriving Inhabited

namespace Tree

/-- What a tree is called in messages to the programmer. -/
def typeName : Tree → String
  | .literal (.number _) => "number literal"
  | .literal (.boolean _) => "boolean literal"
  | .literal (.string _) => "string literal"
  | .literal .undefined => "undefined literal"
  | .literal .null => "null literal"
  | .identifier _ => "name"
  | .binary .. => "binary operator combination"
  | .unary .. => "unary operator combination"
  | .logical .. => "logical combination"
  | .conditional .. => "conditional"
  | .lambda .. => "lambda"
  | .application .. => "application"
  | .sequence _ => "sequence"
  | .block _ => "block"
  | .declaration _ _ true => "const declaration"
  | .declaration _ _ false => "let declaration"
  | .assignment .. => "assignment"
  | .functionDeclaration .. => "function declaration"
  | .ret _ => "return statement"

/-- The name under which the function of a unary operator is bound. Negation has a name apart from
subtraction, since both are written `-`. -/
def unaryName (operator : String) : String :=
  if operator = "-" then "-unary" else operator

end Tree

end ClosureMachine
