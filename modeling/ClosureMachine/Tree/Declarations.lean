import ClosureMachine.Compile.Error
import ClosureMachine.Scope

/-!
# The names a body declares

A scope holds all names declared directly in its body, wherever in the body they stand: uses before
the declaration refer to the same slot. Sequences inside the body are looked through. Blocks,
functions and operands are not: a block has its own scope, and a declaration among operands is an
error that the compiler reports when it gets there.
-/

set_option autoImplicit false

namespace ClosureMachine.Tree

mutual

/-- The bindings that a body declares, in order, repetitions included. -/
def declared : Tree → List Binding
  | .declaration name _ constant => [⟨name, constant⟩]
  | .functionDeclaration name _ _ => [⟨name, true⟩]
  | .sequence statements => declaredIn statements
  | _ => []

/-- The bindings that a list of statements declares. -/
def declaredIn : List Tree → List Binding
  | [] => []
  | t :: rest => t.declared ++ declaredIn rest

end

/-- The first element that occurs earlier in the list. -/
def firstRepeated (seen : List String) : List String → Option String
  | [] => none
  | name :: rest => if seen.contains name then some name else firstRepeated (name :: seen) rest

/-- The scope of a body, unless the body declares a name twice. -/
def declarations (body : Tree) : Except CompileError Scope :=
  match firstRepeated [] (body.declared.map (·.name)) with
  | some name => .error (.duplicateDeclaration name)
  | none => .ok body.declared

end ClosureMachine.Tree
