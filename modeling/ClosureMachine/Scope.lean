/-!
# Scopes and addresses

At run time a name is a slot of some environment on a chain. The compiler keeps a chain of scopes
of the same shape, one scope for each environment, and so can say of every name how many
environments to go out and which slot to take there. Nothing needs to be looked up by name later.
-/

set_option autoImplicit false

namespace ClosureMachine

/-- A declared name, and whether it may be assigned to. -/
structure Binding where
  name : String
  constant : Bool
deriving DecidableEq, Repr

/-- Where a name lives: `frame` environments outward, in slot `slot`. -/
structure Address where
  frame : Nat
  slot : Nat
deriving DecidableEq, Repr

/-- The names of one environment, in the order of their slots. -/
abbrev Scope := List Binding

/-- The first slot that a scope gives to `name`. -/
def Scope.find (name : String) : Scope → Option (Nat × Binding)
  | [] => none
  | b :: rest =>
    if b.name = name then some (0, b)
    else (Scope.find name rest).map fun (slot, found) => (slot + 1, found)

/-- A chain of scopes, the innermost first. -/
abbrev Scopes := List Scope

namespace Scopes

/-- The address of `name` and its binding: the innermost scope that has the name decides. -/
def lookup (name : String) : Scopes → Option (Address × Binding)
  | [] => none
  | scope :: outer =>
    match Scope.find name scope with
    | some (slot, b) => some (⟨0, slot⟩, b)
    | none => (lookup name outer).map fun (a, b) => (⟨a.frame + 1, a.slot⟩, b)

/-- The address of `name`. -/
def resolve (name : String) (scopes : Scopes) : Option Address :=
  (lookup name scopes).map (·.1)

end Scopes

end ClosureMachine
