import ClosureMachine.Fault
import ClosureMachine.Heap.Value
import ClosureMachine.Host.StringTable

/-!
# The host

What primitive functions can reach beyond their operands: the string table, and the texts that the
program has displayed.
-/

set_option autoImplicit false

namespace ClosureMachine

/-- The surroundings of the machine. -/
structure Host where
  strings : StringTable
  /-- What was displayed, in order. -/
  output : Array String
deriving Inhabited

/-- An action of a primitive function. -/
abbrev HostM := EStateM Fault Host

namespace Host

/-- A host that holds no texts and has displayed nothing. -/
def empty : Host := ⟨.empty, #[]⟩

/-- The text of a number in the string table. -/
def text (host : Host) (id : Nat) : String := host.strings.text id

/-- The number of a text. -/
def intern (s : String) : HostM Nat :=
  modifyGet fun ⟨strings, output⟩ =>
    let (id, strings) := strings.intern s
    (id, ⟨strings, output⟩)

/-- A literal as it is put into a box. -/
def datumOf : Literal → HostM Datum
  | .number value => return .number value
  | .boolean value => return .boolean value
  | .string s => return .string (← intern s)
  | .undefined => return .undefined
  | .null => return .null

/-- The literal that a datum stands for. -/
def literalOf (host : Host) : Datum → Literal
  | .number value => .number value
  | .boolean value => .boolean value
  | .string id => .string (host.text id)
  | .undefined => .undefined
  | .null => .null

end Host

end ClosureMachine
