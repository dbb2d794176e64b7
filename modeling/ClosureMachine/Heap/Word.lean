import ClosureMachine.Number.Text

/-!
# Words of memory

Memory is an array of words, and every word says what it is: a number that is read where a reference
should stand is noticed instead of followed. A node is a run of words that begins with a header of
three: its kind, its size, and how many of the words behind the header may be references to other
nodes.

References carry the epoch in which they were handed out. A collection moves nodes and begins a new
epoch, so a reference that was not moved along is recognised even if some other node now starts where
it points.
-/

set_option autoImplicit false

namespace ClosureMachine

/-- The position of a node's header, and the epoch in which that was its position. Epochs are
counted modulo `2 ^ 32`. -/
structure Ref where
  index : Nat
  epoch : UInt32
deriving DecidableEq, Repr, Inhabited

/-- The kinds of nodes. -/
inductive Kind where
  | environment
  | closure
  | primitive
  | callFrame
  | blockFrame
  | operandStack
  | boxed
deriving DecidableEq, Repr

/-- What a boxed value holds. A text is held as its number in the string table, so that every value
takes one word. -/
inductive Datum where
  | number (value : Number)
  | boolean (value : Bool)
  | string (id : Nat)
  | undefined
  | null
deriving DecidableEq, Repr

/-- One word of memory. -/
inductive Word where
  /-- Nothing: free memory, or a place of an operand stack above its top. -/
  | empty
  /-- The first word of a node. -/
  | tag (kind : Kind)
  /-- The size and the number of children in a header; arities, addresses and tops of stacks. -/
  | count (n : Nat)
  | ref (target : Ref)
  /-- What a collection leaves where a node was: the place it moved to. -/
  | forward (target : Ref)
  /-- No node, where there could be one. -/
  | nil
  /-- A slot of an environment whose declaration has not run. -/
  | unassigned
  /-- The value in a box. -/
  | datum (value : Datum)
deriving DecidableEq, Repr, Inhabited

/-! ## Words in reports

Errors about memory show the word that was found. -/

/-- The name of a kind in reports. -/
def Kind.text : Kind → String
  | .environment => "Environment"
  | .closure => "Closure"
  | .primitive => "PrimitiveFunction"
  | .callFrame => "CallFrame"
  | .blockFrame => "BlockFrame"
  | .operandStack => "OperandStack"
  | .boxed => "Boxed"

/-- A reference in reports. -/
def Ref.text (r : Ref) : String :=
  s!"NodeRef \x7b index: {r.index}, epoch: {r.epoch} \x7d"

/-- A value in reports. -/
def Datum.text : Datum → String
  | .number value => s!"Number({value.render Number.wordFormat})"
  | .boolean value => s!"Bool({value})"
  | .string id => s!"Str(StrId({id}))"
  | .undefined => "Undefined"
  | .null => "Null"

/-- A word in reports. -/
def Word.text : Word → String
  | .empty => "Empty"
  | .tag kind => s!"Tag({kind.text})"
  | .count n => s!"Count({n})"
  | .ref target => s!"Ref({target.text})"
  | .forward target => s!"Forward({target.text})"
  | .nil => "Nil"
  | .unassigned => "Unassigned"
  | .datum value => s!"Prim({value.text})"

end ClosureMachine
