import ClosureMachine.Heap.Environment
import ClosureMachine.Heap.Frame
import ClosureMachine.Heap.OperandStack
import ClosureMachine.Proofs.Host.Meaning

/-!
# Nodes without memory

The ideal machine keeps its nodes in a list that only grows. A node is known by its place in the list,
its `Loc`, which it never changes and which no other node is ever given. A box holds its literal, text
included. There is nothing to collect and nothing to move, and what a node of each kind consists of can be
read off its constructor.

The accessors below are those of the heap, one by one, with the same objections. An objection names the
position in memory at which it arose; here there is none, so it names position zero
(`HeapError.anywhere`).

An operand stack is its operands, the top one first, and the number of places that are free: so it
cannot be fuller than its capacity.
-/

set_option autoImplicit false

namespace ClosureMachine

/-- The error without the position in memory, and without the word that was found there. -/
def HeapError.anywhere : HeapError → HeapError
  | .staleReference _ => .staleReference 0
  | .kindMismatch _ expected found => .kindMismatch 0 expected found
  | .offsetOutOfBounds _ offset => .offsetOutOfBounds 0 offset
  | .unexpectedWord _ offset expected _ => .unexpectedWord 0 offset expected .empty
  | .corruptHeader _ => .corruptHeader 0
  | e => e

theorem HeapError.anywhere_tooLarge (what : Quantity) (sum : Nat) (e : HeapError) :
    (tooLarge what sum e).anywhere = tooLarge what sum e.anywhere := by
  unfold tooLarge
  split <;> rfl

/-- The fault without positions in memory. -/
def Fault.anywhere : Fault → Fault
  | .heap e => .heap e.anywhere
  | f => f

@[simp] theorem Fault.kind_anywhere (f : Fault) : f.anywhere.kind = f.kind := by
  cases f with
  | heap e =>
    cases e with
    | overflow sum => cases sum <;> rfl
    | _ => rfl
  | _ => rfl

namespace Ideal

open Heap (headerSize)

/-- The name of a node. -/
abbrev Loc := Nat

/-- A node and what it refers to. Links that are set after the node is made are missing until then. -/
inductive Node where
  | environment (slots : List (Option Loc)) (outer : Option Loc)
  | closure (env : Option Loc) (arity entry stack : Nat)
  | primitive (id : Nat)
  | callFrame (env stack : Option Loc) (returnAddress : Nat)
  | blockFrame (env : Option Loc)
  /-- The operands, the top one first, and the number of free places. -/
  | operandStack (operands : List Loc) (room : Nat)
  | boxed (value : Literal)
deriving DecidableEq, Repr

namespace Node

def kind : Node → Kind
  | .environment .. => .environment
  | .closure .. => .closure
  | .primitive _ => .primitive
  | .callFrame .. => .callFrame
  | .blockFrame _ => .blockFrame
  | .operandStack .. => .operandStack
  | .boxed _ => .boxed

/-! ## Layout -/

/-- What one word behind the header holds. -/
inductive Cell where
  | ref (target : Loc)
  | literal (value : Literal)
  | count (n : Nat)
  | nil
  | unassigned
  | empty
deriving DecidableEq, Repr

/-- A slot of an environment. -/
def slotCell : Option Loc → Cell
  | some l => .ref l
  | none => .unassigned

/-- A link to another node. -/
def linkCell : Option Loc → Cell
  | some l => .ref l
  | none => .nil

/-- The words behind the header, in order. -/
def cells : Node → List Cell
  | .environment slots outer => slots.map slotCell ++ [linkCell outer]
  | .closure env arity entry stack => [linkCell env, .count arity, .count entry, .count stack]
  | .primitive id => [.count id]
  | .callFrame env stack returnAddress => [linkCell env, linkCell stack, .count returnAddress]
  | .blockFrame env => [linkCell env]
  | .operandStack operands room =>
    operands.reverse.map .ref ++ List.replicate room .empty ++ [.count operands.length]
  | .boxed value => [.literal value]

/-- How many of them may be references. -/
def children : Node → Nat
  | .environment slots _ => slots.length + 1
  | .closure .. => 1
  | .primitive _ => 0
  | .callFrame .. => 2
  | .blockFrame _ => 1
  | .operandStack operands room => operands.length + room
  | .boxed _ => 0

/-- The number of words, the header included. -/
def size (n : Node) : Nat := headerSize + n.cells.length

theorem header_le_size (n : Node) : headerSize ≤ n.size := Nat.le_add_right _ _

/-- Nodes of kinds with a fixed number of words are small. -/
theorem small_of_cells {n : Node} (h : n.cells.length ≤ 4) : ¬ wordLimit ≤ n.size := by
  unfold size headerSize wordLimit
  omega

/-- What the node refers to. -/
def refs (n : Node) : List Loc :=
  n.cells.filterMap fun
    | .ref l => some l
    | _ => none

theorem mem_refs {n : Node} {l : Loc} : l ∈ n.refs ↔ .ref l ∈ n.cells := by
  unfold refs
  rw [List.mem_filterMap]
  constructor
  · rintro ⟨c, hc, hl⟩
    cases c <;> simp at hl
    exact hl ▸ hc
  · intro hm
    exact ⟨.ref l, hm, rfl⟩

theorem children_le_cells (n : Node) : n.children ≤ n.cells.length := by
  cases n <;> simp [children, cells]

/-- References stand only where references may stand. -/
theorem lt_children_of_ref {n : Node} {k : Nat} {l : Loc} (h : n.cells[k]? = some (.ref l)) :
    k < n.children := by
  have hlt : k < n.cells.length := (List.getElem?_eq_some_iff.mp h).1
  cases n with
  | environment slots outer => simpa [children, cells] using hlt
  | closure env arity entry stack =>
    rcases k with _ | _ | _ | _ | k <;> simp [cells, children] at h ⊢
  | primitive id => rcases k with _ | k <;> simp [cells] at h
  | callFrame env stack returnAddress =>
    rcases k with _ | _ | _ | k <;> simp [cells, children] at h ⊢
  | blockFrame env => rcases k with _ | k <;> simp [cells, children] at h ⊢
  | operandStack operands room =>
    by_contra hge
    have hk : k = operands.length + room := by
      simp [cells, children] at hlt hge
      omega
    subst hk
    rw [cells, List.getElem?_append_right (by simp)] at h
    simp at h
  | boxed value => rcases k with _ | k <;> simp [cells] at h

/-! ## Accessors -/

/-- The objection that a node is of another kind. -/
def mismatch (expected : Kind) (n : Node) : HeapError := .kindMismatch 0 expected n.kind

/-- The objection that a link at an offset has not been set. -/
def missing (offset : Nat) : HeapError := .unexpectedWord 0 offset "node reference" .empty

/-- The objection that an environment has no such slot. -/
def noSlot (slot : Nat) : HeapError :=
  .tooLarge .slotOffset (headerSize + slot) (.offsetOutOfBounds 0 (headerSize + slot))

@[simp] theorem anywhere_noSlot (index slot : Nat) :
    (HeapError.tooLarge .slotOffset (headerSize + slot)
      (.offsetOutOfBounds index (headerSize + slot))).anywhere = noSlot slot :=
  HeapError.anywhere_tooLarge _ _ _

theorem kind_noSlot (slot : Nat) : Fault.kindOfHeapError (noSlot slot) = .internal := by
  unfold noSlot HeapError.tooLarge
  split <;> rfl

/-- Insists on a kind. -/
def expect (expected : Kind) (n : Node) : Except HeapError Unit :=
  if n.kind = expected then .ok () else .error (n.mismatch expected)

/-- The value in a slot, if it has one yet. -/
def slot? (slot : Nat) : Node → Except HeapError (Option Loc)
  | .environment slots _ =>
    match slots[slot]? with
    | some value => .ok value
    | none => .error (noSlot slot)
  | n => .error (n.mismatch .environment)

def setSlot (slot : Nat) (value : Loc) : Node → Except HeapError Node
  | .environment slots outer =>
    if slot < slots.length then .ok (.environment (slots.set slot (some value)) outer)
    else .error (noSlot slot)
  | n => .error (n.mismatch .environment)

def enclosing? : Node → Except HeapError (Option Loc)
  | .environment _ outer => .ok outer
  | n => .error (n.mismatch .environment)

def setEnclosing (outer : Loc) : Node → Except HeapError Node
  | .environment slots _ => .ok (.environment slots (some outer))
  | n => .error (n.mismatch .environment)

/-- The environment of a closure. -/
def closureEnv : Node → Except HeapError Loc
  | .closure (some env) .. => .ok env
  | .closure none .. => .error (missing headerSize)
  | n => .error (n.mismatch .closure)

def setClosureEnv (env : Loc) : Node → Except HeapError Node
  | .closure _ arity entry stack => .ok (.closure (some env) arity entry stack)
  | n => .error (n.mismatch .closure)

/-- The number of parameters. -/
def arity : Node → Except HeapError Nat
  | .closure _ arity .. => .ok arity
  | n => .error (n.mismatch .closure)

/-- The address of the body. -/
def entry : Node → Except HeapError Nat
  | .closure _ _ entry _ => .ok entry
  | n => .error (n.mismatch .closure)

/-- The capacity of the operand stack that the body needs. -/
def capacity : Node → Except HeapError Nat
  | .closure _ _ _ stack => .ok stack
  | n => .error (n.mismatch .closure)

def primitiveId : Node → Except HeapError Nat
  | .primitive id => .ok id
  | n => .error (n.mismatch .primitive)

/-- Insists on a frame of either kind. -/
def expectFrame : Node → Except HeapError Unit
  | .callFrame .. | .blockFrame _ => .ok ()
  | n => .error (n.mismatch .callFrame)

/-- The environment that a frame of either kind keeps. -/
def frameEnv : Node → Except HeapError Loc
  | .callFrame (some env) .. | .blockFrame (some env) => .ok env
  | .callFrame none .. | .blockFrame none => .error (missing headerSize)
  | n => .error (n.mismatch .callFrame)

def setFrameEnv (env : Loc) : Node → Except HeapError Node
  | .callFrame _ stack returnAddress => .ok (.callFrame (some env) stack returnAddress)
  | .blockFrame _ => .ok (.blockFrame (some env))
  | n => .error (n.mismatch .callFrame)

def frameStack : Node → Except HeapError Loc
  | .callFrame _ (some stack) _ => .ok stack
  | .callFrame _ none _ => .error (missing (headerSize + 1))
  | n => .error (n.mismatch .callFrame)

def setFrameStack (stack : Loc) : Node → Except HeapError Node
  | .callFrame env _ returnAddress => .ok (.callFrame env (some stack) returnAddress)
  | n => .error (n.mismatch .callFrame)

def returnAddress : Node → Except HeapError Nat
  | .callFrame _ _ returnAddress => .ok returnAddress
  | n => .error (n.mismatch .callFrame)

/-- The number of operands. -/
def depth : Node → Except HeapError Nat
  | .operandStack operands _ => .ok operands.length
  | n => .error (n.mismatch .operandStack)

def push (value : Loc) : Node → Except HeapError Node
  | .operandStack operands (room + 1) => .ok (.operandStack (value :: operands) room)
  | .operandStack operands 0 => .error (.operandStackOverflow operands.length)
  | n => .error (n.mismatch .operandStack)

def pop : Node → Except HeapError (Loc × Node)
  | .operandStack (value :: operands) room => .ok (value, .operandStack operands (room + 1))
  | .operandStack [] _ => .error .operandStackUnderflow
  | n => .error (n.mismatch .operandStack)

/-- The operand that is `below` places below the top one. -/
def peek (below : Nat) : Node → Except HeapError Loc
  | .operandStack operands _ =>
    match operands[below]? with
    | some value => .ok value
    | none => .error .operandStackUnderflow
  | n => .error (n.mismatch .operandStack)

/-- The node `l` as a primitive function sees it. -/
def argument (l : Loc) : Node → Except HeapError Argument
  | .boxed value => .ok (.literal value)
  | .closure _ arity .. => .ok (.function l arity)
  | .primitive id => .ok (.primitive id)
  | n => .error (n.mismatch .boxed)

end Node

end Ideal

end ClosureMachine
