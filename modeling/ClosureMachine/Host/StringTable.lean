import Std.Data.HashMap

/-!
# The string table

Texts are kept outside the heap, each once, under a number. Equal texts have equal numbers, so the
machine compares texts by comparing numbers. Numbers that are no longer in use are given out again
before new ones are made, the one that was released last first.
-/

set_option autoImplicit false

namespace ClosureMachine

/-- Texts by number, and numbers by text. -/
structure StringTable where
  /-- The text of each number, or nothing where the number is free. -/
  slots : Array (Option String)
  /-- The number of each text that is held. -/
  index : Std.HashMap String Nat
  /-- The free numbers below `slots.size`, the next one to be given out first. -/
  free : List Nat

namespace StringTable

/-- The table without texts. -/
def empty : StringTable := ⟨#[], ∅, []⟩

instance : Inhabited StringTable := ⟨empty⟩

/-- The text of a number; a number that is not in use stands for the empty text. -/
def text (t : StringTable) (id : Nat) : String :=
  ((t.slots[id]?).getD none).getD ""

/-- The number of a text, which is new if the text was not held. -/
def intern (t : StringTable) (s : String) : Nat × StringTable :=
  match t.index[s]? with
  | some id => (id, t)
  | none =>
    match t.free with
    | id :: rest => (id, ⟨t.slots.setIfInBounds id (some s), t.index.insert s id, rest⟩)
    | [] =>
      let id := t.slots.size
      (id, ⟨t.slots.push (some s), t.index.insert s id, []⟩)

/-- Forgets the text of a number, if it has one. -/
def release (t : StringTable) (id : Nat) : StringTable :=
  match (t.slots[id]?).getD none with
  | some s => ⟨t.slots.setIfInBounds id none, t.index.erase s, id :: t.free⟩
  | none => t

/-- Which of the first `size` numbers are in a list. -/
def marks (size : Nat) (live : List Nat) : Array Bool :=
  live.foldl (fun marked id => marked.setIfInBounds id true) (Array.replicate size false)

/-- Forgets all texts but those of the given numbers, the lowest number first. -/
def retain (t : StringTable) (live : List Nat) : StringTable :=
  let marked := marks t.slots.size live
  (List.range t.slots.size).foldl
    (fun t id => if marked.getD id false then t else t.release id) t

end StringTable

end ClosureMachine
