import Mathlib.Control.Monad.Basic
import Mathlib.Data.Nat.Pairing
import ClosureMachine.Proofs.Heap.Sound
import ClosureMachine.Proofs.Ideal.Update

/-!
# Operand stacks are bounded lists

An operand stack is used by pushing, popping, peeking and asking for its depth. In between, other nodes are made and
linked, and collections move the stack and its operands. A list of at most as many references as the stack has
places gives the same answers all the while, if its references are taken to their images whenever nodes have
been moved. What has been popped is not kept: the words above the operands are empty.

`StackUse` is a moment of such a use, `StackUse.Step` what can come next, and `StackUse.Reached` collects the moments
of all uses of stacks of one capacity.
-/

set_option autoImplicit false

namespace ClosureMachine

open Heap (headerSize)
open ClosureMachine.Ideal

/-! ## Lists -/

inductive StackCall where
  | push (value : Ref)
  | pop
  | peek (below : Nat)
  | depth
deriving DecidableEq, Repr

inductive StackReply where
  | done
  | operand (value : Ref)
  | count (n : Nat)
deriving DecidableEq, Repr

namespace StackCall

/-- The references that a call brings. -/
def values : StackCall → List Ref
  | .push value => [value]
  | _ => []

/-- The call, made of a node. -/
def onNode (stack : Ref) : StackCall → HeapM StackReply
  | .push value => do
    OperandStack.push stack value
    return .done
  | .pop => return .operand (← OperandStack.pop stack)
  | .peek below => return .operand (← OperandStack.peek stack below)
  | .depth => return .count (← OperandStack.depth stack)

/-- The call, made of a list with room for `capacity` operands, the top one first. -/
def onList (capacity : Nat) : StackCall → EStateM HeapError (List Ref) StackReply
  | .push value, operands =>
    if operands.length = capacity then .error (.operandStackOverflow capacity) operands
    else .ok .done (value :: operands)
  | .pop, [] => .error .operandStackUnderflow []
  | .pop, value :: rest => .ok (.operand value) rest
  | .peek below, operands =>
    match operands[below]? with
    | some value => .ok (.operand value) operands
    | none => .error .operandStackUnderflow operands
  | .depth, operands => .ok (.count operands.length) operands

end StackCall

/-! ## Uses of a stack -/

/-- An operand stack in a store, and the operands that it should have, the top one first. -/
structure StackUse (ρ : Type) where
  store : Store ρ
  stack : Ref
  operands : List Ref

namespace StackUse

variable {ρ : Type} [RootSet ρ]

/-- What can happen while the stack is in use. All references that are given are valid, and the stack stays
among the roots. -/
inductive Step (capacity : Nat) : StackUse ρ → StackUse ρ → Prop
  | call {u : StackUse ρ} (c : StackCall) (hvalid : ∀ v ∈ c.values, u.store.heap.Valid v) :
      Step capacity u ⟨⟨Actions.after (c.onNode u.stack) u.store.heap, u.store.roots⟩, u.stack,
        Actions.after (c.onList capacity) u.operands⟩
  | set {u : StackUse ρ} {α : Type} {target : Ref} {values : List Ref} {act : HeapM α}
      (hset : Setter target values act) (hother : target ≠ u.stack)
      (hvalid : ∀ v ∈ values, u.store.heap.Valid v) :
      Step capacity u ⟨⟨Actions.after act u.store.heap, u.store.roots⟩, u.stack, u.operands⟩
  | make {u : StackUse ρ} {act : StoreM ρ Ref} {image : Ref → Ref} (hmake : Constructor ρ act)
      (hmoved : u.store.Relocates (Actions.after act u.store) image) :
      Step capacity u ⟨Actions.after act u.store, image u.stack, u.operands.map image⟩
  | collect {u : StackUse ρ} {image : Ref → Ref}
      (hmoved : u.store.Relocates (Actions.after Store.collect u.store) image) :
      Step capacity u ⟨Actions.after Store.collect u.store, image u.stack, u.operands.map image⟩
  | reroot {u : StackUse ρ} (roots : ρ) (hvalid : ∀ r ∈ RootSet.toList roots, u.store.heap.Valid r)
      (hrooted : u.stack ∈ RootSet.toList roots) :
      Step capacity u ⟨⟨u.store.heap, roots⟩, u.stack, u.operands⟩

/-- The stack is made in a sound heap, becomes a root, and is used from there on. -/
inductive Reached (capacity : Nat) : StackUse ρ → Prop
  | new {s s' : Store ρ} {stack : Ref} (hs : s.heap.Sound)
      (hroots : ∀ r ∈ RootSet.toList s.roots, s.heap.Valid r)
      (hnew : OperandStack.new capacity s = .ok stack s') (roots : ρ)
      (hvalid : ∀ r ∈ RootSet.toList roots, s'.heap.Valid r) (hrooted : stack ∈ RootSet.toList roots) :
      Reached capacity ⟨⟨s'.heap, roots⟩, stack, []⟩
  | step {u u' : StackUse ρ} (hu : Reached capacity u) (hstep : Step capacity u u') : Reached capacity u'

end StackUse

/-! ## The words of a stack -/

/-- A name for every reference that there can be. -/
def Ref.name (r : Ref) : Loc := Nat.pair r.index r.epoch.toNat

/-- The world in which every reference has its name. -/
def World.everywhere : World where
  place l := some ⟨l.unpair.1, .ofNat l.unpair.2⟩
  texts := .empty

theorem World.everywhere_at {r r' : Ref} : World.everywhere.At r' r.name ↔ r' = r := by
  simp only [World.At, World.everywhere, Ref.name, Nat.unpair_pair, UInt32.ofNat_toNat, Option.some.injEq]
  exact eq_comm

namespace Heap

/-- The words of an operand stack behind its header. -/
def operandWords (capacity : Nat) (operands : List Ref) : List Word :=
  operands.reverse.map .ref ++ List.replicate (capacity - operands.length) .empty ++
    [.count operands.length]

/-- The node is an operand stack with these operands and no others. -/
structure HoldsOperands (h : Heap) (stack : Ref) (capacity : Nat) (operands : List Ref) : Prop where
  bounded : operands.length ≤ capacity
  valid : h.Valid stack
  tag : h.word stack.index = .tag .operandStack
  size : h.word (stack.index + 1) = .count (headerSize + (capacity + 1))
  children : h.word (stack.index + 2) = .count capacity
  words : ∀ {k v}, (operandWords capacity operands)[k]? = some v →
    h.word (stack.index + headerSize + k) = v

/-- The node with these operands, by their names. -/
def named (capacity : Nat) (operands : List Ref) : Node :=
  .operandStack (operands.map Ref.name) (capacity - operands.length)

section

variable {h h' : Heap} {stack : Ref} {capacity : Nat} {operands : List Ref}

theorem length_operandWords (hle : operands.length ≤ capacity) :
    (operandWords capacity operands).length = capacity + 1 := by
  simp [operandWords]
  omega

/-- Cells and words correspond, one by one. -/
theorem cells_named (capacity : Nat) (operands : List Ref) :
    List.Forall₂ (fun c v => ∀ v', World.everywhere.Shows c v' ↔ v' = v)
      (named capacity operands).cells (operandWords capacity operands) := by
  have hshows : ∀ (r : Ref) (v : Word), World.everywhere.Shows (.ref r.name) v ↔ v = .ref r := by
    intro r v
    constructor
    · rintro ⟨r', hat, rfl⟩
      rw [World.everywhere_at.mp hat]
    · rintro rfl
      exact ⟨r, World.everywhere_at.mpr rfl, rfl⟩
  rw [named, Node.cells, List.length_map, ← List.map_reverse, List.map_map]
  refine List.rel_append (List.rel_append ?_ ?_) (.cons (fun _ => Iff.rfl) .nil)
  · rw [List.forall₂_map_left_iff, List.forall₂_map_right_iff, List.forall₂_same]
    exact fun r _ => hshows r
  · rw [List.forall₂_iff_get]
    refine ⟨by simp, fun k hk hk' v => ?_⟩
    simp [World.Shows]

theorem holdsOperands_iff (ht : h.Tidy) :
    h.HoldsOperands stack capacity operands ↔
      operands.length ≤ capacity ∧ World.everywhere.Placed h stack (named capacity operands) := by
  have hcells := (cells_named capacity operands).length_eq
  constructor
  · intro hd
    have hlength := length_operandWords hd.bounded
    have hsize : (named capacity operands).size = headerSize + (capacity + 1) := by
      rw [Node.size, hcells, hlength]
    have hchildren : (named capacity operands).children = capacity := by
      simp [named, Node.children, hd.bounded]
    have hleads := ht.leads hd.valid hd.tag
    rw [sizeAt, hd.size, childrenAt, hd.children] at hleads
    refine ⟨hd.bounded, ?_, fun {k c} hk => ?_⟩
    · rw [hsize, hchildren]
      exact hleads
    · obtain ⟨hlt, rfl⟩ := List.getElem?_eq_some_iff.mp hk
      have hlt' := hcells ▸ hlt
      exact (List.Forall₂.get (cells_named capacity operands) hlt hlt' _).mpr
        (hd.words (List.getElem?_eq_getElem hlt'))
  · rintro ⟨hle, hp⟩
    have hlength := length_operandWords hle
    have hpos := hp.least
    have hup := hp.upper
    unfold headerSize at hpos
    refine ⟨hle, ⟨hp.epoch, ht.header_of_tag hp.lower (by omega) hp.tag⟩, hp.tag, ?_, ?_, fun {k v} hk => ?_⟩
    · rw [hp.size, Node.size, hcells, hlength]
    · rw [hp.children]
      simp [named, Node.children, hle]
    · obtain ⟨hlt, rfl⟩ := List.getElem?_eq_some_iff.mp hk
      have hlt' := hcells.symm ▸ hlt
      exact (List.Forall₂.get (cells_named capacity operands) hlt' hlt _).mp
        (hp.cells (List.getElem?_eq_getElem hlt'))

theorem HoldsOperands.child_iff (hd : h.HoldsOperands stack capacity operands) (ht : h.Tidy) (r : Ref) :
    h.Child stack.index r ↔ r ∈ operands := by
  rw [((holdsOperands_iff ht).mp hd).2.child_iff]
  constructor
  · rintro ⟨l, hl, hplace⟩
    obtain ⟨r', hr', rfl⟩ : ∃ r' ∈ operands, r'.name = l := by
      simpa [Node.mem_refs, named, Node.cells] using hl
    rwa [World.everywhere_at.mp hplace]
  · intro hr
    refine ⟨r.name, ?_, World.everywhere_at.mpr rfl⟩
    simpa [Node.mem_refs, named, Node.cells] using ⟨r, hr, rfl⟩

/-! ## Calls -/

theorem eq_overflow_of_anywhere {e : HeapError} {n : Nat} (he : .operandStackOverflow n = e.anywhere) :
    e = .operandStackOverflow n := by
  cases e <;> simp [HeapError.anywhere] at he
  rw [he]

theorem eq_underflow_of_anywhere {e : HeapError} (he : .operandStackUnderflow = e.anywhere) :
    e = .operandStackUnderflow := by
  cases e <;> simp [HeapError.anywhere] at he
  rfl

theorem writes_onNode (stack : Ref) (c : StackCall) : Writes stack c.values (c.onNode stack) := by
  cases c with
  | push value => exact .bind (writes_push stack value) fun _ => .pure _
  | pop => exact .bind (writes_pop stack) fun _ => .pure _
  | peek below => exact .bind (.look _) fun _ => .pure _
  | depth => exact .bind (.look _) fun _ => .pure _

theorem HoldsOperands.push (hd : h.HoldsOperands stack capacity operands) (ht : h.Tidy) (value : Ref) :
    operands.length = capacity ∧
        OperandStack.push stack value h = .error (.operandStackOverflow capacity) h ∨
      operands.length ≠ capacity ∧ ∃ h', OperandStack.push stack value h = .ok () h' ∧
        h'.HoldsOperands stack capacity (value :: operands) := by
  obtain ⟨hle, hp⟩ := (holdsOperands_iff ht).mp hd
  have hchange := hp.push (World.everywhere_at.mpr (Eq.refl value))
  rw [named] at hp hchange
  by_cases hfull : operands.length = capacity
  · rw [hfull, Nat.sub_self, Node.push, List.length_map, hfull] at hchange
    obtain ⟨e, hrun, he⟩ := hchange.exists_of_error
    exact .inl ⟨hfull, by rw [hrun, eq_overflow_of_anywhere he]⟩
  · -- a node knows the room that it has left, a list its capacity
    obtain ⟨room, hroom⟩ : ∃ room, capacity - operands.length = room + 1 :=
      Nat.exists_eq_succ_of_ne_zero (by omega)
    have hnode : named capacity (value :: operands) =
        .operandStack (value.name :: operands.map Ref.name) room := by
      rw [named, List.length_cons, List.map_cons, Nat.sub_add_eq, hroom, Nat.add_sub_cancel]
    rw [hroom] at hp hchange
    rw [Node.push, ← hnode] at hchange
    obtain ⟨_, h', hrun, hrewrites, -⟩ := hchange.exists_of_ok
    have ht' := (writes_push stack value h).tidy ht
    rw [Actions.after, hrun] at ht'
    refine .inr ⟨hfull, h', hrun, (holdsOperands_iff ht').mpr ⟨?_, hrewrites.placed hp⟩⟩
    rw [List.length_cons]
    omega

theorem HoldsOperands.pop_nil (hd : h.HoldsOperands stack capacity []) (ht : h.Tidy) :
    OperandStack.pop stack h = .error .operandStackUnderflow h := by
  have hchange := ((holdsOperands_iff ht).mp hd).2.pop
  rw [named, List.map_nil, Node.pop] at hchange
  obtain ⟨e, hrun, he⟩ := hchange.exists_of_error
  rw [hrun, eq_underflow_of_anywhere he]

theorem HoldsOperands.pop_cons {value : Ref} (hd : h.HoldsOperands stack capacity (value :: operands))
    (ht : h.Tidy) :
    ∃ h', OperandStack.pop stack h = .ok value h' ∧ h'.HoldsOperands stack capacity operands := by
  obtain ⟨hle, hp⟩ := (holdsOperands_iff ht).mp hd
  have hchange := hp.pop
  rw [List.length_cons] at hle
  have hnode : named capacity operands =
      .operandStack (operands.map Ref.name) (capacity - (value :: operands).length + 1) := by
    rw [named, List.length_cons, Nat.sub_add_eq, Nat.sub_add_cancel (by omega)]
  rw [named, List.map_cons, Node.pop, ← hnode] at hchange
  obtain ⟨r, h', hrun, hrewrites, hat⟩ := hchange.exists_of_ok
  have ht' := (writes_pop stack h).tidy ht
  rw [Actions.after, hrun] at ht'
  refine ⟨h', by rw [hrun, World.everywhere_at.mp hat], ?_⟩
  exact (holdsOperands_iff ht').mpr ⟨by omega, hrewrites.placed hp⟩

theorem HoldsOperands.peek (hd : h.HoldsOperands stack capacity operands) (ht : h.Tidy) (below : Nat) :
    OperandStack.peek stack below h =
      match operands[below]? with
      | some value => .ok value
      | none => .error .operandStackUnderflow := by
  have hanswer := ((holdsOperands_iff ht).mp hd).2.answers_peek below
  rw [named, Node.peek, List.getElem?_map] at hanswer
  cases hvalue : operands[below]? with
  | none =>
    rw [hvalue] at hanswer
    obtain ⟨e, hrun, he⟩ := hanswer.exists_of_error
    rw [hrun, eq_underflow_of_anywhere he]
  | some value =>
    rw [hvalue] at hanswer
    obtain ⟨r, hrun, hat⟩ := hanswer.exists_of_ok
    rw [hrun, World.everywhere_at.mp hat]

theorem HoldsOperands.depth (hd : h.HoldsOperands stack capacity operands) (ht : h.Tidy) :
    OperandStack.depth stack h = .ok operands.length := by
  have hanswer := ((holdsOperands_iff ht).mp hd).2.answers_depth
  rw [named, Node.depth, List.length_map] at hanswer
  obtain ⟨n, hrun, rfl⟩ := hanswer.exists_of_ok
  exact hrun

/-- The node answers as the list does, and both have the same operands afterwards. -/
theorem HoldsOperands.call (hd : h.HoldsOperands stack capacity operands) (ht : h.Tidy) (c : StackCall) :
    Actions.answer (c.onNode stack) h = Actions.answer (c.onList capacity) operands ∧
      (Actions.after (c.onNode stack) h).HoldsOperands stack capacity
        (Actions.after (c.onList capacity) operands) := by
  simp only [Actions.answer, Actions.after]
  cases c with
  | push value =>
    simp only [StackCall.onNode, StackCall.onList, Actions.bind_apply, Actions.pure_apply]
    rcases hd.push ht value with ⟨hfull, hrun⟩ | ⟨hfree, h', hrun, hd'⟩
    · rw [hrun, if_pos hfull]
      exact ⟨rfl, hd⟩
    · rw [hrun, if_neg hfree]
      exact ⟨rfl, hd'⟩
  | pop =>
    simp only [StackCall.onNode, Actions.bind_apply, Actions.pure_apply]
    cases operands with
    | nil =>
      rw [hd.pop_nil ht]
      exact ⟨rfl, hd⟩
    | cons value rest =>
      obtain ⟨h', hrun, hd'⟩ := hd.pop_cons ht
      rw [hrun]
      exact ⟨rfl, hd'⟩
  | peek below =>
    simp only [StackCall.onNode, StackCall.onList, Actions.bind_apply, Actions.pure_apply,
      Actions.lift_look_heap, hd.peek ht below]
    cases operands[below]? <;> exact ⟨rfl, hd⟩
  | depth =>
    simp only [StackCall.onNode, StackCall.onList, Actions.bind_apply, Actions.pure_apply,
      Actions.lift_look_heap, hd.depth ht]
    exact ⟨trivial, hd⟩

/-! ## Whatever else happens -/

theorem HoldsOperands.sameBut {target : Ref} (hd : h.HoldsOperands stack capacity operands) (hb : SameBut target h h')
    (hother : target ≠ stack) : h'.HoldsOperands stack capacity operands := by
  have hsize : h.sizeAt stack.index = headerSize + (capacity + 1) := by rw [sizeAt, hd.size]
  have hword := hb.words hd.valid hother.symm
  rw [hsize] at hword
  unfold headerSize at hword
  refine ⟨hd.bounded, hb.valid_iff.mpr hd.valid, ?_, ?_, ?_, fun {k v} hk => ?_⟩
  · exact (hword 0 (by omega)).trans hd.tag
  · exact (hword 1 (by omega)).trans hd.size
  · exact (hword 2 (by omega)).trans hd.children
  · have hlt := (List.getElem?_eq_some_iff.mp hk).1
    rw [length_operandWords hd.bounded] at hlt
    rw [Nat.add_assoc, hword _ (by unfold headerSize; omega), ← Nat.add_assoc]
    exact hd.words hk

theorem operandWords_map (image : Ref → Ref) :
    operandWords capacity (operands.map image) = (operandWords capacity operands).map (Word.mapRef image) := by
  simp [operandWords, Word.mapRef, Function.comp_def]

theorem HoldsOperands.alike {stack' : Ref} {image : Ref → Ref} (hd : h.HoldsOperands stack capacity operands)
    (ha : h.Alike h' image stack stack') (ht : h.Tidy) (ht' : h'.Tidy) :
    h'.HoldsOperands stack' capacity (operands.map image) := by
  have hv' := ha.valid ht'
  have hhead := ha.head ht ht' hd.valid hv'
  have hsize : h.sizeAt stack.index = headerSize + (capacity + 1) := by rw [sizeAt, hd.size]
  have hchildren : h.childrenAt stack.index = capacity := by rw [childrenAt, hd.children]
  refine ⟨by simpa using hd.bounded, hv', (hhead 0 (by decide)).trans hd.tag,
    (hhead 1 (by decide)).trans hd.size, (hhead 2 (by decide)).trans hd.children, fun {k v} hk => ?_⟩
  rw [operandWords_map, List.getElem?_map, Option.map_eq_some_iff] at hk
  obtain ⟨w, hw, rfl⟩ := hk
  have hlt := (List.getElem?_eq_some_iff.mp hw).1
  rw [length_operandWords hd.bounded] at hlt
  rw [Nat.add_assoc, ha.word ht ht' hd.valid hv' (Nat.le_add_right _ _) (by omega), ← Nat.add_assoc,
    hd.words hw]
  split
  · rfl
  · -- only the number of operands is left, which no collection looks at
    have hle := hd.bounded
    obtain rfl : capacity = k := by omega
    rw [operandWords, List.getElem?_append_right (by simp; omega)] at hw
    obtain rfl : Word.count operands.length = w := by simpa [Nat.add_sub_cancel' hle] using hw
    rfl

end

end Heap

theorem Adds.holds {h h' : Heap} {capacity : Nat} (ha : Adds .empty h h' (.operandStack [] capacity))
    (hh : h.Halved) (ht' : h'.Tidy) : h'.HoldsOperands ⟨h.free, h.epoch⟩ capacity [] := by
  refine (Heap.holdsOperands_iff ht').mpr ⟨Nat.zero_le _, ⟨ha.epoch.symm, ha.tag, ha.size, ha.children,
    Node.header_le_size _, ?_, ha.free.ge, ht'.halved.free_inside⟩, ?_⟩
  · rw [ha.base]
    exact hh.base_le
  · intro k c hk
    exact (ha.cells hk).mono (fun hplace => by cases hplace) fun hholds => hholds

/-! ## Every use -/

namespace StackUse

variable {ρ : Type} [RootSet ρ] {capacity : Nat} {u u' : StackUse ρ}

/-- The stack has its operands in a sound heap, whose roots are valid. -/
structure Kept (capacity : Nat) (u : StackUse ρ) : Prop where
  sound : u.store.heap.Sound
  roots : ∀ r ∈ RootSet.toList u.store.roots, u.store.heap.Valid r
  rooted : u.stack ∈ RootSet.toList u.store.roots
  holds : u.store.heap.HoldsOperands u.stack capacity u.operands

theorem Kept.traced (hk : u.Kept capacity) {r : Ref} (hr : r ∈ u.operands) :
    u.store.heap.Traced (RootSet.toList u.store.roots) r :=
  .child (.root hk.rooted) hk.holds.valid ((hk.holds.child_iff hk.sound.toTidy r).mpr hr)

/-- What only the stack could lead to is within reach as long as it is an operand. -/
theorem Kept.traced_iff (hk : u.Kept capacity) {r : Ref} (hroots : r ∉ RootSet.toList u.store.roots)
    (hothers : ∀ r', u.store.heap.Traced (RootSet.toList u.store.roots) r' →
      u.store.heap.Child r'.index r → r' = u.stack ∨ r' = r) :
    u.store.heap.Traced (RootSet.toList u.store.roots) r ↔ r ∈ u.operands := by
  refine ⟨fun hr => ?_, hk.traced⟩
  by_contra hnot
  -- the induction needs to go over all nodes within reach: none of them is `r`
  suffices hne : ∀ r', u.store.heap.Traced (RootSet.toList u.store.roots) r' → r' ≠ r from hne r hr rfl
  intro r' hr'
  induction hr' with
  | root hmem =>
    rintro rfl
    exact hroots hmem
  | child htraced _ hchild ih =>
    rintro rfl
    rcases hothers _ htraced hchild with rfl | heq
    · exact hnot ((hk.holds.child_iff hk.sound.toTidy _).mp hchild)
    · exact ih heq

theorem Kept.relocate (hk : u.Kept capacity) {s' : Store ρ} {image : Ref → Ref}
    (hmoved : u.store.Relocates s' image) (hs' : s'.heap.Sound) :
    Kept capacity ⟨s', image u.stack, u.operands.map image⟩ where
  sound := hs'
  roots := by
    rw [hmoved.replaced]
    intro r' hr'
    obtain ⟨r, hr, rfl⟩ := List.mem_map.mp hr'
    exact (hmoved.alike (.root hr)).valid hs'.toTidy
  rooted := by
    rw [hmoved.replaced]
    exact List.mem_map_of_mem hk.rooted
  holds := hk.holds.alike (hmoved.alike (.root hk.rooted)) hk.sound.toTidy hs'.toTidy

variable [LawfulRootSet ρ]

theorem Kept.step (hk : u.Kept capacity) (hstep : Step capacity u u') : u'.Kept capacity := by
  cases hstep with
  | call c hvalid =>
    obtain ⟨hs', hb⟩ := (Heap.writes_onNode u.stack c u.store.heap).sound hk.sound hvalid
    exact ⟨hs', fun r hr => hb.valid_iff.mpr (hk.roots r hr), hk.rooted,
      (hk.holds.call hk.sound.toTidy c).2⟩
  | set hset hother hvalid =>
    obtain ⟨hs', hb⟩ := (hset.writes u.store.heap).sound hk.sound hvalid
    exact ⟨hs', fun r hr => hb.valid_iff.mpr (hk.roots r hr), hk.rooted, hk.holds.sameBut hb hother⟩
  | make hmake hmoved =>
    obtain ⟨texts, n, hbuilds⟩ := hmake.builds
    exact hk.relocate hmoved (hbuilds.relocates hk.sound u.store.roots hk.roots).1
  | collect hmoved =>
    refine hk.relocate hmoved ?_
    obtain ⟨h', image, hrun, hs', -⟩ := hk.sound.collect u.store.roots hk.roots
    rw [Actions.after, hrun]
    exact hs'
  | reroot roots hvalid hrooted => exact ⟨hk.sound, hvalid, hrooted, hk.holds⟩

theorem Reached.kept (hu : u.Reached capacity) : u.Kept capacity := by
  induction hu with
  | @new s s' stack hs hroots hnew roots hvalid hrooted =>
    obtain ⟨h₁, roots', image, hs₁, -, ⟨e, hrun⟩ | ⟨h', hrun, ha, hs'⟩⟩ :=
      (@builds_operandStack ρ _ .empty capacity).outcome hs s.roots hroots
    · rw [hnew] at hrun
      cases hrun
    · rw [hnew] at hrun
      cases hrun
      exact ⟨hs', hvalid, hrooted, ha.holds hs₁.halved hs'.toTidy⟩
  | step _ hstep ih => exact ih.step hstep

end StackUse

/-- At any moment of its use, an operand stack answers as a list of at most `capacity` references does. All of these
are within reach of the roots. Whatever an allocation or a collection moves, the stack goes on to answer, by the
reference that it then has, as the list of the images does. A collection succeeds at any time, and of the nodes that
nothing but the stack refers to it keeps those that are operands at that time and none that were. -/
theorem operand_stack_answers_as_list {ρ : Type} [RootSet ρ] [LawfulRootSet ρ] {capacity : Nat}
    {u : StackUse ρ} (hu : u.Reached capacity) :
    u.operands.length ≤ capacity ∧
      (∀ r ∈ u.operands, u.store.heap.Traced (RootSet.toList u.store.roots) r) ∧
      (∀ c : StackCall,
        Actions.answer (c.onNode u.stack) u.store.heap = Actions.answer (c.onList capacity) u.operands) ∧
      (∀ {make}, Constructor ρ make → ∃ image, u.store.Relocates (Actions.after make u.store) image) ∧
      ∃ s' image, Store.collect u.store = .ok () s' ∧ u.store.Relocates s' image ∧
        u.store.heap.Image (u.store.heap.Traced (RootSet.toList u.store.roots)) s'.heap image ∧
        ∀ r, r ∉ RootSet.toList u.store.roots →
          (∀ r', u.store.heap.Traced (RootSet.toList u.store.roots) r' →
            u.store.heap.Child r'.index r → r' = u.stack ∨ r' = r) →
          (u.store.heap.Traced (RootSet.toList u.store.roots) r ↔ r ∈ u.operands) := by
  have hk := hu.kept
  obtain ⟨h', image, hrun, -, himage, hrel⟩ := hk.sound.collect u.store.roots hk.roots
  refine ⟨hk.holds.bounded, fun r hr => hk.traced hr, fun c => (hk.holds.call hk.sound.toTidy c).1,
    fun {make} hmake => ?_, _, image, hrun, ?_, himage, fun r hroots hothers => hk.traced_iff hroots hothers⟩
  · obtain ⟨texts, n, hbuilds⟩ := hmake.builds
    exact (hbuilds.relocates hk.sound u.store.roots hk.roots).2
  · rw [Store.Relocates, LawfulRootSet.toList_replace _ _ (List.length_map _)]
    exact hrel

/-- A box. -/
def crate : Store (Array Ref) := Actions.after (Boxed.new .null) ⟨Heap.ofCapacity 60, #[]⟩

/-- Beside it there is an operand stack with one place, and the box is put into it. -/
def packedCrate : StackUse (Array Ref) where
  store := ⟨Actions.after ((StackCall.push ⟨0, 0⟩).onNode ⟨4, 0⟩)
    (Actions.after (OperandStack.new 1) crate).heap, #[⟨4, 0⟩]⟩
  stack := ⟨4, 0⟩
  operands := [⟨0, 0⟩]

/-- The box is taken off again. -/
def emptiedCrate : StackUse (Array Ref) where
  store := ⟨Actions.after (StackCall.pop.onNode ⟨4, 0⟩) packedCrate.store.heap, #[⟨4, 0⟩]⟩
  stack := ⟨4, 0⟩
  operands := []

theorem reached_packedCrate : packedCrate.Reached 1 := by
  have hnone : ∀ r ∈ RootSet.toList (#[] : Array Ref), ∀ h : Heap, h.Valid r := by simp [RootSet.toList]
  have hbox : crate.heap.Sound := by
    obtain ⟨texts, x, hmeans⟩ := exists_means .null
    exact ((builds_boxed hmeans).relocates (Heap.sound_ofCapacity 60) #[] fun r hr => hnone r hr _).1
  have hroots : crate.roots = #[] := by decide +kernel
  have hs := ((@builds_operandStack (Array Ref) _ .empty 1).relocates hbox crate.roots
    fun r hr => hnone r (hroots ▸ hr) _).1
  have hnew := Actions.eq_of_answer (show Actions.answer (OperandStack.new 1) crate = .ok ⟨4, 0⟩ by
    decide +kernel)
  have hepoch : (Actions.after (OperandStack.new 1) crate).heap.epoch = 0 := by decide +kernel
  have hstack : (Actions.after (OperandStack.new 1) crate).heap.Valid ⟨4, 0⟩ :=
    ⟨hepoch.symm, hs.header_of_tag (by decide +kernel) (by decide +kernel)
      (show _ = Word.tag .operandStack by decide +kernel)⟩
  have hvalue : (Actions.after (OperandStack.new 1) crate).heap.Valid ⟨0, 0⟩ :=
    ⟨hepoch.symm, hs.header_of_tag (by decide +kernel) (by decide +kernel)
      (show _ = Word.tag .boxed by decide +kernel)⟩
  refine .step (.new hbox (fun r hr => hnone r (hroots ▸ hr) _) hnew #[⟨4, 0⟩] ?_ (by decide))
    (.call (.push ⟨0, 0⟩) ?_)
  · intro r hr
    rwa [List.mem_singleton.mp hr]
  · intro r hr
    rwa [List.mem_singleton.mp hr]

theorem reached_emptiedCrate : emptiedCrate.Reached 1 :=
  .step reached_packedCrate (.call .pop fun _ hv => by cases hv)

/-- The box comes off the stack after a collection by its new reference, and until then there is no room for another.
Once it is off the stack, the next collection drops it. -/
theorem operand_stack_answers_as_list_crate :
    (∃ image : Ref → Ref, StackUse.Reached 1
        ⟨Actions.after Store.collect packedCrate.store, image ⟨4, 0⟩, [image ⟨0, 0⟩]⟩ ∧
      Actions.answer (StackCall.pop.onNode (image ⟨4, 0⟩))
        (Actions.after Store.collect packedCrate.store).heap = .ok (.operand (image ⟨0, 0⟩)) ∧
      Actions.answer ((StackCall.push (image ⟨0, 0⟩)).onNode (image ⟨4, 0⟩))
        (Actions.after Store.collect packedCrate.store).heap = .error (.operandStackOverflow 1)) ∧
      ∃ s' image, Store.collect emptiedCrate.store = .ok () s' ∧
        emptiedCrate.store.heap.Image (emptiedCrate.store.heap.Traced [⟨4, 0⟩]) s'.heap image ∧
        ¬ emptiedCrate.store.heap.Traced [⟨4, 0⟩] ⟨0, 0⟩ := by
  constructor
  · obtain ⟨-, -, -, -, s', image, hrun, hmoved, -⟩ := operand_stack_answers_as_list reached_packedCrate
    have hmoved' : packedCrate.store.Relocates (Actions.after Store.collect packedCrate.store) image := by
      rwa [Actions.after, hrun]
    have hreached := reached_packedCrate.step (.collect hmoved')
    obtain ⟨-, -, hanswers, -⟩ := operand_stack_answers_as_list hreached
    exact ⟨image, hreached, hanswers .pop, hanswers (.push _)⟩
  · obtain ⟨-, -, -, -, s', image, hrun, -, himage, hkept⟩ := operand_stack_answers_as_list reached_emptiedCrate
    refine ⟨s', image, hrun, himage, fun htraced => ?_⟩
    have honly : ∀ r', emptiedCrate.store.heap.Traced [⟨4, 0⟩] r' → r' = ⟨4, 0⟩ := by
      intro r' hr'
      induction hr' with
      | root hmem => exact List.mem_singleton.mp hmem
      | child _ _ hchild ih =>
        subst ih
        obtain ⟨k, hk, hword⟩ := hchild
        rw [show emptiedCrate.store.heap.childrenAt (⟨4, 0⟩ : Ref).index = 1 by decide +kernel] at hk
        obtain rfl : k = 0 := by omega
        rw [show emptiedCrate.store.heap.word ((⟨4, 0⟩ : Ref).index + headerSize + 0) = .empty by
          decide +kernel] at hword
        cases hword
    have hgone := (hkept ⟨0, 0⟩ (by decide) fun r' hr' _ => .inl (honly r' hr')).mp htraced
    cases hgone

end ClosureMachine
