import ClosureMachine.Proofs.Ideal.Allocate

/-!
# Access to nodes

Whatever the machine asks of a node in the heap, the ideal node answers the same, up to the place that
stands for a node; and whatever it writes, the heap then represents the changed list of nodes. There is
one lemma for each accessor. Above this module nobody looks at words any more.

`NodeM` is the monad of actions on ideal nodes. `HeapSim` says that an action on the heap and one on ideal
nodes go together: both succeed, or both fail for the same reason.
-/

set_option autoImplicit false

namespace ClosureMachine

open Heap (headerSize)
open ClosureMachine.Ideal

/-! ## Actions on ideal nodes -/

namespace Ideal

/-- An action on the nodes. -/
abbrev NodeM := EStateM HeapError (List Node)

/-- Asks something of a node. -/
def look {β : Type} (l : Loc) (ask : Node → Except HeapError β) : NodeM β := fun nodes =>
  match nodes[l]? with
  | none => .error (.staleReference 0) nodes
  | some n =>
    match ask n with
    | .ok b => .ok b nodes
    | .error e => .error e nodes

/-- Replaces a node, and tells something about it. -/
def alter {β : Type} (l : Loc) (change : Node → Except HeapError (β × Node)) : NodeM β := fun nodes =>
  match nodes[l]? with
  | none => .error (.staleReference 0) nodes
  | some n =>
    match change n with
    | .ok (b, n') => .ok b (nodes.set l n')
    | .error e => .error e nodes

/-- Replaces a node. -/
def change (l : Loc) (f : Node → Except HeapError Node) : NodeM Unit :=
  alter l fun n => (f n).map fun n' => ((), n')

/-- Puts an environment inside another one. -/
def setEnclosing (env outer : Loc) : NodeM Unit := do
  look outer (Node.expect .environment)
  change env (Node.setEnclosing outer)

def setClosureEnv (closure env : Loc) : NodeM Unit := do
  look closure (Node.expect .closure)
  look env (Node.expect .environment)
  change closure (Node.setClosureEnv env)

def setFrameEnv (frame env : Loc) : NodeM Unit := do
  look frame Node.expectFrame
  look env (Node.expect .environment)
  change frame (Node.setFrameEnv env)

def setFrameStack (frame stack : Loc) : NodeM Unit := do
  look frame (Node.expect .callFrame)
  look stack (Node.expect .operandStack)
  change frame (Node.setFrameStack stack)

/-- The environment that is `frames` steps outward, if the chain is that long. -/
def outward (env : Loc) : (frames : Nat) → NodeM (Option Loc)
  | 0 => return some env
  | frames + 1 => do
    match ← look env Node.enclosing? with
    | some outer => outward outer frames
    | none => return none

end Ideal

/-! ## Actions that go together -/

/-- The reference is the place of the node. -/
def World.At (w : World) (r : Ref) (l : Loc) : Prop := w.place l = some r

/-- The outcomes of an action on the heap `h₀` and of one on ideal nodes. -/
def SameOutcome {α β : Type} (w : World) (h₀ : Heap) (V : α → β → Prop) :
    EStateM.Result HeapError Heap α → EStateM.Result HeapError (List Node) β → Prop
  | .ok a h, .ok b nodes => (Represents w h nodes ∧ h₀.Rests h) ∧ V a b
  | .error e h, .error e' nodes => (Represents w h nodes ∧ h₀.Rests h) ∧ e' = e.anywhere
  | _, _ => False

/-- The two actions do the same. -/
def HeapSim {α β : Type} (w : World) (x : HeapM α) (y : NodeM β) (V : α → β → Prop) : Prop :=
  ∀ ⦃h : Heap⦄ ⦃nodes : List Node⦄, Represents w h nodes →
    SameOutcome w h V (x h) (y nodes)

section HeapSim

variable {α β γ δ : Type} {w : World}

theorem HeapSim.pure {V : α → β → Prop} {a : α} {b : β} (hv : V a b) :
    HeapSim w (pure a) (pure b) V :=
  fun h _ hr => ⟨⟨hr, .refl h⟩, hv⟩

theorem HeapSim.bind {x : HeapM α} {y : NodeM β} {V : α → β → Prop} {f : α → HeapM γ}
    {g : β → NodeM δ} {V' : γ → δ → Prop} (hxy : HeapSim w x y V)
    (hfg : ∀ {a b}, V a b → HeapSim w (f a) (g b) V') : HeapSim w (x >>= f) (y >>= g) V' := by
  intro h nodes hr
  have hout := hxy hr
  rw [Actions.bind_apply, Actions.bind_apply]
  cases hx : x h <;> cases hy : y nodes <;> rw [hx, hy] at hout
  · obtain ⟨⟨hr', hrests⟩, hv⟩ := hout
    rename_i a h' b nodes'
    have hrest := hfg hv hr'
    dsimp only
    cases hf : f a h' <;> cases hg : g b nodes' <;> rw [hf, hg] at hrest
    · exact ⟨⟨hrest.1.1, hrests.trans hrest.1.2⟩, hrest.2⟩
    · exact hrest.elim
    · exact hrest.elim
    · exact ⟨⟨hrest.1.1, hrests.trans hrest.1.2⟩, hrest.2⟩
  · exact hout.elim
  · exact hout.elim
  · exact hout

end HeapSim

/-! ## Looking -/

/-- Answers of a heap and of an ideal node. -/
def SameAnswer {α β : Type} (V : α → β → Prop) : Except HeapError α → Except HeapError β → Prop
  | .ok a, .ok b => V a b
  | .error e, .error e' => e' = e.anywhere
  | _, _ => False

/-- A question that an ideal node answers is answered in memory too. -/
theorem SameAnswer.exists_of_ok {α β : Type} {V : α → β → Prop} {x : Except HeapError α} {b : β}
    (h : SameAnswer V x (.ok b)) : ∃ a, x = .ok a ∧ V a b := by
  cases x with
  | error e => exact h.elim
  | ok a => exact ⟨a, rfl, h⟩

theorem SameAnswer.exists_of_error {α β : Type} {V : α → β → Prop} {x : Except HeapError α} {e' : HeapError}
    (hs : SameAnswer V x (.error e')) : ∃ e, x = .error e ∧ e' = e.anywhere := by
  cases x with
  | ok a => exact hs.elim
  | error e => exact ⟨e, rfl, hs⟩

/-- A question to a placed node. -/
theorem HeapSim.look {α β : Type} {w : World} {V : α → β → Prop} {l : Loc} {r : Ref}
    (hl : w.At r l) {probe : Probe α} {ask : Node → Except HeapError β}
    (hask : ∀ {h n}, w.Placed h r n → SameAnswer V (probe h) (ask n)) :
    HeapSim w (liftM probe) (look l ask) V := by
  intro h nodes hr
  obtain ⟨n, hn, hp⟩ := hr.placed hl
  have hans := hask hp
  rw [Actions.lift_look_heap]
  simp only [Ideal.look, hn]
  cases hx : probe h <;> cases hy : ask n <;> rw [hx, hy] at hans
  · exact ⟨⟨hr, .refl h⟩, hans⟩
  · exact hans.elim
  · exact hans.elim
  · exact ⟨⟨hr, .refl h⟩, hans⟩

namespace World.Placed

variable {w : World} {h : Heap} {r : Ref} {n : Node}

theorem read_eq (hp : w.Placed h r n) {k : Nat} (hk : k < n.cells.length) :
    Heap.read r (headerSize + k) h = .ok (h.word (r.index + headerSize + k)) := by
  rw [hp.toLeads.read_eq (Nat.le_add_right _ _) (Nat.add_lt_add_left hk _), Nat.add_assoc]

theorem write_eq (hp : w.Placed h r n) {k : Nat} (hk : k < n.cells.length) (v : Word) :
    Heap.write r (headerSize + k) v h = .ok () (h.setWord (r.index + headerSize + k) v) := by
  rw [hp.toLeads.write_eq (Nat.le_add_right _ _) (Nat.add_lt_add_left hk _), Nat.add_assoc]

theorem readCount_eq (hp : w.Placed h r n) {k m : Nat} (hk : n.cells[k]? = some (.count m)) :
    Heap.readCount r (headerSize + k) h = .ok m := by
  have hlt : k < n.cells.length := (List.getElem?_eq_some_iff.mp hk).1
  have hw : h.word (r.index + headerSize + k) = .count m := hp.cells hk
  simp [Heap.readCount, hp.read_eq hlt, hw]

theorem readRef_eq (hp : w.Placed h r n) {k : Nat} {l : Loc} (hk : n.cells[k]? = some (.ref l)) :
    ∃ r', w.At r' l ∧ Heap.readRef r (headerSize + k) h = .ok r' := by
  have hlt : k < n.cells.length := (List.getElem?_eq_some_iff.mp hk).1
  obtain ⟨r', hl, hw⟩ := hp.cells hk
  exact ⟨r', hl, by simp [Heap.readRef, hp.read_eq hlt, hw]⟩

theorem readRef_nil (hp : w.Placed h r n) {k : Nat} (hk : n.cells[k]? = some .nil) :
    Heap.readRef r (headerSize + k) h =
      .error (.unexpectedWord r.index (headerSize + k) "node reference" .nil) := by
  have hlt : k < n.cells.length := (List.getElem?_eq_some_iff.mp hk).1
  have hw : h.word (r.index + headerSize + k) = .nil := hp.cells hk
  simp [Heap.readRef, hp.read_eq hlt, hw]

/-- A link is read, if it has been set. -/
theorem readLink (hp : w.Placed h r n) {k : Nat} (link : Option Loc)
    (hk : n.cells[k]? = some (Node.linkCell link)) :
    SameAnswer w.At (Heap.readRef r (headerSize + k) h)
      (match link with
        | some l => .ok l
        | none => .error (Node.missing (headerSize + k))) := by
  cases link with
  | some l =>
    obtain ⟨r', hl, hread⟩ := hp.readRef_eq hk
    rw [hread]
    exact hl
  | none =>
    rw [hp.readRef_nil hk]
    exact rfl

/-! ### One lemma for each question -/

theorem answers_kind (hp : w.Placed h r n) :
    SameAnswer (· = ·) (Heap.kind r h) (.ok n.kind) := by
  rw [hp.kind_eq]
  exact rfl

theorem answers_expect (hp : w.Placed h r n) (expected : Kind) :
    SameAnswer (fun _ _ => True) (Heap.expect r expected h) (n.expect expected) := by
  rw [hp.expect_eq, Node.expect]
  by_cases hk : n.kind = expected
  · simp [hk, SameAnswer]
  · simp [hk, SameAnswer, Node.mismatch, HeapError.anywhere]

theorem answers_expectFrame (hp : w.Placed h r n) :
    SameAnswer (fun _ _ => True) (Frame.expect r h) n.expectFrame := by
  cases n <;> simp [Frame.expect, hp.kind_eq, Node.kind, Node.expectFrame, SameAnswer, Node.mismatch,
    HeapError.anywhere]

theorem environmentSize_eq {slots : List (Option Loc)} {outer : Option Loc}
    (hp : w.Placed h r (.environment slots outer)) : Environment.size r h = .ok slots.length := by
  simp [Environment.size, hp.expect_eq, Node.kind, hp.childCount_eq, Node.children]

theorem answers_slot? (hp : w.Placed h r n) (slot : Nat) :
    SameAnswer (Option.Rel w.At) (Environment.slot? r slot h) (n.slot? slot) := by
  cases n with
  | environment slots outer =>
    by_cases hlt : slot < slots.length
    · have hcell : (Node.environment slots outer).cells[slot]? = some (Node.slotCell slots[slot]) := by
        simp [Node.cells, List.getElem?_append_left, hlt]
      have hread := hp.read_eq (List.getElem?_eq_some_iff.mp hcell).1
      have hshow := hp.cells hcell
      simp only [Node.slot?, List.getElem?_eq_getElem hlt]
      cases hs : slots[slot] with
      | none =>
        rw [hs] at hshow
        have hw : h.word (r.index + headerSize + slot) = .unassigned := hshow
        simp [Environment.slot?, Environment.slotOffset, hp.environmentSize_eq, Nat.not_le.mpr hlt,
          hread, hw, SameAnswer]
      | some l =>
        rw [hs] at hshow
        obtain ⟨r', hl, hw⟩ := hshow
        simpa [Environment.slot?, Environment.slotOffset, hp.environmentSize_eq,
          Nat.not_le.mpr hlt, hread, hw, SameAnswer, World.At] using hl
    · simp [Environment.slot?, Environment.slotOffset, hp.environmentSize_eq, Nat.not_lt.mp hlt,
        Node.slot?, SameAnswer]
  | _ => simp [Environment.slot?, Environment.slotOffset, Environment.size, hp.expect_eq, Node.kind,
      Node.slot?, SameAnswer, Node.mismatch, HeapError.anywhere]

theorem answers_enclosing? (hp : w.Placed h r n) :
    SameAnswer (Option.Rel w.At) (Environment.enclosing? r h) n.enclosing? := by
  cases n with
  | environment slots outer =>
    have hcell : (Node.environment slots outer).cells[slots.length]? =
        some (Node.linkCell outer) := by
      simp [Node.cells]
    have hread := hp.read_eq (List.getElem?_eq_some_iff.mp hcell).1
    have hshow := hp.cells hcell
    cases outer with
    | none =>
      have hw : h.word (r.index + headerSize + slots.length) = .nil := hshow
      simp [Environment.enclosing?, hp.environmentSize_eq, hread, hw, Node.enclosing?, SameAnswer]
    | some l =>
      obtain ⟨r', hl, hw⟩ := hshow
      simpa [Environment.enclosing?, hp.environmentSize_eq, hread, hw, Node.enclosing?,
        SameAnswer, World.At] using hl
  | _ => simp [Environment.enclosing?, Environment.size, hp.expect_eq, Node.kind, Node.enclosing?,
      SameAnswer, Node.mismatch, HeapError.anywhere]

theorem answers_closureEnv (hp : w.Placed h r n) :
    SameAnswer w.At (Closure.env r h) n.closureEnv := by
  cases n with
  | closure env arity entry stack =>
    have hlink := hp.readLink (k := 0) env rfl
    simp only [Closure.env, Actions.look_bind, hp.expect_eq, Node.kind, if_true]
    cases env <;> exact hlink
  | _ => simp [Closure.env, hp.expect_eq, Node.kind, Node.closureEnv, SameAnswer, Node.mismatch,
      HeapError.anywhere]

theorem answers_arity (hp : w.Placed h r n) :
    SameAnswer (· = ·) (Closure.arity r h) n.arity := by
  cases n with
  | closure env arity entry stack =>
    have hread := hp.readCount_eq (k := 1) rfl
    simp [Closure.arity, hp.expect_eq, Node.kind, hread, Node.arity, SameAnswer]
  | _ => simp [Closure.arity, hp.expect_eq, Node.kind, Node.arity, SameAnswer, Node.mismatch,
      HeapError.anywhere]

theorem answers_entry (hp : w.Placed h r n) :
    SameAnswer (· = ·) (Closure.entry r h) n.entry := by
  cases n with
  | closure env arity entry stack =>
    have hread := hp.readCount_eq (k := 2) rfl
    simp [Closure.entry, hp.expect_eq, Node.kind, hread, Node.entry, SameAnswer]
  | _ => simp [Closure.entry, hp.expect_eq, Node.kind, Node.entry, SameAnswer, Node.mismatch,
      HeapError.anywhere]

theorem answers_capacity (hp : w.Placed h r n) :
    SameAnswer (· = ·) (Closure.stack r h) n.capacity := by
  cases n with
  | closure env arity entry stack =>
    have hread := hp.readCount_eq (k := 3) rfl
    simp [Closure.stack, hp.expect_eq, Node.kind, hread, Node.capacity, SameAnswer]
  | _ => simp [Closure.stack, hp.expect_eq, Node.kind, Node.capacity, SameAnswer, Node.mismatch,
      HeapError.anywhere]

theorem answers_primitiveId (hp : w.Placed h r n) :
    SameAnswer (· = ·) (PrimitiveFunction.id r h) n.primitiveId := by
  cases n with
  | primitive id =>
    have hread : Heap.readCount r headerSize h = .ok id := hp.readCount_eq (k := 0) rfl
    simp [PrimitiveFunction.id, hp.expect_eq, Node.kind, hread, Node.primitiveId, SameAnswer]
  | _ => simp [PrimitiveFunction.id, hp.expect_eq, Node.kind, Node.primitiveId, SameAnswer,
      Node.mismatch, HeapError.anywhere]

theorem answers_frameEnv (hp : w.Placed h r n) :
    SameAnswer w.At (Frame.env r h) n.frameEnv := by
  cases n with
  | callFrame env stack returnAddress =>
    have hlink := hp.readLink (k := 0) env rfl
    simp only [Frame.env, Frame.expect, Actions.look_bind, hp.kind_eq, Node.kind, Actions.look_pure]
    cases env <;> exact hlink
  | blockFrame env =>
    have hlink := hp.readLink (k := 0) env rfl
    simp only [Frame.env, Frame.expect, Actions.look_bind, hp.kind_eq, Node.kind, Actions.look_pure]
    cases env <;> exact hlink
  | _ => simp [Frame.env, Frame.expect, hp.kind_eq, Node.kind, Node.frameEnv, SameAnswer,
      Node.mismatch, HeapError.anywhere]

theorem answers_frameStack (hp : w.Placed h r n) :
    SameAnswer w.At (CallFrame.stack r h) n.frameStack := by
  cases n with
  | callFrame env stack returnAddress =>
    have hlink := hp.readLink (k := 1) stack rfl
    simp only [CallFrame.stack, Actions.look_bind, hp.expect_eq, Node.kind, if_true]
    cases stack <;> exact hlink
  | _ => simp [CallFrame.stack, hp.expect_eq, Node.kind, Node.frameStack, SameAnswer, Node.mismatch,
      HeapError.anywhere]

theorem answers_returnAddress (hp : w.Placed h r n) :
    SameAnswer (· = ·) (CallFrame.returnAddress r h) n.returnAddress := by
  cases n with
  | callFrame env stack returnAddress =>
    have hread := hp.readCount_eq (k := 2) rfl
    simp [CallFrame.returnAddress, hp.expect_eq, Node.kind, hread, Node.returnAddress, SameAnswer]
  | _ => simp [CallFrame.returnAddress, hp.expect_eq, Node.kind, Node.returnAddress, SameAnswer,
      Node.mismatch, HeapError.anywhere]

/-- The capacity and the number of operands of an operand stack. -/
theorem stack_eq {operands : List Loc} {room : Nat}
    (hp : w.Placed h r (.operandStack operands room)) :
    OperandStack.capacity r h = .ok (operands.length + room) ∧
      Heap.readCount r (headerSize + (operands.length + room)) h = .ok operands.length := by
  constructor
  · simp [OperandStack.capacity, hp.expect_eq, Node.kind, hp.childCount_eq, Node.children]
  · refine hp.readCount_eq ?_
    rw [Node.cells, List.getElem?_append_right (by simp)]
    simp

theorem answers_depth (hp : w.Placed h r n) :
    SameAnswer (· = ·) (OperandStack.depth r h) n.depth := by
  cases n with
  | operandStack operands room =>
    obtain ⟨hcap, htop⟩ := hp.stack_eq
    simp [OperandStack.depth, hcap, htop, Node.depth, SameAnswer]
  | _ => simp [OperandStack.depth, OperandStack.capacity, hp.expect_eq, Node.kind, Node.depth,
      SameAnswer, Node.mismatch, HeapError.anywhere]

/-- The operand that is `below` places below the top. -/
theorem operandCell {operands : List Loc} (room : Nat) {below : Nat} {value : Loc}
    (hb : operands[below]? = some value) :
    (Node.operandStack operands room).cells[operands.length - 1 - below]? = some (.ref value) := by
  have hlt : below < operands.length := (List.getElem?_eq_some_iff.mp hb).1
  rw [Node.cells, List.append_assoc, List.getElem?_append_left (by simp; omega), List.getElem?_map,
    List.getElem?_reverse (by omega)]
  rw [show operands.length - 1 - (operands.length - 1 - below) = below by omega, hb]
  rfl

theorem answers_peek (hp : w.Placed h r n) (below : Nat) :
    SameAnswer w.At (OperandStack.peek r below h) (n.peek below) := by
  cases n with
  | operandStack operands room =>
    obtain ⟨hcap, htop⟩ := hp.stack_eq
    by_cases hlt : below < operands.length
    · have hb := List.getElem?_eq_getElem hlt
      obtain ⟨r', hl, hread⟩ := hp.readRef_eq (operandCell room hb)
      have hoff : headerSize + operands.length - 1 - below =
          headerSize + (operands.length - 1 - below) := by omega
      simp only [OperandStack.peek, OperandStack.depth, Actions.look_bind, hcap, htop,
        if_neg (Nat.not_le.mpr hlt), hoff, Node.peek, hb, hread]
      exact hl
    · simp [OperandStack.peek, OperandStack.depth, hcap, htop, Nat.not_lt.mp hlt, Node.peek,
        SameAnswer, HeapError.anywhere]
  | _ => simp [OperandStack.peek, OperandStack.depth, OperandStack.capacity, hp.expect_eq, Node.kind,
      Node.peek, SameAnswer, Node.mismatch, HeapError.anywhere]

theorem answers_argument (hp : w.Placed h r n) {l : Loc} (hl : w.At r l) :
    SameAnswer w.Stands (Operand.of r h) (n.argument l) := by
  cases n with
  | boxed x =>
    obtain ⟨d, hw, hm⟩ := hp.cells (k := 0) rfl
    have hread : Heap.read r headerSize h = .ok (.datum d) := by
      rw [← hw]
      exact hp.read_eq (k := 0) (by simp [Node.cells])
    simpa [Operand.of, hp.kind_eq, Node.kind, Boxed.value, hp.expect_eq, hread, Node.argument,
      SameAnswer, World.Stands] using hm
  | closure env arity entry stack =>
    have harity := hp.answers_arity
    cases ha : Closure.arity r h <;> rw [ha] at harity
    · exact harity.elim
    · obtain rfl : _ = arity := harity
      simpa [Operand.of, hp.kind_eq, Node.kind, ha, Node.argument, SameAnswer, World.Stands, World.At]
        using hl
  | primitive id =>
    have hid := hp.answers_primitiveId
    cases hi : PrimitiveFunction.id r h <;> rw [hi] at hid
    · exact hid.elim
    · obtain rfl : _ = id := hid
      simp [Operand.of, hp.kind_eq, Node.kind, hi, Node.argument, SameAnswer, World.Stands]
  | _ => simp [Operand.of, hp.kind_eq, Node.kind, Node.argument, SameAnswer, Node.mismatch,
      HeapError.anywhere]

end World.Placed

end ClosureMachine
