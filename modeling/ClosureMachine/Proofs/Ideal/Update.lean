import ClosureMachine.Proofs.Ideal.Access

/-!
# Changes of nodes

A node keeps its kind and its size for life. What changes is the words behind its header, and a change
of these is a change of its cells (`Rewrites`). Again there is one lemma for each operation.
-/

set_option autoImplicit false

namespace ClosureMachine

open Heap (headerSize)
open ClosureMachine.Ideal

/-- The words behind the header at `r` show the cells. -/
def World.ShowsAll (w : World) (h : Heap) (r : Ref) (cells : List Node.Cell) : Prop :=
  ∀ ⦃k : Nat⦄ ⦃c : Node.Cell⦄, cells[k]? = some c → w.Shows c (h.word (r.index + headerSize + k))

theorem World.ShowsAll.set {w : World} {h : Heap} {r : Ref} {cells : List Node.Cell}
    (hs : w.ShowsAll h r cells) (hfit : r.index + headerSize + cells.length ≤ h.words.size) {k : Nat}
    {c : Node.Cell} {v : Word} (hv : w.Shows c v) :
    w.ShowsAll (h.setWord (r.index + headerSize + k) v) r (cells.set k c) := by
  intro k' c' hk'
  have hlt : k' < cells.length := by simpa using (List.getElem?_eq_some_iff.mp hk').1
  by_cases heq : k' = k
  · subst heq
    rw [List.getElem?_set_self hlt] at hk'
    rw [Heap.word_setWord_self _ _ _ (by omega)]
    obtain rfl : c = c' := by simpa using hk'
    exact hv
  · rw [List.getElem?_set_ne (Ne.symm heq)] at hk'
    rw [Heap.word_setWord_ne _ _ (by omega)]
    exact hs hk'

/-- Of the node at `r` only cells have changed, and nothing else in the heap. -/
structure Rewrites (w : World) (h h' : Heap) (r : Ref) (n n' : Node) : Prop where
  kind : n'.kind = n.kind
  length : n'.cells.length = n.cells.length
  children : n'.children = n.children
  words : h'.words.size = h.words.size
  semispace : h'.semispace = h.semispace
  base : h'.base = h.base
  free : h'.free = h.free
  epoch : h'.epoch = h.epoch
  collections : h'.collections = h.collections
  outside : ∀ j, j < r.index + headerSize ∨ r.index + n.size ≤ j → h'.word j = h.word j
  cells : w.ShowsAll h' r n'.cells

theorem Rewrites.size {w : World} {h h' : Heap} {r : Ref} {n n' : Node}
    (hw : Rewrites w h h' r n n') : n'.size = n.size := by
  rw [Node.size, Node.size, hw.length]

theorem Rewrites.rests {w : World} {h h' : Heap} {r : Ref} {n n' : Node}
    (hw : Rewrites w h h' r n n') : h.Rests h' :=
  ⟨hw.semispace, hw.epoch, hw.collections⟩

/-- The changed node stands where the node stood. -/
theorem Rewrites.placed {w : World} {h h' : Heap} {r : Ref} {n n' : Node}
    (hw : Rewrites w h h' r n n') (hp : w.Placed h r n) : w.Placed h' r n' := by
  refine ⟨?_, fun hk => hw.cells hk⟩
  rw [hw.kind, hw.size, hw.children]
  refine hp.toLeads.mono hw.epoch hw.base (Nat.le_of_eq hw.free.symm) ?_ fun k hk => ?_
  · rw [hw.free, hw.words]
    exact hp.inside
  · exact hw.outside _ (.inl (by omega))

/-- The nodes are represented after the change. -/
theorem Represents.changed {w : World} {h h' : Heap} {nodes : List Node} {l : Loc} {r : Ref}
    {n n' : Node} (hr : Represents w h nodes) (hl : w.At r l) (hn : nodes[l]? = some n)
    (hw : Rewrites w h h' r n n') : Represents w h' (nodes.set l n') := by
  have hsizes : ∀ l', wordsOf (nodes.set l n') l' = wordsOf nodes l' := by
    intro l'
    by_cases heq : l = l'
    · subst heq
      rw [wordsOf_eq hn, wordsOf_eq (n := n') (by simp [hr.lt_length hl]), hw.size]
    · simp [wordsOf, List.getElem?_set_ne heq]
  have hp := hr.placed_of hl hn
  refine ⟨?_, ?_, ?_, ?_⟩
  · have hh := hr.halved
    exact ⟨by rw [hw.words, hw.semispace, hh.size], by rw [hw.base, hw.semispace]; exact hh.base,
      by rw [hw.base, hw.free]; exact hh.base_le,
      by rw [hw.free, hw.base, hw.semispace]; exact hh.free_le⟩
  · intro l' r' hl'
    by_cases heq : l = l'
    · subst heq
      obtain rfl : r = r' := by simpa [World.At, hl'] using hl.symm
      exact ⟨n', by simp [hr.lt_length hl'], hw.placed hp⟩
    · obtain ⟨n₁, hn₁, hp₁⟩ := hr.placed hl'
      refine ⟨n₁, by rw [List.getElem?_set_ne heq]; exact hn₁, ?_⟩
      have hap := hr.apart hl hl' heq
      rw [wordsOf_eq hn, wordsOf_eq hn₁] at hap
      have hsame : ∀ k < n₁.size, h'.word (r'.index + k) = h.word (r'.index + k) :=
        fun k hk => hw.outside _ (by omega)
      have hpos := n₁.header_le_size
      refine ⟨hp₁.toLeads.mono hw.epoch hw.base (Nat.le_of_eq hw.free.symm) ?_ fun k hk => ?_, ?_⟩
      · rw [hw.free, hw.words]
        exact hp₁.inside
      · exact hsame k (by omega)
      · intro k c hk
        have hlt : k < n₁.cells.length := (List.getElem?_eq_some_iff.mp hk).1
        rw [Nat.add_assoc, hsame (headerSize + k) (by unfold Node.size; omega), ← Nat.add_assoc]
        exact hp₁.cells hk
  · intro l₁ l₂ r₁ r₂ h₁ h₂ hne
    rw [hsizes, hsizes]
    exact hr.apart h₁ h₂ hne
  · intro i hlower hupper
    rw [hw.base] at hlower
    rw [hw.free] at hupper
    obtain ⟨l', r', hl', hle, hlt⟩ := hr.covered hlower hupper
    exact ⟨l', r', hl', hle, by rwa [hsizes]⟩

/-- A node of the heap lies inside the array. -/
theorem World.Placed.fits {w : World} {h : Heap} {r : Ref} {n : Node} (hp : w.Placed h r n) :
    r.index + headerSize + n.cells.length ≤ h.words.size := by
  rw [Nat.add_assoc]
  exact hp.upper.trans hp.inside

/-- The node with one cell replaced. -/
structure Replaces (n n' : Node) (k : Nat) (c : Node.Cell) : Prop where
  kind : n'.kind = n.kind
  children : n'.children = n.children
  lt : k < n.cells.length
  cells : n'.cells = n.cells.set k c

theorem Rewrites.write {w : World} {h : Heap} {r : Ref} {n n' : Node} {k : Nat} {c : Node.Cell}
    {v : Word} (hp : w.Placed h r n) (hn : Replaces n n' k c) (hv : w.Shows c v) :
    Rewrites w h (h.setWord (r.index + headerSize + k) v) r n n' := by
  have hlt := hn.lt
  refine ⟨hn.kind, by simp [hn.cells], hn.children, by simp, rfl, rfl, rfl, rfl, rfl, ?_, ?_⟩
  · intro j hj
    exact Heap.word_setWord_ne _ _ (by unfold Node.size at hj; omega)
  · rw [hn.cells]
    exact World.ShowsAll.set (fun _ _ hk => hp.cells hk) hp.fits hv

/-! ## Actions that change a node -/

/-- Outcomes of a change in the heap and of a change of an ideal node. -/
def SameChange {α β : Type} (w : World) (h : Heap) (r : Ref) (n : Node) (V : α → β → Prop) :
    EStateM.Result HeapError Heap α → Except HeapError (β × Node) → Prop
  | .ok a h', .ok (b, n') => Rewrites w h h' r n n' ∧ V a b
  | .error e h', .error e' => h' = h ∧ e' = e.anywhere
  | _, _ => False

section

variable {α β : Type} {w : World} {h : Heap} {r : Ref} {n : Node} {V : α → β → Prop}
  {x : EStateM.Result HeapError Heap α}

theorem SameChange.exists_of_ok {b : β} {n' : Node} (hs : SameChange w h r n V x (.ok (b, n'))) :
    ∃ a h', x = .ok a h' ∧ Rewrites w h h' r n n' ∧ V a b := by
  cases x with
  | ok a h' => exact ⟨a, h', rfl, hs⟩
  | error e h' => exact hs.elim

theorem SameChange.exists_of_error {e' : HeapError} (hs : SameChange w h r n V x (.error e')) :
    ∃ e, x = .error e h ∧ e' = e.anywhere := by
  cases x with
  | ok a h' => exact hs.elim
  | error e h' =>
    obtain ⟨rfl, he⟩ := hs
    exact ⟨e, rfl, he⟩

end

theorem HeapSim.alter {α β : Type} {w : World} {V : α → β → Prop} {l : Loc} {r : Ref}
    (hl : w.At r l) {x : HeapM α} {f : Node → Except HeapError (β × Node)}
    (hchange : ∀ {h n}, w.Placed h r n → SameChange w h r n V (x h) (f n)) :
    HeapSim w x (alter l f) V := by
  intro h nodes hr
  obtain ⟨n, hn, hp⟩ := hr.placed hl
  have hout := hchange hp
  simp only [Ideal.alter, hn]
  cases hx : x h <;> cases hy : f n <;> rw [hx, hy] at hout
  · exact hout.elim
  · obtain ⟨hw, hv⟩ := hout
    exact ⟨⟨hr.changed hl hn hw, hw.rests⟩, hv⟩
  · obtain ⟨rfl, he⟩ := hout
    exact ⟨⟨hr, .refl _⟩, he⟩
  · exact hout.elim

theorem heapSim_setSlot {w : World} {l v : Loc} {r rv : Ref} (hl : w.At r l) (hv : w.At rv v)
    (slot : Nat) :
    HeapSim w (Environment.setSlot r slot rv) (change l (Node.setSlot slot v)) (fun _ _ => True) := by
  refine HeapSim.alter hl ?_
  intro h n hp
  cases n with
  | environment slots outer =>
    by_cases hlt : slot < slots.length
    · have hcell : slot < (Node.environment slots outer).cells.length := by
        simp [Node.cells]
        omega
      simp only [Environment.setSlot, Environment.slotOffset, Actions.bind_apply,
        Actions.lift_look_heap, Actions.look_bind, hp.environmentSize_eq, Nat.not_le.mpr hlt, if_false,
        Actions.look_pure, hp.write_eq hcell, Node.setSlot, hlt, if_true]
      refine ⟨Rewrites.write (c := .ref v) hp ⟨rfl, by simp [Node.children], hcell, ?_⟩ ⟨rv, hv, rfl⟩,
        trivial⟩
      simp [Node.cells, List.map_set, Node.slotCell, hlt]
    · simp [Environment.setSlot, Environment.slotOffset, hp.environmentSize_eq, Nat.not_lt.mp hlt,
        Node.setSlot, hlt, SameChange, Except.map]
  | _ => simp [Environment.setSlot, Environment.slotOffset, Environment.size, hp.expect_eq, Node.kind,
      Node.setSlot, SameChange, Node.mismatch, HeapError.anywhere, Except.map]

theorem heapSim_setEnclosing {w : World} {l outer : Loc} {r ro : Ref} (hl : w.At r l)
    (ho : w.At ro outer) :
    HeapSim w (Environment.setEnclosing r ro) (setEnclosing l outer) (fun _ _ => True) := by
  refine HeapSim.bind (HeapSim.look ho fun hp => hp.answers_expect .environment) fun _ => ?_
  refine HeapSim.alter hl ?_
  intro h n hp
  cases n with
  | environment slots link =>
    have hcell : slots.length < (Node.environment slots link).cells.length := by simp [Node.cells]
    simp only [Actions.bind_apply, Actions.lift_look_heap, hp.environmentSize_eq, hp.write_eq hcell,
      Node.setEnclosing]
    refine ⟨Rewrites.write (c := .ref outer) hp ⟨rfl, by simp [Node.children], hcell, ?_⟩
      ⟨ro, ho, rfl⟩, trivial⟩
    simp [Node.cells, Node.linkCell]
  | _ => simp [Environment.size, hp.expect_eq, Node.kind, Node.setEnclosing, SameChange,
      Node.mismatch, HeapError.anywhere, Except.map]

/-- A link is set once both of its ends are of the kinds they should be. -/
theorem HeapSim.link {w : World} {l l' : Loc} {r r' : Ref} (hl : w.At r l) (hl' : w.At r' l')
    {check : Probe Unit} {ask : Node → Except HeapError Unit} (kind : Kind) (k : Nat)
    {f : Node → Except HeapError Node}
    (hask : ∀ {h n}, w.Placed h r n → SameAnswer (fun _ _ => True) (check h) (ask n))
    (hf : ∀ {n}, ask n = .ok () → ∃ n', f n = .ok n' ∧ Replaces n n' k (.ref l')) :
    HeapSim w (do check; Heap.expect r' kind; Heap.write r (headerSize + k) (.ref r'))
      (do Ideal.look l ask; Ideal.look l' (Node.expect kind); Ideal.change l f) (fun _ _ => True) := by
  intro h nodes hr
  obtain ⟨n, hn, hp⟩ := hr.placed hl
  obtain ⟨n₁, hn₁, hp₁⟩ := hr.placed hl'
  have hans := hask hp
  have hans₁ := hp₁.answers_expect kind
  simp only [Actions.bind_apply, Actions.lift_look_heap, Ideal.look, hn]
  cases hx : check h <;> cases hy : ask n <;> rw [hx, hy] at hans
  · exact ⟨⟨hr, .refl h⟩, hans⟩
  · exact hans.elim
  · exact hans.elim
  · simp only [hn₁]
    cases hx₁ : Heap.expect r' kind h <;> cases hy₁ : n₁.expect kind <;> rw [hx₁, hy₁] at hans₁
    · exact ⟨⟨hr, .refl h⟩, hans₁⟩
    · exact hans₁.elim
    · exact hans₁.elim
    · obtain ⟨n', hfn, hrep⟩ := hf hy
      have hw := Rewrites.write hp hrep ⟨r', hl', rfl⟩
      simp only [hp.write_eq hrep.lt, Ideal.change, Ideal.alter, hn, hfn, Except.map]
      exact ⟨⟨hr.changed hl hn hw, hw.rests⟩, trivial⟩

theorem expect_ok {n : Node} {kind : Kind} (h : n.expect kind = .ok ()) : n.kind = kind := by
  unfold Node.expect at h
  split at h
  · assumption
  · simp at h

theorem heapSim_setClosureEnv {w : World} {l env : Loc} {r re : Ref} (hl : w.At r l)
    (he : w.At re env) :
    HeapSim w (Closure.setEnv r re) (setClosureEnv l env) (fun _ _ => True) := by
  refine HeapSim.link hl he .environment 0 (fun hp => hp.answers_expect .closure) ?_
  intro n hn
  have hk := expect_ok hn
  cases n <;> simp [Node.kind] at hk
  exact ⟨_, rfl, rfl, rfl, by simp [Node.cells], rfl⟩

theorem heapSim_setFrameEnv {w : World} {l env : Loc} {r re : Ref} (hl : w.At r l)
    (he : w.At re env) :
    HeapSim w (Frame.setEnv r re) (setFrameEnv l env) (fun _ _ => True) := by
  refine HeapSim.link hl he .environment 0 (fun hp => hp.answers_expectFrame) ?_
  intro n hn
  cases n <;> simp [Node.expectFrame] at hn
  · exact ⟨_, rfl, rfl, rfl, by simp [Node.cells], rfl⟩
  · exact ⟨_, rfl, rfl, rfl, by simp [Node.cells], rfl⟩

theorem heapSim_setFrameStack {w : World} {l stack : Loc} {r rs : Ref} (hl : w.At r l)
    (hs : w.At rs stack) :
    HeapSim w (CallFrame.setStack r rs) (setFrameStack l stack) (fun _ _ => True) := by
  refine HeapSim.link hl hs .operandStack 1 (fun hp => hp.answers_expect .callFrame) ?_
  intro n hn
  have hk := expect_ok hn
  cases n <;> simp [Node.kind] at hk
  exact ⟨_, rfl, rfl, rfl, by simp [Node.cells], rfl⟩

/-! ## Operand stacks -/

/-- Pushing replaces the lowest empty place, and the top. -/
theorem cells_push (operands : List Loc) (room : Nat) (v : Loc) :
    (Node.operandStack (v :: operands) room).cells =
      (((Node.operandStack operands (room + 1)).cells.set operands.length (.ref v)).set
        (operands.length + (room + 1)) (.count (operands.length + 1))) := by
  apply List.ext_getElem?
  intro k
  simp only [Node.cells, List.getElem?_set, List.length_set, List.length_append, List.length_map,
    List.length_reverse, List.length_replicate, List.length_cons, List.length_nil,
    List.getElem?_append, List.getElem?_map, List.reverse_cons]
  grind

/-- Popping empties the highest place in use, and lowers the top. -/
theorem cells_pop (operands : List Loc) (room : Nat) (v : Loc) :
    (Node.operandStack operands (room + 1)).cells =
      (((Node.operandStack (v :: operands) room).cells.set operands.length .empty).set
        (operands.length + 1 + room) (.count operands.length)) := by
  apply List.ext_getElem?
  intro k
  simp only [Node.cells, List.getElem?_set, List.length_set, List.length_append, List.length_map,
    List.length_reverse, List.length_replicate, List.length_cons, List.length_nil,
    List.getElem?_append, List.getElem?_map, List.reverse_cons]
  grind

/-- Two cells are written one after the other. -/
theorem Rewrites.writeTwice {w : World} {h : Heap} {r : Ref} {n n' : Node} {k k' : Nat}
    {c c' : Node.Cell} {v v' : Word} (hp : w.Placed h r n) (hkind : n'.kind = n.kind)
    (hchildren : n'.children = n.children) (hk : k < n.cells.length) (hk' : k' < n.cells.length)
    (hcells : n'.cells = (n.cells.set k c).set k' c') (hv : w.Shows c v) (hv' : w.Shows c' v') :
    Rewrites w h ((h.setWord (r.index + headerSize + k) v).setWord (r.index + headerSize + k') v')
      r n n' := by
  refine ⟨hkind, by simp [hcells], hchildren, by simp, rfl, rfl, rfl, rfl, rfl, ?_, ?_⟩
  · intro j hj
    unfold Node.size at hj
    rw [Heap.word_setWord_ne _ _ (by omega), Heap.word_setWord_ne _ _ (by omega)]
  · have hfit := hp.fits
    rw [hcells]
    exact World.ShowsAll.set (World.ShowsAll.set (fun _ _ hk => hp.cells hk) hfit hv) (by simpa using hfit) hv'

/-- After a write to one of its cells, the node can be written to again: the header is still there. -/
theorem World.Placed.write_again {w : World} {h : Heap} {r : Ref} {n : Node} (hp : w.Placed h r n)
    (k : Nat) {j : Nat} (hj : j < n.cells.length) (v v' : Word) :
    Heap.write r (headerSize + j) v' (h.setWord (r.index + headerSize + k) v) =
      .ok () ((h.setWord (r.index + headerSize + k) v).setWord (r.index + headerSize + j) v') := by
  have hleads := hp.toLeads.setWord (Nat.le_add_right headerSize k) v
  rw [← Nat.add_assoc] at hleads
  rw [hleads.write_eq (Nat.le_add_right _ _) (Nat.add_lt_add_left hj _), Nat.add_assoc r.index headerSize j]

theorem World.Placed.push {w : World} {h : Heap} {r rv : Ref} {v : Loc} {n : Node} (hp : w.Placed h r n)
    (hv : w.At rv v) :
    SameChange w h r n (fun _ _ => True) (OperandStack.push r rv h)
      ((n.push v).map fun n' => ((), n')) := by
  cases n with
  | operandStack operands room =>
    obtain ⟨hcap, htop⟩ := hp.stack_eq
    cases room with
    | zero =>
      rw [Nat.add_zero] at hcap htop
      simp [OperandStack.push, hcap, htop, Node.push, SameChange, HeapError.anywhere, Except.map]
    | succ room =>
      have hlen : (Node.operandStack operands (room + 1)).cells.length =
          operands.length + (room + 1) + 1 := by
        simp [Node.cells, Nat.add_assoc]
      have hne : ¬ operands.length = operands.length + (room + 1) := by omega
      simp only [OperandStack.push, Actions.bind_apply, Actions.lift_look_heap, hcap, htop, hne,
        if_false, hp.write_eq (k := operands.length) (by omega),
        hp.write_again operands.length (j := operands.length + (room + 1)) (by omega), Node.push]
      refine ⟨Rewrites.writeTwice hp rfl ?_ (by omega) (by omega) (cells_push operands room v)
        ⟨rv, hv, rfl⟩ rfl, trivial⟩
      simp [Node.children]
      omega
  | _ => simp [OperandStack.push, OperandStack.capacity, hp.expect_eq, Node.kind, Node.push,
      SameChange, Node.mismatch, HeapError.anywhere, Except.map]

theorem heapSim_push {w : World} {l v : Loc} {r rv : Ref} (hl : w.At r l) (hv : w.At rv v) :
    HeapSim w (OperandStack.push r rv) (change l (Node.push v)) (fun _ _ => True) :=
  HeapSim.alter hl fun hp => hp.push hv

theorem World.Placed.pop {w : World} {h : Heap} {r : Ref} {n : Node} (hp : w.Placed h r n) :
    SameChange w h r n w.At (OperandStack.pop r h) n.pop := by
  cases n with
  | operandStack operands room =>
    obtain ⟨hcap, htop⟩ := hp.stack_eq
    cases operands with
    | nil =>
      rw [List.length_nil, Nat.zero_add] at hcap htop
      simp [OperandStack.pop, hcap, htop, Node.pop, SameChange, HeapError.anywhere]
    | cons v operands =>
      have hlen : (Node.operandStack (v :: operands) room).cells.length =
          operands.length + 1 + room + 1 := by
        simp [Node.cells]
        omega
      obtain ⟨rv, hv, hread⟩ := hp.readRef_eq (@World.Placed.operandCell (v :: operands) room 0 v rfl)
      have hoff : headerSize + (operands.length + 1) - 1 = headerSize + operands.length := by omega
      rw [List.length_cons] at hcap htop
      simp only [List.length_cons, Nat.add_sub_cancel, Nat.sub_zero] at hread
      simp only [OperandStack.pop, Actions.bind_apply, Actions.lift_look_heap, hcap, htop,
        Nat.succ_ne_zero, if_false, hoff, hread, hp.write_eq (k := operands.length) (by omega),
        Nat.add_sub_cancel,
        hp.write_again operands.length (j := operands.length + 1 + room) (by omega), Node.pop,
        Actions.pure_apply]
      refine ⟨Rewrites.writeTwice hp rfl ?_ (by omega) (by omega) (cells_pop operands room v)
        rfl rfl, hv⟩
      simp [Node.children]
      omega
  | _ => simp [OperandStack.pop, OperandStack.capacity, hp.expect_eq, Node.kind, Node.pop,
      SameChange, Node.mismatch, HeapError.anywhere]

theorem heapSim_pop {w : World} {l : Loc} {r : Ref} (hl : w.At r l) :
    HeapSim w (OperandStack.pop r) (alter l Node.pop) w.At :=
  HeapSim.alter hl fun hp => hp.pop

end ClosureMachine
