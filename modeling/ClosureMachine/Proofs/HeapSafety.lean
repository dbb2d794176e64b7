import ClosureMachine.Proofs.Heap.Bounds

/-!
# The heap looks after itself

A heap is only reached through its operations and questions. They take references from anyone, and nobody checks
beforehand that these are current, or that they lead to a node of the right kind, or to any node. Whatever is
requested, and whether it succeeds or not, the allocated part of the heap is a row of nodes (`Heap.Tiled`), each with
the words of its kind, and no request touches a position outside the array.

One thing is not looked after. References and sizes are numbers below `wordLimit`, but where a header or a node ends is a
sum, and a sum that is too large stops the program before it is found that nothing can be there.
-/

set_option autoImplicit false

namespace ClosureMachine

open Heap (headerSize)

/-! ## Requests -/

/-- One call of the interface of the heap. -/
inductive Request (ρ : Type) [RootSet ρ] : {α : Type} → StoreM ρ α → Prop
  | operation {α : Type} {act : StoreM ρ α} (hop : Operation ρ act) : Request ρ act
  | question {α : Type} {x : Probe α} (hq : Question x) : Request ρ (liftM x)

/-- The heaps that any requests leave behind, in any order, with any roots. -/
inductive Reached : Heap → Prop
  | fresh (capacity : Nat) : Reached (Heap.ofCapacity capacity)
  | request {ρ α : Type} [RootSet ρ] {act : StoreM ρ α} {h : Heap} (hr : Reached h)
      (hq : Request ρ act) (roots : ρ) : Reached (Actions.after act ⟨h, roots⟩).heap

theorem Request.shaped {ρ α : Type} [RootSet ρ] {act : StoreM ρ α} (hq : Request ρ act) {h : Heap}
    (hs : h.Shaped) (roots : ρ) : (Actions.after act ⟨h, roots⟩).heap.Shaped := by
  cases hq with
  | operation hop => exact hop.shaped hs roots
  | question hq =>
    rename_i x
    show (Actions.after (liftM (liftM x : HeapM α) : StoreM ρ α) ⟨h, roots⟩).heap.Shaped
    apply Heap.Shaped.lift
    rwa [Actions.after_look]

theorem Request.confined {ρ α : Type} [RootSet ρ] {act : StoreM ρ α} (hq : Request ρ act) :
    Store.Confined act := by
  cases hq with
  | operation hop => exact hop.confined
  | question hq => exact .lift (.look hq.inside)

theorem Reached.shaped {h : Heap} (hr : Reached h) : h.Shaped := by
  induction hr with
  | fresh capacity => exact Heap.shaped_ofCapacity capacity
  | request _ hq roots ih => exact hq.shaped ih roots

/-! ## Rows of nodes -/

/-- Where nodes begin that stand one behind the other. -/
def Layout.starts (i : Nat) : List Layout → List (Nat × Layout)
  | [] => []
  | layout :: rest => (i, layout) :: starts (i + layout.size) rest

namespace Heap

/-- Nodes of these layouts stand one behind the other from a position on, and the last one ends where the free
words begin. -/
def Row (h : Heap) : Nat → List Layout → Prop
  | i, [] => i = h.free
  | i, layout :: rest => h.Stands i layout ∧ h.Row (i + layout.size) rest

/-- The allocated part is a row of nodes, these are all that looks like a node, and the references to them are all
that are taken for references. Others are noticed, or lie so far out that the end of a header there is too large. -/
structure Tiled (h : Heap) (layouts : List Layout) : Prop where
  size : h.words.size = 2 * h.semispace
  base : h.base = 0 ∨ h.base = h.semispace
  lower : h.base ≤ h.free
  upper : h.free ≤ h.base + h.semispace
  row : h.Row h.base layouts
  tag : ∀ j kind, h.base ≤ j → j < h.free →
    (h.word j = .tag kind ↔ ∃ layout, (j, layout) ∈ Layout.starts h.base layouts ∧ layout.kind = kind)
  kind : ∀ r kind, Heap.kind r h = .ok kind ↔
    r.epoch = h.epoch ∧ ∃ layout, (r.index, layout) ∈ Layout.starts h.base layouts ∧ layout.kind = kind
  stale : ∀ r e, Heap.kind r h = .error e →
    e = .staleReference r.index ∨ e = .overflow .headerEnd ∧ wordLimit ≤ r.index + headerSize

section

variable {h : Heap} {layouts : List Layout} {i j : Nat} {layout : Layout}

/-- Behind a node the next one begins, or the free words. -/
theorem Shaped.next (hs : h.Shaped) (hi : h.Header i) (hl : h.Stands i layout) :
    h.Header (i + layout.size) ∨ i + layout.size = h.free := by
  have hup := (hs.node hi).upper
  rw [hl.sizeAt] at hup
  by_cases hend : i + layout.size = h.free
  · exact .inr hend
  · left
    have hnext := Header.next hi (by rw [hl.sizeAt]; omega)
    rwa [hl.sizeAt] at hnext

theorem Shaped.row (hs : h.Shaped) (hi : h.Header i ∨ i = h.free) : ∃ layouts, h.Row i layouts := by
  -- the nodes ahead take up less and less of what is left
  obtain ⟨n, hn⟩ : ∃ n, h.free - i < n := ⟨_, Nat.lt_succ_self _⟩
  induction n generalizing i with
  | zero => omega
  | succ n ih =>
    rcases hi with hheader | rfl
    · obtain ⟨layout, hl⟩ := hs.layout hheader
      have hlt := hheader.lt_free
      have hpos := layout.header_le_size
      unfold headerSize at hpos
      obtain ⟨rest, hrest⟩ := ih (hs.next hheader hl) (by omega)
      exact ⟨layout :: rest, hl, hrest⟩
    · exact ⟨[], rfl⟩

theorem Row.le (hrow : h.Row i layouts) : i ≤ h.free := by
  induction layouts generalizing i with
  | nil => exact Nat.le_of_eq hrow
  | cons layout rest ih => exact Nat.le_trans (Nat.le_add_right _ _) (ih hrow.2)

/-- What begins in a row is a node. -/
theorem Row.stands (hs : h.Shaped) (hrow : h.Row i layouts) (hi : h.Header i ∨ i = h.free)
    (hmem : (j, layout) ∈ Layout.starts i layouts) : h.Header j ∧ h.Stands j layout := by
  induction layouts generalizing i with
  | nil => cases hmem
  | cons first rest ih =>
    obtain ⟨hl, hrest⟩ := hrow
    have hle := hrest.le
    have hpos := first.header_le_size
    unfold headerSize at hpos
    have hheader : h.Header i := hi.resolve_right (by omega)
    rcases List.mem_cons.mp hmem with heq | hmem
    · cases heq
      exact ⟨hheader, hl⟩
    · exact ih hrest (hs.next hheader hl) hmem

/-- Behind a node of a row the next one begins, unless it was the last. -/
theorem Row.next (hrow : h.Row i layouts) (hmem : (j, layout) ∈ Layout.starts i layouts)
    (hlt : j + layout.size < h.free) :
    ∃ next, (j + layout.size, next) ∈ Layout.starts i layouts := by
  induction layouts generalizing i with
  | nil => cases hmem
  | cons first rest ih =>
    rcases List.mem_cons.mp hmem with heq | hmem
    · cases heq
      cases rest with
      | nil =>
        have hend : j + layout.size = h.free := hrow.2
        omega
      | cons second rest => exact ⟨second, .tail _ (.head _)⟩
    · obtain ⟨next, hnext⟩ := ih hrow.2 hmem
      exact ⟨next, .tail _ hnext⟩

/-- All nodes begin in the row. -/
theorem Row.covers (hs : h.Shaped) (hrow : h.Row h.base layouts) (hj : h.Header j) :
    ∃ layout, (j, layout) ∈ Layout.starts h.base layouts := by
  induction hj with
  | first hlt =>
    cases layouts with
    | nil =>
      have hend : h.base = h.free := hrow
      omega
    | cons layout rest => exact ⟨layout, .head _⟩
  | next hi hlt ih =>
    obtain ⟨layout, hmem⟩ := ih
    have hl := (Row.stands hs hrow (.inl (Header.first ?_)) hmem).2
    · rw [hl.sizeAt] at hlt ⊢
      exact hrow.next hmem hlt
    · exact Nat.lt_of_le_of_lt hi.base_le hi.lt_free

theorem Shaped.tiled (hs : h.Shaped) : ∃ layouts, h.Tiled layouts := by
  have hbase := hs.halved.base_le
  have hstart : h.Header h.base ∨ h.base = h.free := by
    by_cases hlt : h.base < h.free
    · exact .inl (.first hlt)
    · exact .inr (by omega)
  obtain ⟨layouts, hrow⟩ := hs.row hstart
  -- a node begins in the row exactly where the walk over the headers comes by
  have hbegins : ∀ j kind, (h.Header j ∧ h.word j = .tag kind ↔
      ∃ layout, (j, layout) ∈ Layout.starts h.base layouts ∧ layout.kind = kind) := by
    intro j kind
    constructor
    · rintro ⟨hj, hw⟩
      obtain ⟨layout, hmem⟩ := hrow.covers hs hj
      have hl := (Row.stands hs hrow hstart hmem).2
      rw [hl.word_tag] at hw
      exact ⟨layout, hmem, by simpa using hw⟩
    · rintro ⟨layout, hmem, rfl⟩
      obtain ⟨hj, hl⟩ := Row.stands hs hrow hstart hmem
      exact ⟨hj, hl.word_tag⟩
  refine ⟨layouts, hs.halved.size, hs.halved.base, hbase, hs.halved.free_le, hrow, ?_, ?_, ?_⟩
  · intro j kind hlow hup
    rw [← hbegins]
    exact ⟨fun hw => ⟨hs.header_of_tag hlow hup hw, hw⟩, fun hj => hj.2⟩
  · intro r kind
    rw [← hbegins]
    constructor
    · intro hok
      have hv := hs.valid_of_kind hok
      obtain ⟨found, hw⟩ := (hs.node hv.2).tag
      rw [hs.kind_valid hv hw] at hok
      cases hok
      exact ⟨hv.1, hv.2, hw⟩
    · rintro ⟨hepoch, hj, hw⟩
      exact hs.kind_valid ⟨hepoch, hj⟩ hw
  · intro r e herr
    rcases hs.kind_cases r with ⟨found, -, -, hok⟩ | ⟨e', herr', hcases⟩
    · rw [hok] at herr
      cases herr
    · rw [herr'] at herr
      cases herr
      exact hcases

end

end Heap

/-- Whatever was requested of a heap, it is a row of nodes, and nothing that can be requested next touches a position
outside the array. -/
theorem reached_heap_safe {h : Heap} (hr : Reached h) :
    (∃ layouts, h.Tiled layouts) ∧
      ∀ {ρ α : Type} [RootSet ρ] {act : StoreM ρ α}, Request ρ act →
        ∀ (roots : ρ) position size s, act ⟨h, roots⟩ ≠ .error (.outsideArray position size) s := by
  have hs := hr.shaped
  refine ⟨hs.tiled, ?_⟩
  intro ρ α _ act hq roots position size s herr
  exact hq.confined hs.toTidy roots _ s herr trivial

/-- An environment and an operand stack that a failed collection has moved, with an operand that never was a
reference to anything, and one that no longer is. -/
def rubble : Heap :=
  let h := Heap.ofCapacity 40
    |>.operated (OperandStack.new 2)
    |>.operated (liftM (OperandStack.push ⟨0, 0⟩ ⟨77, 9⟩))
    |>.operated (Environment.new 1)
    |>.operated (liftM (Environment.setSlot ⟨0, 0⟩ 0 ⟨6, 0⟩))
    |>.operated (liftM (OperandStack.peek ⟨0, 0⟩ 0))
  (Actions.after Store.collect ⟨h, (#[⟨6, 0⟩, ⟨0, 0⟩, ⟨3, 0⟩] : Array Ref)⟩).heap
    |>.operated (liftM (OperandStack.push ⟨25, 1⟩ ⟨6, 0⟩))

theorem reached_rubble : Reached rubble := by
  refine .request ?_ (.operation (.push ⟨25, 1⟩ ⟨6, 0⟩)) ()
  refine .request ?_ (.operation .collect) (#[⟨6, 0⟩, ⟨0, 0⟩, ⟨3, 0⟩] : Array Ref)
  refine .request ?_ (.question (.peek ⟨0, 0⟩ 0)) ()
  refine .request ?_ (.operation (.setSlot ⟨0, 0⟩ 0 ⟨6, 0⟩)) ()
  refine .request ?_ (.operation (.environment 1)) ()
  refine .request ?_ (.operation (.push ⟨0, 0⟩ ⟨77, 9⟩)) ()
  refine .request ?_ (.operation (.operandStack 2)) ()
  exact .fresh 40

theorem reached_heap_safe_rubble :
    Reached rubble ∧ (∃ layouts, rubble.Tiled layouts) ∧
      OperandStack.depth ⟨25, 1⟩ rubble = .ok 2 ∧ Heap.kind ⟨6, 0⟩ rubble = .error (.staleReference 6) ∧
      ∀ position size s, Store.collect ⟨rubble, (#[⟨20, 1⟩, ⟨25, 1⟩] : Array Ref)⟩ ≠
        .error (.outsideArray position size) s := by
  obtain ⟨htiled, hbounds⟩ := reached_heap_safe reached_rubble
  exact ⟨reached_rubble, htiled, by decide +kernel, by decide +kernel,
    hbounds (.operation .collect) (#[⟨20, 1⟩, ⟨25, 1⟩] : Array Ref)⟩

/-- A reference of the current epoch that leads nowhere, so far out that this is not found. -/
theorem kind_far_out :
    Heap.kind ⟨wordLimit - 1, 0⟩ (Heap.ofCapacity 64) = .error (.overflow .headerEnd) := by
  decide +kernel

end ClosureMachine
