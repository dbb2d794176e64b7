import ClosureMachine.Proofs.Heap.Layout

/-!
# Every operation keeps the layouts

A collection replaces references by references, and a field that admits one admits any other. So the nodes that it
has moved keep their layouts, also where it has stopped half-way through one of them. A new node gets the layout of
its kind.
-/

set_option autoImplicit false

namespace ClosureMachine

open Heap (headerSize)
open ClosureMachine.Ideal

/-! ## Collections -/

namespace Heap

section

variable {h₀ h : Heap} {nodes : Nat → Prop} {order : List Nat} {cursor : Nat}

/-- A word that was copied is admitted where the old one was, whether the cursor has passed it or not. -/
theorem Copying.admits (hcp : Copying h₀ nodes h order cursor) {i k : Nat} (hi : i ∈ order)
    (hk : k < h₀.sizeAt i) {field : Field} (hw : field.admits (h₀.word (i + k)) = true) :
    field.admits (h.word ((h₀.newRef order i).index + k)) = true := by
  rw [hcp.new i hi k hk]
  split
  · by_cases hheader : headerSize ≤ k
    · rw [relocated_eq hheader]
      split
      · exact Field.admits_mapRef _ hw
      · exact hw
    · rw [relocated, if_neg fun hin => hheader hin.1]
      exact hw
  · exact hw

theorem Copying.shaped (hcp : Copying h₀ nodes h order cursor) (hs : h₀.Shaped)
    (hsub : ∀ i, nodes i → h₀.Header i) : h.Shaped := by
  have hc : h₀.Laid nodes := hs.laid.mono hsub
  refine ⟨hcp.tidy hs.toTidy hsub, fun {j} hj => ?_⟩
  obtain ⟨i, hi, rfl⟩ := (hcp.header_iff hc).mp hj
  obtain ⟨layout, hl⟩ := hs.layout (hsub i (hcp.among i hi))
  refine ⟨layout, hl.transfer fun k hk field hw => hcp.admits hi ?_ hw⟩
  rwa [hl.sizeAt]

theorem Copying.shaped_settle (hcp : Copying h₀ nodes h order cursor) (hs : h₀.Shaped)
    (hsub : ∀ i, nodes i → h₀.Header i) : (h.settle h₀.fromSpace).Shaped := by
  have hc : h₀.Laid nodes := hs.laid.mono hsub
  have hshaped := hcp.shaped hs hsub
  obtain ⟨htidy, hheader⟩ := hcp.tidy_settle hs.toTidy hsub
  refine ⟨htidy, fun {j} hj => ?_⟩
  have hj' := (hheader j).mp hj
  obtain ⟨layout, hl⟩ := hshaped.layout hj'
  have hlow := (hshaped.node hj').lower
  have hup := (hshaped.node hj').upper
  rw [hl.sizeAt] at hup
  exact ⟨layout, hl.congr fun k hk => hcp.word_settle hs.halved hc (by omega) (by omega)⟩

variable {ρ : Type} [RootSet ρ]

namespace Shaped

/-- The layouts are there after a collection of any roots, and after one that failed. -/
theorem collect (hs : h.Shaped) (roots : ρ) : (Actions.after Store.collect ⟨h, roots⟩).heap.Shaped :=
  hs.collect_keeps roots (fun hcp => hcp.shaped hs fun _ hi => hi)
    fun hcp => hcp.shaped_settle hs fun _ hi => hi

end Shaped

end

end Heap

/-! ## References -/

namespace Heap

variable {h : Heap} {i k : Nat}

theorem Shaped.among_children (hs : h.Shaped) {r : Ref} (hi : h.Header i)
    (hk : k < h.sizeAt i) (hw : h.word (i + k) = .ref r) :
    headerSize ≤ k ∧ k < headerSize + h.childrenAt i := by
  obtain ⟨layout, hl⟩ := hs.layout hi
  rcases cases_header k with rfl | rfl | rfl | ⟨p, rfl⟩
  · cases hl.word_tag.symm.trans hw
  · cases hl.word_size.symm.trans hw
  · cases hl.word_children.symm.trans hw
  · rw [hl.sizeAt, Layout.size] at hk
    have hp : p < layout.payload.length := by omega
    have hfield := List.getElem?_eq_getElem hp
    have hadmits := hl.payload hfield
    rw [hw] at hadmits
    rw [hl.childrenAt]
    exact ⟨Nat.le_add_right _ _, Nat.add_lt_add_left (Layout.lt_children hfield hadmits) _⟩

/-- So to put the children of a node right is to put all its words right. -/
theorem Shaped.relocated_eq_mapRef (hs : h.Shaped) {order : List Nat} (hi : h.Header i)
    (hk : k < h.sizeAt i) :
    h.relocated order i k = (h.word (i + k)).mapRef fun r => h.newRef order r.index := by
  cases hw : h.word (i + k) with
  | ref r =>
    rw [relocated, if_pos (hs.among_children hi hk hw), hw]
    rfl
  | _ =>
    rw [relocated, hw]
    exact ite_self _

end Heap

/-! ## New nodes -/

/-- The layout of an ideal node. -/
def Ideal.Node.layout : Node → Layout
  | .environment slots _ => .environment slots.length
  | .closure .. => .closure
  | .primitive _ => .primitive
  | .callFrame .. => .callFrame
  | .blockFrame _ => .blockFrame
  | .operandStack operands room => .operandStack operands.length room
  | .boxed _ => .boxed

namespace Ideal.Node

theorem kind_layout (n : Node) : n.layout.kind = n.kind := by cases n <;> rfl

theorem children_layout (n : Node) : n.layout.children = n.children := by cases n <;> rfl

/-- What a word may be that shows the cell. -/
def Cell.fields : Cell → List Field
  | .ref _ => [.slot, .link, .operand]
  | .literal _ => [.datum]
  | .count n => [.count, .exactly n]
  | .nil => [.link]
  | .unassigned => [.slot]
  | .empty => [.vacant]

theorem Cell.admits {c : Cell} {field : Field} (hf : field ∈ c.fields) {w : World} {v : Word}
    (hv : w.Shows c v) : field.admits v = true := by
  cases c with
  | ref l =>
    obtain ⟨r, -, rfl⟩ := hv
    simp only [Cell.fields, List.mem_cons, List.not_mem_nil, or_false] at hf
    rcases hf with rfl | rfl | rfl <;> rfl
  | literal x =>
    obtain ⟨d, rfl, -⟩ := hv
    obtain rfl : field = .datum := by simpa [Cell.fields] using hf
    rfl
  | count n =>
    obtain rfl : v = .count n := hv
    simp only [Cell.fields, List.mem_cons, List.not_mem_nil, or_false] at hf
    rcases hf with rfl | rfl <;> simp [Field.admits]
  | nil =>
    obtain rfl : v = .nil := hv
    obtain rfl : field = .link := by simpa [Cell.fields] using hf
    rfl
  | unassigned =>
    obtain rfl : v = .unassigned := hv
    obtain rfl : field = .slot := by simpa [Cell.fields] using hf
    rfl
  | empty =>
    obtain rfl : v = .empty := hv
    obtain rfl : field = .vacant := by simpa [Cell.fields] using hf
    rfl

/-- The cells of a node are those of its layout, one by one. -/
theorem cells_layout (n : Node) :
    List.Forall₂ (fun field c => field ∈ Cell.fields c) n.layout.payload n.cells := by
  have hlink : ∀ l, Field.link ∈ (linkCell l).fields := by
    intro l
    cases l <;> simp [linkCell, Cell.fields]
  have hall : ∀ {field : Field} {cells : List Cell}, (∀ c ∈ cells, field ∈ c.fields) →
      List.Forall₂ (fun field c => field ∈ Cell.fields c) (List.replicate cells.length field) cells := by
    intro field cells hmem
    induction cells with
    | nil => exact .nil
    | cons c rest ih =>
      exact .cons (hmem c (List.mem_cons_self ..)) (ih fun c hc => hmem c (List.mem_cons_of_mem _ hc))
  cases n with
  | environment slots outer =>
    refine List.rel_append ?_ (.cons (hlink outer) .nil)
    have hslots := @hall .slot (slots.map slotCell) fun c hc => by
      obtain ⟨slot, -, rfl⟩ := List.mem_map.mp hc
      cases slot <;> simp [slotCell, Cell.fields]
    rwa [List.length_map] at hslots
  | closure env arity entry stack =>
    exact .cons (hlink env) (.cons (by simp [Cell.fields]) (.cons (by simp [Cell.fields])
      (.cons (by simp [Cell.fields]) .nil)))
  | primitive id => exact .cons (by simp [Cell.fields]) .nil
  | callFrame env stack address =>
    exact .cons (hlink env) (.cons (hlink stack) (.cons (by simp [Cell.fields]) .nil))
  | blockFrame env => exact .cons (hlink env) .nil
  | operandStack operands room =>
    refine List.rel_append (List.rel_append ?_ ?_) (.cons (by simp [Cell.fields]) .nil)
    · have hoperands := @hall .operand (operands.reverse.map .ref) fun c hc => by
        obtain ⟨l, -, rfl⟩ := List.mem_map.mp hc
        simp [Cell.fields]
      rwa [List.length_map, List.length_reverse] at hoperands
    · have hvacant := @hall .vacant (List.replicate room .empty) fun c hc => by
        rw [List.eq_of_mem_replicate hc]
        simp [Cell.fields]
      rwa [List.length_replicate] at hvacant
  | boxed value => exact .cons (by simp [Cell.fields]) .nil

theorem size_layout (n : Node) : n.layout.size = n.size := by
  rw [Layout.size, n.cells_layout.length_eq, Node.size]

end Ideal.Node

theorem Adds.stands {texts : StringTable} {h h' : Heap} {n : Node} (ha : Adds texts h h' n) :
    h'.Stands h.free n.layout := by
  intro k field hk
  rcases Heap.cases_header k with rfl | rfl | rfl | ⟨p, rfl⟩
  · obtain rfl : Field.tag n.layout.kind = field := by simpa [Layout.fields] using hk
    simp [ha.tag, n.kind_layout, Field.admits]
  · obtain rfl : Field.exactly n.layout.size = field := by simpa [Layout.fields] using hk
    simp [ha.size, n.size_layout, Field.admits]
  · obtain rfl : Field.exactly n.layout.children = field := by simpa [Layout.fields] using hk
    simp [ha.children, n.children_layout, Field.admits]
  · rw [Layout.getElem?_fields] at hk
    obtain ⟨hlt, rfl⟩ := List.getElem?_eq_some_iff.mp hk
    have hlt' : p < n.cells.length := n.cells_layout.length_eq ▸ hlt
    have hfield := List.Forall₂.get n.cells_layout hlt hlt'
    rw [← Nat.add_assoc]
    exact Ideal.Node.Cell.admits hfield (ha.cells (List.getElem?_eq_getElem hlt'))

theorem Adds.shaped {texts : StringTable} {h h' : Heap} {n : Node} (ha : Adds texts h h' n)
    (hs : h.Shaped) (hroom : h.free + n.size ≤ h.base + h.semispace) : h'.Shaped := by
  refine ⟨ha.tidy hs.toTidy hroom, fun {i} hi => ?_⟩
  have hsize : h'.sizeAt h.free = n.size := by rw [Heap.sizeAt, ha.size]
  rcases hi.of_append hs.toTidy ha.base ha.free ha.below hsize with hold | rfl
  · obtain ⟨layout, hl⟩ := hs.layout hold
    have hup := (hs.node hold).upper
    rw [hl.sizeAt] at hup
    exact ⟨layout, hl.congr fun k hk => ha.below _ (by omega)⟩
  · exact ⟨n.layout, ha.stands⟩

theorem Builds.shaped {ρ : Type} [RootSet ρ] {texts : StringTable} {make : StoreM ρ Ref} {n : Node}
    (hb : Builds texts make n) {h : Heap} (hs : h.Shaped) (roots : ρ) :
    (Actions.after make ⟨h, roots⟩).heap.Shaped :=
  hb.keeps (fun hs => hs.halved) Adds.shaped hs (hs.collect roots)

/-! ## All operations -/

theorem Heap.shaped_ofCapacity (capacity : Nat) : (Heap.ofCapacity capacity).Shaped where
  toTidy := Heap.tidy_ofCapacity capacity
  layout := fun hi => absurd hi.lt_free (Nat.not_lt_zero _)

theorem Heap.Shaped.lift {ρ α : Type} {act : HeapM α} {h : Heap} (hs : (Actions.after act h).Shaped)
    (roots : ρ) : (Actions.after (liftM act : StoreM ρ α) ⟨h, roots⟩).heap.Shaped := by
  rw [Actions.after] at hs ⊢
  rw [Actions.lift_heap_store]
  cases hrun : act h <;> rw [hrun] at hs <;> exact hs

/-- What one operation leaves has layouts, if what it found had. -/
theorem Operation.shaped {ρ α : Type} [RootSet ρ] {act : StoreM ρ α} (hop : Operation ρ act) {h : Heap}
    (hs : h.Shaped) (roots : ρ) : (Actions.after act ⟨h, roots⟩).heap.Shaped := by
  cases hop with
  | environment slots => exact (@builds_environment ρ _ .empty slots).shaped hs roots
  | closure arity entry stack =>
    exact (@builds_closure ρ _ .empty arity entry stack).shaped hs roots
  | primitive id => exact (@builds_primitive ρ _ .empty id).shaped hs roots
  | callFrame address => exact (@builds_callFrame ρ _ .empty address).shaped hs roots
  | blockFrame => exact (@builds_blockFrame ρ _ .empty).shaped hs roots
  | operandStack capacity => exact (@builds_operandStack ρ _ .empty capacity).shaped hs roots
  | boxed value =>
    obtain ⟨texts, x, hmeans⟩ := exists_means value
    exact (builds_boxed hmeans).shaped hs roots
  | setSlot env slot value => exact (hs.setSlot env slot value).lift roots
  | setEnclosing env outer => exact (hs.setEnclosing env outer).lift roots
  | setClosureEnv closure env => exact (hs.setClosureEnv closure env).lift roots
  | setFrameEnv frame env => exact (hs.setFrameEnv frame env).lift roots
  | setFrameStack frame stack => exact (hs.setFrameStack frame stack).lift roots
  | push stack value => exact (hs.push stack value).lift roots
  | pop stack => exact (hs.pop stack).lift roots
  | collect => exact hs.collect roots

theorem Built.shaped {h : Heap} (hb : Built h) : h.Shaped := by
  induction hb with
  | empty capacity => exact Heap.shaped_ofCapacity capacity
  | operate hop _ roots ih => exact hop.shaped ih roots

end ClosureMachine
