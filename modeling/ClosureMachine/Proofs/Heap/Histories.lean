import ClosureMachine.Proofs.Heap.Tidy
import ClosureMachine.Proofs.Ideal.Allocate

/-!
# The heaps that can come about

A heap begins empty. Then nodes are made and linked, by any references there are, and collections are made
of any roots. Some of this fails, and what is done next finds the heap as it was left. `Built` collects the heaps
that come about in this way; all of them are tidy.
-/

set_option autoImplicit false

namespace ClosureMachine

open Heap (headerSize)
open ClosureMachine.Ideal

/-- The state in which an action ends, well or not. -/
def Actions.after {ε σ α : Type} (act : EStateM ε σ α) (s : σ) : σ :=
  match act s with
  | .ok _ s' => s'
  | .error _ s' => s'

/-- Looking changes nothing. -/
theorem Actions.after_look {α : Type} (x : Probe α) (h : Heap) : Actions.after (liftM x : HeapM α) h = h := by
  rw [Actions.after, Actions.lift_look_heap]
  cases x h <;> rfl

/-- What an action answers, whatever state it leaves. -/
def Actions.answer {ε σ α : Type} (act : EStateM ε σ α) (s : σ) : Except ε α :=
  match act s with
  | .ok a _ => .ok a
  | .error e _ => .error e

theorem Actions.eq_of_answer {ε σ α : Type} {act : EStateM ε σ α} {s : σ} {a : α}
    (ha : Actions.answer act s = .ok a) : act s = .ok a (Actions.after act s) := by
  rw [Actions.answer] at ha
  rw [Actions.after]
  cases hrun : act s with
  | ok a' s' =>
    rw [hrun] at ha
    cases ha
    rfl
  | error e s' =>
    rw [hrun] at ha
    cases ha

/-- What is done to heaps: nodes are made, with a collection if there is no room, and linked, operands are
pushed and popped, and collections are made. -/
inductive Operation (ρ : Type) [RootSet ρ] : {α : Type} → StoreM ρ α → Prop
  | environment (slots : Nat) : Operation ρ (Environment.new slots)
  | closure (arity entry stack : Nat) : Operation ρ (Closure.new arity entry stack)
  | primitive (id : Nat) : Operation ρ (PrimitiveFunction.new id)
  | callFrame (returnAddress : Nat) : Operation ρ (CallFrame.new returnAddress)
  | blockFrame : Operation ρ BlockFrame.new
  | operandStack (capacity : Nat) : Operation ρ (OperandStack.new capacity)
  | boxed (value : Datum) : Operation ρ (Boxed.new value)
  | setSlot (env : Ref) (slot : Nat) (value : Ref) :
      Operation ρ (liftM (Environment.setSlot env slot value))
  | setEnclosing (env outer : Ref) : Operation ρ (liftM (Environment.setEnclosing env outer))
  | setClosureEnv (closure env : Ref) : Operation ρ (liftM (Closure.setEnv closure env))
  | setFrameEnv (frame env : Ref) : Operation ρ (liftM (Frame.setEnv frame env))
  | setFrameStack (frame stack : Ref) : Operation ρ (liftM (CallFrame.setStack frame stack))
  | push (stack value : Ref) : Operation ρ (liftM (OperandStack.push stack value))
  | pop (stack : Ref) : Operation ρ (liftM (OperandStack.pop stack))
  | collect : Operation ρ Store.collect

/-- The heaps that come about. -/
inductive Built : Heap → Prop
  | empty (capacity : Nat) : Built (Heap.ofCapacity capacity)
  | operate {ρ α : Type} [RootSet ρ] {act : StoreM ρ α} {h : Heap} (hop : Operation ρ act) (hb : Built h)
      (roots : ρ) : Built (Actions.after act ⟨h, roots⟩).heap

/-! ## Looking and writing -/

/-- The word does not look like a header, and what it refers to, if anything, is one of `values`. -/
def Word.Among (values : List Ref) : Word → Prop
  | .tag _ | .forward _ => False
  | .ref r => r ∈ values
  | _ => True

theorem Word.Among.plain {values : List Ref} {w : Word} (hw : w.Among values) : w.Plain := by
  cases w <;> trivial

namespace Heap

/-- `h'` is `h` after writes to one node, in which it was given no references but `values`. -/
inductive Written (target : Ref) (values : List Ref) (h : Heap) : Heap → Prop
  | start : Written target values h h
  | write {h' : Heap} {offset : Nat} {w : Word} (hbefore : Written target values h h')
      (hok : checkOffset target offset h' = .ok ()) (hw : w.Among values) :
      Written target values h (h'.setWord (target.index + offset) w)

/-- The action looks at the heap and writes to one node, however it ends. -/
def Writes {α : Type} (target : Ref) (values : List Ref) (act : HeapM α) : Prop :=
  ∀ h, Written target values h (Actions.after act h)

section

variable {α β : Type} {h h' h'' : Heap} {r target : Ref} {values : List Ref}

theorem Written.trans (hw : Written target values h h') (hw' : Written target values h' h'') :
    Written target values h h'' := by
  induction hw' with
  | start => exact hw
  | write _ hok ha ih => exact .write ih hok ha

namespace Writes

theorem pure (a : α) : Writes target values (pure a) := fun _ => .start

theorem throw (e : HeapError) : Writes target values (throw e : HeapM α) := fun _ => .start

theorem look (x : Probe α) : Writes target values (liftM x) := by
  intro h
  rw [Actions.after_look]
  exact .start

theorem bind {x : HeapM α} {f : α → HeapM β} (hx : Writes target values x)
    (hf : ∀ a, Writes target values (f a)) : Writes target values (x >>= f) := by
  intro h
  have hfirst := hx h
  rw [Actions.after] at hfirst ⊢
  rw [Actions.bind_apply]
  cases hrun : x h with
  | error e h' =>
    rw [hrun] at hfirst
    exact hfirst
  | ok a h' =>
    rw [hrun] at hfirst
    exact hfirst.trans (hf a h')

theorem ite {c : Prop} [Decidable c] {x y : HeapM α} (hx : Writes target values x)
    (hy : Writes target values y) : Writes target values (if c then x else y) := by
  split
  · exact hx
  · exact hy

theorem write (offset : Nat) {w : Word} (hw : w.Among values) :
    Writes target values (write target offset w) := by
  intro h
  rw [Actions.after, Heap.write, Actions.bind_apply, Actions.lift_look_heap]
  cases hcheck : checkOffset target offset h with
  | error e => exact .start
  | ok _ =>
    by_cases hin : target.index + offset < h.words.size
    · simp only [put_eq hin]
      exact .write .start hcheck hw
    · simp only [put_outside hin]
      exact .start

end Writes

theorem Tidy.leads (ht : h.Tidy) (hv : h.Valid r) {found : Kind} (hw : h.word r.index = .tag found) :
    h.Leads r found (h.sizeAt r.index) (h.childrenAt r.index) where
  epoch := hv.1
  tag := hw
  size := (ht.node hv.2).size
  children := (ht.node hv.2).children
  least := (ht.node hv.2).size_pos
  lower := (ht.node hv.2).lower
  upper := (ht.node hv.2).upper
  inside := ht.halved.free_inside

/-- A reference leads to a node, or it is noticed. The words of no other place are looked at. -/
theorem Tidy.kind_cases (ht : h.Tidy) (r : Ref) :
    (∃ found, h.Valid r ∧ h.word r.index = .tag found ∧ kind r h = .ok found) ∨
      ∃ e, kind r h = .error e ∧ (e = .staleReference r.index ∨
        e = .overflow .headerEnd ∧ wordLimit ≤ r.index + headerSize) := by
  have hinside := ht.halved.free_inside
  by_cases hcurrent : r.epoch ≠ h.epoch ∨ r.index < h.base
  · exact .inr ⟨_, by simp [kind, hcurrent], .inl rfl⟩
  by_cases hend : h.free < r.index + headerSize
  · refine .inr ⟨.tooLarge .headerEnd (r.index + headerSize) (.staleReference r.index),
      by simp [kind, hcurrent, hend], ?_⟩
    unfold HeapError.tooLarge
    split
    · exact .inr ⟨rfl, ‹_›⟩
    · exact .inl rfl
  · obtain ⟨hepoch, hlow⟩ := not_or.mp hcurrent
    have hpos : r.index < h.free := by
      unfold headerSize at hend
      omega
    have hlook := look_eq (show r.index < h.words.size by omega)
    cases hw : h.word r.index with
    | tag found =>
      exact .inl ⟨found, ⟨not_not.mp hepoch, ht.header_of_tag (Nat.not_lt.mp hlow) hpos hw⟩, rfl,
        by simp [kind, hcurrent, hend, hlook, hw]⟩
    | _ => exact .inr ⟨_, by simp [kind, hcurrent, hend, hlook, hw], .inl rfl⟩

/-- Where a kind is found, a node begins. -/
theorem Tidy.valid_of_kind (ht : h.Tidy) {found : Kind} (hk : kind r h = .ok found) : h.Valid r := by
  rcases ht.kind_cases r with ⟨-, hv, -, -⟩ | ⟨e, herr, -⟩
  · exact hv
  · rw [herr] at hk
    cases hk

theorem Tidy.of_checkOffset (ht : h.Tidy) {offset : Nat} (hok : checkOffset r offset h = .ok ()) :
    h.Valid r ∧ headerSize ≤ offset ∧ offset < h.sizeAt r.index := by
  by_cases hlow : offset < headerSize
  · simp [checkOffset, hlow] at hok
  rcases ht.kind_cases r with ⟨found, hv, hw, -⟩ | ⟨e, hkind, -⟩
  · by_cases hup : h.sizeAt r.index ≤ offset
    · simp [checkOffset, hlow, (ht.leads hv hw).size_eq, hup] at hok
    · exact ⟨hv, by omega, by omega⟩
  · simp [checkOffset, hlow, size, hkind] at hok

/-- What is written goes behind the header of a node. -/
theorem Written.tidy (hw : Written target values h h') (ht : h.Tidy) : h'.Tidy := by
  induction hw with
  | start => exact ht
  | write _ hok ha ih =>
    obtain ⟨hv, hlow, hup⟩ := ih.of_checkOffset hok
    exact (ih.setWord hv.2 hlow hup ha.plain).1

end

theorem writes_setSlot (env : Ref) (slot : Nat) (value : Ref) :
    Writes env [value] (Environment.setSlot env slot value) :=
  .bind (.look _) fun _ => .write _ (List.mem_singleton_self value)

theorem writes_setEnclosing (env outer : Ref) :
    Writes env [outer] (Environment.setEnclosing env outer) :=
  .bind (.look _) fun _ => .bind (.look _) fun _ => .write _ (List.mem_singleton_self outer)

theorem writes_setClosureEnv (closure env : Ref) : Writes closure [env] (Closure.setEnv closure env) :=
  .bind (.look _) fun _ => .bind (.look _) fun _ => .write _ (List.mem_singleton_self env)

theorem writes_setFrameEnv (frame env : Ref) : Writes frame [env] (Frame.setEnv frame env) :=
  .bind (.look _) fun _ => .bind (.look _) fun _ => .write _ (List.mem_singleton_self env)

theorem writes_setFrameStack (frame stack : Ref) :
    Writes frame [stack] (CallFrame.setStack frame stack) :=
  .bind (.look _) fun _ => .bind (.look _) fun _ => .write _ (List.mem_singleton_self stack)

theorem writes_push (stack value : Ref) : Writes stack [value] (OperandStack.push stack value) := by
  have hrest : ∀ capacity top : Nat, Writes stack [value] (do
      Heap.write stack (headerSize + top) (.ref value)
      Heap.write stack (headerSize + capacity) (.count (top + 1)) : HeapM Unit) := fun _ _ =>
    .bind (.write _ (List.mem_singleton_self value)) fun _ => .write _ trivial
  exact .bind (.look _) fun capacity => .bind (.look _) fun top => .ite (.throw _) (hrest capacity top)

theorem writes_pop (stack : Ref) : Writes stack [] (OperandStack.pop stack) := by
  have hrest : ∀ capacity top : Nat, Writes stack [] (do
      let value ← Heap.readRef stack (headerSize + top - 1)
      Heap.write stack (headerSize + top - 1) .empty
      Heap.write stack (headerSize + capacity) (.count (top - 1))
      return value : HeapM Ref) := fun _ _ =>
    .bind (.look _) fun _ => .bind (.write _ trivial) fun _ =>
      .bind (.write _ trivial) fun _ => .pure _
  exact .bind (.look _) fun capacity => .bind (.look _) fun top => .ite (.throw _) (hrest capacity top)

end Heap

/-! ## Collections -/

namespace Heap.Tidy

variable {h : Heap} {nodes : Nat → Prop}

/-- Nodes to which all their current references lead back. -/
theorem traceable (ht : h.Tidy) (hsub : ∀ i, nodes i → h.Header i)
    (hchild : ∀ {i r}, nodes i → h.Child i r → h.Valid r → nodes r.index) : h.Traceable nodes := by
  refine ⟨ht.laid.mono hsub, fun {i r} hi hr => ?_⟩
  by_cases hv : h.Valid r
  · exact .inl ⟨hv.1, hchild hi hr hv⟩
  · exact .inr (ht.rejected hsub hv)

section

variable {ρ : Type} [RootSet ρ]

/-- What holds wherever a collection may stop, and when it has wiped the old half, holds after it. -/
theorem collect_keeps (ht : h.Tidy) (roots : ρ) {P : Heap → Prop}
    (hstop : ∀ {h' : Heap} {order : List Nat} {cursor : Nat}, Copying h h.Header h' order cursor → P h')
    (hsettle : ∀ {h' : Heap} {order : List Nat} {cursor : Nat}, Copying h h.Header h' order cursor →
      P (h'.settle h.fromSpace)) : P (Actions.after Store.collect ⟨h, roots⟩).heap := by
  rw [Actions.after]
  rcases Store.collect_cases ht.halved (ht.traceable (fun _ hi => hi) fun _ _ hv => hv.2) roots
    (fun r _ => ht.into_or_rejected r) with ⟨h', order, hrun, hcp, -⟩ | ⟨e, s, hrun, ⟨order, cursor, hcp⟩, -⟩
  · rw [hrun]
    exact hsettle hcp
  · rw [hrun]
    exact hstop hcp

theorem collect (ht : h.Tidy) (roots : ρ) : (Actions.after Store.collect ⟨h, roots⟩).heap.Tidy :=
  ht.collect_keeps roots (fun hcp => hcp.tidy ht fun _ hi => hi)
    fun hcp => (hcp.tidy_settle ht fun _ hi => hi).1

end

end Heap.Tidy

/-- What a collection keeps true is kept true by making room, and if that succeeds there is room. -/
theorem Store.reserve_keeps {ρ : Type} [RootSet ρ] {P : Heap → Prop}
    (hhalved : ∀ {h : Heap}, P h → h.Halved) {h : Heap} (hp : P h) {roots : ρ}
    (hcollect : P (Actions.after Store.collect ⟨h, roots⟩).heap) (size : Nat) :
    match Store.reserve size ⟨h, roots⟩ with
    | .ok _ s => P s.heap ∧ s.heap.free + size ≤ s.heap.base + s.heap.semispace
    | .error _ s => P s.heap := by
  have hroom : ∀ {h : Heap}, P h → ¬ h.available < size → h.free + size ≤ h.base + h.semispace := by
    intro h hp havail
    have hle := (hhalved hp).free_le
    rw [Heap.available] at havail
    omega
  rw [Actions.after] at hcollect
  rcases Store.reserve_cases size ⟨h, roots⟩ with ⟨hrun, havail⟩ | ⟨e, s, hfail, hrun⟩ |
    ⟨s, hdone, ⟨hrun, -⟩ | ⟨hrun, havail⟩⟩
  · rw [hrun]
    exact ⟨hp, hroom hp havail⟩
  · rw [hrun]
    rwa [hfail] at hcollect
  · rw [hrun]
    rwa [hdone] at hcollect
  · rw [hrun]
    rw [hdone] at hcollect
    exact ⟨hcollect, hroom hcollect havail⟩

/-! ## New nodes -/

/-- The words that show the cells of a node do not look like headers. -/
theorem World.Shows.plain {w : World} {c : Node.Cell} {v : Word} (hs : w.Shows c v) : v.Plain := by
  cases c with
  | ref l =>
    obtain ⟨r, -, rfl⟩ := hs
    trivial
  | literal x =>
    obtain ⟨d, rfl, -⟩ := hs
    trivial
  | count n =>
    obtain rfl : v = .count n := hs
    trivial
  | nil =>
    obtain rfl : v = .nil := hs
    trivial
  | unassigned =>
    obtain rfl : v = .unassigned := hs
    trivial
  | empty =>
    obtain rfl : v = .empty := hs
    trivial

theorem Adds.tidy {texts : StringTable} {h h' : Heap} {n : Node} (ha : Adds texts h h' n)
    (ht : h.Tidy) (hroom : h.free + n.size ≤ h.base + h.semispace) : h'.Tidy := by
  have hsize : h'.sizeAt h.free = n.size := by rw [Heap.sizeAt, ha.size]
  have hchildren : h'.childrenAt h.free = n.children := by rw [Heap.childrenAt, ha.children]
  refine ht.append ha.words ha.semispace ha.base ha.free hroom ha.below hsize ⟨⟨_, ha.tag⟩, ?_, ?_, ?_,
    ?_, ?_⟩ ?_
  · rw [hsize]
    exact ha.size
  · rw [hchildren]
    exact ha.children
  · rw [hsize, hchildren]
    exact Nat.add_le_add_left n.children_le_cells headerSize
  · rw [ha.base]
    exact ht.halved.base_le
  · rw [hsize, ha.free]
  · intro k hpos hk
    rcases Heap.cases_header k with rfl | rfl | rfl | ⟨p, rfl⟩
    · exact absurd hpos (Nat.lt_irrefl 0)
    · rw [ha.size]
      trivial
    · rw [ha.children]
      trivial
    · have hlt : p < n.cells.length := Nat.lt_of_add_lt_add_left hk
      have hshown := ha.cells (List.getElem?_eq_getElem hlt)
      rw [← Nat.add_assoc]
      exact hshown.plain

/-- What collections keep true, and new nodes where there is room for them, is kept true by making a node. -/
theorem Builds.keeps {ρ : Type} [RootSet ρ] {texts : StringTable} {make : StoreM ρ Ref} {n : Node}
    (hb : Builds texts make n) {P : Heap → Prop} (hhalved : ∀ {h : Heap}, P h → h.Halved)
    (hadds : ∀ {h h' : Heap}, Adds texts h h' n → P h → h.free + n.size ≤ h.base + h.semispace → P h')
    {h : Heap} (hp : P h) {roots : ρ} (hcollect : P (Actions.after Store.collect ⟨h, roots⟩).heap) :
    P (Actions.after make ⟨h, roots⟩).heap := by
  have hreserve := Store.reserve_keeps hhalved hp hcollect n.size
  have hmake := hb ⟨h, roots⟩
  rw [Actions.after]
  split at hmake
  · rw [hmake]
    exact hp
  cases hrun : Store.reserve n.size ⟨h, roots⟩ with
  | error e s =>
    rw [hrun] at hreserve hmake
    rw [hmake]
    exact hreserve
  | ok _ s =>
    rw [hrun] at hreserve hmake
    obtain ⟨hp', hroom⟩ := hreserve
    obtain ⟨h', hmade, ha⟩ := hmake (hhalved hp').base_le (hroom.trans (hhalved hp').half_le)
    rw [hmade]
    exact hadds ha hp' hroom

theorem Builds.tidy {ρ : Type} [RootSet ρ] {texts : StringTable} {make : StoreM ρ Ref} {n : Node}
    (hb : Builds texts make n) {h : Heap} (ht : h.Tidy) (roots : ρ) :
    (Actions.after make ⟨h, roots⟩).heap.Tidy :=
  hb.keeps Heap.Tidy.halved Adds.tidy ht (ht.collect roots)

/-- A table that has a text for any datum there is. -/
theorem exists_means (value : Datum) :
    ∃ (texts : StringTable) (x : Literal), World.Means ⟨fun _ => none, texts⟩ value x := by
  cases value with
  | number value => exact ⟨.empty, .number value, rfl⟩
  | boolean value => exact ⟨.empty, .boolean value, rfl⟩
  | string id =>
    refine ⟨⟨Array.replicate (id + 1) (some ""), ∅, []⟩, .string "", ?_⟩
    simp [World.Means, StringTable.Holds]
  | undefined => exact ⟨.empty, .undefined, trivial⟩
  | null => exact ⟨.empty, .null, trivial⟩

/-! ## All of them -/

theorem Heap.tidy_ofCapacity (capacity : Nat) : (Heap.ofCapacity capacity).Tidy where
  halved := ⟨by simp [Heap.ofCapacity], .inl rfl, Nat.le_refl _, Nat.zero_le _⟩
  node := fun hi => absurd hi.lt_free (Nat.not_lt_zero _)
  plain := fun hi => absurd hi.lt_free (Nat.not_lt_zero _)

theorem Heap.Writes.tidy {ρ α : Type} {target : Ref} {values : List Ref} {act : HeapM α}
    (hw : Heap.Writes target values act) {h : Heap} (ht : h.Tidy) (roots : ρ) :
    (Actions.after (liftM act : StoreM ρ α) ⟨h, roots⟩).heap.Tidy := by
  have htidy := (hw h).tidy ht
  rw [Actions.after] at htidy ⊢
  rw [Actions.lift_heap_store]
  cases hrun : act h <;> rw [hrun] at htidy <;> exact htidy

/-- What one operation leaves is tidy. -/
theorem Operation.tidy {ρ α : Type} [RootSet ρ] {act : StoreM ρ α} (hop : Operation ρ act) {h : Heap}
    (ht : h.Tidy) (roots : ρ) : (Actions.after act ⟨h, roots⟩).heap.Tidy := by
  cases hop with
  | environment slots => exact (@builds_environment ρ _ .empty slots).tidy ht roots
  | closure arity entry stack =>
    exact (@builds_closure ρ _ .empty arity entry stack).tidy ht roots
  | primitive id => exact (@builds_primitive ρ _ .empty id).tidy ht roots
  | callFrame address => exact (@builds_callFrame ρ _ .empty address).tidy ht roots
  | blockFrame => exact (@builds_blockFrame ρ _ .empty).tidy ht roots
  | operandStack capacity => exact (@builds_operandStack ρ _ .empty capacity).tidy ht roots
  | boxed value =>
    obtain ⟨texts, x, hmeans⟩ := exists_means value
    exact (builds_boxed hmeans).tidy ht roots
  | setSlot env slot value => exact (Heap.writes_setSlot env slot value).tidy ht roots
  | setEnclosing env outer => exact (Heap.writes_setEnclosing env outer).tidy ht roots
  | setClosureEnv closure env => exact (Heap.writes_setClosureEnv closure env).tidy ht roots
  | setFrameEnv frame env => exact (Heap.writes_setFrameEnv frame env).tidy ht roots
  | setFrameStack frame stack => exact (Heap.writes_setFrameStack frame stack).tidy ht roots
  | push stack value => exact (Heap.writes_push stack value).tidy ht roots
  | pop stack => exact (Heap.writes_pop stack).tidy ht roots
  | collect => exact ht.collect roots

theorem Built.tidy {h : Heap} (hb : Built h) : h.Tidy := by
  induction hb with
  | empty capacity => exact Heap.tidy_ofCapacity capacity
  | operate hop _ roots ih => exact hop.tidy ih roots

end ClosureMachine
