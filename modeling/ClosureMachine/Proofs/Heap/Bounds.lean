import ClosureMachine.Proofs.Heap.Shapes

/-!
# Nothing outside the array is touched

There are four ways to touch the array: to look at a word, to replace one, to empty a stretch and to copy one. All of
them make sure of their positions first, and an action that goes astray ends with `HeapError.outsideArray`. So an action
that never ends in this way has touched no position but those of the array. `Inside` says this of probes and `Confined`
of actions.

On tidy heaps all of them keep to the array. Each looks at the kind of a node first and asks for the size before it goes
further, and a node of a tidy heap ends before the array does.
-/

set_option autoImplicit false

namespace ClosureMachine

open Heap (headerSize)

/-- A position that is not one of the array's was to be touched. -/
def HeapError.Astray : HeapError → Prop
  | .outsideArray .. => True
  | _ => False

theorem HeapError.not_astray_tooLarge {what : Quantity} {sum : Nat} {e : HeapError} (he : ¬ e.Astray) :
    ¬ (tooLarge what sum e).Astray := by
  unfold tooLarge
  split
  · exact id
  · exact he

namespace Heap

/-! ## Looking -/

/-- The probe keeps to the array. -/
def Inside {α : Type} (x : Probe α) : Prop :=
  ∀ ⦃h : Heap⦄, h.Tidy → ∀ e, x h = .error e → ¬ e.Astray

section

variable {α β : Type} {h : Heap} {r : Ref}

theorem Inside.pure (a : α) : Inside (pure a : Probe α) := fun _ _ _ he => by cases he

theorem Inside.throw {e : HeapError} (hne : ¬ e.Astray) : Inside (throw e : Probe α) := by
  intro h _ e' he
  cases he
  exact hne

theorem Inside.bind {x : Probe α} {f : α → Probe β} (hx : Inside x) (hf : ∀ a, Inside (f a)) :
    Inside (x >>= f) := by
  intro h ht e he
  rw [Actions.look_bind] at he
  cases hrun : x h with
  | error e' =>
    rw [hrun] at he
    cases he
    exact hx ht e hrun
  | ok a =>
    rw [hrun] at he
    exact hf a ht e he

theorem Inside.ite {c : Prop} [Decidable c] {x y : Probe α} (hx : Inside x) (hy : Inside y) :
    Inside (if c then x else y) := by
  split
  · exact hx
  · exact hy

theorem inside_kind (r : Ref) : Inside (kind r) := by
  intro h ht e he
  rcases ht.kind_cases r with ⟨found, -, -, hok⟩ | ⟨e', herr, hcases⟩
  · rw [hok] at he
    cases he
  · rw [herr] at he
    cases he
    rcases hcases with rfl | ⟨rfl, -⟩ <;> exact id

/-- What looks at the kind first is answered under a reference that leads to a node. -/
theorem Inside.of_kind {x : Probe α} (hfail : ∀ ⦃h e⦄, kind r h = .error e → x h = .error e)
    (hlead : ∀ ⦃h k n c⦄, h.Leads r k n c → ∃ a, x h = .ok a) : Inside x := by
  intro h ht e he
  rcases ht.kind_cases r with ⟨found, hv, hw, -⟩ | ⟨e', herr, -⟩
  · obtain ⟨a, ha⟩ := hlead (ht.leads hv hw)
    rw [ha] at he
    cases he
  · rw [hfail herr] at he
    cases he
    exact inside_kind r ht e herr

theorem inside_size (r : Ref) : Inside (size r) :=
  .of_kind (fun _ _ herr => by simp [size, herr]) fun _ _ _ _ hl => ⟨_, hl.size_eq⟩

theorem inside_childCount (r : Ref) : Inside (childCount r) :=
  .of_kind (fun _ _ herr => by simp [childCount, herr]) fun _ _ _ _ hl => ⟨_, hl.childCount_eq⟩

theorem inside_expect (r : Ref) (expected : Kind) : Inside (expect r expected) :=
  .bind (inside_kind r) fun _ => .ite (.throw id) (.pure _)

theorem inside_checkOffset (r : Ref) (offset : Nat) : Inside (checkOffset r offset) := by
  have hrest : Inside (do
      if (← size r) ≤ offset then throw (.offsetOutOfBounds r.index offset) : Probe Unit) :=
    .bind (inside_size r) fun _ => .ite (.throw id) (.pure _)
  exact .ite (.bind (.throw id) fun _ => hrest) hrest

/-- An offset that has been checked is one of the node's. -/
theorem Tidy.leads_of_checkOffset (ht : h.Tidy) {offset : Nat} (hok : checkOffset r offset h = .ok ()) :
    ∃ k n c, h.Leads r k n c ∧ headerSize ≤ offset ∧ offset < n := by
  obtain ⟨hv, hlow, hup⟩ := ht.of_checkOffset hok
  obtain ⟨found, hw⟩ := (ht.node hv.2).tag
  exact ⟨found, _, _, ht.leads hv hw, hlow, hup⟩

theorem inside_read (r : Ref) (offset : Nat) : Inside (read r offset) := by
  intro h ht e he
  cases hok : checkOffset r offset h with
  | error e' =>
    obtain rfl : e' = e := by simpa [read, hok] using he
    exact inside_checkOffset r offset ht e' hok
  | ok _ =>
    obtain ⟨k, n, c, hl, hlow, hup⟩ := ht.leads_of_checkOffset hok
    rw [hl.read_eq hlow hup] at he
    cases he

theorem inside_readRef (r : Ref) (offset : Nat) : Inside (readRef r offset) := by
  refine .bind (inside_read r offset) fun found => ?_
  cases found with
  | ref target => exact .pure _
  | _ => exact .throw id

theorem inside_readCount (r : Ref) (offset : Nat) : Inside (readCount r offset) := by
  refine .bind (inside_read r offset) fun found => ?_
  cases found with
  | count n => exact .pure _
  | _ => exact .throw id

end

end Heap

open Heap

/-- What can be asked of a heap. -/
inductive Question : {α : Type} → Probe α → Prop
  | kind (r : Ref) : Question (Heap.kind r)
  | size (r : Ref) : Question (Heap.size r)
  | childCount (r : Ref) : Question (Heap.childCount r)
  | slots (env : Ref) : Question (Environment.size env)
  | slot (env : Ref) (slot : Nat) : Question (Environment.slot? env slot)
  | enclosing (env : Ref) : Question (Environment.enclosing? env)
  | outward (env : Ref) (frames : Nat) : Question (Environment.outward env frames)
  | closureEnv (closure : Ref) : Question (Closure.env closure)
  | closureArity (closure : Ref) : Question (Closure.arity closure)
  | closureEntry (closure : Ref) : Question (Closure.entry closure)
  | closureStack (closure : Ref) : Question (Closure.stack closure)
  | primitiveId (node : Ref) : Question (PrimitiveFunction.id node)
  | frameEnv (frame : Ref) : Question (Frame.env frame)
  | frameStack (frame : Ref) : Question (CallFrame.stack frame)
  | returnAddress (frame : Ref) : Question (CallFrame.returnAddress frame)
  | capacity (stack : Ref) : Question (OperandStack.capacity stack)
  | depth (stack : Ref) : Question (OperandStack.depth stack)
  | peek (stack : Ref) (below : Nat) : Question (OperandStack.peek stack below)
  | datum (node : Ref) : Question (Boxed.value node)
  | operand (node : Ref) : Question (Operand.of node)

theorem inside_slots (env : Ref) : Inside (Environment.size env) :=
  .bind (inside_expect _ _) fun _ => .bind (inside_childCount _) fun _ => .pure _

theorem inside_slotOffset (env : Ref) (slot : Nat) : Inside (Environment.slotOffset env slot) :=
  .bind (inside_slots env) fun _ =>
    .ite (.bind (.throw (HeapError.not_astray_tooLarge id)) fun _ => .pure _) (.pure _)

theorem inside_slot (env : Ref) (slot : Nat) : Inside (Environment.slot? env slot) := by
  refine .bind (inside_slotOffset env slot) fun offset => .bind (inside_read env offset) fun found => ?_
  cases found with
  | ref value => exact .pure _
  | unassigned => exact .pure _
  | _ => exact .throw id

theorem inside_enclosing (env : Ref) : Inside (Environment.enclosing? env) := by
  refine .bind (inside_slots env) fun slots => .bind (inside_read env _) fun found => ?_
  cases found with
  | ref outer => exact .pure _
  | nil => exact .pure _
  | _ => exact .throw id

theorem inside_outward (frames : Nat) : ∀ env : Ref, Inside (Environment.outward env frames) := by
  induction frames with
  | zero => exact fun env => .pure _
  | succ frames ih =>
    intro env
    refine .bind (inside_enclosing env) fun found => ?_
    cases found with
    | none => exact .pure _
    | some outer => exact ih outer

theorem inside_frame (frame : Ref) : Inside (Frame.expect frame) := by
  refine .bind (inside_kind frame) fun found => ?_
  cases found with
  | callFrame => exact .pure _
  | blockFrame => exact .pure _
  | _ => exact .throw id

theorem inside_capacity (stack : Ref) : Inside (OperandStack.capacity stack) :=
  .bind (inside_expect _ _) fun _ => inside_childCount _

theorem inside_depth (stack : Ref) : Inside (OperandStack.depth stack) :=
  .bind (inside_capacity stack) fun _ => inside_readCount _ _

theorem inside_peek (stack : Ref) (below : Nat) : Inside (OperandStack.peek stack below) :=
  .bind (inside_depth stack) fun _ =>
    .ite (.bind (.throw id) fun _ => inside_readRef _ _) (inside_readRef _ _)

/-- A number that a node of the kind holds. -/
theorem inside_countOf (r : Ref) (expected : Kind) (offset : Nat) :
    Inside (do Heap.expect r expected; Heap.readCount r offset) :=
  .bind (inside_expect _ _) fun _ => inside_readCount _ _

theorem inside_datum (node : Ref) : Inside (Boxed.value node) := by
  refine .bind (inside_expect _ _) fun _ => .bind (inside_read node _) fun found => ?_
  cases found with
  | datum value => exact .pure _
  | _ => exact .throw id

theorem inside_operand (node : Ref) : Inside (Operand.of node) := by
  refine .bind (inside_kind node) fun found => ?_
  cases found with
  | boxed => exact .bind (inside_datum node) fun _ => .pure _
  | closure => exact .bind (inside_countOf node _ _) fun _ => .pure _
  | primitive => exact .bind (inside_countOf node _ _) fun _ => .pure _
  | _ => exact .throw id

theorem Question.inside {α : Type} {x : Probe α} (hq : Question x) : Inside x := by
  cases hq with
  | kind r => exact inside_kind r
  | size r => exact inside_size r
  | childCount r => exact inside_childCount r
  | slots env => exact inside_slots env
  | slot env slot => exact inside_slot env slot
  | enclosing env => exact inside_enclosing env
  | outward env frames => exact inside_outward frames env
  | closureEnv closure => exact .bind (inside_expect _ _) fun _ => inside_readRef _ _
  | closureArity closure => exact inside_countOf closure _ _
  | closureEntry closure => exact inside_countOf closure _ _
  | closureStack closure => exact inside_countOf closure _ _
  | primitiveId node => exact inside_countOf node _ _
  | frameEnv frame => exact .bind (inside_frame frame) fun _ => inside_readRef _ _
  | frameStack frame => exact .bind (inside_expect _ _) fun _ => inside_readRef _ _
  | returnAddress frame => exact inside_countOf frame _ _
  | capacity stack => exact inside_capacity stack
  | depth stack => exact inside_depth stack
  | peek stack below => exact inside_peek stack below
  | datum node => exact inside_datum node
  | operand node => exact inside_operand node

/-! ## Writing -/

namespace Heap

/-- The action keeps to the array. -/
def Confined {α : Type} (act : HeapM α) : Prop :=
  ∀ ⦃h : Heap⦄, h.Tidy → ∀ e h', act h = .error e h' → ¬ e.Astray

section

variable {α β : Type}

theorem Confined.pure (a : α) : Confined (pure a) := fun _ _ _ _ he => by cases he

theorem Confined.throw {e : HeapError} (hne : ¬ e.Astray) : Confined (throw e : HeapM α) := by
  intro h _ e' h' he
  cases he
  exact hne

theorem Confined.look {x : Probe α} (hx : Inside x) : Confined (liftM x) := by
  intro h ht e h' he
  rw [Actions.lift_look_heap] at he
  cases hrun : x h with
  | error e' =>
    rw [hrun] at he
    cases he
    exact hx ht e hrun
  | ok a =>
    rw [hrun] at he
    cases he

/-- What comes next has to find a tidy heap again. -/
theorem Confined.bind {x : HeapM α} {f : α → HeapM β} (hx : Confined x)
    (htidy : ∀ ⦃h : Heap⦄, h.Tidy → (Actions.after x h).Tidy) (hf : ∀ a, Confined (f a)) :
    Confined (x >>= f) := by
  intro h ht e h' he
  have hafter := htidy ht
  rw [Actions.after] at hafter
  rw [Actions.bind_apply] at he
  cases hrun : x h with
  | error e' h₁ =>
    rw [hrun] at he
    cases he
    exact hx ht e _ hrun
  | ok a h₁ =>
    rw [hrun] at he hafter
    exact hf a hafter e h' he

theorem Confined.look_bind {x : Probe α} {f : α → HeapM β} (hx : Inside x)
    (hf : ∀ a, Confined (f a)) : Confined ((liftM x : HeapM α) >>= f) :=
  .bind (.look hx) (fun h ht => (Actions.after_look x h).symm ▸ ht) hf

theorem Confined.ite {c : Prop} [Decidable c] {x y : HeapM α} (hx : Confined x) (hy : Confined y) :
    Confined (if c then x else y) := by
  split
  · exact hx
  · exact hy

theorem Confined.write (r : Ref) (offset : Nat) (w : Word) : Confined (write r offset w) := by
  intro h ht e h' he
  cases hok : checkOffset r offset h with
  | error e' =>
    obtain ⟨rfl, -⟩ : e' = e ∧ h = h' := by simpa [Heap.write, hok] using he
    exact inside_checkOffset r offset ht e' hok
  | ok _ =>
    obtain ⟨k, n, c, hl, hlow, hup⟩ := ht.leads_of_checkOffset hok
    rw [hl.write_eq hlow hup] at he
    cases he

theorem Confined.write_bind {r : Ref} {offset : Nat} {w : Word} {f : Unit → HeapM β} (values : List Ref)
    (hw : w.Among values) (hf : ∀ a, Confined (f a)) : Confined (Heap.write r offset w >>= f) :=
  .bind (.write r offset w) (fun h ht => (Writes.write offset hw h).tidy ht) hf

end

theorem confined_setSlot (env : Ref) (slot : Nat) (value : Ref) :
    Confined (Environment.setSlot env slot value) :=
  .look_bind (inside_slotOffset env slot) fun _ => .write _ _ _

theorem confined_setEnclosing (env outer : Ref) : Confined (Environment.setEnclosing env outer) :=
  .look_bind (inside_expect _ _) fun _ => .look_bind (inside_slots env) fun _ => .write _ _ _

theorem confined_setClosureEnv (closure env : Ref) : Confined (Closure.setEnv closure env) :=
  .look_bind (inside_expect _ _) fun _ => .look_bind (inside_expect _ _) fun _ => .write _ _ _

theorem confined_setFrameEnv (frame env : Ref) : Confined (Frame.setEnv frame env) :=
  .look_bind (inside_frame _) fun _ => .look_bind (inside_expect _ _) fun _ => .write _ _ _

theorem confined_setFrameStack (frame stack : Ref) : Confined (CallFrame.setStack frame stack) :=
  .look_bind (inside_expect _ _) fun _ => .look_bind (inside_expect _ _) fun _ => .write _ _ _

theorem confined_push (stack value : Ref) : Confined (OperandStack.push stack value) := by
  have hwrites : ∀ capacity top : Nat, Confined (do
      Heap.write stack (headerSize + top) (.ref value)
      Heap.write stack (headerSize + capacity) (.count (top + 1)) : HeapM Unit) := fun _ _ =>
    .write_bind [value] (List.mem_singleton_self value) fun _ => .write _ _ _
  exact .look_bind (inside_capacity stack) fun capacity => .look_bind (inside_readCount _ _) fun top =>
    .ite (.throw id) (hwrites capacity top)

theorem confined_pop (stack : Ref) : Confined (OperandStack.pop stack) := by
  have hwrites : ∀ capacity top : Nat, Confined (do
      let value ← Heap.readRef stack (headerSize + top - 1)
      Heap.write stack (headerSize + top - 1) .empty
      Heap.write stack (headerSize + capacity) (.count (top - 1))
      return value : HeapM Ref) := fun _ _ =>
    .look_bind (inside_readRef _ _) fun _ => .write_bind [] trivial fun _ =>
      .write_bind [] trivial fun _ => .pure _
  exact .look_bind (inside_capacity stack) fun capacity => .look_bind (inside_readCount _ _) fun top =>
    .ite (.throw id) (hwrites capacity top)

end Heap

/-! ## All operations -/

/-- The action keeps to the array, whatever the roots are. -/
def Store.Confined {ρ α : Type} (act : StoreM ρ α) : Prop :=
  ∀ ⦃h : Heap⦄, h.Tidy → ∀ (roots : ρ) e s, act ⟨h, roots⟩ = .error e s → ¬ e.Astray

namespace Store

variable {ρ α : Type}

theorem Confined.lift {act : HeapM α} (hc : Heap.Confined act) :
    Confined (liftM act : StoreM ρ α) := by
  intro h ht roots e s he
  rw [Actions.lift_heap_store] at he
  cases hrun : act h with
  | error e' h' =>
    rw [hrun] at he
    cases he
    exact hc ht e h' hrun
  | ok a h' =>
    rw [hrun] at he
    cases he

variable [RootSet ρ]

/-- A collection fails only where it meets a reference that leads nowhere. -/
theorem confined_collect : Confined (Store.collect : StoreM ρ Unit) := by
  intro h ht roots e s he
  rcases collect_cases ht.halved (ht.traceable (fun _ hi => hi) fun _ _ hv => hv.2) roots
    (fun r _ => ht.into_or_rejected r) with ⟨h', order, hrun, -⟩ | ⟨e', s', hrun, -, r, -, -, rfl⟩
  · rw [hrun] at he
    cases he
  · rw [hrun] at he
    cases he
    exact id

theorem confined_reserve (size : Nat) : Confined (Store.reserve size : StoreM ρ Unit) := by
  intro h ht roots e s he
  rcases reserve_cases size ⟨h, roots⟩ with ⟨hrun, -⟩ | ⟨e', s', hfail, hrun⟩ |
    ⟨s', -, ⟨hrun, -⟩ | ⟨hrun, -⟩⟩ <;> rw [hrun] at he <;> cases he
  · exact confined_collect ht roots e s hfail
  · exact id

end Store

/-- A node is written where room has been made for it, and that is inside the array. -/
theorem Builds.confined {ρ : Type} [RootSet ρ] {texts : StringTable} {make : StoreM ρ Ref}
    {n : Ideal.Node} (hb : Builds texts make n) : Store.Confined make := by
  intro h ht roots e s he
  have hmake := hb ⟨h, roots⟩
  have hreserve := Store.reserve_keeps Heap.Tidy.halved ht (ht.collect roots) n.size
  split at hmake
  · rw [hmake] at he
    cases he
    exact id
  cases hrun : Store.reserve n.size ⟨h, roots⟩ with
  | error e' s' =>
    rw [hrun] at hmake
    rw [hmake] at he
    cases he
    exact Store.confined_reserve n.size ht roots e s hrun
  | ok _ s' =>
    rw [hrun] at hmake hreserve
    obtain ⟨ht', hroom⟩ := hreserve
    obtain ⟨h', hmade, -⟩ := hmake ht'.halved.base_le (hroom.trans ht'.halved.half_le)
    rw [hmade] at he
    cases he

theorem Operation.confined {ρ α : Type} [RootSet ρ] {act : StoreM ρ α} (hop : Operation ρ act) :
    Store.Confined act := by
  cases hop with
  | environment slots => exact (@builds_environment ρ _ .empty slots).confined
  | closure arity entry stack => exact (@builds_closure ρ _ .empty arity entry stack).confined
  | primitive id => exact (@builds_primitive ρ _ .empty id).confined
  | callFrame address => exact (@builds_callFrame ρ _ .empty address).confined
  | blockFrame => exact (@builds_blockFrame ρ _ .empty).confined
  | operandStack capacity => exact (@builds_operandStack ρ _ .empty capacity).confined
  | boxed value =>
    obtain ⟨texts, x, hmeans⟩ := exists_means value
    exact (builds_boxed hmeans).confined
  | setSlot env slot value => exact .lift (Heap.confined_setSlot env slot value)
  | setEnclosing env outer => exact .lift (Heap.confined_setEnclosing env outer)
  | setClosureEnv closure env => exact .lift (Heap.confined_setClosureEnv closure env)
  | setFrameEnv frame env => exact .lift (Heap.confined_setFrameEnv frame env)
  | setFrameStack frame stack => exact .lift (Heap.confined_setFrameStack frame stack)
  | push stack value => exact .lift (Heap.confined_push stack value)
  | pop stack => exact .lift (Heap.confined_pop stack)
  | collect => exact Store.confined_collect

end ClosureMachine
