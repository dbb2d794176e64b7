import ClosureMachine.Machine.Run

/-!
# Stepping through actions

What an action does to a state, one connective at a time. These equations hold by unfolding, and with
them as simp lemmas an action is carried out symbolically, without its monad showing.

The lifts between the kinds of actions are spelled out too: to look at the heap changes nothing, and
an action on the heap leaves the rest of the machine alone.
-/

set_option autoImplicit false

namespace ClosureMachine.Actions

/-! ## Actions that change a state -/

section State

variable {ε σ α β : Type} (s : σ)

@[simp] theorem bind_apply (x : EStateM ε σ α) (f : α → EStateM ε σ β) :
    (x >>= f) s = match x s with
      | .ok a s' => f a s'
      | .error e s' => .error e s' := rfl

@[simp] theorem pure_apply (a : α) : (pure a : EStateM ε σ α) s = .ok a s := rfl

@[simp] theorem map_apply (f : α → β) (x : EStateM ε σ α) :
    (f <$> x) s = match x s with
      | .ok a s' => .ok (f a) s'
      | .error e s' => .error e s' := rfl

@[simp] theorem get_apply : (get : EStateM ε σ σ) s = .ok s s := rfl

@[simp] theorem modify_apply (f : σ → σ) : (modify f : EStateM ε σ Unit) s = .ok () (f s) := rfl

@[simp] theorem modifyGet_apply (f : σ → α × σ) :
    (modifyGet f : EStateM ε σ α) s = .ok (f s).1 (f s).2 := rfl

@[simp] theorem throw_apply (e : ε) : (throw e : EStateM ε σ α) s = .error e s := rfl

variable {s}

/-- An action that begins with one of which the outcome is known. -/
theorem bind_ok {x : EStateM ε σ α} {f : α → EStateM ε σ β} {a : α} {s' : σ} (hx : x s = .ok a s') :
    (x >>= f) s = f a s' := by
  rw [bind_apply, hx]

theorem bind_error {x : EStateM ε σ α} {f : α → EStateM ε σ β} {e : ε} {s' : σ}
    (hx : x s = .error e s') : (x >>= f) s = .error e s' := by
  rw [bind_apply, hx]

end State

/-- A computation that succeeds does so part by part. -/
theorem of_bind_ok {ε α β : Type} {x : Except ε α} {f : α → Except ε β} {b : β}
    (h : (x >>= f) = .ok b) : ∃ a, x = .ok a ∧ f a = .ok b := by
  cases x with
  | error e => cases h
  | ok a => exact ⟨a, rfl, h⟩

/-- A result that passes a check. -/
theorem of_any_ok {ε α : Type} {x : Except ε α} {check : α → Bool} (h : x.toOption.any check = true) :
    ∃ a, x = .ok a ∧ check a = true := by
  cases x with
  | error e => cases h
  | ok a => exact ⟨a, rfl, h⟩

/-! ## Looking at a heap -/

section Look

variable {α β : Type} (h : Heap)

@[simp] theorem look_bind (x : Probe α) (f : α → Probe β) :
    (x >>= f) h = match x h with
      | .ok a => f a h
      | .error e => .error e := by
  show Except.bind (x h) (fun a => f a h) = _
  cases x h <;> rfl

@[simp] theorem look_pure (a : α) : (pure a : Probe α) h = .ok a := rfl

@[simp] theorem look_map (f : α → β) (x : Probe α) :
    (f <$> x) h = match x h with
      | .ok a => .ok (f a)
      | .error e => .error e := by
  show Except.map f (x h) = _
  cases x h <;> rfl

@[simp] theorem look_throw (e : HeapError) : (throw e : Probe α) h = .error e := rfl

@[simp] theorem look_read : (ReaderT.read : Probe Heap) h = .ok h := rfl

end Look

/-! ## From one kind of action to another -/

section Lift

variable {α : Type}

@[simp] theorem lift_look_heap (x : Probe α) (h : Heap) :
    (liftM x : HeapM α) h = match x h with
      | .ok a => .ok a h
      | .error e => .error e h := rfl

@[simp] theorem lift_heap_store {ρ : Type} (x : HeapM α) (s : Store ρ) :
    (liftM x : StoreM ρ α) s = match x s.heap with
      | .ok a h => .ok a { s with heap := h }
      | .error e h => .error e { s with heap := h } := rfl

@[simp] theorem lift_store_machine (x : StoreM Registers α) (m : Machine) :
    (liftM x : MachineM α) m = match x ⟨m.heap, m.registers⟩ with
      | .ok a s => .ok a { m with heap := s.heap, registers := s.roots }
      | .error e s => .error (.heap e) { m with heap := s.heap, registers := s.roots } := by
  simp only [liftM, monadLift, MonadLift.monadLift]
  cases x ⟨m.heap, m.registers⟩ <;> rfl

@[simp] theorem lift_heap_machine (x : HeapM α) (m : Machine) :
    (liftM x : MachineM α) m = match x m.heap with
      | .ok a h => .ok a { m with heap := h }
      | .error e h => .error (.heap e) { m with heap := h } := by
  simp only [liftM, monadLift, MonadLift.monadLift]
  cases x m.heap <;> rfl

@[simp] theorem lift_look_machine (x : Probe α) (m : Machine) :
    (liftM x : MachineM α) m = match x m.heap with
      | .ok a => .ok a m
      | .error e => .error (.heap e) m := by
  simp only [liftM, monadLift, MonadLift.monadLift]
  cases x m.heap <;> rfl

@[simp] theorem lift_host_machine (x : HostM α) (m : Machine) :
    (liftM x : MachineM α) m = match x m.host with
      | .ok a host => .ok a { m with host := host }
      | .error e host => .error e { m with host := host } := rfl

end Lift

end ClosureMachine.Actions
