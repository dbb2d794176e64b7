import ClosureMachine.Proofs.Ideal.Machine

/-!
# Machine and ideal machine side by side

`Rel` relates a machine and a state of the ideal machine: every register holds the place of the node that the
ideal one names, and everything that is not in memory is equal. An action of the machine and an action of the
ideal machine go together (`Sim`) if they take related states to related states and to the same outcome. Names
keep to their nodes meanwhile (`Passes`).

The world in which the states are related is part of the statement. An action that allocates ends in another
world, in which references from before mean nothing; one that does not leaves the world alone, and what was
read before it is still good. The rules for `Sim` make this visible, and a handler that used a
reference across an allocation could not be proved with them.
-/

set_option autoImplicit false

namespace ClosureMachine

open ClosureMachine.Ideal (State Act Loc Node NodeM)

/-- A machine with halves of `room` words and an ideal machine in corresponding states. -/
structure Rel (room : Nat) (w : World) (m : Machine) (s : State) : Prop where
  rep : Represents w m.heap s.nodes
  semispace : m.heap.semispace = room
  texts : m.host.strings = w.texts
  sound : w.texts.Sound
  pc : m.registers.pc = s.pc
  env : w.At m.registers.env s.env
  stack : w.At m.registers.stack s.stack
  control : List.Forall₂ w.At m.registers.control.frames s.control
  pinned : List.Forall₂ w.At m.registers.pinned s.pinned
  output : m.host.output = s.output
  steps : m.steps = s.steps
  peakDepth : m.peakDepth = s.peakDepth

/-- What no action changes: the names of nodes, and the note of the last sweep. -/
structure Passes (w : World) (m : Machine) (w' : World) (m' : Machine) : Prop where
  trail : w.Trail m.heap w' m'.heap
  sweptAt : m'.sweptAt = m.sweptAt

/-- Nothing has been moved. -/
theorem Passes.still {w : World} {m m' : Machine} (texts : StringTable) (hrests : m.heap.Rests m'.heap)
    (hswept : m'.sweptAt = m.sweptAt) : Passes w m ⟨w.place, texts⟩ m' :=
  ⟨.still hrests (fun hl => hl) .inl, hswept⟩

theorem Passes.refl (w : World) (m : Machine) : Passes w m w m := .still w.texts (.refl m.heap) rfl

theorem Passes.trans {w w' w'' : World} {m m' m'' : Machine} (h : Passes w m w' m')
    (h' : Passes w' m' w'' m'') : Passes w m w'' m'' :=
  ⟨h.trail.trans h'.trail, h'.sweptAt.trans h.sweptAt⟩

/-- Corresponding outcomes of actions that began in `w` with `m`. Also an action that fails leaves
corresponding states behind. -/
def Follows {α β : Type} (room : Nat) (w : World) (m : Machine) (V : World → α → β → Prop) :
    EStateM.Result Fault Machine α → EStateM.Result Fault State β → Prop
  | .ok a m', .ok b s => ∃ w', Rel room w' m' s ∧ Passes w m w' m' ∧ V w' a b
  | .error e m', .error e' s => (∃ w', Rel room w' m' s ∧ Passes w m w' m') ∧ e' = e.anywhere
  | _, _ => False

/-- The two actions do the same from states that are related in `w`. -/
def Sim {α β : Type} (room : Nat) (w : World) (x : MachineM α) (y : Act β)
    (V : World → α → β → Prop) : Prop :=
  ∀ ⦃m : Machine⦄ ⦃s : State⦄, Rel room w m s → Follows room w m V (x m) (y s)

/-! ## Rules -/

section Rules

variable {α β γ δ : Type} {room : Nat} {w : World} {V : World → α → β → Prop}

theorem Sim.pure {a : α} {b : β} (hv : V w a b) : Sim room w (pure a) (pure b) V :=
  fun m _ hrel => ⟨w, hrel, .refl w m, hv⟩

theorem Sim.throw {e e' : Fault} (he : e' = e.anywhere) :
    Sim room w (throw e : MachineM α) (throw e' : Act β) V :=
  fun m _ hrel => ⟨⟨w, hrel, .refl w m⟩, he⟩

theorem Sim.bind {x : MachineM α} {y : Act β} {f : α → MachineM γ} {g : β → Act δ}
    {V' : World → γ → δ → Prop} (hxy : Sim room w x y V)
    (hfg : ∀ {w' a b}, V w' a b → Sim room w' (f a) (g b) V') :
    Sim room w (x >>= f) (y >>= g) V' := by
  intro m s hrel
  have hout := hxy hrel
  rw [Actions.bind_apply, Actions.bind_apply]
  cases hx : x m <;> cases hy : y s <;> rw [hx, hy] at hout
  · obtain ⟨w', hrel', hpass, hv⟩ := hout
    rename_i a m' b s'
    have hrest := hfg hv hrel'
    dsimp only
    cases hf : f a m' <;> cases hg : g b s' <;> rw [hf, hg] at hrest
    · obtain ⟨w'', hrel'', hpass', hv'⟩ := hrest
      exact ⟨w'', hrel'', hpass.trans hpass', hv'⟩
    · exact hrest.elim
    · exact hrest.elim
    · obtain ⟨⟨w'', hrel'', hpass'⟩, he⟩ := hrest
      exact ⟨⟨w'', hrel'', hpass.trans hpass'⟩, he⟩
  · exact hout.elim
  · exact hout.elim
  · exact hout

/-- An action after which the same world still holds. -/
theorem Sim.bind_still {x : MachineM α} {y : Act β} {U : α → β → Prop} {f : α → MachineM γ}
    {g : β → Act δ} {V' : World → γ → δ → Prop}
    (hxy : Sim room w x y fun w' a b => w' = w ∧ U a b)
    (hfg : ∀ {a b}, U a b → Sim room w (f a) (g b) V') : Sim room w (x >>= f) (y >>= g) V' := by
  refine hxy.bind ?_
  rintro w' a b ⟨rfl, hu⟩
  exact hfg hu

/-- Behind a throw nothing happens. -/
theorem Sim.throw_bind {e e' : Fault} (he : e' = e.anywhere) {f : γ → MachineM α} {g : δ → Act β} :
    Sim room w ((MonadExcept.throw e : MachineM γ) >>= f) ((MonadExcept.throw e' : Act δ) >>= g) V :=
  fun m _ hrel => ⟨⟨w, hrel, .refl w m⟩, he⟩

theorem Sim.ite {c : Prop} [Decidable c] {x x' : MachineM α} {y y' : Act β}
    (ht : c → Sim room w x y V) (hf : ¬ c → Sim room w x' y' V) :
    Sim room w (if c then x else x') (if c then y else y') V := by
  by_cases hc : c
  · rw [if_pos hc, if_pos hc]
    exact ht hc
  · rw [if_neg hc, if_neg hc]
    exact hf hc

theorem Sim.mono {x : MachineM α} {y : Act β} {V' : World → α → β → Prop} (hxy : Sim room w x y V)
    (hvv : ∀ {w' a b}, V w' a b → V' w' a b) : Sim room w x y V' := by
  intro m s hrel
  have hout := hxy hrel
  cases hx : x m <;> cases hy : y s <;> rw [hx, hy] at hout
  · obtain ⟨w', hrel', hpass, hv⟩ := hout
    exact ⟨w', hrel', hpass, hvv hv⟩
  · exact hout.elim
  · exact hout.elim
  · exact hout

theorem Sim.get_bind {f : Machine → MachineM α} {g : State → Act β}
    (hfg : ∀ {m s}, Rel room w m s → Sim room w (f m) (g s) V) :
    Sim room w (get >>= f) (get >>= g) V :=
  fun _ _ hrel => hfg hrel hrel

theorem Sim.modify {f : Machine → Machine} {g : State → State}
    (hquiet : ∀ m, (f m).heap = m.heap ∧ (f m).sweptAt = m.sweptAt)
    (hfg : ∀ {m s}, Rel room w m s → Rel room w (f m) (g s)) :
    Sim room w (modify f) (modify g) (fun w' _ _ => w' = w ∧ True) :=
  fun m _ hrel => ⟨w, hfg hrel, .still w.texts ((hquiet m).1 ▸ .refl m.heap) (hquiet m).2, rfl, trivial⟩

theorem Rel.withNodes {m : Machine} {s : State} (hrel : Rel room w m s) {h : Heap}
    {nodes : List Node} (hr : Represents w h nodes ∧ m.heap.Rests h) :
    Rel room w { m with heap := h } { s with nodes := nodes } :=
  { hrel with rep := hr.1, semispace := hr.2.semispace.trans hrel.semispace }

/-- Actions on the heap. -/
theorem Sim.heap {x : HeapM α} {y : NodeM β} {U : α → β → Prop} (hxy : HeapSim w x y U) :
    Sim room w (liftM x : MachineM α) (liftM y : Act β) (fun w' a b => w' = w ∧ U a b) := by
  intro m s hrel
  have hout := hxy hrel.rep
  rw [Actions.lift_heap_machine]
  simp only [liftM, monadLift, MonadLift.monadLift]
  cases hx : x m.heap <;> cases hy : y s.nodes <;> rw [hx, hy] at hout
  · exact ⟨w, hrel.withNodes hout.1, .still w.texts hout.1.2 rfl, rfl, hout.2⟩
  · exact hout.elim
  · exact hout.elim
  · exact ⟨⟨w, hrel.withNodes hout.1, .still w.texts hout.1.2 rfl⟩, by rw [hout.2]; rfl⟩

/-- Questions to a node. -/
theorem Sim.look {U : α → β → Prop} {l : Loc} {r : Ref} (hl : w.At r l) {probe : Probe α}
    {ask : Node → Except HeapError β}
    (hask : ∀ {h n}, w.Placed h r n → SameAnswer U (probe h) (ask n)) :
    Sim room w (liftM probe : MachineM α) (liftM (Ideal.look l ask) : Act β)
      (fun w' a b => w' = w ∧ U a b) := by
  have hlift : (liftM probe : MachineM α) = liftM (liftM probe : HeapM α) := by
    funext m
    rw [Actions.lift_look_machine, Actions.lift_heap_machine, Actions.lift_look_heap]
    cases probe m.heap <;> rfl
  rw [hlift]
  exact Sim.heap (HeapSim.look hl hask)

end Rules

/-! ## Allocation -/

section Allocation

variable {room : Nat} {w w' : World}

theorem Rel.rooted {m : Machine} {s : State} (hrel : Rel room w m s) :
    Represents.Rooted w (RootSet.toList m.registers) s.roots :=
  .cons hrel.env (.cons hrel.stack
    (List.rel_append (List.forall₂_reverse_iff.mpr hrel.control)
      (List.forall₂_reverse_iff.mpr hrel.pinned)))

/-- Registers whose references have been replaced. -/
theorem Rel.relocated {m : Machine} {s : State} (hrel : Rel room w m s) {h : Heap}
    {refs : List Ref} {nodes : List Node} (hk : Kept w m.heap w' h refs s.roots nodes) :
    Rel room w' { m with heap := h, registers := RootSet.replace m.registers refs }
      { s with nodes := nodes } := by
  obtain ⟨hrep, hroots, htexts, hsemi, -⟩ := hk
  obtain _ | ⟨henv, _ | ⟨hstack, hrest⟩⟩ := hroots
  rename_i env stack rest
  have hdepth : m.registers.control.depth = s.control.reverse.length := by
    rw [m.registers.control.depth_eq, hrel.control.length_eq, List.length_reverse]
  obtain ⟨hcontrol, hpinned⟩ : List.Forall₂ w'.At (rest.take m.registers.control.depth)
      s.control.reverse ∧ List.Forall₂ w'.At (rest.drop m.registers.control.depth)
        s.pinned.reverse := by
    rw [hdepth]
    have htake := List.forall₂_take s.control.reverse.length hrest
    have hdrop := List.forall₂_drop s.control.reverse.length hrest
    rw [List.take_left] at htake
    rw [List.drop_left] at hdrop
    exact ⟨htake, hdrop⟩
  refine
    { rep := hrep
      semispace := hsemi.trans hrel.semispace
      texts := by rw [htexts]; exact hrel.texts
      sound := by rw [htexts]; exact hrel.sound
      pc := hrel.pc
      env := henv
      stack := hstack
      control := ?_
      pinned := ?_
      output := hrel.output
      steps := hrel.steps
      peakDepth := hrel.peakDepth }
  · have := List.forall₂_reverse_iff.mpr hcontrol
    rwa [List.reverse_reverse] at this
  · have := List.forall₂_reverse_iff.mpr hpinned
    rwa [List.reverse_reverse] at this

/-- A new node has a place in the new world. -/
theorem Sim.fresh {make : StoreM Registers Ref} {n : Node} (hb : Builds w.texts make n) :
    Sim room w (Machine.fresh make) (Ideal.fresh (some room) n)
      (fun w' r l => w'.texts = w.texts ∧ w'.At r l) := by
  intro m s hrel
  have hspec := hb.spec hrel.rep hrel.rooted
  rw [hrel.semispace] at hspec
  have hlift : Machine.fresh make m = (liftM make : MachineM Ref) m := rfl
  rw [hlift, Actions.lift_store_machine]
  unfold Ideal.fresh
  cases halloc : Ideal.allocate (some room) s.roots n s.nodes with
  | ok nodes =>
    rw [halloc] at hspec
    obtain ⟨w', h', refs, r, hmake, hkept, hplace⟩ := hspec
    rw [hmake]
    exact ⟨w', hrel.relocated hkept, ⟨hkept.trail, rfl⟩, hkept.texts, hplace⟩
  | error e =>
    rw [halloc] at hspec
    obtain ⟨w', h', refs, hmake, hkept⟩ := hspec
    rw [hmake]
    obtain ⟨limit, rfl⟩ := Ideal.allocate_error halloc
    exact ⟨⟨w', hrel.relocated hkept, hkept.trail, rfl⟩, congrArg Fault.heap (Ideal.anywhere_shortage ..).symm⟩

end Allocation

end ClosureMachine
