import ClosureMachine.Proofs.Source.Layout

/-!
# What the machine does for an evaluation

An evaluation ends in a value, in a `return`, in an error, or not at all, and for each of these there is
something that the machine does meanwhile. `Outcome` says what: for a value it reaches a state in which
the value has arrived, for a `return` one in which the caller has it, for an error the fault is
raised, and for an evaluation that ran out of fuel it has at least taken as many steps.

A place at which a value is expected is a `Landing`. There are two of them at any time: the place behind
the code that is running, and the place of the call around it.

The rules below are those with which outcomes are put together. One evaluation after another is
`Outcome.bind`; a few steps in front of one, `Outcome.after`; and the `return` that follows a value
in tail position, `Outcome.ret`.
-/

set_option autoImplicit false

namespace ClosureMachine.Source

open ClosureMachine.Ideal (Node Loc Core Step Steps Fails Later)

/-! ## Landings -/

/-- The state in which a value is expected, as far as it is known beforehand. -/
structure Landing where
  pc : Nat
  env : Loc
  stack : Loc
  control : List Loc
  ops : List Loc
  free : Nat

/-- The value has arrived. -/
structure Landing.At (L : Landing) (c : Core) (l : Loc) : Prop where
  pc : c.pc = L.pc
  env : c.env = L.env
  stack : c.stack = L.stack
  control : c.control = L.control
  operands : c.nodes[L.stack]? = some (.operandStack (l :: L.ops) L.free)

def Landing.Receives (L : Landing) (program : Program) (v : Value) (w : Layout) (c : Core) : Prop :=
  ∃ l, IsAt program w c.nodes v l ∧ L.At c l

/-- The innermost call frame leads to the landing. -/
def Waiting (c : Core) (L : Landing) : Prop :=
  ∃ blocks frame, c.control = blocks ++ frame :: L.control ∧
    (∀ l ∈ blocks, ∃ env, c.nodes[l]? = some (.blockFrame env)) ∧
    c.nodes[frame]? = some (.callFrame (some L.env) (some L.stack) L.pc) ∧
    c.nodes[L.stack]? = some (.operandStack L.ops (L.free + 1)) ∧ c.stack ≠ L.stack

theorem Waiting.later {c c' : Core} {L : Landing} {written : Prop} (h : Waiting c L)
    (hl : Later written [c.stack] c.nodes c'.nodes) (hs : c'.stack = c.stack)
    (hc : ∃ blocks, c'.control = blocks ++ c.control ∧
      ∀ l ∈ blocks, ∃ env, c'.nodes[l]? = some (.blockFrame env)) : Waiting c' L := by
  obtain ⟨blocks, frame, hcontrol, hblocks, hframe, hstack, hne⟩ := h
  obtain ⟨more, hcontrol', hmore⟩ := hc
  refine ⟨more ++ blocks, frame, ?_, ?_, ?_, ?_, hs ▸ hne⟩
  · rw [hcontrol', hcontrol, List.append_assoc]
  · intro l hl'
    rcases List.mem_append.mp hl' with hl' | hl'
    · exact hmore l hl'
    · obtain ⟨env, hn⟩ := hblocks l hl'
      exact ⟨env, hl.keep hn (by simp [Node.kind]) (by simp [Node.kind])⟩
  · exact hl.keep hframe (by simp [Node.kind]) (by simp [Node.kind])
  · exact hl.keep_stack hstack (by simpa using Ne.symm hne)

/-! ## Outcomes -/

/-- The machine gets to a state with the property, in which the memory is the given one. On the way it uses
its operand stack and at most one other. -/
def Reaches (program : Program) (w : Layout) (c : Core) (dest : Loc) (m : Memory)
    (Q : Layout → Core → Prop) : Prop :=
  ∃ k c' w', Steps program k c c' ∧ w.Grows w' ∧ Later True [c.stack, dest] c.nodes c'.nodes ∧
    w'.Fits program m c'.nodes c'.output ∧ Q w' c'

/-- What corresponds to the result of an evaluation. -/
def Outcome (program : Program) (fuel : Nat) (caller : Option Landing) (w : Layout) (c : Core) (dest : Loc)
    {α : Type} (Q : α → Layout → Core → Prop) : EStateM.Result Exit Memory α → Prop
  | .ok a m => Reaches program w c dest m (Q a)
  | .error (.returned v) m =>
    ∃ L, caller = some L ∧ Reaches program w c L.stack m (L.Receives program v)
  | .error (.failed fault) m =>
    fault.kind ∈ [FaultKind.typeError, .notAFunction, .arityMismatch] ∧
      ∃ k c', Steps program k c c' ∧ Fails program c' fault m.output
  | .error (.unassigned _) m => ∃ a k c', Steps program k c c' ∧ Fails program c' (.unassignedName a) m.output
  | .error .outOfFuel _ => ∃ k c', fuel ≤ k ∧ Steps program k c c'

section

variable {program : Program} {fuel fuel' : Nat} {caller : Option Landing} {w w' : Layout} {c c' : Core}
  {dest : Loc} {m : Memory} {α β : Type} {P : α → Layout → Core → Prop} {Q : β → Layout → Core → Prop}

theorem Reaches.after {k : Nat} {R : Layout → Core → Prop} (h : Reaches program w' c' dest m R)
    (hsteps : Steps program k c c') (hg : w.Grows w') (hs : c'.stack = c.stack)
    (hl : Later True [c.stack] c.nodes c'.nodes) : Reaches program w c dest m R := by
  obtain ⟨k', c'', w'', hsteps', hg', hl', hfits, hR⟩ := h
  rw [hs] at hl'
  exact ⟨k + k', c'', w'', hsteps.trans hsteps', hg.trans hg',
    (hl.mono id (by simp)).trans hl', hfits, hR⟩

/-- A few steps on the same operand stack come first. -/
theorem Outcome.after {k : Nat} {r : EStateM.Result Exit Memory α}
    (h : Outcome program fuel caller w' c' dest P r) (hsteps : Steps program k c c') (hg : w.Grows w')
    (hs : c'.stack = c.stack) (hl : Later True [c.stack] c.nodes c'.nodes) :
    Outcome program fuel caller w c dest P r := by
  cases r with
  | ok a m => exact Reaches.after h hsteps hg hs hl
  | error e m =>
    cases e with
    | returned v =>
      obtain ⟨L, hL, hreach⟩ := h
      exact ⟨L, hL, hreach.after hsteps hg hs hl⟩
    | failed fault =>
      obtain ⟨hkind, k', c'', hsteps', hfails⟩ := h
      exact ⟨hkind, k + k', c'', hsteps.trans hsteps', hfails⟩
    | unassigned name =>
      obtain ⟨a, k', c'', hsteps', hfails⟩ := h
      exact ⟨a, k + k', c'', hsteps.trans hsteps', hfails⟩
    | outOfFuel =>
      obtain ⟨k', c'', hle, hsteps'⟩ := h
      exact ⟨k + k', c'', Nat.le_add_left_of_le hle, hsteps.trans hsteps'⟩

/-- More steps come behind a result. -/
theorem Outcome.andSteps {R : α → Layout → Core → Prop} {r : EStateM.Result Exit Memory α}
    (h : Outcome program fuel caller w c c.stack P r)
    (hR : ∀ a m' w' c', w.Grows w' → Later True [c.stack] c.nodes c'.nodes →
      w'.Fits program m' c'.nodes c'.output → P a w' c' →
      c'.stack = c.stack ∧ Reaches program w' c' dest m' (R a)) :
    Outcome program fuel caller w c dest R r := by
  cases r with
  | ok a m' =>
    obtain ⟨k, c', w', hsteps, hg, hl, hfits, hP⟩ := h
    have hl : Later True [c.stack] c.nodes c'.nodes := hl.mono id (by simp)
    obtain ⟨hs, hrest⟩ := hR a m' w' c' hg hl hfits hP
    exact hrest.after hsteps hg hs hl
  | error e m' => cases e <;> exact h

/-- One evaluation follows another. The first leaves its result on the same operand stack. -/
theorem Outcome.bind {x : Eval α} {f : α → Eval β}
    (hx : Outcome program fuel caller w c c.stack P (x m))
    (hf : ∀ a m' w' c', w.Grows w' → Later True [c.stack] c.nodes c'.nodes →
      w'.Fits program m' c'.nodes c'.output → P a w' c' →
      c'.stack = c.stack ∧ Outcome program fuel caller w' c' dest Q (f a m')) :
    Outcome program fuel caller w c dest Q ((x >>= f) m) := by
  rw [Actions.bind_apply]
  cases hr : x m with
  | ok a m' =>
    rw [hr] at hx
    obtain ⟨k, c', w', hsteps, hg, hl, hfits, hP⟩ := hx
    have hl : Later True [c.stack] c.nodes c'.nodes := hl.mono id (by simp)
    obtain ⟨hs, hrest⟩ := hf a m' w' c' hg hl hfits hP
    exact hrest.after hsteps hg hs hl
  | error e m' =>
    rw [hr] at hx
    cases e <;> exact hx

end

/-! ## Inside one activation -/

/-- The second state comes later than the first, and nothing has been entered or left in between. -/
structure Follows (w w' : Layout) (c c' : Core) : Prop where
  grows : w.Grows w'
  later : Later True [c.stack] c.nodes c'.nodes
  env : c'.env = c.env
  stack : c'.stack = c.stack
  control : c'.control = c.control

theorem Follows.trans {w w' w'' : Layout} {c c' c'' : Core} (h : Follows w w' c c')
    (h' : Follows w' w'' c' c'') : Follows w w'' c c'' where
  grows := h.grows.trans h'.grows
  later := h.later.trans (h.stack ▸ h'.later)
  env := h'.env.trans h.env
  stack := h'.stack.trans h.stack
  control := h'.control.trans h.control

/-- All that has to hold where a tree is to be evaluated. -/
structure Ready (program : Program) (ctx : Context) (chain : List Nat) (caller : Option Landing)
    (w : Layout) (m : Memory) (c : Core) (ops : List Loc) (free : Nat) : Prop where
  fits : w.Fits program m c.nodes c.output
  sight : InSight w c.nodes ctx.scopes chain (some c.env)
  operands : c.nodes[c.stack]? = some (.operandStack ops free)
  waiting : ∀ L, caller = some L → Waiting c L
  returns : ctx.inFunction = true → caller.isSome

section

variable {program : Program} {ctx : Context} {chain : List Nat} {caller : Option Landing}
  {w w' : Layout} {m m' : Memory} {c c' : Core} {ops ops' : List Loc} {free free' : Nat}

theorem Ready.follow (h : Ready program ctx chain caller w m c ops free) (hf : Follows w w' c c')
    (hfits : w'.Fits program m' c'.nodes c'.output)
    (hops : c'.nodes[c'.stack]? = some (.operandStack ops' free')) :
    Ready program ctx chain caller w' m' c' ops' free' where
  fits := hfits
  sight := hf.env ▸ h.sight.later hf.grows hf.later
  operands := hops
  waiting L hL := (h.waiting L hL).later hf.later hf.stack ⟨[], hf.control, by simp⟩
  returns := h.returns

end

/-- The place behind the code that is running. -/
def landing (c : Core) (stop : Nat) (ops : List Loc) (free : Nat) : Landing :=
  ⟨stop, c.env, c.stack, c.control, ops, free⟩

theorem Follows.landing_eq {w w' : Layout} {c c' : Core} (h : Follows w w' c c') (stop : Nat)
    (ops : List Loc) (free : Nat) : landing c' stop ops free = landing c stop ops free := by
  simp only [landing, h.env, h.stack, h.control]

/-- Where the value of a tree goes. -/
def target (pos : Position) (caller : Option Landing) (after : Landing) : Landing :=
  match pos with
  | .tail => caller.getD after
  | _ => after

/-- The code between the addresses does what the evaluation does, if there is room for so many
operands. -/
def Sim (program : Program) (fuel : Nat) (ctx : Context) (chain : List Nat) (pos : Position)
    (start stop demand : Nat) (x : Eval Value) : Prop :=
  ∀ ⦃caller : Option Landing⦄ ⦃w : Layout⦄ ⦃m : Memory⦄ ⦃c : Core⦄ ⦃ops : List Loc⦄ ⦃free : Nat⦄,
    Ready program ctx chain caller w m c ops (free + 1) → c.pc = start → demand ≤ free + 1 →
    (pos = .tail → caller.isSome) →
    Outcome program fuel caller w c (target pos caller (landing c stop ops free)).stack
      ((target pos caller (landing c stop ops free)).Receives program) (x m)

section

variable {program : Program} {fuel : Nat} {ctx : Context} {chain : List Nat} {caller : Option Landing}
  {w w' : Layout} {m m' : Memory} {c c' : Core} {ops : List Loc} {free : Nat} {start stop demand : Nat}
  {x : Eval Value} {β : Type} {Q : β → Layout → Core → Prop} {dest : Loc} {pos : Position}

theorem Ready.receive {v : Value} (h : Ready program ctx chain caller w m c ops (free + 1))
    (hg : w.Grows w') (hl : Later True [c.stack] c.nodes c'.nodes)
    (hfits : w'.Fits program m' c'.nodes c'.output)
    (hv : (landing c stop ops free).Receives program v w' c') :
    ∃ l, IsAt program w' c'.nodes v l ∧ Follows w w' c c' ∧ c'.pc = stop ∧
      Ready program ctx chain caller w' m' c' (l :: ops) free := by
  obtain ⟨l, hv, hat⟩ := hv
  have hf : Follows w w' c c' := ⟨hg, hl, hat.env, hat.stack, hat.control⟩
  exact ⟨l, hv, hf, hat.pc, h.follow hf hfits (hat.stack ▸ hat.operands)⟩

/-- An operand is evaluated, and then the rest with the operand on the stack. -/
theorem Sim.andThen {f : Value → Eval β} (hx : Sim program fuel ctx chain .operand start stop demand x)
    (hready : Ready program ctx chain caller w m c ops (free + 1)) (hpc : c.pc = start)
    (hd : demand ≤ free + 1)
    (hf : ∀ v l m' w' c', Follows w w' c c' → c'.pc = stop → IsAt program w' c'.nodes v l →
      Ready program ctx chain caller w' m' c' (l :: ops) free →
      Outcome program fuel caller w' c' dest Q (f v m')) :
    Outcome program fuel caller w c dest Q ((x >>= f) m) := by
  refine Outcome.bind (hx hready hpc hd (by simp)) fun v m' w' c' hg hl hfits hv => ?_
  obtain ⟨l, hv, hfol, hpc', hready'⟩ := hready.receive hg hl hfits hv
  exact ⟨hfol.stack, hf v l m' w' c' hfol hpc' hv hready'⟩

/-- Steps inside the activation come first. -/
theorem Outcome.follow {k : Nat} {r : EStateM.Result Exit Memory β}
    (h : Outcome program fuel caller w' c' dest Q r) (hsteps : Steps program k c c')
    (hf : Follows w w' c c') : Outcome program fuel caller w c dest Q r :=
  h.after hsteps hf.grows hf.stack hf.later

/-- A value that is to be returned has arrived. -/
theorem Outcome.ret {r : EStateM.Result Exit Memory Value} {L : Landing}
    (h : Outcome program fuel caller w c c.stack ((landing c stop ops free).Receives program) r)
    (hi : program.code[stop]? = some .ret) (hL : Waiting c L) :
    Outcome program fuel caller w c L.stack (L.Receives program) r := by
  refine h.andSteps fun v m' w' c' hg hl hfits hv => ?_
  obtain ⟨l, hv, hat⟩ := hv
  obtain ⟨blocks, frame, hcontrol, hblocks, hframe, hstack, hne⟩ :=
    hL.later hl hat.stack ⟨[], hat.control, by simp⟩
  have hops : c'.nodes[c'.stack]? = _ := hat.stack ▸ hat.operands
  have hi : program.code[c'.pc]? = some .ret := by
    rw [hat.pc]
    exact hi
  have hstep := Ideal.step_ret hi hops hcontrol hblocks hframe hstack hne
  have hquiet : Later False [c'.stack, L.stack] c'.nodes
      ((c'.nodes.set c'.stack (.operandStack ops (free + 1))).set L.stack
        (.operandStack (l :: L.ops) L.free)) :=
    (Later.use hops (by simp)).trans
      (Later.use ((List.getElem?_set_ne hne).trans hstack) (by simp))
  exact ⟨hat.stack, 1, _, w', hstep.steps, .refl w', hquiet.mono False.elim fun _ h => h,
    hfits.later hquiet, l, hv.later (.refl w') hquiet, rfl, rfl, rfl, rfl,
    List.getElem?_set_self (by simpa using (List.getElem?_eq_some_iff.mp hstack).1)⟩

/-- Behind the code of a value comes what its position asks for. -/
theorem Sim.finish {code : Code} (hcode : CodeAt program start (Code.finish pos code))
    (h : CodeAt program start code →
      Sim program fuel ctx chain .operand start (start + code.length) demand x) :
    Sim program fuel ctx chain pos start (start + (Code.finish pos code).length) demand x := by
  cases pos with
  | operand => exact h hcode
  | statement => exact fun _ _ _ _ _ _ hready hpc hd _ => h hcode hready hpc hd (by simp)
  | tail =>
    intro caller w m c ops free hready hpc hd hcaller
    obtain ⟨hcode, hret⟩ := codeAt_append.mp hcode
    obtain ⟨L, rfl⟩ := Option.isSome_iff_exists.mp (hcaller rfl)
    exact (h hcode hready hpc hd (by simp)).ret (codeAt_cons.mp hret).1 (hready.waiting L rfl)

end

end ClosureMachine.Source
