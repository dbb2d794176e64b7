import ClosureMachine.Proofs.Ideal.Simulation

/-!
# The machine does what the ideal machine does

One lemma for each action of the machine, from registers to instructions, in the order of their
definitions; then a turn, a run and booting. The proofs follow the text of the actions, with the rules of
`Sim` for the steps.
-/

set_option autoImplicit false

namespace ClosureMachine

open ClosureMachine.Ideal (State Act Loc Node NodeM)

variable {room : Nat} {w : World}

/-! ## Registers -/

theorem sim_jump (target : Nat) :
    Sim room w (Machine.jump target) (Ideal.jump target) (fun w' _ _ => w' = w ∧ True) :=
  Sim.modify (fun _ => ⟨rfl, rfl⟩) fun hrel => { hrel with pc := rfl }

theorem sim_advance : Sim room w Machine.advance Ideal.advance (fun w' _ _ => w' = w ∧ True) :=
  Sim.modify (fun _ => ⟨rfl, rfl⟩) fun hrel => { hrel with pc := congrArg (· + 1) hrel.pc }

theorem sim_setEnv {r : Ref} {l : Loc} (hl : w.At r l) :
    Sim room w (Machine.setEnv r) (Ideal.setEnv l) (fun w' _ _ => w' = w ∧ True) :=
  Sim.modify (fun _ => ⟨rfl, rfl⟩) fun hrel => { hrel with env := hl }

theorem sim_setStack {r : Ref} {l : Loc} (hl : w.At r l) :
    Sim room w (Machine.setStack r) (Ideal.setStack l) (fun w' _ _ => w' = w ∧ True) :=
  Sim.modify (fun _ => ⟨rfl, rfl⟩) fun hrel => { hrel with stack := hl }

/-- Steps outward from corresponding environments. -/
theorem heapSim_outward (frames : Nat) {r : Ref} {l : Loc} (hl : w.At r l) :
    HeapSim w (liftM (Environment.outward r frames)) (Ideal.outward l frames) (Option.Rel w.At) := by
  induction frames generalizing r l with
  | zero => exact HeapSim.pure (.some hl)
  | succ frames ih =>
    have hlift : (liftM (Environment.outward r (frames + 1)) : HeapM (Option Ref)) =
        (liftM (Environment.enclosing? r) >>= fun found =>
          found.elim (pure none) fun outer => liftM (Environment.outward outer frames)) := by
      funext h
      simp only [Environment.outward, Actions.lift_look_heap, Actions.look_bind, Actions.bind_apply]
      cases Environment.enclosing? r h with
      | error e => rfl
      | ok found => cases found <;> rfl
    rw [hlift]
    refine HeapSim.bind (HeapSim.look hl fun hp => hp.answers_enclosing?) ?_
    rintro _ _ (⟨houter⟩ | _)
    · exact ih houter
    · exact HeapSim.pure .none

theorem sim_outward (frames : Nat) :
    Sim room w (Machine.outward frames) (Ideal.environmentAt frames)
      (fun w' r l => w' = w ∧ w.At r l) := by
  refine Sim.get_bind fun {m s} hrel => ?_
  have hlift : (liftM (Environment.outward m.registers.env frames) : MachineM (Option Ref)) =
      liftM (liftM (Environment.outward m.registers.env frames) : HeapM (Option Ref)) := by
    funext m
    rw [Actions.lift_look_machine, Actions.lift_heap_machine, Actions.lift_look_heap]
    cases Environment.outward _ frames m.heap <;> rfl
  rw [hlift]
  refine Sim.bind_still (Sim.heap (heapSim_outward frames hrel.env)) ?_
  rintro _ _ (⟨hl⟩ | _)
  · exact Sim.pure ⟨rfl, hl⟩
  · exact Sim.throw rfl

/-! ## Operands -/

theorem sim_push {r : Ref} {l : Loc} (hl : w.At r l) :
    Sim room w (Machine.push r) (Ideal.push l) (fun w' _ _ => w' = w ∧ True) :=
  Sim.get_bind fun hrel => Sim.heap (heapSim_push hrel.stack hl)

theorem sim_pop : Sim room w Machine.pop Ideal.pop (fun w' r l => w' = w ∧ w.At r l) :=
  Sim.get_bind fun hrel => Sim.heap (heapSim_pop hrel.stack)

theorem sim_operand {r : Ref} {l : Loc} (hl : w.At r l) :
    Sim room w (liftM (Operand.of r) : MachineM Operand)
      (liftM (Ideal.look l (Node.argument l)) : Act Argument)
      (fun w' o a => w' = w ∧ w.Stands o a) :=
  Sim.look hl fun hp => hp.answers_argument hl

theorem sim_popOperands (n : Nat) {operands : List Operand} {args : List Argument}
    (h : List.Forall₂ w.Stands operands args) :
    Sim room w (Machine.popOperands operands n) (Ideal.popOperands args n)
      (fun w' os as => w' = w ∧ List.Forall₂ w.Stands os as) := by
  induction n generalizing operands args with
  | zero => exact Sim.pure ⟨rfl, h⟩
  | succ n ih =>
    refine Sim.bind_still sim_pop fun hl => ?_
    refine Sim.bind_still (sim_operand hl) fun ho => ?_
    exact ih (.cons ho h)

/-! ## Frames -/

theorem sim_pushFrame {r : Ref} {l : Loc} (hl : w.At r l) :
    Sim room w (Machine.pushFrame r) (Ideal.pushFrame l) (fun w' _ _ => w' = w ∧ True) := by
  refine Sim.bind_still (Sim.modify (fun _ => ⟨rfl, rfl⟩) fun hrel => { hrel with control := .cons hl hrel.control }) fun _ => ?_
  refine Sim.modify (fun _ => ⟨rfl, rfl⟩) fun hrel => { hrel with peakDepth := ?_ }
  simp only [hrel.peakDepth, ControlStack.depth_eq, hrel.control.length_eq]

theorem sim_dropFrame :
    Sim room w Machine.dropFrame Ideal.dropFrame (fun w' _ _ => w' = w ∧ True) := by
  refine Sim.modify (fun _ => ⟨rfl, rfl⟩) fun hrel => { hrel with control := ?_ }
  rw [ControlStack.frames_tail, ← List.drop_one, ← List.drop_one]
  exact List.forall₂_drop 1 hrel.control

theorem sim_popFrame :
    Sim room w Machine.popFrame Ideal.popFrame (fun w' r l => w' = w ∧ w.At r l) := by
  refine Sim.get_bind fun {m s} hrel => ?_
  have hcontrol := hrel.control
  generalize m.registers.control.frames = frames, s.control = locs at hcontrol
  cases hcontrol with
  | nil => exact Sim.throw rfl
  | cons hl _ => exact Sim.bind_still sim_dropFrame fun _ => Sim.pure ⟨rfl, hl⟩

theorem sim_unwindBlocks {frames : List Ref} {locs : List Loc} (h : List.Forall₂ w.At frames locs) :
    Sim room w (Machine.unwindBlocks frames) (Ideal.unwindBlocks locs)
      (fun w' _ _ => w' = w ∧ True) := by
  induction h with
  | nil => exact Sim.throw rfl
  | cons hl _ ih =>
    refine Sim.bind_still (Sim.look hl fun hp => hp.answers_kind) ?_
    rintro kind _ rfl
    cases kind with
    | callFrame => exact Sim.pure ⟨rfl, trivial⟩
    | blockFrame => exact Sim.bind_still sim_dropFrame fun _ => ih
    | _ => exact Sim.throw rfl

theorem sim_leaveBlocks :
    Sim room w Machine.leaveBlocks Ideal.leaveBlocks (fun w' _ _ => w' = w ∧ True) :=
  Sim.get_bind fun hrel => sim_unwindBlocks hrel.control

/-! ## Pinned nodes -/

theorem sim_setPinned {pinned : List Ref} {locs : List Loc} (h : List.Forall₂ w.At pinned locs) :
    Sim room w (Machine.setPinned pinned) (Ideal.setPinned locs) (fun w' _ _ => w' = w ∧ True) :=
  Sim.modify (fun _ => ⟨rfl, rfl⟩) fun hrel => { hrel with pinned := h }

theorem sim_pin {r : Ref} {l : Loc} (hl : w.At r l) :
    Sim room w (Machine.pin r) (Ideal.pin l) (fun w' _ _ => w' = w ∧ True) :=
  Sim.get_bind fun hrel => sim_setPinned (.cons hl hrel.pinned)

theorem sim_unpin : Sim room w Machine.unpin Ideal.unpin (fun w' r l => w' = w ∧ w.At r l) := by
  refine Sim.get_bind fun {m s} hrel => ?_
  have hpinned := hrel.pinned
  generalize m.registers.pinned = pinned, s.pinned = locs at hpinned
  cases hpinned with
  | nil => exact Sim.throw rfl
  | cons hl hrest => exact Sim.bind_still (sim_setPinned hrest) fun _ => Sim.pure ⟨rfl, hl⟩

/-! ## The host -/

/-- More texts do no harm. -/
theorem Rel.withHost {m : Machine} {s : State} (hrel : Rel room w m s) {host : Host}
    {output : Array String} (hg : w.Grows host.strings) (ho : host.output = output) :
    Rel room ⟨w.place, host.strings⟩ { m with host := host } { s with output := output } :=
  { hrel with
    rep :=
      { halved := hrel.rep.halved
        placed := fun hl => by
          obtain ⟨n, hn, hp⟩ := hrel.rep.placed hl
          exact ⟨n, hn, hp.mono (fun hh => hh) hg.2 rfl rfl (Nat.le_refl _) hp.inside fun _ _ => rfl⟩
        apart := hrel.rep.apart
        covered := hrel.rep.covered }
    texts := rfl
    sound := hg.1
    output := ho }

theorem sim_datumOf (value : Literal) :
    Sim room w (liftM (Host.datumOf value) : MachineM Datum) (pure value)
      (fun w' d x => x = value ∧ w'.Means d x) := by
  intro m s hrel
  have hsame : w.Grows m.host.strings := by
    rw [hrel.texts]
    exact ⟨hrel.sound, fun hh => hh⟩
  cases value with
  | string text =>
    have hint := hrel.sound.intern text
    have hgrows : w.Grows (m.host.strings.intern text).2 := by
      rw [hrel.texts]
      exact ⟨hint.1, fun {id s} hh => (hint.2 id s).mpr (Or.inl hh)⟩
    have hholds : (m.host.strings.intern text).2.Holds (m.host.strings.intern text).1 text := by
      rw [hrel.texts]
      exact hrel.sound.holds_intern text
    exact ⟨_, @Rel.withHost room w m s hrel ⟨(m.host.strings.intern text).2, m.host.output⟩ _ hgrows
      hrel.output, .still _ (.refl _) rfl, rfl, hholds⟩
  | _ => exact ⟨w, hrel, .refl w m, rfl, by simp [World.Means]⟩

theorem sim_applyPrimitive (p : Primitive) {operands : List Operand} {args : List Argument}
    (h : List.Forall₂ w.Stands operands args) :
    Sim room w (liftM (p.apply operands) : MachineM Datum) (Ideal.applyPrimitive p args)
      (fun w' d x => w'.Means d x) := by
  intro m s hrel
  have hans := p.apply_meaning hrel.texts hrel.sound hrel.rep.distinct h
  rw [Actions.lift_host_machine]
  unfold Ideal.applyPrimitive
  cases ha : p.apply operands m.host <;> cases hm : p.meaning args <;> rw [ha, hm] at hans
  · exact hans.elim
  · obtain ⟨hout, hgrows, hmeans⟩ := hans
    exact ⟨_, hrel.withHost hgrows (by rw [hout, hrel.output]), .still _ (.refl _) rfl, hmeans⟩
  · obtain ⟨rfl, rfl⟩ := hans
    obtain ⟨context, expected, got, rfl⟩ := p.meaning_error args hm
    exact ⟨⟨w, hrel, .refl w m⟩, rfl⟩
  · exact hans.elim

/-! ## Calls -/

theorem sim_returnFromCall :
    Sim room w Machine.returnFromCall Ideal.returnFromCall (fun _ _ _ => True) := by
  refine Sim.bind_still sim_pop fun hvalue => ?_
  refine Sim.bind_still sim_leaveBlocks fun _ => ?_
  refine Sim.bind_still sim_popFrame fun hframe => ?_
  refine Sim.bind_still (Sim.look hframe fun hp => hp.answers_returnAddress) ?_
  rintro address _ rfl
  refine Sim.bind_still (sim_jump address) fun _ => ?_
  refine Sim.bind_still (Sim.look hframe fun hp => hp.answers_frameEnv) fun henv => ?_
  refine Sim.bind_still (sim_setEnv henv) fun _ => ?_
  refine Sim.bind_still (Sim.look hframe fun hp => hp.answers_frameStack) fun hstack => ?_
  refine Sim.bind_still (sim_setStack hstack) fun _ => ?_
  exact (sim_push hvalue).mono fun _ => trivial

theorem sim_callPrimitive {r : Ref} {l : Loc} (hl : w.At r l) (n : Nat) (tail : Bool) :
    Sim room w (Machine.callPrimitive r n tail) (Ideal.callPrimitive (some room) l n tail)
      (fun _ _ _ => True) := by
  refine Sim.bind_still (Sim.look hl fun hp => hp.answers_primitiveId) ?_
  rintro id _ rfl
  cases Primitive.ofId? id with
  | none => exact Sim.throw rfl
  | some p =>
    refine Sim.ite (fun _ => Sim.throw_bind rfl) fun _ => ?_
    refine Sim.bind_still (sim_popOperands n .nil) fun hargs => ?_
    refine Sim.bind_still sim_pop fun _ => ?_
    refine Sim.bind (sim_applyPrimitive p hargs) fun hmeans => ?_
    refine Sim.bind (Sim.fresh (builds_boxed hmeans)) ?_
    rintro w' r l ⟨_, hbox⟩
    refine Sim.bind_still (sim_push hbox) fun _ => ?_
    exact Sim.ite (fun _ => sim_returnFromCall) fun _ => sim_advance.mono fun _ => trivial

theorem sim_moveArguments {r : Ref} {l : Loc} (hl : w.At r l) (n : Nat) :
    Sim room w (Machine.moveArguments r n) (Ideal.moveArguments l n)
      (fun w' _ _ => w' = w ∧ True) := by
  induction n with
  | zero => exact Sim.pure ⟨rfl, trivial⟩
  | succ n ih =>
    refine Sim.bind_still sim_pop fun hv => ?_
    exact Sim.bind_still (Sim.heap (heapSim_setSlot hl hv n)) fun _ => ih

theorem sim_newFrame (tail : Bool) :
    Sim room w (Machine.newFrame tail) (Ideal.newFrame (some room) tail)
      (fun w' r l => Option.Rel w'.At r l) := by
  cases tail with
  | true => exact Sim.pure .none
  | false =>
    refine Sim.get_bind fun {m s} hrel => ?_
    rw [hrel.pc]
    refine Sim.bind (Sim.fresh (builds_callFrame _)) ?_
    rintro w' r l ⟨_, hl⟩
    exact Sim.pure (.some hl)

theorem sim_suspend {frame : Option Ref} {l : Option Loc} (h : Option.Rel w.At frame l) :
    Sim room w (Machine.suspend frame) (Ideal.suspend l) (fun w' _ _ => w' = w ∧ True) := by
  cases h with
  | none => exact sim_leaveBlocks
  | some hl =>
    refine Sim.get_bind fun hrel => ?_
    refine Sim.bind_still (Sim.heap (heapSim_setFrameEnv hl hrel.env)) fun _ => ?_
    refine Sim.get_bind fun hrel => ?_
    refine Sim.bind_still (Sim.heap (heapSim_setFrameStack hl hrel.stack)) fun _ => ?_
    exact sim_pushFrame hl

theorem sim_callClosure {r : Ref} {l : Loc} (hl : w.At r l) (n : Nat) (tail : Bool) :
    Sim room w (Machine.callClosure r n tail) (Ideal.callClosure (some room) l n tail)
      (fun _ _ _ => True) := by
  refine Sim.bind_still (Sim.look hl fun hp => hp.answers_arity) ?_
  rintro arity _ rfl
  refine Sim.bind_still (Sim.look hl fun hp => hp.answers_entry) ?_
  rintro entry _ rfl
  refine Sim.bind_still (Sim.look hl fun hp => hp.answers_capacity) ?_
  rintro capacity _ rfl
  refine Sim.ite (fun _ => Sim.throw_bind rfl) fun _ => ?_
  -- Each allocation brings its own world; only what is pinned is known in the next.
  refine Sim.bind (Sim.fresh (builds_environment n)) ?_
  rintro w₁ r₁ l₁ ⟨_, h₁⟩
  refine Sim.bind_still (sim_pin h₁) fun _ => ?_
  refine Sim.bind (Sim.fresh (builds_operandStack capacity)) ?_
  rintro w₂ r₂ l₂ ⟨_, h₂⟩
  refine Sim.bind_still (sim_pin h₂) fun _ => ?_
  refine Sim.bind (sim_newFrame tail) fun hframe => ?_
  refine Sim.bind_still sim_unpin fun hstack => ?_
  refine Sim.bind_still sim_unpin fun henv => ?_
  refine Sim.bind_still (sim_moveArguments henv n) fun _ => ?_
  refine Sim.bind_still sim_pop fun hclosure => ?_
  refine Sim.bind_still (Sim.look hclosure fun hp => hp.answers_closureEnv) fun houter => ?_
  refine Sim.bind_still (Sim.heap (heapSim_setEnclosing henv houter)) fun _ => ?_
  refine Sim.bind_still (sim_suspend hframe) fun _ => ?_
  refine Sim.bind_still (sim_setEnv henv) fun _ => ?_
  refine Sim.bind_still (sim_setStack hstack) fun _ => ?_
  exact (sim_jump entry).mono fun _ => trivial

theorem sim_typeNameOf {r : Ref} {l : Loc} (hl : w.At r l) :
    Sim room w (Machine.typeNameOf r) (Ideal.typeNameOf l) (fun _ a b => a = b) := by
  refine Sim.get_bind fun {m s} hrel => ?_
  obtain ⟨n, hn, hp⟩ := hrel.rep.placed hl
  have hans := hp.answers_argument hl
  simp only [Ideal.look, hn]
  cases hx : Operand.of r m.heap <;> cases hy : n.argument l <;> rw [hx, hy] at hans
  · exact Sim.pure rfl
  · exact hans.elim
  · exact hans.elim
  · exact Sim.pure hans.typeName

theorem sim_call (n : Nat) (tail : Bool) :
    Sim room w (Machine.call n tail) (Ideal.call (some room) n tail) (fun _ _ _ => True) := by
  refine Sim.get_bind fun hrel => ?_
  refine Sim.bind_still (Sim.look hrel.stack fun hp => hp.answers_peek n) fun hl => ?_
  refine Sim.bind_still (Sim.look hl fun hp => hp.answers_kind) ?_
  rintro kind _ rfl
  cases kind with
  | primitive => exact sim_callPrimitive hl n tail
  | closure => exact sim_callClosure hl n tail
  | _ =>
    refine Sim.bind (sim_typeNameOf hl) ?_
    rintro _ name _ rfl
    exact Sim.throw rfl

/-! ## The other instructions -/

theorem sim_loadConstant (value : Literal) :
    Sim room w (Machine.loadConstant value) (Ideal.loadConstant (some room) value)
      (fun _ _ _ => True) := by
  show Sim room w (Machine.loadConstant value)
    (pure value >>= fun value => Ideal.loadConstant (some room) value) _
  refine Sim.bind (sim_datumOf value) ?_
  rintro w' d _ ⟨rfl, hmeans⟩
  refine Sim.bind (Sim.fresh (builds_boxed hmeans)) ?_
  rintro w'' r l ⟨_, hl⟩
  exact Sim.bind_still (sim_push hl) fun _ => sim_advance.mono fun _ => trivial

theorem sim_load (source : Address) :
    Sim room w (Machine.load source) (Ideal.load source) (fun _ _ _ => True) := by
  refine Sim.bind_still (sim_outward source.frame) fun henv => ?_
  refine Sim.bind_still (Sim.look henv fun hp => hp.answers_slot? source.slot) ?_
  rintro _ _ (⟨hl⟩ | _)
  · exact Sim.bind_still (sim_push hl) fun _ => sim_advance.mono fun _ => trivial
  · exact Sim.throw rfl

theorem sim_assign (target : Address) :
    Sim room w (Machine.assign target) (Ideal.assign target) (fun _ _ _ => True) := by
  refine Sim.get_bind fun hrel => ?_
  refine Sim.bind_still (Sim.look hrel.stack fun hp => hp.answers_peek 0) fun hvalue => ?_
  refine Sim.bind_still (sim_outward target.frame) fun henv => ?_
  refine Sim.bind_still (Sim.heap (heapSim_setSlot henv hvalue target.slot)) fun _ => ?_
  exact sim_advance.mono fun _ => trivial

theorem sim_jumpIfFalse (target : Nat) :
    Sim room w (Machine.jumpIfFalse target) (Ideal.jumpIfFalse target) (fun _ _ _ => True) := by
  refine Sim.bind_still sim_pop fun hl => ?_
  refine Sim.bind_still (sim_operand hl) fun {o a} ho => ?_
  cases o with
  | datum d =>
    cases a <;> simp only [World.Stands] at ho
    rename_i x
    cases d <;> cases x <;> simp only [World.Means] at ho
    case boolean.boolean b _ =>
      subst ho
      cases b with
      | true => exact sim_advance.mono fun _ => trivial
      | false => exact (sim_jump target).mono fun _ => trivial
    all_goals exact Sim.throw rfl
  | closure r arity =>
    cases a <;> simp only [World.Stands] at ho
    exact Sim.throw rfl
  | primitive id =>
    cases a <;> simp only [World.Stands] at ho
    exact Sim.throw rfl

theorem sim_enterScope (slots : Nat) :
    Sim room w (Machine.enterScope slots) (Ideal.enterScope (some room) slots) (fun _ _ _ => True) := by
  refine Sim.bind (Sim.fresh builds_blockFrame) ?_
  rintro w₁ frame l₁ ⟨_, h₁⟩
  refine Sim.get_bind fun hrel => ?_
  refine Sim.bind_still (Sim.heap (heapSim_setFrameEnv h₁ hrel.env)) fun _ => ?_
  refine Sim.bind_still (sim_pushFrame h₁) fun _ => ?_
  refine Sim.bind (Sim.fresh (builds_environment slots)) ?_
  rintro w₂ env l₂ ⟨_, h₂⟩
  refine Sim.get_bind fun hrel => ?_
  refine Sim.bind_still (Sim.heap (heapSim_setEnclosing h₂ hrel.env)) fun _ => ?_
  refine Sim.bind_still (sim_setEnv h₂) fun _ => ?_
  exact sim_advance.mono fun _ => trivial

theorem sim_exitScope : Sim room w Machine.exitScope Ideal.exitScope (fun _ _ _ => True) := by
  refine Sim.bind_still sim_popFrame fun hl => ?_
  refine Sim.bind_still (Sim.look hl fun hp => hp.answers_expect .blockFrame) fun _ => ?_
  refine Sim.bind_still (Sim.look hl fun hp => hp.answers_frameEnv) fun henv => ?_
  refine Sim.bind_still (sim_setEnv henv) fun _ => ?_
  exact sim_advance.mono fun _ => trivial

theorem sim_loadFunction (arity entry stack : Nat) :
    Sim room w (Machine.loadFunction arity entry stack)
      (Ideal.loadFunction (some room) arity entry stack) (fun _ _ _ => True) := by
  refine Sim.bind (Sim.fresh (builds_closure arity entry stack)) ?_
  rintro w₁ closure l₁ ⟨_, h₁⟩
  refine Sim.get_bind fun hrel => ?_
  refine Sim.bind_still (Sim.heap (heapSim_setClosureEnv h₁ hrel.env)) fun _ => ?_
  refine Sim.bind_still (sim_push h₁) fun _ => ?_
  exact sim_advance.mono fun _ => trivial

theorem sim_finish : Sim room w Machine.finish Ideal.finish (fun _ a b => a = b) := by
  refine Sim.get_bind fun hrel => ?_
  refine Sim.bind_still (Sim.look hrel.stack fun hp => hp.answers_depth) ?_
  rintro depth _ rfl
  refine Sim.ite (fun _ => Sim.throw_bind rfl) fun _ => ?_
  refine Sim.bind_still sim_pop fun hl => ?_
  refine Sim.bind_still (sim_operand hl) fun {o a} ho => ?_
  cases o with
  | datum d =>
    cases a <;> simp only [World.Stands] at ho
    exact fun m s hrel => ⟨w, hrel, .refl w m, by rw [ho.literalOf hrel.texts]⟩
  | closure r arity =>
    cases a <;> simp only [World.Stands] at ho
    exact Sim.pure (by rw [ho.2])
  | primitive id =>
    cases a <;> simp only [World.Stands] at ho
    exact Sim.pure (by rw [ho])

theorem sim_execute (i : Instruction) :
    Sim room w (Machine.execute i) (Ideal.execute (some room) i) (fun _ a b => a = b) := by
  have hquiet : ∀ {x : MachineM Unit} {y : Act Unit}, Sim room w x y (fun _ _ _ => True) →
      Sim room w (do x; return none : MachineM (Option Answer)) (do y; return none)
        (fun _ a b => a = b) :=
    fun hxy => Sim.bind hxy fun _ => Sim.pure rfl
  cases i with
  | loadConstant value => exact hquiet (sim_loadConstant value)
  | load source => exact hquiet (sim_load source)
  | assign target => exact hquiet (sim_assign target)
  | jumpIfFalse target => exact hquiet (sim_jumpIfFalse target)
  | jump target => exact hquiet ((sim_jump target).mono fun _ => trivial)
  | pop =>
    refine Sim.bind_still sim_pop fun _ => ?_
    exact Sim.bind_still sim_advance fun _ => Sim.pure rfl
  | enterScope slots => exact hquiet (sim_enterScope slots)
  | exitScope => exact hquiet sim_exitScope
  | loadFunction arity entry stack => exact hquiet (sim_loadFunction arity entry stack)
  | call n => exact hquiet (sim_call n false)
  | tailCall n => exact hquiet (sim_call n true)
  | ret => exact hquiet sim_returnFromCall
  | done =>
    refine Sim.bind sim_finish ?_
    rintro _ answer _ rfl
    exact Sim.pure rfl

/-! ## Turns -/

theorem sim_countStep (limit : Option Nat) :
    Sim room w (Machine.countStep limit) (Ideal.countStep limit) (fun w' _ _ => w' = w ∧ True) := by
  refine Sim.bind_still (Sim.modify (fun _ => ⟨rfl, rfl⟩) fun hrel => { hrel with steps := congrArg (· + 1) hrel.steps })
    fun _ => ?_
  cases limit with
  | none => exact Sim.pure ⟨rfl, trivial⟩
  | some limit =>
    refine Sim.get_bind fun hrel => ?_
    rw [hrel.steps]
    exact Sim.ite (fun _ => Sim.throw rfl) fun _ => Sim.pure ⟨rfl, trivial⟩

/-- A text that a word in use refers to is in use. -/
theorem mem_textsInUse {h : Heap} (hh : h.Halved) {j id : Nat} (hj : h.base ≤ j ∧ j < h.free)
    (hw : h.word j = .datum (.string id)) : id ∈ Machine.textsInUse h := by
  have hsize : h.free ≤ h.words.size := hh.free_le.trans hh.half_le
  unfold Machine.textsInUse
  rw [List.mem_filterMap]
  refine ⟨.datum (.string id), ?_, rfl⟩
  rw [Array.mem_toList_iff, Array.mem_iff_getElem?]
  refine ⟨j - h.base, ?_⟩
  rw [Heap.liveWords, Array.getElem?_extract, if_pos (by omega), show h.base + (j - h.base) = j by omega]
  rw [← hw, Heap.word, Array.getD_eq_getD_getElem?, Array.getElem?_eq_getElem (by omega)]
  rfl

@[simp] theorem Machine.heap_sweep (m : Machine) : m.sweep.heap = m.heap := by
  unfold Machine.sweep
  dsimp only
  split <;> rfl

/-- A sweep releases no text that a placed node holds, and moves nothing. -/
theorem Rel.sweep {m : Machine} {s : State} (hrel : Rel room w m s) :
    ∃ texts, Rel room ⟨w.place, texts⟩ m.sweep s := by
  unfold Machine.sweep
  by_cases hsame : m.heap.collections.size = m.sweptAt
  · rw [if_pos hsame]
    exact ⟨w.texts, hrel⟩
  · rw [if_neg hsame]
    have hretain := hrel.sound.retain (Machine.textsInUse m.heap)
    refine ⟨w.texts.retain (Machine.textsInUse m.heap), { hrel with
      rep := ⟨hrel.rep.halved, ?_, hrel.rep.apart, hrel.rep.covered⟩
      texts := by simp only [hrel.texts]
      sound := hretain.1 }⟩
    intro l r hl
    obtain ⟨n, hn, hp⟩ := hrel.rep.placed hl
    refine ⟨n, hn, { hp with cells := ?_ }⟩
    intro k c hk
    have hshow := hp.cells hk
    have hlt : k < n.cells.length := (List.getElem?_eq_some_iff.mp hk).1
    cases c with
    | literal x =>
      obtain ⟨d, hw, hm⟩ := hshow
      refine ⟨d, hw, ?_⟩
      cases d <;> cases x <;> simp only [World.Means] at hm ⊢ <;> try exact hm
      refine (hretain.2 _ _).mpr ⟨hm, mem_textsInUse hrel.rep.halved ⟨?_, ?_⟩ hw⟩
      · have := hp.lower
        omega
      · have := hp.upper
        unfold Node.size at this
        omega
    | _ => exact hshow

/-- Corresponding ends of turns: the same, but for positions in memory. -/
def SameTurn : Turn → Turn → Prop
  | .ok outcome, .ok outcome' => outcome = outcome'
  | .error f, .error f' => f'.fault = f.fault.anywhere ∧ f'.location = f.location
  | _, _ => False

/-- The end of a turn whose instruction led to `m`, which is swept if the program goes on. -/
def Concludes (m : Machine) : Turn × Machine → Prop
  | (.ok none, m') => m' = m.sweep
  | (_, m') => m' = m

/-- The machine and the ideal machine take the same turn. -/
theorem Rel.turn_passes {m : Machine} {s : State} (hrel : Rel room w m s) (config : Config)
    (program : Program) :
    SameTurn (m.turn config program).1 (Ideal.turn (some room) config.maxSteps program s).1 ∧
      ∃ w' m', Rel room w' m' (Ideal.turn (some room) config.maxSteps program s).2 ∧
        Passes w m w' m' ∧ Concludes m' (m.turn config program) := by
  unfold Machine.turn Ideal.turn
  rw [hrel.pc]
  cases program.code[s.pc]? with
  | none => exact ⟨⟨rfl, rfl⟩, w, m, hrel, .refl w m, rfl⟩
  | some i =>
    have hsim : Sim room w (do Machine.countStep config.maxSteps; Machine.execute i)
        (do Ideal.countStep config.maxSteps; Ideal.execute (some room) i) (fun _ a b => a = b) :=
      Sim.bind_still (sim_countStep config.maxSteps) fun _ => sim_execute i
    have hout := hsim hrel
    dsimp only
    cases hx : (do Machine.countStep config.maxSteps; Machine.execute i : MachineM _) m <;>
      cases hy : (do Ideal.countStep config.maxSteps; Ideal.execute (some room) i : Act _) s <;>
      rw [hx, hy] at hout
    · obtain ⟨w', hrel', hpass, rfl⟩ := hout
      rename_i outcome m' _
      cases outcome with
      | none => exact ⟨rfl, w', m', hrel', hpass, rfl⟩
      | some answer => exact ⟨rfl, w', m', hrel', hpass, rfl⟩
    · exact hout.elim
    · exact hout.elim
    · obtain ⟨⟨w', hrel', hpass⟩, rfl⟩ := hout
      exact ⟨⟨rfl, rfl⟩, w', _, hrel', hpass, rfl⟩

/-- Names keep to their nodes through a turn, the sweep included. -/
theorem Rel.turn_trail {m : Machine} {s : State} (hrel : Rel room w m s) (config : Config)
    (program : Program) :
    ∃ w', Rel room w' (m.turn config program).2 (Ideal.turn (some room) config.maxSteps program s).2 ∧
      w.Trail m.heap w' (m.turn config program).2.heap := by
  obtain ⟨-, w', m', hrel', hpass, hend⟩ := hrel.turn_passes config program
  rcases hturn : m.turn config program with ⟨_ | _ | answer, end'⟩ <;> rw [hturn] at hend
  · obtain rfl := hend
    exact ⟨w', hrel', hpass.trail⟩
  · obtain rfl := hend
    obtain ⟨texts, hswept⟩ := hrel'.sweep
    refine ⟨_, hswept, hpass.trail.trans (.still ?_ (fun hl => hl) .inl)⟩
    rw [Machine.heap_sweep]
    exact .refl _
  · obtain rfl := hend
    exact ⟨w', hrel', hpass.trail⟩

theorem Rel.turn {m : Machine} {s : State} (hrel : Rel room w m s) (config : Config)
    (program : Program) :
    SameTurn (m.turn config program).1 (Ideal.turn (some room) config.maxSteps program s).1 ∧
      ∃ w', Rel room w' (m.turn config program).2
        (Ideal.turn (some room) config.maxSteps program s).2 := by
  obtain ⟨w', hrel', -⟩ := hrel.turn_trail config program
  exact ⟨(hrel.turn_passes config program).1, w', hrel'⟩

/-! ## Runs -/

/-- Corresponding ends of runs. -/
def SameEnd : Except Failure Answer → Except Failure Answer → Prop
  | .ok answer, .ok answer' => answer = answer'
  | .error f, .error f' => f'.fault = f.fault.anywhere ∧ f'.location = f.location
  | _, _ => False

/-- Corresponding outcomes of runs: neither has come to its end, or both have, in the same way. -/
def SameRun (room : Nat) : Option (Except Failure Answer × Machine) →
    Option (Except Failure Answer × State) → Prop
  | none, none => True
  | some (out, m), some (out', s) => SameEnd out out' ∧ ∃ w, Rel room w m s
  | _, _ => False

theorem Rel.follow {m : Machine} {s : State} (hrel : Rel room w m s) (config : Config)
    (program : Program) (fuel : Nat) :
    SameRun room (follow (Machine.turn config program) fuel m)
      (follow (Ideal.turn (some room) config.maxSteps program) fuel s) := by
  induction fuel generalizing w m s with
  | zero => exact trivial
  | succ fuel ih =>
    obtain ⟨hturn, w', hrel'⟩ := hrel.turn config program
    simp only [ClosureMachine.follow]
    rcases hm : m.turn config program with ⟨out, m'⟩
    rcases hs : Ideal.turn (some room) config.maxSteps program s with ⟨out', s'⟩
    rw [hm, hs] at hturn hrel'
    cases out with
    | error f =>
      cases out' with
      | error f' => exact ⟨hturn, w', hrel'⟩
      | ok outcome => exact hturn.elim
    | ok outcome =>
      cases out' with
      | error f' => exact hturn.elim
      | ok outcome' =>
        obtain rfl : outcome = outcome' := hturn
        cases outcome with
        | none => exact ih hrel'
        | some answer => exact ⟨rfl, w', hrel'⟩

/-! ## Booting -/

/-- The state of memory while the machine boots: one root, and no texts yet. -/
structure Booting (room : Nat) (h : Heap) (root : Ref) (nodes : List Node) (globals : Loc)
    (w : World) : Prop where
  rep : Represents w h nodes
  semispace : h.semispace = room
  root : w.At root globals
  texts : w.texts = .empty

/-- Corresponding outcomes while booting. -/
def SameBoot {α β : Type} (room : Nat) (globals : Loc) (V : World → α → β → Prop) :
    EStateM.Result HeapError (Store Ref) α → EStateM.Result HeapError (List Node) β → Prop
  | .ok a s, .ok b nodes => ∃ w, Booting room s.heap s.roots nodes globals w ∧ V w a b
  | .error e _, .error e' _ => e' = e.anywhere
  | _, _ => False

theorem Booting.make {h : Heap} {root : Ref} {nodes : List Node} {globals : Loc}
    (hb : Booting room h root nodes globals w) {make : StoreM Ref Ref} {n : Node}
    (hn : Builds w.texts make n) :
    SameBoot room globals (fun w r l => w.At r l) (make ⟨h, root⟩)
      (Ideal.make (some room) [globals] n nodes) := by
  have hroots : Represents.Rooted w (RootSet.toList root) [globals] := .cons hb.root .nil
  have hspec := hn.spec hb.rep hroots
  rw [hb.semispace] at hspec
  unfold Ideal.make
  cases halloc : Ideal.allocate (some room) [globals] n nodes with
  | ok nodes' =>
    rw [halloc] at hspec
    obtain ⟨w', h', refs, r, hmake, hkept, hplace⟩ := hspec
    obtain _ | ⟨hroot, _ | _⟩ := hkept.rooted
    rw [hmake]
    exact ⟨w', ⟨hkept.rep, hkept.semispace.trans hb.semispace, hroot, hkept.texts.trans hb.texts⟩, hplace⟩
  | error e =>
    rw [halloc] at hspec
    obtain ⟨w', h', refs, hmake, hkept⟩ := hspec
    rw [hmake]
    obtain ⟨limit, rfl⟩ := Ideal.allocate_error halloc
    exact (Ideal.anywhere_shortage ..).symm

theorem Booting.loadPrimitives {h : Heap} {root : Ref} {nodes : List Node} {globals : Loc}
    {w : World} (hb : Booting room h root nodes globals w)
    (n id : Nat) :
    SameBoot room globals (fun _ _ _ => True) (Machine.loadPrimitives id n ⟨h, root⟩)
      (Ideal.loadPrimitives (some room) globals id n nodes) := by
  induction n generalizing id h root nodes w with
  | zero => exact ⟨w, hb, trivial⟩
  | succ n ih =>
    simp only [Machine.loadPrimitives, Ideal.loadPrimitives, Actions.bind_apply, Actions.get_apply,
      Actions.lift_heap_store]
    have hmake := hb.make (builds_primitive id)
    cases hx : (PrimitiveFunction.new id : StoreM Ref Ref) ⟨h, root⟩ <;>
      cases hy : Ideal.make (some room) [globals] (.primitive id) nodes <;> rw [hx, hy] at hmake
    · obtain ⟨w', hb', hl⟩ := hmake
      have hset := heapSim_setSlot hb'.root hl id hb'.rep
      rename_i r s l nodes'
      cases hx' : Environment.setSlot s.roots id r s.heap <;>
        cases hy' : Ideal.change globals (Node.setSlot id l) nodes' <;> rw [hx', hy'] at hset
      · simp only [hx', hy']
        exact ih ⟨hset.1.1, hset.1.2.semispace.trans hb'.semispace, hb'.root, hb'.texts⟩ (id + 1)
      · exact hset.elim
      · exact hset.elim
      · simp only [hx', hy']
        exact hset.2
    · exact hmake.elim
    · exact hmake.elim
    · exact hmake

/-- Nothing is in memory at first. -/
theorem represents_ofCapacity (capacity : Nat) :
    Represents ⟨fun _ => none, .empty⟩ (Heap.ofCapacity capacity) [] where
  halved := ⟨by simp [Heap.ofCapacity], .inl rfl, Nat.le_refl _, Nat.zero_le _⟩
  placed := by simp
  apart := by simp
  covered := fun _ hupper => absurd hupper (Nat.not_lt_zero _)

/-- The environment of primitives is the first node. -/
theorem booting_globals (heapSize slots : Nat) :
    match (Environment.new slots : StoreM Unit Ref) ⟨Heap.ofCapacity heapSize, ()⟩,
      Ideal.make (some (heapSize / 2)) [] (.environment (List.replicate slots none) none) [] with
    | .ok r s, .ok l nodes => ∃ w, Booting (heapSize / 2) s.heap r nodes l w
    | .error e _, .error e' _ => e' = e.anywhere
    | _, _ => False := by
  have hroots : Represents.Rooted ⟨fun _ => none, .empty⟩ (RootSet.toList ()) [] := .nil
  have hspec := (builds_environment slots).spec (represents_ofCapacity heapSize) hroots
  unfold Ideal.make
  rw [show (Heap.ofCapacity heapSize).semispace = heapSize / 2 from rfl] at hspec
  cases halloc : Ideal.allocate (some (heapSize / 2)) []
      (.environment (List.replicate slots none) none) [] with
  | ok nodes =>
    rw [halloc] at hspec
    obtain ⟨w, h', refs, r, hmake, hkept, hplace⟩ := hspec
    rw [hmake]
    exact ⟨w, hkept.rep, hkept.semispace, hplace, hkept.texts⟩
  | error e =>
    rw [halloc] at hspec
    obtain ⟨w, h', refs, hmake, hkept⟩ := hspec
    rw [hmake]
    obtain ⟨limit, rfl⟩ := Ideal.allocate_error halloc
    exact (Ideal.anywhere_shortage ..).symm

/-- A machine starts where the ideal machine starts. -/
theorem rel_boot (heapSize : Nat) (program : Program) :
    match Machine.bootStore heapSize program.mainStack, Ideal.boot (some (heapSize / 2)) program with
    | .ok registers heap, .ok s =>
      ∃ w, Rel (heapSize / 2) w (Machine.ofRegisters heap registers) s
    | .error e _, .error e' => e' = e.anywhere
    | _, _ => False := by
  have hglobals := booting_globals heapSize Primitive.all.length
  simp only [Machine.bootStore, Ideal.boot, Ideal.loadGlobals, Machine.loadGlobals,
    Actions.bind_apply]
  cases hx : (Environment.new Primitive.all.length : StoreM Unit Ref)
      ⟨Heap.ofCapacity heapSize, ()⟩ <;>
    cases hy : Ideal.make (some (heapSize / 2)) []
      (.environment (List.replicate Primitive.all.length none) none) [] <;> rw [hx, hy] at hglobals
  · obtain ⟨w, hb⟩ := hglobals
    rename_i r s l nodes
    have hload := hb.loadPrimitives Primitive.all.length 0
    dsimp only
    cases hx : Machine.loadPrimitives 0 Primitive.all.length ⟨s.heap, r⟩ <;>
      cases hy : Ideal.loadPrimitives (some (heapSize / 2)) l 0 Primitive.all.length nodes <;>
      rw [hx, hy] at hload
    · obtain ⟨w, hb, -⟩ := hload
      rename_i s _ nodes
      have hmake := hb.make (builds_operandStack program.mainStack)
      dsimp only
      cases hx : (OperandStack.new program.mainStack : StoreM Ref Ref) s <;>
        cases hy : Ideal.make (some (heapSize / 2)) [l] (.operandStack [] program.mainStack) nodes <;>
        rw [hx, hy] at hmake
      · obtain ⟨w, hb, hl⟩ := hmake
        exact ⟨w,
          { rep := hb.rep
            semispace := hb.semispace
            texts := hb.texts.symm
            sound := hb.texts ▸ StringTable.empty_sound
            pc := rfl
            env := hb.root
            stack := hl
            control := .nil
            pinned := .nil
            output := rfl
            steps := rfl
            peakDepth := rfl }⟩
      · exact hmake.elim
      · exact hmake.elim
      · exact hmake
    · exact hload.elim
    · exact hload.elim
    · exact hload
  · exact hglobals.elim
  · exact hglobals.elim
  · exact hglobals

end ClosureMachine
