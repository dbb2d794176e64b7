import ClosureMachine.Proofs.Ideal.Boot
import ClosureMachine.Proofs.Source.Fuel
import ClosureMachine.Proofs.Source.Trees

/-!
# Whole programs

Calls are right by induction on the fuel: a body is a tree, and the calls in it have less fuel. With that the
machine does for a program what the evaluation does, from the state in which it boots to the answer.

What the evaluation of a tree tells about the ideal machine, which has all the memory it wants, is said once for
evaluations that end (`evaluate_shows`) and once for those that ran out of fuel
(`evaluate_outOfFuel`). Nothing more is needed about trees and code.
-/

set_option autoImplicit false

namespace ClosureMachine.Source

open ClosureMachine.Ideal (Node Loc Core Step Steps Fails Answers HasArgument)

/-! ## Calls -/

/-- A call that is abandoned by a `return` has its value. -/
def catchReturn : EStateM.Result Exit Memory Value → EStateM.Result Exit Memory Value
  | .error (.returned v) m => .ok v m
  | r => r

theorem resultOf_eq (x : Eval Value) (m : Memory) :
    resultOf x m = catchReturn ((do let _ ← x; pure (Value.literal .undefined)) m) := by
  rw [resultOf, Actions.bind_apply]
  cases x m with
  | ok v m' => rfl
  | error e m' => cases e <;> rfl

theorem Outcome.catch {program : Program} {fuel : Nat} {L : Landing} {w : Layout} {c : Core}
    {r : EStateM.Result Exit Memory Value}
    (h : Outcome program fuel (some L) w c L.stack (L.Receives program) r) :
    Outcome program fuel none w c L.stack (L.Receives program) (catchReturn r) := by
  cases r with
  | ok v m => exact h
  | error e m =>
    cases e with
    | returned v =>
      obtain ⟨L', hL', hreach⟩ := h
      cases hL'
      exact hreach
    | failed fault => exact h
    | unassigned name => exact h
    | outOfFuel => exact h

/-- The evaluation of a body, in the scope of the parameters. -/
def evalBody (call : Call) (body : Tree) (chain : List Nat) : Eval Value :=
  if body.declared.isEmpty then eval call chain body
  else do eval call (← enter (.unassigned body.declared) chain) body

theorem call_succ (fuel : Nat) (parameters : List String) (body : Tree) (chain : List Nat)
    (args : List Value) (m : Memory) :
    call (fuel + 1) parameters body chain args m =
      resultOf (evalBody (call fuel) body (m.frames.length :: chain))
        { m with frames := m.frames ++ [parameters.zip (args.map some)] } := by
  unfold call evalBody
  split
  · rfl
  · rfl

section

variable {program : Program} {fuel : Nat} {parameters : List String} {body : Tree} {chain : List Nat}
  {args : List Value} {w : Layout} {m : Memory} {c : Core} {L : Landing} {scopes : Scopes} {outer : Loc}
  {ls : List Loc}

/-- The parameters are a scope, and their cells hold the arguments. -/
theorem Entered.ready (h : Entered program parameters body chain args w m c L scopes outer ls) :
    Ready program ((⟨scopes, true⟩ : Context).enterFunction parameters) (m.frames.length :: chain) (some L)
      (w.addFrame c.env parameters) { m with frames := m.frames ++ [parameters.zip (args.map some)] } c []
      body.bodyDemand := by
  have hnames : (parameters.zip (args.map some)).map (·.1) = parameters :=
    List.map_fst_zip (by rw [List.length_map, h.arity])
  have hcells : (parameters.zip (args.map some)).map (·.2) = args.map some :=
    List.map_snd_zip (by rw [List.length_map, h.arity])
  have hslots : List.Forall₂ (CellAt program w c.nodes) ((parameters.zip (args.map some)).map (·.2))
      (ls.map some) := by
    rw [hcells, List.forall₂_map_left_iff, List.forall₂_map_right_iff]
    exact h.args.imp fun _ _ hv => .assigned hv
  have hfits := h.fits.enter h.fresh h.env hslots
  rw [hnames] at hfits
  have hgrows := w.grows_addFrame c.env parameters
  refine ⟨hfits, .cons ?_ h.env (h.sight.later hgrows (.refl True [] _)), h.operands, ?_, fun _ => rfl⟩
  · rw [h.fits.frames.length_eq]
    simp [Layout.addFrame, Function.comp_def]
  · intro L' hL'
    cases hL'
    exact h.waiting

/-- The code of a body does what the evaluation of the body does. -/
theorem sim_body {ctx : Context} {start : Nat} {code : Code} (hcall : CallSim program fuel (call fuel))
    (h : bodyCode ctx start body = .ok code) (hcode : CodeAt program start code) :
    Sim program (fuel + 1) ctx chain .operand start (start + code.length) body.stackDemand
      (evalBody (call fuel) body chain) := by
  unfold evalBody
  rcases bodyCode_ok h with ⟨hempty, h⟩ | ⟨hdeclares, h⟩
  · rw [if_pos hempty]
    exact sim_statement.mp (treeSim hcall body chain h hcode)
  · rw [if_neg (Bool.eq_false_iff.mp hdeclares)]
    exact sim_inScope (treeSim hcall body) h hcode

/-- The value of a body is dropped at its end, and `undefined` returned in its place. -/
theorem sim_bodyEnd {ctx : Context} {start : Nat} {code : Code} (hcall : CallSim program fuel (call fuel))
    (h : bodyCode ctx start body = .ok code)
    (hcode : CodeAt program start (code ++ [.pop, .loadConstant .undefined, .ret])) (stop : Nat) :
    Sim program (fuel + 1) ctx chain .tail start stop body.bodyDemand
      (do let _ ← evalBody (call fuel) body chain; pure (.literal .undefined)) := by
  have hcode : CodeAt program start (Code.finish .tail (code ++ [.pop, .loadConstant .undefined])) := by
    simpa [Code.finish] using hcode
  refine (Sim.finish hcode fun hcode => ?_).tail_stop stop
  obtain ⟨hcode, hend⟩ := codeAt_append.mp hcode
  obtain ⟨hpop, hload⟩ := codeAt_cons.mp hend
  rw [List.length_append, ← Nat.add_assoc]
  exact sim_andThen (sim_body hcall h hcode) hpop (sim_literal (codeAt_cons.mp hload).1)

/-- **Bodies do what calls do.** What a body returns goes to the landing of the call. -/
theorem callSim (program : Program) (fuel : Nat) : CallSim program fuel (call fuel) := by
  induction fuel with
  | zero =>
    intro parameters body chain args w m c L scopes outer ls h
    exact ⟨0, c, Nat.le_refl 0, rfl⟩
  | succ fuel ih =>
    intro parameters body chain args w m c L scopes outer ls h
    obtain ⟨code, hcompile, hcode⟩ := h.code
    obtain ⟨free, hfree⟩ : ∃ free, body.bodyDemand = free + 1 :=
      Nat.exists_eq_add_of_le' (Nat.le_max_right _ _)
    have hready := h.ready
    rw [hfree] at hready
    have hbody := sim_bodyEnd ih hcompile hcode c.pc hready rfl (Nat.le_of_eq hfree) fun _ => rfl
    rw [call_succ, resultOf_eq]
    exact hbody.catch.after (k := 0) rfl (w.grows_addFrame c.env parameters) rfl (.refl True _ _)

end

/-! ## Programs -/

/-- The layout of a machine that has booted. -/
def bootLayout : Layout where
  frames := [(0, Primitive.all.map (·.name))]
  closures := []

theorem all_id {i : Nat} (hi : i < Primitive.all.length) : (Primitive.all.get ⟨i, hi⟩).id = i := by
  have hnodup : Primitive.all.Nodup := by decide
  exact hnodup.idxOf_getElem i hi

/-- The primitives are where they are looked for. -/
theorem fits_boot (program : Program) :
    bootLayout.Fits program .initial (Ideal.bootState program).nodes #[] where
  frames := by
    refine .cons ⟨?_, _, _, Ideal.bootState_globals program, ?_⟩ .nil
    · simp
    · refine List.forall₂_iff_get.mpr ⟨by simp, fun i hi _ => ?_⟩
      have hi : i < Primitive.all.length := by simpa using hi
      have hid : (Primitive.all.get ⟨i, hi⟩).id = i := all_id hi
      have hn := Ideal.bootState_primitive program hi
      simp only [List.get_eq_getElem, List.getElem_map, List.getElem_range]
      exact .assigned (.primitive (hn.trans (congrArg (fun k => some (Node.primitive k)) hid.symm)))
  apart := by simp [bootLayout]
  closures := rfl
  distinct := by simp [bootLayout]
  made := by simp [bootLayout]
  output := rfl

theorem ready_boot (program : Program) :
    Ready program ⟨Primitive.globals, false⟩ [0] none bootLayout .initial (Ideal.bootState program).core []
      program.mainStack where
  fits := fits_boot program
  sight := by
    refine .cons ?_ (Ideal.bootState_globals program) .nil
    simp [bootLayout, Function.comp_def]
    rfl
  operands := Ideal.bootState_stack program
  waiting := by simp
  returns := by simp

section

variable {tree : Tree} {program : Program}

/-- What a result shows to the outside: an answer or a failure, and the output. -/
def Shows (result : Except Failure Answer) (output : Array String) :
    EStateM.Result Exit Memory Value → Prop
  | .ok v m => result = .ok v.answer ∧ output = m.output
  | .error (.failed fault) m =>
    fault.kind ∈ [FaultKind.typeError, .notAFunction, .arityMismatch] ∧
      (∃ failure, result = .error failure ∧ failure.fault = fault) ∧ output = m.output
  | .error (.unassigned _) m =>
    (∃ failure a, result = .error failure ∧ failure.fault = .unassignedName a) ∧ output = m.output
  | _ => False

/-- A run whose steps lead to a failure. -/
theorem Fails.follow {s : Ideal.State} {k : Nat} {c : Core} {fault : Fault} {output : Array String}
    (hsteps : Steps program k s.core c) (h : Fails program c fault output) :
    ∃ failure s', follow (Ideal.turn none none program) (k + 1) s = some (.error failure, s') ∧
      failure.fault = fault ∧ s'.output = output := by
  obtain ⟨s₁, rfl, hfollow⟩ := hsteps.follow 1
  obtain ⟨failure, s', hturn, hfault, hout⟩ := h s₁ rfl none
  refine ⟨failure, s', ?_, hfault, hout⟩
  rw [hfollow, ClosureMachine.follow, hturn]

/-- The machine that has booted does what the evaluation of the tree does. -/
theorem outcome_program (h : tree.toProgram Primitive.globals = .ok program) (depth : Nat) :
    ∃ stop free, program.code[stop]? = some .done ∧
      Outcome program (depth + 1) none bootLayout (Ideal.bootState program).core
        (Ideal.bootState program).stack
        ((landing (Ideal.bootState program).core stop [] free).Receives program) (evaluate depth tree) := by
  obtain ⟨code, hcompile, hcode, hdone, hstack⟩ := toProgram_ok h
  obtain ⟨free, hfree⟩ := Nat.exists_eq_add_of_le' tree.one_le_stackDemand
  have hready := ready_boot program
  rw [hstack, hfree] at hready
  have hsim := sim_inScope (treeSim (callSim program depth) tree) hcompile hcode hready rfl
    (Nat.le_of_eq hfree) (by simp)
  rw [Nat.zero_add] at hsim
  exact ⟨code.length, free, hdone, hsim⟩

theorem argument_answer (v : Value) : v.argument.answer = v.answer := by
  cases v with
  | literal value => rfl
  | closure identity parameters body chain => rfl
  | primitive p => simp [Value.argument, Value.answer, Argument.answer, p.ofId?_id]

/-- **An evaluation that ends tells what the machine does.** -/
theorem evaluate_shows (h : tree.toProgram Primitive.globals = .ok program) {depth : Nat}
    (hends : ¬ OutOfFuel (evaluate depth tree)) :
    ∃ fuel result s', follow (Ideal.turn none none program) fuel (Ideal.bootState program) =
        some (result, s') ∧ Shows result s'.output (evaluate depth tree) := by
  obtain ⟨stop, free, hdone, hout⟩ := outcome_program h depth
  cases hr : evaluate depth tree with
  | ok v m =>
    rw [hr] at hout
    obtain ⟨k, c, w, hsteps, -, -, hfits, l, hv, hat⟩ := hout
    obtain ⟨a, ha, halike⟩ := hv.argument
    have hi : program.code[c.pc]? = some .done := by
      rw [hat.pc]
      exact hdone
    have hops : c.nodes[c.stack]? = some (.operandStack [l] free) := by
      rw [hat.stack]
      exact hat.operands
    obtain ⟨s₁, rfl, hfollow⟩ := hsteps.follow 1
    obtain ⟨s', hturn, houtput⟩ := Ideal.answers_done hi hops ha s₁ rfl none
    refine ⟨k + 1, .ok a.answer, s', ?_, ?_, ?_⟩
    · rw [hfollow, ClosureMachine.follow, hturn]
    · rw [← halike.answer, argument_answer]
    · exact houtput.trans hfits.output
  | error e m =>
    rw [hr] at hout hends
    cases e with
    | returned v =>
      obtain ⟨L, hL, -⟩ := hout
      cases hL
    | failed fault =>
      obtain ⟨hkind, k, c, hsteps, hfails⟩ := hout
      obtain ⟨failure, s', hfollow, hfault, houtput⟩ := Fails.follow hsteps hfails
      exact ⟨k + 1, _, s', hfollow, hkind, ⟨failure, rfl, hfault⟩, houtput⟩
    | unassigned name =>
      obtain ⟨a, k, c, hsteps, hfails⟩ := hout
      obtain ⟨failure, s', hfollow, hfault, houtput⟩ := Fails.follow hsteps hfails
      exact ⟨k + 1, _, s', hfollow, ⟨failure, a, rfl, hfault⟩, houtput⟩
    | outOfFuel => exact absurd trivial hends

/-- One that ran out of fuel has kept the machine busy. -/
theorem evaluate_outOfFuel (h : tree.toProgram Primitive.globals = .ok program) {depth : Nat}
    (hends : OutOfFuel (evaluate depth tree)) :
    follow (Ideal.turn none none program) depth (Ideal.bootState program) = none := by
  obtain ⟨stop, free, hdone, hout⟩ := outcome_program h depth
  cases hr : evaluate depth tree with
  | ok v m =>
    rw [hr] at hends
    exact hends.elim
  | error e m =>
    rw [hr] at hout hends
    cases e with
    | outOfFuel =>
      obtain ⟨k, c, hle, hsteps⟩ := hout
      obtain ⟨s', -, hfollow⟩ := hsteps.follow 0
      by_contra hsome
      obtain ⟨out, hsome⟩ := Option.ne_none_iff_exists'.mp hsome
      have hmore := follow_of_le hsome (Nat.le_of_succ_le hle)
      rw [← Nat.add_zero k, hfollow] at hmore
      cases hmore
    | returned v => exact hends.elim
    | failed fault => exact hends.elim
    | unassigned name => exact hends.elim

end

end ClosureMachine.Source
