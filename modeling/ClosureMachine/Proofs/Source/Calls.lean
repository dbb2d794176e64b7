import ClosureMachine.Proofs.Source.Expressions

/-!
# Calls

A call is evaluated as the callee, the arguments, and their application. The first two are operands; the third is
one instruction, which refuses, or computes the result of a primitive on the spot, or goes to the code of a
closure. What that code does is the subject of `CallSim`, which is assumed here and proved afterwards, by
induction on the fuel.

In tail position the instruction is another one. It leaves the activation for good, so that the value goes to
the landing of the call around. The two are treated together: what differs is the landing.
-/

set_option autoImplicit false

namespace ClosureMachine.Source

open ClosureMachine.Ideal (Node Loc Core Step Steps Fails HasArgument callInstruction Later)

/-- The machine is at the first instruction of a body, with the arguments in place. -/
structure Entered (program : Program) (parameters : List String) (body : Tree) (chain : List Nat)
    (args : List Value) (w : Layout) (m : Memory) (c : Core) (L : Landing) (scopes : Scopes) (outer : Loc)
    (ls : List Loc) : Prop where
  fits : w.Fits program m c.nodes c.output
  sight : InSight w c.nodes scopes chain (some outer)
  code : BodyAt program scopes parameters body c.pc
  arity : parameters.length = args.length
  env : c.nodes[c.env]? = some (.environment (ls.map some) (some outer))
  fresh : c.env ∉ w.frames.map (·.1)
  args : List.Forall₂ (IsAt program w c.nodes) args ls
  operands : c.nodes[c.stack]? = some (.operandStack [] body.bodyDemand)
  waiting : Waiting c L

/-- Bodies do what calls do. -/
def CallSim (program : Program) (fuel : Nat) (call : Call) : Prop :=
  ∀ ⦃parameters : List String⦄ ⦃body : Tree⦄ ⦃chain : List Nat⦄ ⦃args : List Value⦄ ⦃w : Layout⦄ ⦃m : Memory⦄
    ⦃c : Core⦄ ⦃L : Landing⦄ ⦃scopes : Scopes⦄ ⦃outer : Loc⦄ ⦃ls : List Loc⦄,
    Entered program parameters body chain args w m c L scopes outer ls →
    Outcome program fuel none w c L.stack (L.Receives program) (call parameters body chain args m)

section

variable {program : Program} {fuel : Nat} {ctx : Context} {chain : List Nat} {caller : Option Landing}
  {w : Layout} {m : Memory} {c c₁ : Core} {ops : List Loc} {free : Nat} {call : Call} {L : Landing}

/-- The step into a body. Its operand stack is a new one, which nobody else has seen. -/
theorem Outcome.enter {r : EStateM.Result Exit Memory Value}
    (h : Outcome program fuel none w c₁ L.stack (L.Receives program) r) (hstep : Step program c c₁)
    (hl : Later True [c.stack] c.nodes c₁.nodes) (hfresh : c.nodes.length ≤ c₁.stack) :
    Outcome program (fuel + 1) caller w c L.stack (L.Receives program) r := by
  cases r with
  | ok v m =>
    obtain ⟨k, c', w', hsteps, hg, hl', hfits, hv⟩ := h
    refine ⟨1 + k, c', w', hstep.steps.trans hsteps, hg, ?_, hfits, hv⟩
    have hl₁ : Later True [c₁.stack, c.stack, L.stack] c.nodes c₁.nodes := hl.mono id (by simp)
    have hl₂ : Later True [c₁.stack, c.stack, L.stack] c₁.nodes c'.nodes := hl'.mono id (by simp)
    exact (hl₁.trans hl₂).drop hfresh
  | error e m =>
    cases e with
    | returned v =>
      obtain ⟨L', hL', -⟩ := h
      cases hL'
    | failed fault =>
      obtain ⟨hkind, k, c', hsteps, hfails⟩ := h
      exact ⟨hkind, 1 + k, c', hstep.steps.trans hsteps, hfails⟩
    | unassigned name =>
      obtain ⟨a, k, c', hsteps, hfails⟩ := h
      exact ⟨a, 1 + k, c', hstep.steps.trans hsteps, hfails⟩
    | outOfFuel =>
      obtain ⟨k, c', hle, hsteps⟩ := h
      exact ⟨1 + k, c', by omega, hstep.steps.trans hsteps⟩

/-! ## Applications -/

section

variable {f : Value} {lf : Loc} {ls : List Loc} {args : List Value}

/-- The machine is at a call, with callee and arguments on the stack. -/
structure Applies (program : Program) (ctx : Context) (chain : List Nat) (caller : Option Landing)
    (w : Layout) (m : Memory) (c : Core) (f : Value) (args : List Value) (lf : Loc) (ls ops : List Loc)
    (free : Nat) : Prop where
  ready : Ready program ctx chain caller w m c (ls.reverse ++ lf :: ops) free
  callee : IsAt program w c.nodes f lf
  args : List.Forall₂ (IsAt program w c.nodes) args ls

theorem Applies.length (h : Applies program ctx chain caller w m c f args lf ls ops free) :
    ls.reverse.length = args.length := by
  rw [List.length_reverse, h.args.length_eq]

/-- The state in which the instruction of a call leaves the machine: the operands are taken off, and there is an
environment with the arguments and an operand stack for the body. A call frame may come behind them. -/
def activation (c : Core) (ops : List Loc) (free entry : Nat) (env : Loc) (ls : List Loc) (capacity : Nat)
    (more : List Node) (control : List Loc) : Core :=
  { c with
    nodes := c.nodes.set c.stack (.operandStack ops (free + ls.reverse.length + 1)) ++
      .environment (ls.reverse.reverse.map some) (some env) :: .operandStack [] capacity :: more
    pc := entry
    env := c.nodes.length
    stack := c.nodes.length + 1
    control := control }

section

variable {entry capacity : Nat} {env : Loc} {more : List Node} {control : List Loc}

theorem later_activation {ops₀ : List Loc} {free₀ : Nat}
    (hs : c.nodes[c.stack]? = some (.operandStack ops₀ free₀)) :
    Later False [c.stack] c.nodes (activation c ops free entry env ls capacity more control).nodes :=
  (Later.use hs (by simp)).trans (Later.append _ _ _ _)

/-- New nodes are behind those that are there. -/
theorem activation_new (k : Nat) :
    (activation c ops free entry env ls capacity more control).nodes[c.nodes.length + k]? =
      (.environment (ls.map some) (some env) :: .operandStack [] capacity :: more)[k]? := by
  rw [activation, List.getElem?_append_right (by simp), List.length_set, Nat.add_sub_cancel_left,
    List.reverse_reverse]

theorem activation_stack {ops₀ : List Loc} {free₀ : Nat}
    (hs : c.nodes[c.stack]? = some (.operandStack ops₀ free₀)) :
    (activation c ops free entry env ls capacity more control).nodes[c.stack]? =
      some (.operandStack ops (free + ls.length + 1)) := by
  have hlt : c.stack < c.nodes.length := (List.getElem?_eq_some_iff.mp hs).1
  rw [activation, List.getElem?_append_left (by rwa [List.length_set]), List.getElem?_set_self hlt,
    List.length_reverse]

end

theorem Applies.entered {identity : Nat} {parameters : List String} {body : Tree} {inner : List Nat}
    (h : Applies program ctx chain caller w m c (.closure identity parameters body inner) args lf ls ops free)
    (harity : parameters.length = args.length) :
    ∃ env entry scopes, c.nodes[lf]? = some (.closure (some env) ls.reverse.length entry body.bodyDemand) ∧
      (∃ slots outer, c.nodes[env]? = some (.environment slots outer)) ∧
      ∀ more control L, Waiting (activation c ops free entry env ls body.bodyDemand more control) L →
        Entered program parameters body inner args w m
          (activation c ops free entry env ls body.bodyDemand more control) L scopes env ls := by
  have hlen := h.length
  obtain ⟨hready, hcallee, hargs⟩ := h
  cases hcallee with
  | closure hk hn hsight hcode =>
  rename_i env entry scopes
  refine ⟨env, entry, scopes, by rwa [hlen, ← harity], hsight.environment, fun more control L hL => ?_⟩
  have hlater : Later False [c.stack] c.nodes
      (activation c ops free entry env ls body.bodyDemand more control).nodes :=
    later_activation hready.operands
  exact {
    fits := hready.fits.later hlater
    sight := hsight.later (.refl w) hlater
    code := hcode
    arity := harity
    env := activation_new 0
    fresh := hready.fits.not_mem_frames (Nat.le_refl _)
    args := hargs.imp fun _ _ hv => hv.later (.refl w) hlater
    operands := activation_new 1
    waiting := hL }

theorem sim_callClosure {identity : Nat} {parameters : List String} {body : Tree} {inner : List Nat}
    (h : Applies program ctx chain caller w m c (.closure identity parameters body inner) args lf ls ops free)
    (hcall : CallSim program fuel call) (harity : parameters.length = args.length)
    (hi : program.code[c.pc]? = some (.call args.length)) :
    Outcome program (fuel + 1) caller w c c.stack
      ((landing c (c.pc + 1) ops (free + args.length)).Receives program)
      (call parameters body inner args m) := by
  obtain ⟨env, entry, scopes, hn, ⟨slots, outer, henv⟩, hentered⟩ := h.entered harity
  obtain ⟨slots', outer', hcurrent⟩ := h.ready.sight.environment
  rw [← h.length] at hi
  let c₁ := activation c ops free entry env ls body.bodyDemand
    [.callFrame (some c.env) (some c.stack) (c.pc + 1)] ((c.nodes.length + 2) :: c.control)
  have hstep : Step program c c₁ := Ideal.step_callClosure hi h.ready.operands hn henv hcurrent
  have hlater : Later False [c.stack] c.nodes c₁.nodes := later_activation h.ready.operands
  have hlt : c.stack < c.nodes.length := (List.getElem?_eq_some_iff.mp h.ready.operands).1
  -- The new frame leads back behind the call.
  have hwaiting : Waiting c₁ (landing c (c.pc + 1) ops (free + args.length)) := by
    refine ⟨[], c.nodes.length + 2, rfl, by simp, activation_new 2, ?_,
      Ne.symm (Nat.ne_of_lt (Nat.lt_succ_of_lt hlt))⟩
    rw [h.args.length_eq]
    exact activation_stack h.ready.operands
  exact (hcall (hentered _ _ _ hwaiting)).enter hstep (hlater.mono False.elim fun _ h => h) (Nat.le_succ _)

theorem sim_tailCallClosure {identity : Nat} {parameters : List String} {body : Tree} {inner : List Nat}
    (h : Applies program ctx chain (some L) w m c (.closure identity parameters body inner) args lf ls ops
      free) (hcall : CallSim program fuel call) (harity : parameters.length = args.length)
    (hi : program.code[c.pc]? = some (.tailCall args.length)) :
    Outcome program (fuel + 1) (some L) w c L.stack (L.Receives program)
      (call parameters body inner args m) := by
  obtain ⟨env, entry, scopes, hn, ⟨slots, outer, henv⟩, hentered⟩ := h.entered harity
  obtain ⟨blocks, frame, hcontrol, hblocks, hframe, hstack, hne⟩ := h.ready.waiting L rfl
  rw [← h.length] at hi
  let c₁ := activation c ops free entry env ls body.bodyDemand [] (frame :: L.control)
  have hstep : Step program c c₁ :=
    Ideal.step_tailCallClosure hi h.ready.operands hn henv hcontrol hblocks hframe rfl
  have hlater : Later False [c.stack] c.nodes c₁.nodes := later_activation h.ready.operands
  have hlt : L.stack < c.nodes.length := (List.getElem?_eq_some_iff.mp hstack).1
  -- The frame that was waiting still is, with no blocks in front of it.
  have hwaiting : Waiting c₁ L :=
    ⟨[], frame, rfl, by simp, hlater.keep_quiet hframe (by simp [Node.kind]),
      hlater.keep_stack hstack (by simpa using Ne.symm hne),
      Ne.symm (Nat.ne_of_lt (Nat.lt_succ_of_lt hlt))⟩
  exact (hcall (hentered _ _ _ hwaiting)).enter hstep (hlater.mono False.elim fun _ h => h) (Nat.le_succ _)

/-- Primitives see the same arguments on both sides. -/
theorem Applies.meaning (h : Applies program ctx chain caller w m c f args lf ls ops free) (p : Primitive) :
    ∃ as, List.Forall₂ (HasArgument c.nodes) ls.reverse as ∧
      p.meaning as.reverse = p.meaning (args.map Value.argument) ∧
      p.shows as.reverse = p.shows (args.map Value.argument) := by
  obtain ⟨as, has, halike⟩ := IsAt.arguments h.args
  refine ⟨as.reverse, List.rel_reverse has, ?_, ?_⟩
  · rw [List.reverse_reverse]
    exact (Primitive.meaning_alike h.ready.fits.names halike p).symm
  · rw [List.reverse_reverse]
    exact (Primitive.shows_alike halike p).symm

theorem sim_callPrimitive {p : Primitive} {value : Literal}
    (h : Applies program ctx chain caller w m c (.primitive p) args lf ls ops free)
    (harity : p.arity = args.length) (hi : program.code[c.pc]? = some (.call args.length))
    (hm : p.meaning (args.map Value.argument) = .ok value) :
    Outcome program fuel caller w c c.stack
      ((landing c (c.pc + 1) ops (free + args.length)).Receives program)
      (.ok (.literal value) { m with output := m.output ++ p.shows (args.map Value.argument) }) := by
  obtain ⟨as, has, hmeaning, hshows⟩ := h.meaning p
  have hn := h.callee.primitive_eq
  rw [← h.length] at hi harity ⊢
  have hstep := Ideal.step_callPrimitive hi h.ready.operands hn p.ofId?_id harity has (hmeaning.trans hm)
  have hlater := later_push h.ready.operands [.boxed value] (c.nodes.length :: ops)
    (free + ls.reverse.length)
  rw [hshows] at hstep
  exact Ready.arrive hstep.steps (Follows.of_later hlater) ((h.ready.fits.later hlater).shows _) rfl
    (.literal (getElem?_push_new h.ready.operands)) (getElem?_push h.ready.operands)

theorem sim_tailCallPrimitive {p : Primitive} {value : Literal}
    (h : Applies program ctx chain (some L) w m c (.primitive p) args lf ls ops free)
    (harity : p.arity = args.length) (hi : program.code[c.pc]? = some (.tailCall args.length))
    (hm : p.meaning (args.map Value.argument) = .ok value) :
    Outcome program fuel (some L) w c L.stack (L.Receives program)
      (.ok (.literal value) { m with output := m.output ++ p.shows (args.map Value.argument) }) := by
  obtain ⟨as, has, hmeaning, hshows⟩ := h.meaning p
  have hn := h.callee.primitive_eq
  obtain ⟨blocks, frame, hcontrol, hblocks, hframe, hstack, hne⟩ := h.ready.waiting L rfl
  rw [← h.length] at hi harity
  have hstep := Ideal.step_tailCallPrimitive hi h.ready.operands hn p.ofId?_id harity has
    (hmeaning.trans hm) hcontrol hblocks hframe hstack hne
  rw [hshows] at hstep
  -- First the operand stack is used, and then the other one.
  have hfirst := later_push h.ready.operands [.boxed value] ops (free + ls.reverse.length + 1)
  have hsecond := hfirst.keep_stack hstack (by simpa using Ne.symm hne)
  have hthird : Later False [c.stack, L.stack] _
      (((c.nodes ++ [Node.boxed value]).set c.stack _).set L.stack
        (.operandStack (c.nodes.length :: L.ops) L.free)) :=
    .use hsecond (List.mem_cons_of_mem c.stack (List.mem_singleton_self L.stack))
  have hlater := (hfirst.mono id (by simp)).trans hthird
  refine ⟨1, _, w, hstep.steps, .refl w, hlater.mono False.elim fun _ h => h,
    (h.ready.fits.later hlater).shows _, c.nodes.length, .literal ?_, rfl, rfl, rfl, rfl,
    List.getElem?_set_self (List.getElem?_eq_some_iff.mp hsecond).1⟩
  rw [List.getElem?_set_ne (Nat.ne_of_lt (List.getElem?_eq_some_iff.mp hstack).1)]
  exact getElem?_push_new h.ready.operands

end

/-- The instruction of a call applies the callee to the arguments. -/
theorem sim_apply {pos : Position} {f : Value} {lf : Loc} {ls : List Loc} {args : List Value}
    (h : Applies program ctx chain caller w m c f args lf ls ops free) (hcall : CallSim program fuel call)
    (hi : program.code[c.pc]? = some (if pos = .tail then .tailCall args.length else .call args.length))
    (hcaller : pos = .tail → caller.isSome) :
    Outcome program (fuel + 1) caller w c
      (target pos caller (landing c (c.pc + 1) ops (free + args.length))).stack
      ((target pos caller (landing c (c.pc + 1) ops (free + args.length))).Receives program)
      (apply call f args m) := by
  have hi' : program.code[c.pc]? = some (callInstruction (decide (pos = .tail)) ls.reverse.length) := by
    rw [hi, h.length]
    simp [callInstruction]
  have hout : m.output = c.output := h.ready.fits.output.symm
  cases f with
  | literal value =>
    refine ⟨by simp [Fault.kind], 0, c, rfl, ?_⟩
    rw [hout]
    exact Ideal.fails_callLiteral hi' h.ready.operands h.callee.literal_eq
  | primitive p =>
    have hn := h.callee.primitive_eq
    by_cases harity : p.arity = args.length
    · rw [apply, if_neg (not_not_intro harity), applyPrimitive]
      cases hm : p.meaning (args.map Value.argument) with
      | error fault =>
        obtain ⟨as, has, hmeaning, -⟩ := h.meaning p
        obtain ⟨context, expected, got, rfl⟩ := p.meaning_error _ hm
        refine ⟨by simp [Fault.kind], 0, c, rfl, ?_⟩
        rw [hout]
        exact Ideal.fails_callPrimitive hi' h.ready.operands hn p.ofId?_id (harity.trans h.length.symm) has
          (hmeaning.trans hm)
      | ok value =>
        cases pos with
        | tail =>
          obtain ⟨L, rfl⟩ := Option.isSome_iff_exists.mp (hcaller rfl)
          exact sim_tailCallPrimitive h harity hi hm
        | operand => exact sim_callPrimitive h harity hi hm
        | statement => exact sim_callPrimitive h harity hi hm
    · rw [apply, if_pos harity, ← h.length]
      refine ⟨by simp [Fault.kind], 0, c, rfl, ?_⟩
      rw [hout]
      exact Ideal.fails_callPrimitive_arity hi' h.ready.operands hn p.ofId?_id (h.length ▸ harity)
  | closure identity parameters body inner =>
    by_cases harity : parameters.length = args.length
    · rw [apply, if_neg (not_not_intro harity)]
      cases pos with
      | tail =>
        obtain ⟨L, rfl⟩ := Option.isSome_iff_exists.mp (hcaller rfl)
        exact sim_tailCallClosure h hcall harity hi
      | operand => exact sim_callClosure h hcall harity hi
      | statement => exact sim_callClosure h hcall harity hi
    · rw [apply, if_pos harity, ← h.length]
      refine ⟨by simp [Fault.kind], 0, c, rfl, ?_⟩
      rw [hout]
      cases h.callee with
      | closure hk hn hsight hcode =>
        exact Ideal.fails_callClosure_arity hi' h.ready.operands hn (h.length ▸ harity)

/-- Callee, arguments and application. -/
theorem sim_application {pos : Position} {x : Eval Value} {xs : Eval (List Value)}
    {start mid stop demand demand' count : Nat} (hcall : CallSim program fuel call)
    (hx : Sim program (fuel + 1) ctx chain .operand start mid demand x)
    (hxs : SimOperands program (fuel + 1) ctx chain mid stop demand' count xs)
    (hi : program.code[stop]? = some (if pos = .tail then .tailCall count else .call count))
    (hcount : count ≤ demand') :
    Sim program (fuel + 1) ctx chain pos start (stop + 1) (max demand (demand' + 1))
      (do apply call (← x) (← xs)) := by
  intro caller w m c ops free hready hpc hd hcaller
  refine hx.andThen hready hpc (Nat.le_trans (Nat.le_max_left _ _) hd)
    fun f lf m' w' c' hf hpc' hv hready' => ?_
  have hd' : demand' ≤ free := Nat.le_of_succ_le_succ (Nat.le_trans (Nat.le_max_right _ _) hd)
  obtain ⟨free, rfl⟩ := Nat.exists_eq_add_of_le' (Nat.le_trans hcount hd')
  refine Outcome.bind (hxs hready' hpc' hd') fun args m'' w'' c'' hg hl hfits hargs => ?_
  obtain ⟨ls, hls, hlen, hf', hpc'', hops⟩ := hargs
  obtain rfl : args.length = count := hls.length_eq.trans hlen
  have happlies : Applies program ctx chain caller w'' m'' c'' f args lf ls ops free :=
    ⟨hready'.follow hf' hfits hops, hv.later hf'.grows hf'.later, hls⟩
  have hout := sim_apply happlies hcall (hpc'' ▸ hi) hcaller
  rw [hpc'', hf'.landing_eq, hf.landing_eq] at hout
  exact ⟨hf'.stack, hout⟩

end

end ClosureMachine.Source
