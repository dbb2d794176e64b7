import ClosureMachine.Proofs.Source.Outcome

/-!
# The code of each construct

For each form of tree, that its code does what its evaluation does, given that the codes of its parts do. The
statements are about evaluations and stretches of code rather than trees, because the compiler uses the
same code in several places: an operator is a call like another, `&&` and `||` are conditionals, and
a block, a function's body and the whole program are all scopes.
-/

set_option autoImplicit false

namespace ClosureMachine.Source

open ClosureMachine.Ideal (Node Loc Core Step Steps Fails Later)

section

variable {program : Program} {fuel : Nat} {ctx : Context} {chain : List Nat} {caller : Option Landing}
  {w w' : Layout} {m m' : Memory} {c c' : Core} {ops : List Loc} {free : Nat} {start stop demand : Nat}

/-! ## Values that arrive -/

/-- A value arrives behind the code. -/
theorem Ready.arrive {k : Nat} {v : Value} {l : Loc} (hsteps : Steps program k c c')
    (hf : Follows w w' c c') (hfits : w'.Fits program m' c'.nodes c'.output) (hpc : c'.pc = stop)
    (hv : IsAt program w' c'.nodes v l)
    (hops : c'.nodes[c'.stack]? = some (.operandStack (l :: ops) free)) :
    Outcome program fuel caller w c c.stack ((landing c stop ops free).Receives program) (.ok v m') := by
  rw [hf.stack] at hops
  exact ⟨k, c', w', hsteps, hf.grows, hf.later.mono id (by simp), hfits, l, hv, hpc, hf.env, hf.stack,
    hf.control, hops⟩

/-- New nodes and a used operand stack, and nothing else. -/
theorem later_push {nodes : List Node} {stack : Loc} {ops : List Loc} {free : Nat}
    (hs : nodes[stack]? = some (.operandStack ops free)) (more : List Node) (ops' : List Loc)
    (free' : Nat) : Later False [stack] nodes ((nodes ++ more).set stack (.operandStack ops' free')) :=
  (Later.append False [stack] nodes more).trans
    (Later.use ((List.getElem?_append_left (List.getElem?_eq_some_iff.mp hs).1).trans hs) (by simp))

theorem getElem?_push {nodes more : List Node} {stack : Loc} {n n' : Node} (hs : nodes[stack]? = some n) :
    ((nodes ++ more).set stack n')[stack]? = some n' :=
  List.getElem?_set_self (by
    have hlt := (List.getElem?_eq_some_iff.mp hs).1
    simpa using Nat.lt_add_right more.length hlt)

theorem getElem?_push_new {nodes : List Node} {stack : Loc} {n n' n₀ : Node}
    (hs : nodes[stack]? = some n₀) :
    ((nodes ++ [n]).set stack n')[nodes.length]? = some n := by
  rw [List.getElem?_set_ne (Nat.ne_of_lt (List.getElem?_eq_some_iff.mp hs).1)]
  simp

/-- Steps that leave the registers alone, apart from the program counter. -/
theorem Follows.of_later {written : Prop} {nodes : List Node} {pc : Nat} {output : Array String}
    (hl : Later written [c.stack] c.nodes nodes) :
    Follows w w c { c with nodes := nodes, pc := pc, output := output } :=
  ⟨.refl w, hl.mono (fun _ => trivial) (fun _ h => h), rfl, rfl, rfl⟩

/-! ## Literals and names -/

theorem sim_literal {value : Literal} (hi : program.code[start]? = some (.loadConstant value)) :
    Sim program fuel ctx chain .operand start (start + 1) 1 (pure (.literal value)) := by
  intro caller w m c ops free hready hpc _ _
  subst hpc
  have hlater := later_push hready.operands [.boxed value] (c.nodes.length :: ops) free
  exact Ready.arrive (Ideal.step_loadConstant hi hready.operands).steps (Follows.of_later hlater)
    (hready.fits.later hlater) rfl (.literal (getElem?_push_new hready.operands))
    (getElem?_push hready.operands)

theorem sim_valueOf {name : String} {a : Address} {b : Binding}
    (hlook : ctx.scopes.lookup name = some (a, b)) (hi : program.code[start]? = some (.load a)) :
    Sim program fuel ctx chain .operand start (start + 1) 1 (valueOf chain name) := by
  intro caller w m c ops free hready hpc _ _
  subst hpc
  obtain ⟨l, slots, outer, slot, hwalk, hn, hslot, hcell⟩ := hready.sight.read hready.fits hlook
  cases hread : m.read chain name with
  | none =>
    rw [hread] at hcell
    cases hcell
    rw [valueOf_none hread]
    have hout : m.output = c.output := hready.fits.output.symm
    exact ⟨a, 0, c, rfl, hout ▸ Ideal.fails_load hi hwalk hn hslot⟩
  | some v =>
    rw [hread] at hcell
    cases hcell with
    | assigned hv =>
    rename_i lv
    rw [valueOf_some hread]
    have hlater : Later False [c.stack] c.nodes (c.nodes.set c.stack (.operandStack (lv :: ops) free)) :=
      .use hready.operands (by simp)
    exact Ready.arrive (Ideal.step_load hi hwalk hn hslot hready.operands).steps
      (Follows.of_later hlater) (hready.fits.later hlater) rfl (hv.later (.refl w) hlater)
      (List.getElem?_set_self (List.getElem?_eq_some_iff.mp hready.operands).1)

/-- A value is stored under a name and stays on the stack. -/
theorem sim_store {x : Eval Value} {name : String} {a : Address} {b : Binding}
    (hx : Sim program fuel ctx chain .operand start stop demand x)
    (hlook : ctx.scopes.lookup name = some (a, b)) (hi : program.code[stop]? = some (.assign a)) :
    Sim program fuel ctx chain .operand start (stop + 1) demand (x >>= store chain name) := by
  intro caller w m c ops free hready hpc hd _
  refine hx.andThen hready hpc hd fun v l m' w' c' hf hpc' hv hready' => ?_
  subst hpc'
  obtain ⟨env, slots, outer, hwalk, hn, hlt, hfits⟩ := hready'.sight.write hready'.fits hlook hv
  have hlater : Later True [c'.stack] c'.nodes
      (c'.nodes.set env (.environment (slots.set a.slot (some l)) outer)) :=
    .set hn (.slots trivial (List.length_set ..))
  have hne : env ≠ c'.stack := Ideal.ne_of_kind hn hready'.operands (by simp [Node.kind])
  have hstep := Ideal.step_assign hi hwalk hn hlt hready'.operands
  have hout : Outcome program fuel caller w' c' c'.stack
      ((landing c' (c'.pc + 1) ops free).Receives program) (.ok v (m'.write chain name v)) :=
    Ready.arrive hstep.steps (Follows.of_later hlater) hfits rfl (hv.later (.refl w') hlater)
      ((List.getElem?_set_ne hne).trans hready'.operands)
  rw [hf.landing_eq, hf.stack] at hout
  exact hout

/-! ## Functions -/

theorem sim_build {parameters : List String} {body : Tree} {code : Code}
    (h : ctx.function start parameters body (fun inner start => body.compile inner .statement start) =
      .ok code) (hcode : CodeAt program start code) :
    Sim program fuel ctx chain .operand start (start + code.length) 1 (build chain parameters body) := by
  intro caller w m c ops free hready hpc _ _
  subst hpc
  obtain ⟨inner, hinner, rfl⟩ := function_ok h
  obtain ⟨hload, hjump, hbody⟩ : _ ∧ _ ∧ _ := by
    simpa only [Code.function, List.cons_append, codeAt_cons] using hcode
  obtain ⟨slots, outer, henv⟩ := hready.sight.environment
  have hlater := later_push hready.operands
    [.closure (some c.env) parameters.length (c.pc + 2) body.bodyDemand] (c.nodes.length :: ops) free
  have hsteps := (Ideal.step_loadFunction hload henv hready.operands).steps.trans
    (Ideal.step_jump hjump).steps
  have hgrows := w.grows_addClosure c.nodes.length
  refine Ready.arrive hsteps ⟨hgrows, hlater.mono False.elim fun _ h => h, rfl, rfl, rfl⟩
    (hready.fits.build hlater (Nat.le_refl _) (by simp)) ?_ (.closure ?_ (getElem?_push_new hready.operands)
      (hready.sight.later hgrows hlater) ⟨inner, hinner, hbody⟩)
    (getElem?_push hready.operands)
  · simp [Code.function]
    omega
  · simp [Layout.addClosure, ← hready.fits.closures]

/-! ## Operands -/

/-- Like `Sim`, for operands that all stay on the stack. -/
def SimOperands (program : Program) (fuel : Nat) (ctx : Context) (chain : List Nat)
    (start stop demand count : Nat) (xs : Eval (List Value)) : Prop :=
  ∀ ⦃caller : Option Landing⦄ ⦃w : Layout⦄ ⦃m : Memory⦄ ⦃c : Core⦄ ⦃ops : List Loc⦄ ⦃free : Nat⦄,
    Ready program ctx chain caller w m c ops (free + count) → c.pc = start → demand ≤ free + count →
    Outcome program fuel caller w c c.stack (fun vs w' c' => ∃ ls,
      List.Forall₂ (IsAt program w' c'.nodes) vs ls ∧ ls.length = count ∧ Follows w w' c c' ∧
      c'.pc = stop ∧ c'.nodes[c'.stack]? = some (.operandStack (ls.reverse ++ ops) free)) (xs m)

theorem simOperands_nil : SimOperands program fuel ctx chain start start 0 0 (pure []) := by
  intro caller w m c ops free hready hpc _
  exact ⟨0, c, w, rfl, .refl w, .refl True _ _, hready.fits, [], .nil, rfl,
    ⟨.refl w, .refl True _ _, rfl, rfl, rfl⟩, hpc, hready.operands⟩

theorem simOperands_cons {mid demand' count : Nat} {x : Eval Value} {xs : Eval (List Value)}
    (hx : Sim program fuel ctx chain .operand start mid demand x)
    (hxs : SimOperands program fuel ctx chain mid stop demand' count xs) :
    SimOperands program fuel ctx chain start stop (max demand (demand' + 1)) (count + 1)
      (do return (← x) :: (← xs)) := by
  intro caller w m c ops free hready hpc hd
  refine hx.andThen hready hpc (Nat.le_trans (Nat.le_max_left _ _) hd)
    fun v l m' w' c' hf hpc' hv hready' => ?_
  have hd' : demand' ≤ free + count := Nat.le_of_succ_le_succ (Nat.le_trans (Nat.le_max_right _ _) hd)
  rw [← hf.stack]
  refine Outcome.bind (hxs hready' hpc' hd') fun vs m'' w'' c'' hg hl hfits hvs => ?_
  obtain ⟨ls, hls, hlen, hf', hpc'', hops⟩ := hvs
  refine ⟨hf'.stack, 0, c'', w'', rfl, .refl w'', .refl True _ _, hfits, l :: ls,
    .cons (hv.later hf'.grows hf'.later) hls, by rw [List.length_cons, hlen], hf.trans hf', hpc'', ?_⟩
  rw [List.reverse_cons, List.append_assoc]
  exact hops

/-! ## Positions -/

/-- Statements and operands differ in what they may be, not in what becomes of their value. -/
theorem sim_statement {x : Eval Value} :
    Sim program fuel ctx chain .statement start stop demand x ↔
      Sim program fuel ctx chain .operand start stop demand x :=
  ⟨fun h _ _ _ _ _ _ hready hpc hd _ => h hready hpc hd (by simp),
    fun h _ _ _ _ _ _ hready hpc hd _ => h hready hpc hd (by simp)⟩

/-- In tail position it makes no difference where the code ends. -/
theorem Sim.tail_stop {x : Eval Value} (h : Sim program fuel ctx chain .tail start stop demand x)
    (stop' : Nat) : Sim program fuel ctx chain .tail start stop' demand x := by
  intro caller w m c ops free hready hpc hd hcaller
  obtain ⟨L, rfl⟩ := Option.isSome_iff_exists.mp (hcaller rfl)
  exact h hready hpc hd hcaller

/-- A jump behind a value. -/
theorem Sim.jump {x : Eval Value} {stop' : Nat} (h : Sim program fuel ctx chain .operand start stop demand x)
    (hi : program.code[stop]? = some (.jump stop')) :
    Sim program fuel ctx chain .operand start stop' demand x := by
  intro caller w m c ops free hready hpc hd hcaller
  refine (h hready hpc hd hcaller).andSteps fun v m' w' c' hg hl hfits hv => ?_
  obtain ⟨l, hv, hat⟩ := hv
  have hi' : program.code[c'.pc]? = some (.jump stop') := by
    rw [hat.pc]
    exact hi
  exact ⟨hat.stack, 1, _, w', (Ideal.step_jump hi').steps, .refl w', .refl True _ _, hfits, l, hv, rfl,
    hat.env, hat.stack, hat.control, hat.operands⟩

/-- A `return` gives its value to the caller, whatever code follows. -/
theorem sim_ret {x : Eval Value} {pos : Position} (h : Sim program fuel ctx chain .tail start stop demand x)
    (hctx : ctx.inFunction = true) (stop' : Nat) :
    Sim program fuel ctx chain pos start stop' demand (do throw (.returned (← x))) := by
  intro caller w m c ops free hready hpc hd _
  obtain ⟨L, rfl⟩ := Option.isSome_iff_exists.mp (hready.returns hctx)
  have hx := h hready hpc hd fun _ => rfl
  rw [Actions.bind_apply]
  cases hr : x m with
  | ok v m' =>
    rw [hr] at hx
    exact ⟨L, rfl, hx⟩
  | error e m' =>
    rw [hr] at hx
    cases e <;> exact hx

/-! ## Sequences -/

/-- A value is forgotten, and evaluation goes on. -/
theorem sim_andThen {x y : Eval Value} {mid demand' : Nat}
    (hx : Sim program fuel ctx chain .operand start mid demand x)
    (hi : program.code[mid]? = some .pop)
    (hy : Sim program fuel ctx chain .operand (mid + 1) stop demand' y) :
    Sim program fuel ctx chain .operand start stop (max demand demand') (do let _ ← x; y) := by
  intro caller w m c ops free hready hpc hd _
  refine hx.andThen hready hpc (Nat.le_trans (Nat.le_max_left _ _) hd)
    fun v l m' w' c' hf hpc' hv hready' => ?_
  subst hpc'
  have hlater : Later False [c'.stack] c'.nodes (c'.nodes.set c'.stack (.operandStack ops (free + 1))) :=
    .use hready'.operands (by simp)
  have hf' : Follows w' w' c' { c' with
      nodes := c'.nodes.set c'.stack (.operandStack ops (free + 1)), pc := c'.pc + 1 } :=
    Follows.of_later hlater
  have hready'' := hready'.follow hf' (hready'.fits.later hlater)
    (List.getElem?_set_self (List.getElem?_eq_some_iff.mp hready'.operands).1)
  have hout := (hy hready'' rfl (Nat.le_trans (Nat.le_max_right _ _) hd) (by simp)).follow
    (Ideal.step_pop hi hready'.operands).steps hf'
  rw [hf'.landing_eq, hf.landing_eq] at hout
  exact hout

/-! ## Conditions -/

theorem truth_boolean (b : Bool) (m : Memory) : truth (.literal (.boolean b)) m = .ok b m := rfl

theorem truth_other {v : Value} (m : Memory) (h : ∀ b, v.argument ≠ .literal (.boolean b)) :
    truth v m = .error (.failed (.typeError "conditional" "boolean" v.argument.typeName)) m := by
  cases v with
  | literal value =>
    cases value with
    | boolean b => exact absurd rfl (h b)
    | number _ | string _ | undefined | null => rfl
  | closure _ _ _ _ => rfl
  | primitive _ => rfl

/-- A condition decides between two stretches of code with the same landing. -/
theorem sim_condition {pos : Position} {p x y : Eval Value} {mid other dx dy : Nat}
    (hp : Sim program fuel ctx chain .operand start mid demand p)
    (hi : program.code[mid]? = some (.jumpIfFalse other))
    (hx : Sim program fuel ctx chain pos (mid + 1) stop dx x)
    (hy : Sim program fuel ctx chain pos other stop dy y) :
    Sim program fuel ctx chain pos start stop (max demand (max dx dy))
      (do if ← truth (← p) then x else y) := by
  intro caller w m c ops free hready hpc hd hcaller
  obtain ⟨hdp, hdx, hdy⟩ : demand ≤ free + 1 ∧ dx ≤ free + 1 ∧ dy ≤ free + 1 := by
    simpa [Nat.max_le] using hd
  refine hp.andThen hready hpc hdp fun v l m' w' c' hf hpc' hv hready' => ?_
  subst hpc'
  by_cases hb : ∃ b, v = .literal (.boolean b)
  · obtain ⟨b, rfl⟩ := hb
    have hlater : Later False [c'.stack] c'.nodes (c'.nodes.set c'.stack (.operandStack ops (free + 1))) :=
      .use hready'.operands (by simp)
    have hf' : Follows w' w' c' { c' with
        nodes := c'.nodes.set c'.stack (.operandStack ops (free + 1))
        pc := if b then c'.pc + 1 else other } := Follows.of_later hlater
    have hready'' := hready'.follow hf' (hready'.fits.later hlater)
      (List.getElem?_set_self (List.getElem?_eq_some_iff.mp hready'.operands).1)
    have hsteps := (Ideal.step_jumpIfFalse hi hready'.operands hv.literal_eq).steps
    rw [← hf.landing_eq, ← hf'.landing_eq]
    refine Outcome.follow ?_ hsteps hf'
    rw [Actions.bind_ok (truth_boolean b m')]
    cases b with
    | true => exact hx hready'' rfl hdx hcaller
    | false => exact hy hready'' rfl hdy hcaller
  · obtain ⟨a, ⟨n, hn, ha⟩, halike⟩ := hv.argument
    have hother : ∀ b, v.argument ≠ .literal (.boolean b) := by
      intro b h
      cases v with
      | literal value => exact hb ⟨b, by rw [Argument.literal.inj h]⟩
      | closure _ _ _ _ => cases h
      | primitive _ => cases h
    have hother' : ∀ b, a ≠ .literal (.boolean b) := by
      intro b h
      exact hother b (h ▸ halike).eq_literal
    rw [Actions.bind_error (truth_other m' hother)]
    refine ⟨by simp [Fault.kind], 0, c', rfl, ?_⟩
    rw [halike.typeName, ← hready'.fits.output]
    exact Ideal.fails_jumpIfFalse hi hready'.operands hn ha hother'

/-! ## Scopes -/

theorem unassigned_names (scope : Scope) : (Frame.unassigned scope).map (·.1) = scope.map (·.name) := by
  simp [Frame.unassigned]

theorem unassigned_cells (w : Layout) (nodes : List Node) (scope : Scope) :
    List.Forall₂ (CellAt program w nodes) ((Frame.unassigned scope).map (·.2))
      (List.replicate scope.length none) := by
  induction scope with
  | nil => exact .nil
  | cons b scope ih => exact .cons .unassigned ih

/-- A new scope in front of those in sight. -/
theorem Ready.enterScope {scope : Scope} (hready : Ready program ctx chain caller w m c ops free)
    (hi : program.code[c.pc]? = some (.enterScope scope.length)) :
    ∃ c' w', Step program c c' ∧ w.Grows w' ∧ Later False [] c.nodes c'.nodes ∧ c'.pc = c.pc + 1 ∧
      c'.stack = c.stack ∧ c'.control = c.nodes.length :: c.control ∧
      c'.nodes[c.nodes.length]? = some (.blockFrame (some c.env)) ∧
      Ready program (ctx.enter scope) (m.frames.length :: chain) caller w'
        { m with frames := m.frames ++ [.unassigned scope] } c' ops free := by
  obtain ⟨slots, outer, henv⟩ := hready.sight.environment
  let c₁ : Core := { c with
    nodes := c.nodes ++ [.blockFrame (some c.env),
      .environment (List.replicate scope.length none) (some c.env)]
    pc := c.pc + 1
    env := c.nodes.length + 1
    control := c.nodes.length :: c.control }
  have hlater : Later False [] c.nodes c₁.nodes := .append _ _ _ _
  have hframe : c₁.nodes[c.nodes.length]? = some (.blockFrame (some c.env)) := by simp [c₁]
  have hnew : c₁.nodes[c₁.env]? = some (.environment (List.replicate scope.length none) (some c.env)) := by
    simp [c₁]
  have hfits := (hready.fits.later hlater).enter
    (hready.fits.not_mem_frames (Nat.le_succ c.nodes.length)) hnew (unassigned_cells w c₁.nodes scope)
  rw [unassigned_names] at hfits
  have hgrows := w.grows_addFrame c₁.env (scope.map (·.name))
  refine ⟨c₁, _, Ideal.step_enterScope hi henv, hgrows, hlater, rfl, rfl, rfl, hframe, hfits, ?_, ?_, ?_,
    hready.returns⟩
  · refine .cons ?_ hnew (hready.sight.later hgrows hlater)
    rw [hready.fits.frames.length_eq]
    simp [Layout.addFrame]
  · exact hlater.keep_stack hready.operands (by simp)
  · intro L hL
    refine (hready.waiting L hL).later (hlater.mono id (by simp)) rfl ⟨[c.nodes.length], rfl, ?_⟩
    intro l hl
    rw [List.mem_singleton.mp hl]
    exact ⟨_, hframe⟩

/-- A scope is entered, its body evaluated in it, and the scope left again. -/
theorem sim_scope {scope : Scope} {x : List Nat → Eval Value}
    (hi : program.code[start]? = some (.enterScope scope.length))
    (hx : ∀ f, Sim program fuel (ctx.enter scope) (f :: chain) .operand (start + 1) stop demand
      (x (f :: chain))) (hexit : program.code[stop]? = some .exitScope) :
    Sim program fuel ctx chain .operand start (stop + 1) demand
      (do x (← enter (.unassigned scope) chain)) := by
  intro caller w m c ops free hready hpc hd _
  subst hpc
  obtain ⟨c₁, w₁, hstep, hg, hl, hpc₁, hs, hcontrol, hframe, hready₁⟩ := hready.enterScope hi
  refine Outcome.after ?_ hstep.steps hg hs (hl.mono False.elim (by simp))
  have hbody := hx m.frames.length hready₁ hpc₁ hd (by simp)
  show Outcome program fuel caller w₁ c₁ c.stack ((landing c (stop + 1) ops free).Receives program)
    (x (m.frames.length :: chain) { m with frames := m.frames ++ [.unassigned scope] })
  refine hbody.andSteps fun v m' w' c' hg' hl' hfits hv => ?_
  obtain ⟨l, hv, hat⟩ := hv
  have hi' : program.code[c'.pc]? = some .exitScope := by
    rw [hat.pc]
    exact hexit
  have hleave := Ideal.step_exitScope hi' (hat.control.trans hcontrol)
    (hl'.keep hframe (by simp [Node.kind]) (by simp [Node.kind]))
  have hops : c'.nodes[c.stack]? = some (.operandStack (l :: ops) free) := hs ▸ hat.operands
  exact ⟨hat.stack, 1, _, w', hleave.steps, .refl w', .refl True _ _, hfits, l, hv,
    congrArg (· + 1) hat.pc, rfl, hat.stack.trans hs, rfl, hops⟩

end

end ClosureMachine.Source
