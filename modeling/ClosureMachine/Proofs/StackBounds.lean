import ClosureMachine.Proofs.CodeLayout
import ClosureMachine.Proofs.Compile.Flow

/-!
# The bounds on the operand stack

The compiler gives each body a bound on its operands by looking at the tree. Along the flow of control the code of the
body respects the bound, and never finds an operand or a scope missing. If nothing is returned early, some way through
the code needs all that the bound allows: no smaller stack would do.

An early return makes the difference because the code behind it counts for the bound and is not reached.
-/

set_option autoImplicit false

namespace ClosureMachine

/-! ## Staying in the program -/

section

variable {program : Program} {globals : Scopes} {tree : Tree}

theorem successor_lt (h : tree.toProgram globals = .ok program) {pc pc' : Nat} {i : Instruction}
    (hi : program.code[pc]? = some i) (hnext : pc' ∈ i.successors pc) : pc' < program.code.size := by
  obtain ⟨stop, -, hdone, hsize⟩ := orderly_program h
  have hbehind : i ≠ .done → pc + 1 < program.code.size := by
    intro hne
    have hwithin := (within_of_size hdone hsize hi hne).2
    omega
  have hjump : ∀ target, i.jumpTarget = some target → target < program.code.size :=
    fun target hj => (jump_forward h ⟨i, hi, hj⟩).2
  cases i with
  | jumpIfFalse target =>
    rcases List.mem_pair.mp hnext with rfl | rfl
    · exact hbehind nofun
    · exact hjump _ rfl
  | jump target => exact List.mem_singleton.mp hnext ▸ hjump _ rfl
  | tailCall n => cases hnext
  | ret => cases hnext
  | done => cases hnext
  | _ => exact List.mem_singleton.mp hnext ▸ hbehind nofun

/-- Control does not leave the program. -/
theorem Flow.lt_size (h : tree.toProgram globals = .ok program) {entry : Nat} (hentry : entry < program.code.size)
    {depth scopes : Int} {pc : Nat} (hflow : Flow program entry depth scopes pc) : pc < program.code.size := by
  cases hflow with
  | start => exact hentry
  | step _ hi hnext => exact successor_lt h hi hnext

/-- A function begins inside the program. -/
theorem entry_lt (h : tree.toProgram globals = .ok program) {a arity entry stack : Nat}
    (hload : program.code[a]? = some (.loadFunction arity entry stack)) : entry < program.code.size := by
  obtain ⟨stop, hf⟩ := functionAt_of_load h hload
  have hroom := hf.room
  have hlt := (Array.getElem?_eq_some_iff.mp hf.ret).1
  omega

end

/-! ## Respecting the bound -/

/-- Along all ways from the entry, there are as many operands and scopes as are needed, at each address always the
same numbers of them, and never more operands than the bound. -/
structure StackBound (program : Program) (entry bound : Nat) : Prop where
  unique : ∀ depth scopes depth' scopes' pc, Flow program entry depth scopes pc →
    Flow program entry depth' scopes' pc → depth = depth' ∧ scopes = scopes'
  finds : ∀ depth scopes pc, Flow program entry depth scopes pc → ∃ i, program.code[pc]? = some i ∧
    i.operandsNeeded ≤ depth ∧ depth ≤ bound ∧ (i = .exitScope → 1 ≤ scopes) ∧
    (i = .done → depth = 1 ∧ scopes = 0)

theorem stackBound_of_plan {program : Program} {globals : Scopes} {tree : Tree}
    (h : tree.toProgram globals = .ok program) {plan : Plan} (hplan : plan.FitsFrom program 0) {entry bound : Nat}
    (hentry : plan entry = ⟨0, 0, bound⟩) (hlt : entry < program.code.size) : StackBound program entry bound := by
  constructor
  · intro depth scopes depth' scopes' pc hflow hflow'
    obtain ⟨hdepth, hscopes, -⟩ := hflow.planned hplan hentry
    obtain ⟨hdepth', hscopes', -⟩ := hflow'.planned hplan hentry
    exact ⟨hdepth.trans hdepth'.symm, hscopes.trans hscopes'.symm⟩
  · intro depth scopes pc hflow
    have hpc := hflow.lt_size h hlt
    obtain ⟨hdepth, hscopes, hcapacity⟩ := hflow.planned hplan hentry
    have hi : program.code[pc]? = some program.code[pc] := Array.getElem?_eq_getElem hpc
    have hadmits := (hplan (Nat.zero_le _) hi).admits
    have hneeds := hadmits.needs
    have hbound := hadmits.bound
    refine ⟨_, hi, by omega, by omega, ?_, ?_⟩
    · intro heq
      have hexits := hadmits.exits heq
      omega
    · intro heq
      have hends := hadmits.ends heq
      omega

/-! ## Early returns -/

namespace Tree

mutual

/-- The tree contains a `return` outside the functions in it. -/
@[simp] def returns : Tree → Bool
  | .literal _ | .identifier _ | .lambda .. | .functionDeclaration .. => false
  | .ret _ => true
  | .unary _ t | .declaration _ t _ | .assignment _ t | .block t => t.returns
  | .binary _ left right | .logical _ left right => left.returns || right.returns
  | .conditional predicate consequent alternative =>
    predicate.returns || (consequent.returns || alternative.returns)
  | .application function arguments => function.returns || returnsIn arguments
  | .sequence statements => returnsIn statements

@[simp] def returnsIn : List Tree → Bool
  | [] => false
  | t :: rest => t.returns || returnsIn rest

end

end Tree

@[simp] def Part.returns : Part → Bool
  | .value t | .result t => t.returns
  | .operands ts | .statements ts => Tree.returnsIn ts

/-- Outside functions nothing is returned. -/
theorem Emitted.returns_eq {program : Program} {inFunction : Bool} {part : Part} {start stop : Nat}
    (h : Emitted program inFunction part start stop) (hmain : inFunction = false) : part.returns = false := by
  induction h with
  | ret _ _ => cases hmain
  | literal _ | identifier _ | noOperands | noStatements _ | lambda _ _ _ _ _ _ _ _ | functionDeclaration _ _ =>
    simp
  | binary _ ih | unary _ ih | conjunction _ ih | disjunction _ ih | sequence _ ih | lastStatement _ ih =>
    simpa using ih hmain
  | block _ _ _ ih => simpa using ih hmain
  | declaration _ _ ih | assignment _ _ ih | returned _ _ ih =>
    simpa using ih hmain
  | conditional _ _ _ _ _ ihp ihx ihy => simp_all
  | tailConditional _ _ _ _ ihp ihx ihy => simp_all
  | application _ _ _ ihf ihargs | tailCall _ _ _ ihf ihargs => simp_all
  | operand _ _ iht ihts => simp_all
  | statement _ _ _ iht ihts => simp_all

/-! ## Meeting the bound -/

/-- Some way from the entry comes to an address with so many operands. -/
def Attains (program : Program) (entry : Nat) (depth : Int) : Prop :=
  ∃ scopes pc, Flow program entry depth scopes pc

/-- Control gets through the part, and on the way there are as many operands as the part demands. -/
def Fills (program : Program) (part : Part) (start stop : Nat) : Prop :=
  ∀ ⦃entry n : Nat⦄ ⦃depth scopes : Int⦄, part.pushes = some n → part.returns = false →
    Flow program entry depth scopes start →
    Flow program entry (depth + n) scopes stop ∧ Attains program entry (depth + part.demand)

section

variable {program : Program} {start mid fork join stop entry : Nat} {depth scopes : Int}

theorem Flow.next {depth' scopes' : Int} {pc pc' : Nat} {i : Instruction} (h : Flow program entry depth scopes pc)
    (hi : program.code[pc]? = some i) (hnext : pc' ∈ i.successors pc) (hdepth : depth' = depth + i.operandEffect)
    (hscopes : scopes' = scopes + i.scopeEffect) : Flow program entry depth' scopes' pc' :=
  hdepth ▸ hscopes ▸ h.step hi hnext

theorem Attains.max {a b : Nat} (ha : Attains program entry (depth + a)) (hb : Attains program entry (depth + b)) :
    Attains program entry (depth + (max a b : Nat)) := by
  rcases Nat.le_total a b with hle | hle
  · rwa [Nat.max_eq_right hle]
  · rwa [Nat.max_eq_left hle]

theorem Fills.of_demand {part part' : Part} (h : Fills program part' start stop)
    (hpushes : part'.pushes = part.pushes) (hreturns : part'.returns = part.returns)
    (hdemand : part'.demand = part.demand) : Fills program part start stop := by
  intro entry n depth scopes hn hr hflow
  rw [← hdemand]
  exact h (hpushes.trans hn) (hreturns.trans hr) hflow

theorem fills_push {part : Part} {i : Instruction} (hi : program.code[start]? = some i)
    (hpushes : part.pushes = some 1) (hdemand : part.demand = 1) (hnext : start + 1 ∈ i.successors start)
    (hdepth : i.operandEffect = 1) (hscopes : i.scopeEffect = 0) : Fills program part start (start + 1) := by
  intro entry n depth scopes hn _ hflow
  have hstop : Flow program entry (depth + 1) scopes (start + 1) :=
    hflow.next hi hnext (by rw [hdepth]) (by rw [hscopes, Int.add_zero])
  cases hpushes.symm.trans hn
  rw [hdemand]
  exact ⟨hstop, _, _, hstop⟩

theorem fills_conditional {predicate consequent alternative : Tree}
    (hp : Fills program (.value predicate) start fork)
    (hfork : program.code[fork]? = some (.jumpIfFalse (join + 1)))
    (hx : Fills program (.value consequent) (fork + 1) join)
    (hy : Fills program (.value alternative) (join + 1) stop) :
    Fills program (.value (.conditional predicate consequent alternative)) start stop := by
  intro entry n depth scopes hn hr hflow
  cases hn
  simp only [Part.returns, Tree.returns, Bool.or_eq_false_iff] at hr
  obtain ⟨hrp, hrx, hry⟩ := hr
  obtain ⟨hatfork, hpeakp⟩ := hp rfl hrp hflow
  have heffect : depth = depth + (1 : Nat) + (Instruction.jumpIfFalse (join + 1)).operandEffect := by
    simp only [Instruction.operandEffect]
    omega
  have hthen : Flow program entry depth scopes (fork + 1) :=
    hatfork.next hfork (List.mem_cons_self ..) heffect (Int.add_zero _).symm
  have helse : Flow program entry depth scopes (join + 1) :=
    hatfork.next hfork (List.mem_cons_of_mem _ (List.mem_singleton_self _)) heffect (Int.add_zero _).symm
  obtain ⟨-, hpeakx⟩ := hx rfl hrx hthen
  obtain ⟨hstop, hpeaky⟩ := hy rfl hry helse
  refine ⟨hstop, ?_⟩
  simp only [Part.demand, Tree.stackDemand]
  exact hpeakp.max (hpeakx.max hpeaky)

theorem fills_application {function : Tree} {arguments : List Tree}
    (hf : Fills program (.value function) start mid) (hargs : Fills program (.operands arguments) mid stop)
    (hi : program.code[stop]? = some (.call arguments.length)) :
    Fills program (.value (.application function arguments)) start (stop + 1) := by
  intro entry n depth scopes hn hr hflow
  cases hn
  simp only [Part.returns, Tree.returns, Bool.or_eq_false_iff] at hr
  obtain ⟨hmid, hpeakf⟩ := hf rfl hr.1 hflow
  obtain ⟨hstop, hpeak⟩ := hargs rfl hr.2 hmid
  constructor
  · apply hstop.next hi (List.mem_singleton_self _) ?_ (Int.add_zero _).symm
    simp only [Instruction.operandEffect]
    omega
  · rw [Part.demand, Tree.stackDemand_application]
    apply hpeakf.max
    rwa [Nat.add_comm, Int.natCast_add, ← Int.add_assoc]

theorem fills_lambda {parameters : List String} {body : Tree} {arity stack : Nat}
    (hload : program.code[start]? = some (.loadFunction arity (start + 2) stack))
    (hover : program.code[start + 1]? = some (.jump stop)) :
    Fills program (.value (.lambda parameters body)) start stop := by
  intro entry n depth scopes hn _ hflow
  cases hn
  have hbuilt : Flow program entry (depth + 1) scopes (start + 1) :=
    hflow.next hload (List.mem_singleton_self _) rfl (Int.add_zero _).symm
  have hstop : Flow program entry (depth + 1) scopes stop :=
    hbuilt.next hover (List.mem_singleton_self _) (Int.add_zero _).symm (Int.add_zero _).symm
  simp only [Part.demand, Tree.stackDemand]
  exact ⟨hstop, _, _, hstop⟩

theorem fills_block {body : Tree} {slots : Nat} (henter : program.code[start]? = some (.enterScope slots))
    (hbody : Fills program (.value body) (start + 1) stop) (hexit : program.code[stop]? = some .exitScope) :
    Fills program (.value (.block body)) start (stop + 1) := by
  intro entry n depth scopes hn hr hflow
  cases hn
  simp only [Part.returns, Tree.returns] at hr
  have hinside : Flow program entry depth (scopes + 1) (start + 1) :=
    hflow.next henter (List.mem_singleton_self _) (Int.add_zero _).symm rfl
  obtain ⟨hstop, hpeak⟩ := hbody rfl hr hinside
  simp only [Part.demand, Tree.stackDemand]
  refine ⟨hstop.next hexit (List.mem_singleton_self _) (Int.add_zero _).symm ?_, hpeak⟩
  simp only [Instruction.scopeEffect]
  omega

theorem fills_assign {t t' : Tree} {a : Address} (ht : Fills program (.value t) start stop)
    (hi : program.code[stop]? = some (.assign a)) (hreturns : t'.returns = t.returns)
    (hdemand : t'.stackDemand = t.stackDemand) : Fills program (.value t') start (stop + 1) := by
  intro entry n depth scopes hn hr hflow
  obtain ⟨hstop, hpeak⟩ := ht hn (hreturns.symm.trans hr) hflow
  rw [Part.demand, hdemand]
  exact ⟨hstop.next hi (List.mem_singleton_self _) (Int.add_zero _).symm (Int.add_zero _).symm, hpeak⟩

theorem fills_operand {t : Tree} {ts : List Tree} (ht : Fills program (.value t) start mid)
    (hts : Fills program (.operands ts) mid stop) : Fills program (.operands (t :: ts)) start stop := by
  intro entry n depth scopes hn hr hflow
  cases hn
  simp only [Part.returns, Tree.returnsIn, Bool.or_eq_false_iff] at hr
  obtain ⟨hmid, hpeakt⟩ := ht rfl hr.1 hflow
  obtain ⟨hstop, hpeak⟩ := hts rfl hr.2 hmid
  constructor
  · rwa [List.length_cons, Nat.add_comm, Int.natCast_add, ← Int.add_assoc]
  · rw [Part.demand, Tree.operandDemand_zero_cons]
    apply hpeakt.max
    rwa [Nat.add_comm, Int.natCast_add, ← Int.add_assoc]

theorem fills_statement {t t' : Tree} {ts : List Tree} (ht : Fills program (.value t) start mid)
    (hi : program.code[mid]? = some .pop) (hts : Fills program (.statements (t' :: ts)) (mid + 1) stop) :
    Fills program (.statements (t :: t' :: ts)) start stop := by
  intro entry n depth scopes hn hr hflow
  have hreturns : Tree.returnsIn (t :: t' :: ts) = (t.returns || Tree.returnsIn (t' :: ts)) := by
    rw [Tree.returnsIn]
  have hdemand : Tree.statementDemand (t :: t' :: ts) = max t.stackDemand (Tree.statementDemand (t' :: ts)) := by
    rw [Tree.statementDemand]
  simp only [Part.returns, hreturns, Bool.or_eq_false_iff] at hr
  obtain ⟨hmid, hpeakt⟩ := ht rfl hr.1 hflow
  have hnext : Flow program entry depth scopes (mid + 1) := by
    apply hmid.next hi (List.mem_singleton_self _) ?_ (Int.add_zero _).symm
    simp only [Instruction.operandEffect]
    omega
  obtain ⟨hstop, hpeak⟩ := hts hn hr.2 hnext
  rw [Part.demand, hdemand]
  exact ⟨hstop, hpeakt.max hpeak⟩

/-- **All emitted code is filled**, unless it returns early. -/
theorem Emitted.fills {inFunction : Bool} {part : Part} (h : Emitted program inFunction part start stop) :
    Fills program part start stop := by
  induction h with
  | literal hi =>
    exact fills_push hi rfl (by simp only [Part.demand, Tree.stackDemand]) (List.mem_singleton_self _) rfl rfl
  | identifier hi =>
    exact fills_push hi rfl (by simp only [Part.demand, Tree.stackDemand]) (List.mem_singleton_self _) rfl rfl
  | @binary _ operator left right _ _ _ ih =>
    exact ih.of_demand rfl (by simp)
      (left.stackDemand_binary right operator).symm
  | @unary _ operator operand _ _ _ ih =>
    exact ih.of_demand rfl (by simp)
      (operand.stackDemand_unary operator).symm
  | @conjunction _ operator left right _ _ _ ih =>
    exact ih.of_demand rfl (by simp) (left.stackDemand_conjunction right operator).symm
  | @disjunction _ operator left right _ _ _ ih =>
    exact ih.of_demand rfl (by simp) (left.stackDemand_disjunction right operator).symm
  | conditional _ hfork _ _ _ ihp ihx ihy => exact fills_conditional ihp hfork ihx ihy
  | application _ _ hi ihf ihargs => exact fills_application ihf ihargs hi
  | lambda hload hover _ _ _ _ _ _ => exact fills_lambda hload hover
  | sequence _ ih =>
    exact ih.of_demand rfl (by simp) (by simp only [Part.demand, Tree.stackDemand])
  | block henter _ hexit ih => exact fills_block henter ih hexit
  | declaration _ hi ih => exact fills_assign ih hi (by simp) (by simp only [Tree.stackDemand])
  | assignment _ hi ih => exact fills_assign ih hi (by simp) (by simp only [Tree.stackDemand])
  | functionDeclaration _ ih =>
    exact ih.of_demand rfl (by simp) (by simp only [Part.demand, Tree.stackDemand])
  | ret _ _ =>
    intro entry n depth scopes _ hr
    simp at hr
  | returned _ _ _ | tailCall _ _ _ _ _ | tailConditional _ _ _ _ _ _ _ =>
    intro entry n depth scopes hn
    cases hn
  | noOperands =>
    intro entry n depth scopes hn _ hflow
    cases hn
    simp only [Part.demand, Tree.operandDemand, List.length_nil, Int.natCast_zero, Int.add_zero]
    exact ⟨hflow, _, _, hflow⟩
  | operand _ _ iht ihts => exact fills_operand iht ihts
  | noStatements hi =>
    exact fills_push hi rfl (by simp only [Part.demand, Tree.statementDemand]) (List.mem_singleton_self _) rfl rfl
  | @lastStatement _ t _ _ _ ih =>
    refine ih.of_demand rfl (by simp) ?_
    have hone := t.one_le_stackDemand
    simp only [Part.demand, Tree.statementDemand]
    omega
  | statement _ hi _ iht ihts => exact fills_statement iht hi ihts

end

/-! ## The bounds of a program -/

section

variable {program : Program} {globals : Scopes} {tree : Tree}

theorem attains_main (h : tree.toProgram globals = .ok program) : Attains program 0 program.mainStack := by
  obtain ⟨stop, hemitted, -, -, hstack⟩ := emitted_program h
  have hpeak := (hemitted.fills rfl (hemitted.returns_eq rfl) .start).2
  simp only [Part.demand, Tree.stackDemand, Int.zero_add] at hpeak
  rwa [hstack]

theorem BuildsFunction.attains {a : Nat} {f : FunctionTree} (h : BuildsFunction program a f) (hr : f.body.returns = false) :
    Attains program (a + 2) f.body.bodyDemand := by
  obtain ⟨inner, stop, hinner, hemitted⟩ := h.body
  have hreturns : inner.returns = false := by
    rcases hinner with rfl | rfl
    · exact hr
    · rwa [Tree.returns]
  have hpeak := (hemitted.fills rfl hreturns .start).2
  rwa [Part.demand, Tree.stackDemand_inner hinner, Int.zero_add] at hpeak

/-- **The bounds on the operand stack are well defined and exact.** The main program respects its bound and meets it.
Every function respects its own, and if its body has no `return`, meets it. -/
theorem stack_bounds_exact (h : tree.toProgram globals = .ok program) :
    StackBound program 0 program.mainStack ∧ Attains program 0 program.mainStack ∧
    (∀ a arity entry stack : Nat, program.code[a]? = some (.loadFunction arity entry stack) →
      StackBound program entry stack) ∧
    List.Forall₂ (fun a f => ∃ arity entry stack : Nat,
        program.code[a]? = some (.loadFunction arity entry stack) ∧ (f.body.returns = false → Attains program entry stack))
      program.functionAddresses tree.functions := by
  obtain ⟨plan, hplan, hmain⟩ := plan_program h
  obtain ⟨stop, -, -, hsize⟩ := orderly_program h
  refine ⟨stackBound_of_plan h hplan hmain (by omega), attains_main h, ?_, ?_⟩
  · intro a arity entry stack hload
    have hentry := ((hplan (Nat.zero_le _) hload).function rfl).2
    exact stackBound_of_plan h hplan hentry (entry_lt h hload)
  · exact (built_functions h).imp fun a f hf => ⟨_, _, _, hf.load, hf.attains⟩

end

/-- A sum of sums in a function that does not return it: `(x => { x + (x + x); })(null)`. -/
def sumOfSums : Tree :=
  let x : Tree := .identifier "x"
  .application (.lambda ["x"] (.binary "+" x (.binary "+" x x))) [.literal .null]

/-- The inner sum is on top of an operator and an operand. -/
theorem stack_bounds_exact_sumOfSums : ∃ program, sumOfSums.toProgram [[⟨"+", true⟩]] = .ok program ∧
    program.mainStack = 2 ∧ Attains program 0 2 ∧ StackBound program 3 5 ∧ Attains program 3 5 := by
  have hcheck : (sumOfSums.toProgram [[⟨"+", true⟩]]).toOption.any fun program =>
      program.mainStack == 2 && (program.code[1]? == some (.loadFunction 1 3 5) &&
      program.functionAddresses == [1]) := by
    decide +kernel
  obtain ⟨program, hcompile, hcheck⟩ := Actions.of_any_ok hcheck
  simp only [Bool.and_eq_true, beq_iff_eq] at hcheck
  obtain ⟨hstack, hload, haddresses⟩ := hcheck
  obtain ⟨-, hmain, hbounds, hattains⟩ := stack_bounds_exact hcompile
  rw [haddresses] at hattains
  obtain ⟨arity, entry, stack, hload', hpeak⟩ := (List.forall₂_cons.mp hattains).1
  cases hload.symm.trans hload'
  refine ⟨program, hcompile, hstack, ?_, hbounds 1 1 3 5 hload, hpeak ?_⟩
  · rwa [hstack] at hmain
  · simp

end ClosureMachine
