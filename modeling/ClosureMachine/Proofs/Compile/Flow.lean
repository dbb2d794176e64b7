import Mathlib.Logic.Function.Basic
import ClosureMachine.Proofs.Compile.Orderly

/-!
# Operands and scopes along the flow of control

`Flow` follows control through a program from the beginning of a body, without running it: both ways at a condition,
behind a call as if it had come back. It counts operands and open scopes by the effects of the instructions and asks
nothing of them.

That all ways to an address arrive with the same numbers is shown with a `Plan`, which gives every address its numbers
in advance. A plan that fits all instructions is a plan for all ways through them. The plan of a program is made from
its end to its beginning: given what has to be the case behind the code of a part, the part's addresses get their
numbers, and nothing behind it changes. All jumps go forward, so what has been planned is not disturbed.

Where nothing is returned early, each part of the tree is reached, and the deepest place of the deepest part is where
the demand of the tree is met.
-/

set_option autoImplicit false

namespace ClosureMachine

/-! ## The flow of control -/

namespace Instruction

/-- The change in the number of operands. -/
def operandEffect : Instruction → Int
  | .loadConstant _ | .load _ | .loadFunction .. => 1
  | .jumpIfFalse _ | .pop => -1
  | .call n => -n
  | _ => 0

/-- The change in the number of open scopes. -/
def scopeEffect : Instruction → Int
  | .enterScope _ => 1
  | .exitScope => -1
  | _ => 0

/-- How many operands there have to be. -/
def operandsNeeded : Instruction → Nat
  | .call n | .tailCall n => n + 1
  | .assign _ | .jumpIfFalse _ | .pop | .ret | .done => 1
  | _ => 0

/-- Where it may go on in the same body. -/
def successors (pc : Nat) : Instruction → List Nat
  | .jumpIfFalse target => [pc + 1, target]
  | .jump target => [target]
  | .tailCall _ | .ret | .done => []
  | _ => [pc + 1]

end Instruction

/-- From `entry` on, without operands and open scopes there, control can get to `pc` with these numbers of both. -/
inductive Flow (program : Program) (entry : Nat) : (depth scopes : Int) → (pc : Nat) → Prop
  | start : Flow program entry 0 0 entry
  | step {depth scopes : Int} {pc pc' : Nat} {i : Instruction} (h : Flow program entry depth scopes pc)
      (hi : program.code[pc]? = some i) (hnext : pc' ∈ i.successors pc) :
      Flow program entry (depth + i.operandEffect) (scopes + i.scopeEffect) pc'

/-! ## Plans -/

/-- What is planned for an address. -/
structure Level where
  depth : Nat
  scopes : Nat
  /-- The bound on the depth in the body around the address. -/
  capacity : Nat

/-- The same, with `n` operands more. -/
def Level.push (l : Level) (n : Nat) : Level := { l with depth := l.depth + n }

/-- The same, with one more scope open. -/
def Level.open (l : Level) : Level := { l with scopes := l.scopes + 1 }

/-- The instruction finds what it needs. -/
structure Level.Admits (l : Level) (i : Instruction) : Prop where
  needs : i.operandsNeeded ≤ l.depth
  bound : l.depth ≤ l.capacity
  exits : i = .exitScope → 1 ≤ l.scopes
  ends : i = .done → l.depth = 1 ∧ l.scopes = 0

/-- The effect of the instruction leads from one level to the other. -/
structure Level.Leads (l : Level) (i : Instruction) (l' : Level) : Prop where
  depth : (l'.depth : Int) = l.depth + i.operandEffect
  scopes : (l'.scopes : Int) = l.scopes + i.scopeEffect
  capacity : l'.capacity = l.capacity

/-- An instruction that takes one operand. -/
theorem Level.leads_pop (l : Level) {i : Instruction} (hdepth : i.operandEffect = -1) (hscopes : i.scopeEffect = 0) :
    (l.push 1).Leads i l := by
  refine ⟨?_, ?_, rfl⟩
  · rw [hdepth]
    simp only [Level.push]
    omega
  · rw [hscopes]
    exact (Int.add_zero _).symm

abbrev Plan := Nat → Level

/-- The instruction at the address finds what is planned for the addresses where it goes on, which are all behind it. A
function begins with nothing on a stack of its own. -/
structure Plan.Fits (plan : Plan) (pc : Nat) (i : Instruction) : Prop where
  admits : (plan pc).Admits i
  next : ∀ pc' ∈ i.successors pc, pc < pc' ∧ (plan pc).Leads i (plan pc')
  function : ∀ ⦃arity entry stack : Nat⦄, i = .loadFunction arity entry stack →
    pc < entry ∧ plan entry = ⟨0, 0, stack⟩

/-- The plan fits all instructions from the address on. -/
def Plan.FitsFrom (plan : Plan) (program : Program) (start : Nat) : Prop :=
  ∀ ⦃pc : Nat⦄ ⦃i : Instruction⦄, start ≤ pc → program.code[pc]? = some i → plan.Fits pc i

/-- **What is planned is what happens**, along every way from an entry. -/
theorem Flow.planned {program : Program} {plan : Plan} {entry bound : Nat} (hplan : plan.FitsFrom program 0)
    (hentry : plan entry = ⟨0, 0, bound⟩) {depth scopes : Int} {pc : Nat}
    (h : Flow program entry depth scopes pc) :
    depth = (plan pc).depth ∧ scopes = (plan pc).scopes ∧ (plan pc).capacity = bound := by
  induction h with
  | start => simp [hentry]
  | step h hi hnext ih =>
    obtain ⟨hdepth, hscopes, hcapacity⟩ := ih
    have hleads := ((hplan (Nat.zero_le _) hi).next _ hnext).2
    exact ⟨hdepth ▸ hleads.depth.symm, hscopes ▸ hleads.scopes.symm, hleads.capacity.trans hcapacity⟩

/-! ## Planning backwards -/

/-- The plan has been extended to the addresses from `start` on, the first of which gets this level. -/
structure Plan.Extended (plan plan' : Plan) (program : Program) (start stop : Nat) (l : Level) : Prop where
  le : start ≤ stop
  fits : plan'.FitsFrom program start
  first : plan' start = l
  same : ∀ ⦃pc : Nat⦄, stop ≤ pc → plan' pc = plan pc

namespace Plan

variable {program : Program} {plan plan₁ plan₂ : Plan} {start mid stop pc : Nat} {l l' l₁ l₂ : Level}
  {i : Instruction}

theorem Extended.refl (h : plan.FitsFrom program start) (hl : plan start = l) :
    plan.Extended plan program start start l :=
  ⟨Nat.le_refl _, h, hl, fun _ _ => rfl⟩

theorem Extended.trans (h : plan.Extended plan₁ program mid stop l₁)
    (h' : plan₁.Extended plan₂ program start mid l₂) : plan.Extended plan₂ program start stop l₂ where
  le := Nat.le_trans h'.le h.le
  fits := h'.fits
  first := h'.first
  same _ hpc := (h'.same (Nat.le_trans h.le hpc)).trans (h.same hpc)

/-- One more instruction is planned for. -/
theorem extend (hfits : plan.FitsFrom program (pc + 1)) (hi : program.code[pc]? = some i)
    (hadmits : l.Admits i) (hnext : ∀ pc' ∈ i.successors pc, pc < pc' ∧ l.Leads i (plan pc'))
    (hfunction : ∀ ⦃arity entry stack : Nat⦄, i = .loadFunction arity entry stack →
      pc < entry ∧ plan entry = ⟨0, 0, stack⟩) :
    ∃ plan', plan.Extended plan' program pc (pc + 1) l := by
  have hlater : ∀ {pc' : Nat}, pc < pc' → Function.update plan pc l pc' = plan pc' :=
    fun hlt => Function.update_of_ne (Nat.ne_of_gt hlt) _ _
  refine ⟨Function.update plan pc l, Nat.le_succ _, ?_, Function.update_self .., fun _ hlt => hlater hlt⟩
  intro pc' i' hle hi'
  rcases Nat.eq_or_lt_of_le hle with rfl | hlt
  · cases hi.symm.trans hi'
    constructor
    · rwa [Function.update_self]
    · intro pc' hpc'
      obtain ⟨hlt, hleads⟩ := hnext pc' hpc'
      rw [Function.update_self, hlater hlt]
      exact ⟨hlt, hleads⟩
    · intro arity entry stack heq
      obtain ⟨hlt, hentry⟩ := hfunction heq
      rw [hlater hlt]
      exact ⟨hlt, hentry⟩
  · obtain ⟨hadmits', hnext', hfunction'⟩ := hfits hlt hi'
    -- what it refers to is behind it, and so behind `pc`
    constructor
    · rwa [hlater hlt]
    · intro pc'' hpc''
      obtain ⟨hlt', hleads⟩ := hnext' pc'' hpc''
      rw [hlater hlt, hlater (Nat.lt_trans hlt hlt')]
      exact ⟨hlt', hleads⟩
    · intro arity entry stack heq
      obtain ⟨hlt', hentry⟩ := hfunction' heq
      rw [hlater (Nat.lt_trans hlt hlt')]
      exact ⟨hlt', hentry⟩

/-- An instruction behind which it goes on. -/
theorem extend_on (hfits : plan.FitsFrom program (pc + 1)) (hi : program.code[pc]? = some i)
    (hon : i.successors pc = [pc + 1]) (hentry : i.functionEntry = none) (hadmits : l.Admits i)
    (hleads : l.Leads i (plan (pc + 1))) : ∃ plan', plan.Extended plan' program pc (pc + 1) l := by
  apply extend hfits hi hadmits
  · intro pc' hpc'
    rw [hon, List.mem_singleton] at hpc'
    subst hpc'
    exact ⟨Nat.lt_succ_self _, hleads⟩
  · rintro arity entry stack rfl
    cases hentry

/-- An instruction that pushes one operand. -/
theorem extend_push (hfits : plan.FitsFrom program (pc + 1)) (hi : program.code[pc]? = some i)
    (hon : i.successors pc = [pc + 1]) (hentry : i.functionEntry = none) (hneeds : i.operandsNeeded = 0)
    (hdepth : i.operandEffect = 1) (hscopes : i.scopeEffect = 0) (hroom : l.depth + 1 ≤ l.capacity)
    (hnext : plan (pc + 1) = l.push 1) : ∃ plan', plan.Extended plan' program pc (pc + 1) l := by
  refine extend_on hfits hi hon hentry ⟨?_, Nat.le_of_succ_le hroom, ?_, ?_⟩ ?_
  · rw [hneeds]
    exact Nat.zero_le _
  · rintro rfl
    cases hdepth
  · rintro rfl
    cases hdepth
  · rw [hnext]
    exact ⟨by rw [hdepth]; rfl, by rw [hscopes]; rfl, rfl⟩

/-- An instruction that ends a way through the code. -/
theorem extend_end (hfits : plan.FitsFrom program (pc + 1)) (hi : program.code[pc]? = some i)
    (hend : i.successors pc = []) (hadmits : l.Admits i) : ∃ plan', plan.Extended plan' program pc (pc + 1) l := by
  apply extend hfits hi hadmits
  · intro pc' hpc'
    rw [hend] at hpc'
    cases hpc'
  · rintro arity entry stack rfl
    cases hend

theorem extend_jump {target : Nat} (hfits : plan.FitsFrom program (pc + 1))
    (hi : program.code[pc]? = some (.jump target)) (hlt : pc < target) (hbound : l.depth ≤ l.capacity)
    (hnext : plan target = l) : ∃ plan', plan.Extended plan' program pc (pc + 1) l := by
  apply extend hfits hi ⟨Nat.zero_le _, hbound, nofun, nofun⟩
  · intro pc' hpc'
    rw [List.mem_singleton.mp hpc', hnext]
    exact ⟨hlt, (Int.add_zero _).symm, (Int.add_zero _).symm, rfl⟩
  · nofun

theorem extend_jumpIfFalse {target : Nat} (hfits : plan.FitsFrom program (pc + 1))
    (hi : program.code[pc]? = some (.jumpIfFalse target)) (hlt : pc < target) (hroom : l.depth + 1 ≤ l.capacity)
    (hnext : plan (pc + 1) = l) (hother : plan target = l) :
    ∃ plan', plan.Extended plan' program pc (pc + 1) (l.push 1) := by
  have hleads : (l.push 1).Leads (.jumpIfFalse target) l := l.leads_pop rfl rfl
  apply extend hfits hi ⟨Nat.le_add_left _ _, hroom, nofun, nofun⟩
  · intro pc' hpc'
    rcases List.mem_pair.mp hpc' with rfl | rfl
    · rw [hnext]
      exact ⟨Nat.lt_succ_self _, hleads⟩
    · rw [hother]
      exact ⟨hlt, hleads⟩
  · nofun

theorem extend_loadFunction {arity entry stack : Nat} (hfits : plan.FitsFrom program (pc + 1))
    (hi : program.code[pc]? = some (.loadFunction arity entry stack)) (hroom : l.depth + 1 ≤ l.capacity)
    (hnext : plan (pc + 1) = l.push 1) (hlt : pc < entry) (hentry : plan entry = ⟨0, 0, stack⟩) :
    ∃ plan', plan.Extended plan' program pc (pc + 1) l := by
  apply extend hfits hi ⟨Nat.zero_le _, Nat.le_of_succ_le hroom, nofun, nofun⟩
  · intro pc' hpc'
    rw [List.mem_singleton.mp hpc', hnext]
    exact ⟨Nat.lt_succ_self _, rfl, (Int.add_zero _).symm, rfl⟩
  · rintro _ _ _ ⟨⟩
    exact ⟨hlt, hentry⟩

end Plan

/-! ## The plan of a part -/

/-- The operands that stay. There are none behind what is returned, for nothing goes on there. -/
def Part.pushes : Part → Option Nat
  | .value _ | .statements _ => some 1
  | .operands ts => some ts.length
  | .result _ => none

/-- The operands that there are at once, at most. -/
def Part.demand : Part → Nat
  | .value t | .result t => t.stackDemand
  | .operands ts => Tree.operandDemand 0 ts
  | .statements ts => Tree.statementDemand ts

namespace Tree

variable (left right : Tree)

theorem stackDemand_binary (operator : String) : (Tree.binary operator left right).stackDemand =
    (Tree.application (.identifier operator) [left, right]).stackDemand := by
  simp only [stackDemand, operandDemand]
  omega

theorem stackDemand_unary (operator : String) : (Tree.unary operator left).stackDemand =
    (Tree.application (.identifier (unaryName operator)) [left]).stackDemand := by
  simp only [stackDemand, operandDemand]
  omega

theorem stackDemand_conjunction (operator : String) : (Tree.logical operator left right).stackDemand =
    (Tree.conditional left right (.literal (.boolean false))).stackDemand := by
  simp only [stackDemand]
  omega

theorem stackDemand_disjunction (operator : String) : (Tree.logical operator left right).stackDemand =
    (Tree.conditional left (.literal (.boolean true)) right).stackDemand := by
  simp only [stackDemand]
  omega

/-- What is built over one operand more is counted from there. -/
theorem max_operandDemand (t : Tree) (ts : List Tree) :
    max t.stackDemand (operandDemand 1 ts) = max t.stackDemand (operandDemand 0 ts + 1) := by
  have ht := t.one_le_stackDemand
  cases ts with
  | nil =>
    simp only [operandDemand]
    omega
  | cons t' ts => rw [operandDemand_succ]

theorem stackDemand_application (function : Tree) (arguments : List Tree) :
    (Tree.application function arguments).stackDemand =
      max function.stackDemand (operandDemand 0 arguments + 1) := by
  rw [stackDemand, max_operandDemand]

theorem operandDemand_zero_cons (t : Tree) (ts : List Tree) :
    operandDemand 0 (t :: ts) = max t.stackDemand (operandDemand 0 ts + 1) := by
  rw [operandDemand_cons, Nat.zero_add, max_operandDemand]

theorem stackDemand_inner {body inner : Tree} (h : inner = body ∨ inner = .block body) :
    inner.stackDemand = body.bodyDemand := by
  have hbody := body.one_le_stackDemand
  rcases h with rfl | rfl
  · exact (Nat.max_eq_left hbody).symm
  · rw [stackDemand]
    exact (Nat.max_eq_left hbody).symm

end Tree

/-- What has been planned behind a part can be extended to the part. -/
def Plannable (program : Program) (part : Part) (start stop : Nat) : Prop :=
  ∀ ⦃plan : Plan⦄ ⦃l : Level⦄, plan.FitsFrom program stop → (∀ n, part.pushes = some n → plan stop = l.push n) →
    l.depth + part.demand ≤ l.capacity → ∃ plan', plan.Extended plan' program start stop l

section

variable {program : Program} {start mid fork join stop : Nat}

theorem Plannable.of_demand {part part' : Part} (h : Plannable program part' start stop)
    (hpushes : part'.pushes = part.pushes) (hdemand : part.demand = part'.demand) :
    Plannable program part start stop := by
  intro plan l hfits hstop hroom
  rw [hdemand] at hroom
  exact h hfits (fun n hn => hstop n (hpushes ▸ hn)) hroom

theorem plannable_push {part : Part} {i : Instruction} (hi : program.code[start]? = some i)
    (hpushes : part.pushes = some 1) (hdemand : part.demand = 1) (hon : i.successors start = [start + 1])
    (hentry : i.functionEntry = none) (hneeds : i.operandsNeeded = 0) (hdepth : i.operandEffect = 1)
    (hscopes : i.scopeEffect = 0) : Plannable program part start (start + 1) := by
  intro plan l hfits hstop hroom
  rw [hdemand] at hroom
  exact Plan.extend_push hfits hi hon hentry hneeds hdepth hscopes hroom (hstop 1 hpushes)

/-- A callee, its operands and the instruction that applies it. -/
theorem extended_apply {function : Tree} {arguments : List Tree} {plan : Plan} {l : Level}
    (hf : Plannable program (.value function) start mid)
    (hargs : Plannable program (.operands arguments) mid stop)
    (hroom : l.depth + (Tree.application function arguments).stackDemand ≤ l.capacity)
    (hlast : ∃ plan', plan.Extended plan' program stop (stop + 1) ((l.push 1).push arguments.length)) :
    ∃ plan', plan.Extended plan' program start (stop + 1) l := by
  rw [Tree.stackDemand_application] at hroom
  obtain ⟨plan₁, h₁⟩ := hlast
  obtain ⟨plan₂, h₂⟩ := hargs (l := l.push 1) h₁.fits (fun n hn => by cases hn; exact h₁.first)
    (by simp only [Level.push, Part.demand]; omega)
  obtain ⟨plan₃, h₃⟩ := hf (l := l) h₂.fits (fun n hn => by cases hn; exact h₂.first)
    (by simp only [Part.demand]; omega)
  exact ⟨plan₃, h₁.trans (h₂.trans h₃)⟩

theorem plannable_application {function : Tree} {arguments : List Tree}
    (hf : Plannable program (.value function) start mid)
    (hargs : Plannable program (.operands arguments) mid stop)
    (hi : program.code[stop]? = some (.call arguments.length)) :
    Plannable program (.value (.application function arguments)) start (stop + 1) := by
  intro plan l hfits hstop hroom
  have hlength := Tree.length_le_operandDemand 0 arguments
  refine extended_apply hf hargs hroom (Plan.extend_on hfits hi rfl rfl ⟨?_, ?_, nofun, nofun⟩ ?_)
  · simp only [Level.push, Instruction.operandsNeeded]
    omega
  · simp only [Part.demand, Tree.stackDemand_application] at hroom
    simp only [Level.push]
    omega
  · rw [hstop 1 rfl]
    refine ⟨?_, (Int.add_zero _).symm, rfl⟩
    simp only [Level.push, Instruction.operandEffect]
    omega

theorem plannable_tailCall {function : Tree} {arguments : List Tree}
    (hf : Plannable program (.value function) start mid)
    (hargs : Plannable program (.operands arguments) mid stop)
    (hi : program.code[stop]? = some (.tailCall arguments.length)) :
    Plannable program (.result (.application function arguments)) start (stop + 1) := by
  intro plan l hfits hstop hroom
  have hlength := Tree.length_le_operandDemand 0 arguments
  refine extended_apply hf hargs hroom (Plan.extend_end hfits hi rfl ⟨?_, ?_, nofun, nofun⟩)
  · simp only [Level.push, Instruction.operandsNeeded]
    omega
  · simp only [Part.demand, Tree.stackDemand_application] at hroom
    simp only [Level.push]
    omega

theorem plannable_conditional {predicate consequent alternative : Tree}
    (hp : Plannable program (.value predicate) start fork)
    (hfork : program.code[fork]? = some (.jumpIfFalse (join + 1)))
    (hx : Plannable program (.value consequent) (fork + 1) join)
    (hjoin : program.code[join]? = some (.jump stop))
    (hy : Plannable program (.value alternative) (join + 1) stop) :
    Plannable program (.value (.conditional predicate consequent alternative)) start stop := by
  intro plan l hfits hstop hroom
  simp only [Part.demand, Tree.stackDemand] at hroom
  have hone := consequent.one_le_stackDemand
  obtain ⟨plan₁, h₁⟩ := hy (l := l) hfits hstop (by simp only [Part.demand]; omega)
  -- the end of the first branch is planned like the end of the second
  obtain ⟨plan₂, h₂⟩ := Plan.extend_jump (l := l.push 1) h₁.fits hjoin h₁.le
    (by simp only [Level.push]; omega) ((h₁.same (Nat.le_refl _)).trans (hstop 1 rfl))
  obtain ⟨plan₃, h₃⟩ := hx (l := l) h₂.fits (fun n hn => by cases hn; exact h₂.first)
    (by simp only [Part.demand]; omega)
  have hother : plan₃ (join + 1) = l :=
    (h₃.same (Nat.le_succ _)).trans ((h₂.same (Nat.le_refl _)).trans h₁.first)
  obtain ⟨plan₄, h₄⟩ := Plan.extend_jumpIfFalse h₃.fits hfork (Nat.lt_succ_of_le (Nat.le_of_succ_le h₃.le))
    (by omega) h₃.first hother
  obtain ⟨plan₅, h₅⟩ := hp (l := l) h₄.fits (fun n hn => by cases hn; exact h₄.first)
    (by simp only [Part.demand]; omega)
  exact ⟨plan₅, h₁.trans (h₂.trans (h₃.trans (h₄.trans h₅)))⟩

theorem plannable_tailConditional {predicate consequent alternative : Tree}
    (hp : Plannable program (.value predicate) start fork)
    (hfork : program.code[fork]? = some (.jumpIfFalse join))
    (hx : Plannable program (.result consequent) (fork + 1) join)
    (hy : Plannable program (.result alternative) join stop) :
    Plannable program (.result (.conditional predicate consequent alternative)) start stop := by
  intro plan l hfits hstop hroom
  simp only [Part.demand, Tree.stackDemand] at hroom
  have hone := consequent.one_le_stackDemand
  obtain ⟨plan₁, h₁⟩ := hy (l := l) hfits nofun (by simp only [Part.demand]; omega)
  obtain ⟨plan₂, h₂⟩ := hx (l := l) h₁.fits nofun (by simp only [Part.demand]; omega)
  obtain ⟨plan₃, h₃⟩ := Plan.extend_jumpIfFalse h₂.fits hfork h₂.le (by omega) h₂.first
    ((h₂.same (Nat.le_refl _)).trans h₁.first)
  obtain ⟨plan₄, h₄⟩ := hp (l := l) h₃.fits (fun n hn => by cases hn; exact h₃.first)
    (by simp only [Part.demand]; omega)
  exact ⟨plan₄, h₁.trans (h₂.trans (h₃.trans h₄))⟩

theorem plannable_lambda {parameters : List String} {body inner : Tree}
    (hload : program.code[start]? = some (.loadFunction parameters.length (start + 2) body.bodyDemand))
    (hover : program.code[start + 1]? = some (.jump (stop + 3)))
    (hinner : inner = body ∨ inner = .block body)
    (hbody : Plannable program (.value inner) (start + 2) stop) (hpop : program.code[stop]? = some .pop)
    (hundefined : program.code[stop + 1]? = some (.loadConstant .undefined))
    (hret : program.code[stop + 2]? = some .ret) :
    Plannable program (.value (.lambda parameters body)) start (stop + 3) := by
  intro plan l hfits hstop hroom
  simp only [Part.demand, Tree.stackDemand] at hroom
  have hone : 1 ≤ body.bodyDemand := Nat.le_max_right _ _
  -- the body, on a stack of its own
  obtain ⟨plan₁, h₁⟩ := Plan.extend_end (l := ⟨1, 0, body.bodyDemand⟩) hfits hret rfl
    ⟨Nat.le_refl _, hone, nofun, nofun⟩
  obtain ⟨plan₂, h₂⟩ := Plan.extend_push (l := ⟨0, 0, body.bodyDemand⟩) h₁.fits hundefined rfl rfl rfl rfl rfl hone
    h₁.first
  obtain ⟨plan₃, h₃⟩ := Plan.extend_on (l := ⟨1, 0, body.bodyDemand⟩) h₂.fits hpop rfl rfl
    ⟨Nat.le_refl _, hone, nofun, nofun⟩ (by rw [h₂.first]; exact ⟨rfl, rfl, rfl⟩)
  obtain ⟨plan₄, h₄⟩ := hbody (l := ⟨0, 0, body.bodyDemand⟩) h₃.fits (fun n hn => by cases hn; exact h₃.first)
    (by simp only [Part.demand, Tree.stackDemand_inner hinner]; omega)
  have hall := h₁.trans (h₂.trans (h₃.trans h₄))
  -- and the way around it
  obtain ⟨plan₅, h₅⟩ := Plan.extend_jump (l := l.push 1) h₄.fits hover (Nat.lt_of_succ_le hall.le)
    (by simp only [Level.push]; omega) ((hall.same (Nat.le_refl _)).trans (hstop 1 rfl))
  obtain ⟨plan₆, h₆⟩ := Plan.extend_loadFunction (l := l) h₅.fits hload hroom h₅.first (Nat.lt_add_of_pos_right (by decide))
    ((h₅.same (Nat.le_refl _)).trans h₄.first)
  exact ⟨plan₆, hall.trans (h₅.trans h₆)⟩

theorem plannable_block {body : Tree} {slots : Nat} (henter : program.code[start]? = some (.enterScope slots))
    (hbody : Plannable program (.value body) (start + 1) stop) (hexit : program.code[stop]? = some .exitScope) :
    Plannable program (.value (.block body)) start (stop + 1) := by
  intro plan l hfits hstop hroom
  simp only [Part.demand, Tree.stackDemand] at hroom
  have hone := body.one_le_stackDemand
  obtain ⟨plan₁, h₁⟩ := Plan.extend_on (l := l.open.push 1) hfits hexit rfl rfl
    ⟨Nat.zero_le _, by simp only [Level.push, Level.open]; omega, fun _ => Nat.le_add_left _ _, nofun⟩
    (by
      rw [hstop 1 rfl]
      refine ⟨(Int.add_zero _).symm, ?_, rfl⟩
      simp only [Level.push, Level.open, Instruction.scopeEffect]
      omega)
  obtain ⟨plan₂, h₂⟩ := hbody (l := l.open) h₁.fits (fun n hn => by cases hn; exact h₁.first) hroom
  obtain ⟨plan₃, h₃⟩ := Plan.extend_on (l := l) h₂.fits henter rfl rfl ⟨Nat.zero_le _, by omega, nofun, nofun⟩
    (by
      rw [h₂.first]
      exact ⟨(Int.add_zero _).symm, rfl, rfl⟩)
  exact ⟨plan₃, h₁.trans (h₂.trans h₃)⟩

/-- A part that leaves a value, and an instruction that takes the value and leaves one, or returns it. -/
theorem plannable_snoc {part : Part} {t : Tree} (ht : Plannable program (.value t) start stop)
    (hdemand : part.demand = t.stackDemand)
    (hlast : ∀ ⦃plan : Plan⦄ ⦃l : Level⦄, plan.FitsFrom program (stop + 1) →
      (∀ n, part.pushes = some n → plan (stop + 1) = l.push n) → l.depth + 1 ≤ l.capacity →
      ∃ plan', plan.Extended plan' program stop (stop + 1) (l.push 1)) :
    Plannable program part start (stop + 1) := by
  intro plan l hfits hstop hroom
  rw [hdemand] at hroom
  have hone := t.one_le_stackDemand
  obtain ⟨plan₁, h₁⟩ := hlast (l := l) hfits hstop (by omega)
  obtain ⟨plan₂, h₂⟩ := ht (l := l) h₁.fits (fun n hn => by cases hn; exact h₁.first) hroom
  exact ⟨plan₂, h₁.trans h₂⟩

theorem plannable_assign {part : Part} {t : Tree} {a : Address} (ht : Plannable program (.value t) start stop)
    (hi : program.code[stop]? = some (.assign a)) (hdemand : part.demand = t.stackDemand)
    (hpushes : part.pushes = some 1) : Plannable program part start (stop + 1) := by
  refine plannable_snoc ht hdemand fun plan l hfits hstop hroom => ?_
  refine Plan.extend_on hfits hi rfl rfl ⟨Nat.le_add_left _ _, hroom, nofun, nofun⟩ ?_
  rw [hstop 1 hpushes]
  exact ⟨(Int.add_zero _).symm, (Int.add_zero _).symm, rfl⟩

theorem plannable_operand {t : Tree} {ts : List Tree} (ht : Plannable program (.value t) start mid)
    (hts : Plannable program (.operands ts) mid stop) : Plannable program (.operands (t :: ts)) start stop := by
  intro plan l hfits hstop hroom
  simp only [Part.demand, Tree.operandDemand_zero_cons] at hroom
  have hrest : plan stop = (l.push 1).push ts.length := by
    rw [hstop _ rfl, Level.push, Level.push, Level.push, List.length_cons, Nat.add_assoc, Nat.add_comm 1]
  obtain ⟨plan₁, h₁⟩ := hts (l := l.push 1) hfits (fun n hn => by cases hn; exact hrest)
    (by simp only [Level.push, Part.demand]; omega)
  obtain ⟨plan₂, h₂⟩ := ht (l := l) h₁.fits (fun n hn => by cases hn; exact h₁.first)
    (by simp only [Part.demand]; omega)
  exact ⟨plan₂, h₁.trans h₂⟩

theorem plannable_statement {t t' : Tree} {ts : List Tree} (ht : Plannable program (.value t) start mid)
    (hi : program.code[mid]? = some .pop) (hts : Plannable program (.statements (t' :: ts)) (mid + 1) stop) :
    Plannable program (.statements (t :: t' :: ts)) start stop := by
  intro plan l hfits hstop hroom
  have hdemand : Tree.statementDemand (t :: t' :: ts) = max t.stackDemand (Tree.statementDemand (t' :: ts)) := by
    rw [Tree.statementDemand]
  simp only [Part.demand, hdemand] at hroom
  have hone := t.one_le_stackDemand
  obtain ⟨plan₁, h₁⟩ := hts (l := l) hfits hstop (by simp only [Part.demand]; omega)
  obtain ⟨plan₂, h₂⟩ := Plan.extend_on (l := l.push 1) h₁.fits hi rfl rfl
    ⟨Nat.le_add_left _ _, by simp only [Level.push]; omega, nofun, nofun⟩
    (by
      rw [h₁.first]
      exact l.leads_pop rfl rfl)
  obtain ⟨plan₃, h₃⟩ := ht (l := l) h₂.fits (fun n hn => by cases hn; exact h₂.first)
    (by simp only [Part.demand]; omega)
  exact ⟨plan₃, h₁.trans (h₂.trans h₃)⟩

/-- **All emitted code can be planned for.** -/
theorem Emitted.plannable {inFunction : Bool} {part : Part} (h : Emitted program inFunction part start stop) :
    Plannable program part start stop := by
  induction h with
  | literal hi => exact plannable_push hi rfl (by simp only [Part.demand, Tree.stackDemand]) rfl rfl rfl rfl rfl
  | identifier hi => exact plannable_push hi rfl (by simp only [Part.demand, Tree.stackDemand]) rfl rfl rfl rfl rfl
  | binary _ ih => exact ih.of_demand rfl (Tree.stackDemand_binary ..)
  | unary _ ih => exact ih.of_demand rfl (Tree.stackDemand_unary ..)
  | @conjunction _ operator left right _ _ _ ih =>
    exact ih.of_demand rfl (left.stackDemand_conjunction right operator)
  | @disjunction _ operator left right _ _ _ ih =>
    exact ih.of_demand rfl (left.stackDemand_disjunction right operator)
  | conditional _ hfork _ hjoin _ ihp ihx ihy => exact plannable_conditional ihp hfork ihx hjoin ihy
  | application _ _ hi ihf ihargs => exact plannable_application ihf ihargs hi
  | lambda hload hover hinner _ hpop hundefined hret ihbody =>
    exact plannable_lambda hload hover hinner ihbody hpop hundefined hret
  | sequence _ ih => exact ih.of_demand rfl (by simp only [Part.demand, Tree.stackDemand])
  | block henter _ hexit ih => exact plannable_block henter ih hexit
  | declaration _ hi ih => exact plannable_assign ih hi (by simp only [Part.demand, Tree.stackDemand]) rfl
  | assignment _ hi ih => exact plannable_assign ih hi (by simp only [Part.demand, Tree.stackDemand]) rfl
  | functionDeclaration _ ih => exact ih.of_demand rfl (by simp only [Part.demand, Tree.stackDemand])
  | ret _ ih =>
    intro plan l hfits hstop hroom
    exact ih hfits nofun (by simpa only [Part.demand, Tree.stackDemand] using hroom)
  | returned _ hi ih =>
    refine plannable_snoc ih rfl fun plan l hfits _ hroom => ?_
    exact Plan.extend_end hfits hi rfl ⟨Nat.le_add_left _ _, hroom, nofun, nofun⟩
  | tailCall _ _ hi ihf ihargs => exact plannable_tailCall ihf ihargs hi
  | tailConditional _ hfork _ _ ihp ihx ihy => exact plannable_tailConditional ihp hfork ihx ihy
  | noOperands =>
    intro plan l hfits hstop hroom
    exact ⟨plan, .refl hfits (hstop 0 rfl)⟩
  | operand _ _ iht ihts => exact plannable_operand iht ihts
  | noStatements hi =>
    exact plannable_push hi rfl (by simp only [Part.demand, Tree.statementDemand]) rfl rfl rfl rfl rfl
  | lastStatement _ ih =>
    refine ih.of_demand rfl ?_
    have hone := Tree.one_le_stackDemand ‹_›
    simp only [Part.demand, Tree.statementDemand]
    omega
  | statement _ hi _ iht ihts => exact plannable_statement iht hi ihts

/-- There is a plan for every program. -/
theorem plan_program {globals : Scopes} {tree : Tree} (h : tree.toProgram globals = .ok program) :
    ∃ plan : Plan, plan.FitsFrom program 0 ∧ plan 0 = ⟨0, 0, program.mainStack⟩ := by
  obtain ⟨stop, hemitted, hdone, hsize, hstack⟩ := emitted_program h
  have hone := tree.one_le_stackDemand
  have hempty : Plan.FitsFrom (fun _ => ⟨0, 0, 0⟩) program (stop + 1) := by
    intro pc i hle hi
    have hlt := (Array.getElem?_eq_some_iff.mp hi).1
    omega
  obtain ⟨plan₁, h₁⟩ := Plan.extend_end (l := ⟨1, 0, program.mainStack⟩) hempty hdone rfl
    ⟨Nat.le_refl _, by simp only [hstack]; exact hone, nofun, fun _ => ⟨rfl, rfl⟩⟩
  obtain ⟨plan₂, h₂⟩ := hemitted.plannable (l := ⟨0, 0, program.mainStack⟩) h₁.fits
    (fun n hn => by cases hn; exact h₁.first)
    (by simp only [Part.demand, Tree.stackDemand, hstack]; omega)
  exact ⟨plan₂, h₂.fits, h₂.first⟩

end

end ClosureMachine
