import ClosureMachine.Proofs.Source.Calls

/-!
# The code of every tree

Whatever tree the compiler accepts, in whatever context and position: its code does what the tree means. There is one
lemma for each form of tree, which takes the compiler's code apart and puts the simulations of the parts
together; the induction over trees comes last.

Calls are still assumed to be right, `CallSim`.
-/

set_option autoImplicit false

namespace ClosureMachine

namespace Source

open ClosureMachine.Ideal (Node Loc Core)

/-- The code of the tree does what the tree means. -/
def TreeSim (program : Program) (fuel : Nat) (call : Call) (t : Tree) : Prop :=
  ∀ ⦃ctx : Context⦄ ⦃pos : Position⦄ ⦃start : Nat⦄ ⦃code : Code⦄ (chain : List Nat),
    t.compile ctx pos start = .ok code → CodeAt program start code →
    Sim program (fuel + 1) ctx chain pos start (start + code.length) t.stackDemand (eval call chain t)

def OperandsSim (program : Program) (fuel : Nat) (call : Call) (ts : List Tree) : Prop :=
  ∀ ⦃ctx : Context⦄ ⦃start : Nat⦄ ⦃code : Code⦄ (chain : List Nat),
    Tree.compileOperands ctx start ts = .ok code → CodeAt program start code →
    SimOperands program (fuel + 1) ctx chain start (start + code.length) (Tree.operandDemand 0 ts) ts.length
      (evalOperands call chain ts)

def SequenceSim (program : Program) (fuel : Nat) (call : Call) (ts : List Tree) : Prop :=
  ∀ ⦃ctx : Context⦄ ⦃pos : Position⦄ ⦃start : Nat⦄ ⦃code : Code⦄ (chain : List Nat), pos ≠ .tail →
    Tree.compileSequence ctx pos start ts = .ok code → CodeAt program start code →
    Sim program (fuel + 1) ctx chain .operand start (start + code.length) (Tree.statementDemand ts)
      (evalSequence call chain ts)

theorem Sim.demand_le {program : Program} {fuel : Nat} {ctx : Context} {chain : List Nat} {pos : Position}
    {start stop demand demand' : Nat} {x : Eval Value}
    (h : Sim program fuel ctx chain pos start stop demand x) (hd : demand ≤ demand') :
    Sim program fuel ctx chain pos start stop demand' x :=
  fun _ _ _ _ _ _ hready hpc hd' hcaller => h hready hpc (Nat.le_trans hd hd') hcaller

section

variable {program : Program} {fuel : Nat} {call : Call} {ctx : Context} {chain : List Nat} {start : Nat}

/-! ## Literals and names -/

theorem treeSim_literal (value : Literal) : TreeSim program fuel call (.literal value) := by
  intro ctx pos start code chain h hcode
  rw [Tree.compile] at h
  cases h
  rw [eval, Tree.stackDemand]
  exact Sim.finish hcode fun hcode => sim_literal (codeAt_cons.mp hcode).1

/-- The code that pushes the value of a name. -/
theorem sim_load {name : String} {code : Code} (h : ctx.load name = .ok code)
    (hcode : CodeAt program start code) :
    Sim program fuel ctx chain .operand start (start + code.length) 1 (valueOf chain name) ∧
      code.length = 1 := by
  obtain ⟨a, b, hlook, rfl⟩ := Context.load_ok h
  exact ⟨sim_valueOf hlook (codeAt_cons.mp hcode).1, rfl⟩

theorem treeSim_identifier (name : String) : TreeSim program fuel call (.identifier name) := by
  intro ctx pos start code chain h hcode
  rw [Tree.compile] at h
  obtain ⟨code', hload, h⟩ := Actions.of_bind_ok h
  cases h
  rw [eval, Tree.stackDemand]
  exact Sim.finish hcode fun hcode => (sim_load hload hcode).1

/-! ## Calls -/

theorem operandsSim_nil : OperandsSim program fuel call [] := by
  intro ctx start code chain h hcode
  rw [Tree.compileOperands] at h
  cases h
  rw [evalOperands, Tree.operandDemand]
  exact simOperands_nil

theorem operandsSim_cons {t : Tree} {ts : List Tree} (ht : TreeSim program fuel call t)
    (hts : OperandsSim program fuel call ts) : OperandsSim program fuel call (t :: ts) := by
  intro ctx start code chain h hcode
  rw [Tree.compileOperands] at h
  obtain ⟨first, hfirst, h⟩ := Actions.of_bind_ok h
  obtain ⟨rest, hrest, h⟩ := Actions.of_bind_ok h
  cases h
  obtain ⟨hcode, hcode'⟩ := codeAt_append.mp hcode
  have hsim := simOperands_cons (ht chain hfirst hcode) (hts chain hrest hcode')
  rw [evalOperands, List.length_append, ← Nat.add_assoc]
  intro caller w m c ops free hready hpc hd
  refine hsim hready hpc (Nat.le_trans ?_ hd)
  rw [Tree.operandDemand_cons, Nat.zero_add, Nat.zero_add]
  exact Tree.max_operandDemand_le t.one_le_stackDemand ts

theorem treeSim_application {function : Tree} {arguments : List Tree} (hcall : CallSim program fuel call)
    (hf : TreeSim program fuel call function) (hargs : OperandsSim program fuel call arguments) :
    TreeSim program fuel call (.application function arguments) := by
  intro ctx pos start code chain h hcode
  rw [Tree.compile] at h
  obtain ⟨callee, hcallee, h⟩ := Actions.of_bind_ok h
  obtain ⟨operands, hoperands, h⟩ := Actions.of_bind_ok h
  cases h
  obtain ⟨hcode, happly⟩ := codeAt_append.mp hcode
  obtain ⟨hcode, hcode'⟩ := codeAt_append.mp hcode
  have happly := (codeAt_cons.mp happly).1
  rw [List.length_append, ← Nat.add_assoc] at happly
  have hsim := sim_application hcall (hf chain hcallee hcode) (hargs chain hoperands hcode') happly
    (Tree.length_le_operandDemand 0 arguments)
  rw [eval, Tree.stackDemand, List.length_append, List.length_append, ← Nat.add_assoc, ← Nat.add_assoc]
  exact hsim.demand_le (Tree.max_operandDemand_le function.one_le_stackDemand arguments)

/-- An operator is a name that is called. -/
theorem sim_operator {name : String} {ts : List Tree} {callee operands : Code} (chain : List Nat)
    (hcall : CallSim program fuel call) (hts : OperandsSim program fuel call ts)
    (hload : ctx.load name = .ok callee) (hcompile : Tree.compileOperands ctx (start + 1) ts = .ok operands)
    (hcode : CodeAt program start (callee ++ operands ++ [Instruction.call ts.length])) :
    Sim program (fuel + 1) ctx chain .operand start
      (start + (callee ++ operands ++ [Instruction.call ts.length]).length) (max 1 (Tree.operandDemand 0 ts + 1))
      (do apply call (← valueOf chain name) (← evalOperands call chain ts)) := by
  obtain ⟨hcode, happly⟩ := codeAt_append.mp hcode
  obtain ⟨hcode, hcode'⟩ := codeAt_append.mp hcode
  obtain ⟨hsim, hlen⟩ := sim_load hload hcode
  have happly := (codeAt_cons.mp happly).1
  rw [List.length_append, hlen, ← Nat.add_assoc] at happly
  rw [hlen] at hsim hcode'
  rw [List.length_append, List.length_append, hlen, ← Nat.add_assoc, ← Nat.add_assoc]
  exact sim_application hcall hsim (hts chain hcompile hcode') happly (Tree.length_le_operandDemand 0 ts)

theorem treeSim_binary {operator : String} {left right : Tree} (hcall : CallSim program fuel call)
    (hl : TreeSim program fuel call left) (hr : TreeSim program fuel call right) :
    TreeSim program fuel call (.binary operator left right) := by
  intro ctx pos start code chain h hcode
  rw [Tree.compile] at h
  obtain ⟨callee, hload, h⟩ := Actions.of_bind_ok h
  obtain ⟨first, hfirst, h⟩ := Actions.of_bind_ok h
  obtain ⟨second, hsecond, h⟩ := Actions.of_bind_ok h
  cases h
  have hcompile := compileOperands_cons hfirst (compileOperands_cons hsecond compileOperands_nil)
  have heval : eval call chain (.binary operator left right) =
      (do apply call (← valueOf chain operator) (← evalOperands call chain [left, right])) := by
    simp [eval, evalOperands]
  rw [heval]
  refine Sim.finish hcode fun hcode => ?_
  rw [List.append_nil] at hcompile
  rw [List.append_assoc callee] at hcode ⊢
  have hsim := sim_operator chain hcall
    (operandsSim_cons hl (operandsSim_cons hr operandsSim_nil)) hload hcompile hcode
  refine hsim.demand_le ?_
  simp only [Tree.stackDemand, Tree.operandDemand]
  omega

theorem treeSim_unary {operator : String} {operand : Tree} (hcall : CallSim program fuel call)
    (ht : TreeSim program fuel call operand) : TreeSim program fuel call (.unary operator operand) := by
  intro ctx pos start code chain h hcode
  rw [Tree.compile] at h
  obtain ⟨callee, hload, h⟩ := Actions.of_bind_ok h
  obtain ⟨first, hfirst, h⟩ := Actions.of_bind_ok h
  cases h
  have hcompile := compileOperands_cons hfirst compileOperands_nil
  have heval : eval call chain (.unary operator operand) =
      (do apply call (← valueOf chain (Tree.unaryName operator)) (← evalOperands call chain [operand])) := by
    simp [eval, evalOperands]
  rw [heval]
  refine Sim.finish hcode fun hcode => ?_
  rw [List.append_nil] at hcompile
  have hsim := sim_operator chain hcall (operandsSim_cons ht operandsSim_nil) hload hcompile hcode
  refine hsim.demand_le ?_
  simp only [Tree.stackDemand, Tree.operandDemand]
  omega

/-! ## Conditionals -/

/-- A condition and two branches that come together again. -/
theorem sim_branch {p x y : Eval Value} {predicate consequent alternative : Code} {dp dx dy : Nat}
    (hcode : CodeAt program start (Code.branch start predicate consequent alternative))
    (hp : CodeAt program start predicate →
      Sim program fuel ctx chain .operand start (start + predicate.length) dp p)
    (hx : CodeAt program (start + predicate.length + 1) consequent →
      Sim program fuel ctx chain .operand (start + predicate.length + 1)
        (start + predicate.length + 1 + consequent.length) dx x)
    (hy : CodeAt program (start + predicate.length + 1 + consequent.length + 1) alternative →
      Sim program fuel ctx chain .operand (start + predicate.length + 1 + consequent.length + 1)
        (start + predicate.length + 1 + consequent.length + 1 + alternative.length) dy y) :
    Sim program fuel ctx chain .operand start
      (start + (Code.branch start predicate consequent alternative).length) (max dp (max dx dy))
      (do if ← truth (← p) then x else y) := by
  obtain ⟨hpredicate, hcondition, hconsequent, hjump, halternative⟩ := codeAt_branch hcode
  rw [length_branch]
  exact sim_condition (hp hpredicate) hcondition ((hx hconsequent).jump hjump) (hy halternative)

/-- A condition and two branches that both return. -/
theorem sim_tailBranch {p x y : Eval Value} {predicate consequent alternative : Code} {dp dx dy : Nat}
    (stop : Nat) (hcode : CodeAt program start (Code.tailBranch start predicate consequent alternative))
    (hp : CodeAt program start predicate →
      Sim program fuel ctx chain .operand start (start + predicate.length) dp p)
    (hx : CodeAt program (start + predicate.length + 1) consequent →
      Sim program fuel ctx chain .tail (start + predicate.length + 1)
        (start + predicate.length + 1 + consequent.length) dx x)
    (hy : CodeAt program (start + predicate.length + 1 + consequent.length) alternative →
      Sim program fuel ctx chain .tail (start + predicate.length + 1 + consequent.length)
        (start + predicate.length + 1 + consequent.length + alternative.length) dy y) :
    Sim program fuel ctx chain .tail start stop (max dp (max dx dy))
      (do if ← truth (← p) then x else y) := by
  obtain ⟨hpredicate, hcondition, hconsequent, halternative⟩ := codeAt_tailBranch hcode
  exact sim_condition (hp hpredicate) hcondition ((hx hconsequent).tail_stop stop)
    ((hy halternative).tail_stop stop)

theorem treeSim_conditional {predicate consequent alternative : Tree}
    (hp : TreeSim program fuel call predicate) (hx : TreeSim program fuel call consequent)
    (hy : TreeSim program fuel call alternative) :
    TreeSim program fuel call (.conditional predicate consequent alternative) := by
  intro ctx pos start code chain h hcode
  rw [Tree.compile] at h
  obtain ⟨pcode, hpcode, h⟩ := Actions.of_bind_ok h
  rw [eval, Tree.stackDemand]
  cases pos with
  | tail =>
    obtain ⟨xcode, hxcode, h⟩ := Actions.of_bind_ok h
    obtain ⟨ycode, hycode, h⟩ := Actions.of_bind_ok h
    cases h
    exact sim_tailBranch _ hcode (hp chain hpcode) (hx chain hxcode) (hy chain hycode)
  | operand =>
    obtain ⟨xcode, hxcode, h⟩ := Actions.of_bind_ok h
    obtain ⟨ycode, hycode, h⟩ := Actions.of_bind_ok h
    cases h
    exact sim_branch hcode (hp chain hpcode) (hx chain hxcode) (hy chain hycode)
  | statement =>
    obtain ⟨xcode, hxcode, h⟩ := Actions.of_bind_ok h
    obtain ⟨ycode, hycode, h⟩ := Actions.of_bind_ok h
    cases h
    exact sim_statement.mpr (sim_branch hcode (hp chain hpcode) (hx chain hxcode) (hy chain hycode))

theorem treeSim_logical {operator : String} {left right : Tree} (hl : TreeSim program fuel call left)
    (hr : TreeSim program fuel call right) : TreeSim program fuel call (.logical operator left right) := by
  intro ctx pos start code chain h hcode
  rw [Tree.compile] at h
  split at h
  · rename_i hand
    obtain ⟨lcode, hlcode, h⟩ := Actions.of_bind_ok h
    obtain ⟨rcode, hrcode, h⟩ := Actions.of_bind_ok h
    cases h
    have heval : eval call chain (.logical operator left right) =
        (do
          if ← truth (← eval call chain left) then eval call chain right
          else pure (.literal (.boolean false))) := by
      simp [eval, hand]
    rw [heval]
    refine Sim.finish hcode fun hcode => ?_
    have hsim := sim_branch hcode (hl chain hlcode) (hr chain hrcode)
      (fun hcode => sim_literal (codeAt_cons.mp hcode).1)
    refine hsim.demand_le ?_
    simp only [Tree.stackDemand]
    omega
  · rename_i hnot
    split at h
    · obtain ⟨lcode, hlcode, h⟩ := Actions.of_bind_ok h
      obtain ⟨rcode, hrcode, h⟩ := Actions.of_bind_ok h
      cases h
      have heval : eval call chain (.logical operator left right) =
          (do
            if ← truth (← eval call chain left) then pure (.literal (.boolean true))
            else eval call chain right) := by
        simp [eval, hnot]
      rw [heval]
      refine Sim.finish hcode fun hcode => ?_
      have hsim := sim_branch hcode (hl chain hlcode)
        (fun hcode => sim_literal (codeAt_cons.mp hcode).1) (hr chain hrcode)
      refine hsim.demand_le ?_
      simp only [Tree.stackDemand]
      omega
    · cases h

/-! ## Scopes -/

/-- The code of a scope around a body. -/
theorem sim_inScope {body : Tree} {code : Code} (hb : TreeSim program fuel call body)
    (h : ctx.scope start body (fun inner start => body.compile inner .statement start) = .ok code)
    (hcode : CodeAt program start code) :
    Sim program (fuel + 1) ctx chain .operand start (start + code.length) body.stackDemand
      (do eval call (← enter (.unassigned body.declared) chain) body) := by
  obtain ⟨inner, hinner, rfl⟩ := scope_ok h
  obtain ⟨henter, hbody, hexit⟩ := codeAt_inScope hcode
  rw [length_inScope]
  exact sim_scope henter (fun f => sim_statement.mp (hb (f :: chain) hinner hbody)) hexit

theorem treeSim_block {body : Tree} (hb : TreeSim program fuel call body) :
    TreeSim program fuel call (.block body) := by
  intro ctx pos start code chain h hcode
  rw [Tree.compile] at h
  obtain ⟨inner, hinner, h⟩ := Actions.of_bind_ok h
  cases h
  rw [eval, Tree.stackDemand]
  exact Sim.finish hcode fun hcode => sim_inScope hb hinner hcode

/-! ## Functions and names -/

theorem treeSim_lambda (parameters : List String) (body : Tree) :
    TreeSim program fuel call (.lambda parameters body) := by
  intro ctx pos start code chain h hcode
  rw [Tree.compile] at h
  obtain ⟨inner, hinner, h⟩ := Actions.of_bind_ok h
  cases h
  rw [eval, Tree.stackDemand]
  exact Sim.finish hcode fun hcode => sim_build hinner hcode

/-- A declaration stores its value in the innermost scope. -/
theorem sim_initialise {name : String} {x : Eval Value} {code code' : Code} {demand : Nat}
    (hx : Sim program fuel ctx chain .operand start (start + code.length) demand x)
    (h : ctx.initialise name = .ok code') (hcode : CodeAt program (start + code.length) code') :
    Sim program fuel ctx chain .statement start (start + (code ++ code').length) demand
      (x >>= store chain name) := by
  obtain ⟨a, b, hlook, rfl⟩ := Context.initialise_ok h
  rw [List.length_append, ← Nat.add_assoc]
  exact sim_statement.mpr (sim_store hx hlook (codeAt_cons.mp hcode).1)

theorem treeSim_declaration {name : String} {value : Tree} {constant : Bool}
    (hv : TreeSim program fuel call value) :
    TreeSim program fuel call (.declaration name value constant) := by
  intro ctx pos start code chain h hcode
  rw [eval, Tree.stackDemand]
  unfold Tree.compile at h
  cases pos with
  | statement =>
    obtain ⟨vcode, hvcode, h⟩ := Actions.of_bind_ok h
    obtain ⟨icode, hicode, h⟩ := Actions.of_bind_ok h
    cases h
    obtain ⟨hcode, hcode'⟩ := codeAt_append.mp hcode
    exact sim_initialise (hv chain hvcode hcode) hicode hcode'
  | operand => cases h
  | tail => cases h

theorem treeSim_functionDeclaration (name : String) (parameters : List String) (body : Tree) :
    TreeSim program fuel call (.functionDeclaration name parameters body) := by
  intro ctx pos start code chain h hcode
  rw [eval, Tree.stackDemand]
  unfold Tree.compile at h
  cases pos with
  | statement =>
    obtain ⟨fcode, hfcode, h⟩ := Actions.of_bind_ok h
    obtain ⟨icode, hicode, h⟩ := Actions.of_bind_ok h
    cases h
    obtain ⟨hcode, hcode'⟩ := codeAt_append.mp hcode
    exact sim_initialise (sim_build hfcode hcode) hicode hcode'
  | operand => cases h
  | tail => cases h

theorem treeSim_assignment {name : String} {value : Tree} (hv : TreeSim program fuel call value) :
    TreeSim program fuel call (.assignment name value) := by
  intro ctx pos start code chain h hcode
  rw [Tree.compile] at h
  obtain ⟨a, ha, h⟩ := Actions.of_bind_ok h
  obtain ⟨vcode, hvcode, h⟩ := Actions.of_bind_ok h
  cases h
  obtain ⟨b, hlook⟩ := Context.assignable_ok ha
  rw [eval, Tree.stackDemand]
  refine Sim.finish hcode fun hcode => ?_
  obtain ⟨hcode, hassign⟩ := codeAt_append.mp hcode
  rw [List.length_append, ← Nat.add_assoc]
  exact sim_store (hv chain hvcode hcode) hlook (codeAt_cons.mp hassign).1

theorem treeSim_ret {expression : Tree} (he : TreeSim program fuel call expression) :
    TreeSim program fuel call (.ret expression) := by
  intro ctx pos start code chain h hcode
  rw [Tree.compile] at h
  rw [eval, Tree.stackDemand]
  split at h
  · rename_i hctx
    obtain ⟨ecode, hecode, h⟩ := Actions.of_bind_ok h
    cases h
    -- What stands behind the expression is never reached.
    have hcode' : CodeAt program start ecode := by
      cases pos with
      | operand => exact hcode
      | statement => exact hcode
      | tail => exact (codeAt_append.mp hcode).1
    exact sim_ret (he chain hecode hcode') hctx _
  · cases h

/-! ## Sequences -/

theorem TreeSim.operand {t : Tree} {pos : Position} {code : Code} (ht : TreeSim program fuel call t)
    (hpos : pos ≠ .tail) (h : t.compile ctx pos start = .ok code) (hcode : CodeAt program start code) :
    Sim program (fuel + 1) ctx chain .operand start (start + code.length) t.stackDemand
      (eval call chain t) := by
  cases pos with
  | operand => exact ht chain h hcode
  | statement => exact sim_statement.mp (ht chain h hcode)
  | tail => exact absurd rfl hpos

theorem sequenceSim_nil : SequenceSim program fuel call [] := by
  intro ctx pos start code chain hpos h hcode
  rw [Tree.compileSequence] at h
  cases h
  rw [evalSequence, Tree.statementDemand]
  exact sim_literal (codeAt_cons.mp hcode).1

theorem sequenceSim_last {t : Tree} (ht : TreeSim program fuel call t) :
    SequenceSim program fuel call [t] := by
  intro ctx pos start code chain hpos h hcode
  rw [Tree.compileSequence] at h
  rw [evalSequence, Tree.statementDemand]
  exact (ht.operand hpos h hcode).demand_le (Nat.le_max_left _ _)

theorem sequenceSim_cons {t t' : Tree} {ts : List Tree} (ht : TreeSim program fuel call t)
    (hts : SequenceSim program fuel call (t' :: ts)) : SequenceSim program fuel call (t :: t' :: ts) := by
  intro ctx pos start code chain hpos h hcode
  have heval : evalSequence call chain (t :: t' :: ts) =
      (do let _ ← eval call chain t; evalSequence call chain (t' :: ts)) := by
    rw [evalSequence]
    simp
  rw [compileSequence_cons] at h
  obtain ⟨first, hfirst, h⟩ := Actions.of_bind_ok h
  obtain ⟨rest, hrest, h⟩ := Actions.of_bind_ok h
  cases h
  obtain ⟨hcode, hcode'⟩ := codeAt_append.mp hcode
  obtain ⟨hpop, hcode'⟩ := codeAt_cons.mp hcode'
  have hstop : start + (first ++ Instruction.pop :: rest).length =
      start + first.length + 1 + rest.length := by
    simp only [List.length_append, List.length_cons]
    omega
  rw [heval, Tree.statementDemand, hstop]
  exact sim_andThen (ht.operand hpos hfirst hcode) hpop (hts chain hpos hrest hcode')

theorem treeSim_sequence {statements : List Tree} (hs : SequenceSim program fuel call statements) :
    TreeSim program fuel call (.sequence statements) := by
  intro ctx pos start code chain h hcode
  rw [Tree.compile] at h
  obtain ⟨inner, hinner, h⟩ := Actions.of_bind_ok h
  cases h
  rw [eval, Tree.stackDemand]
  refine Sim.finish hcode fun hcode => hs chain ?_ hinner hcode
  split <;> simp

end

/-! ## The induction -/

section

variable {program : Program} {fuel : Nat} {call : Call}

mutual

/-- **The code of a tree does what the tree means.** -/
theorem treeSim (hcall : CallSim program fuel call) : (t : Tree) → TreeSim program fuel call t
  | .literal value => treeSim_literal value
  | .identifier name => treeSim_identifier name
  | .binary _ left right => treeSim_binary hcall (treeSim hcall left) (treeSim hcall right)
  | .unary _ operand => treeSim_unary hcall (treeSim hcall operand)
  | .logical _ left right => treeSim_logical (treeSim hcall left) (treeSim hcall right)
  | .conditional predicate consequent alternative =>
    treeSim_conditional (treeSim hcall predicate) (treeSim hcall consequent) (treeSim hcall alternative)
  | .lambda parameters body => treeSim_lambda parameters body
  | .application function arguments =>
    treeSim_application hcall (treeSim hcall function) (operandsSim hcall arguments)
  | .sequence statements => treeSim_sequence (sequenceSim hcall statements)
  | .block body => treeSim_block (treeSim hcall body)
  | .declaration _ value _ => treeSim_declaration (treeSim hcall value)
  | .assignment _ value => treeSim_assignment (treeSim hcall value)
  | .functionDeclaration name parameters body => treeSim_functionDeclaration name parameters body
  | .ret expression => treeSim_ret (treeSim hcall expression)

theorem operandsSim (hcall : CallSim program fuel call) : (ts : List Tree) → OperandsSim program fuel call ts
  | [] => operandsSim_nil
  | t :: ts => operandsSim_cons (treeSim hcall t) (operandsSim hcall ts)

theorem sequenceSim (hcall : CallSim program fuel call) : (ts : List Tree) → SequenceSim program fuel call ts
  | [] => sequenceSim_nil
  | [t] => sequenceSim_last (treeSim hcall t)
  | t :: t' :: ts => sequenceSim_cons (treeSim hcall t) (sequenceSim hcall (t' :: ts))

end

end

end Source

end ClosureMachine
