import Mathlib.Order.Nat
import ClosureMachine.Compile.Basic
import ClosureMachine.Proofs.Actions

/-!
# The code of a tree, part by part

What the compiler has done when it has succeeded: where in a program the codes of the parts stand, and what they
are. The lemmas follow the constructions of the compiler, and whoever follows the compiler over a tree, for
whatever purpose, goes from the tree to its parts with them.
-/

set_option autoImplicit false

namespace ClosureMachine

/-! ## Code in a program -/

/-- The code stands in the program, from the address on. -/
def CodeAt (program : Program) (start : Nat) (code : Code) : Prop :=
  ∀ ⦃k : Nat⦄ ⦃i : Instruction⦄, code[k]? = some i → program.code[start + k]? = some i

section

variable {program : Program} {start : Nat} {i : Instruction} {code code' : Code}

theorem codeAt_cons :
    CodeAt program start (i :: code) ↔
      program.code[start]? = some i ∧ CodeAt program (start + 1) code := by
  constructor
  · intro h
    refine ⟨h (k := 0) rfl, fun k j hj => ?_⟩
    rw [Nat.add_assoc, Nat.add_comm 1]
    exact h hj
  · intro ⟨hi, h⟩ k j hj
    cases k with
    | zero => exact hi.trans hj
    | succ k =>
      rw [Nat.add_comm k, ← Nat.add_assoc]
      exact h hj

theorem codeAt_append :
    CodeAt program start (code ++ code') ↔
      CodeAt program start code ∧ CodeAt program (start + code.length) code' := by
  induction code generalizing start with
  | nil =>
    refine ⟨fun h => ⟨fun k j hj => ?_, h⟩, fun h => h.2⟩
    simp at hj
  | cons i code ih =>
    rw [List.cons_append, codeAt_cons, codeAt_cons, ih, and_assoc, List.length_cons, Nat.add_assoc,
      Nat.add_comm 1]

/-- Code and one instruction behind it. -/
theorem codeAt_snoc :
    CodeAt program start (code ++ [i]) ↔
      CodeAt program start code ∧ program.code[start + code.length]? = some i := by
  rw [codeAt_append, codeAt_cons]
  refine and_congr_right fun _ => and_iff_left fun k j hj => ?_
  simp at hj

variable {predicate consequent alternative : Code}

theorem length_branch : start + (Code.branch start predicate consequent alternative).length =
    start + predicate.length + 1 + consequent.length + 1 + alternative.length := by
  simp only [Code.branch, List.length_append, List.length_cons]
  omega

theorem codeAt_branch (h : CodeAt program start (Code.branch start predicate consequent alternative)) :
    CodeAt program start predicate ∧
      program.code[start + predicate.length]? =
        some (.jumpIfFalse (start + predicate.length + 1 + consequent.length + 1)) ∧
      CodeAt program (start + predicate.length + 1) consequent ∧
      program.code[start + predicate.length + 1 + consequent.length]? =
        some (.jump (start + predicate.length + 1 + consequent.length + 1 + alternative.length)) ∧
      CodeAt program (start + predicate.length + 1 + consequent.length + 1) alternative := by
  rw [Code.branch] at h
  obtain ⟨h, hjump⟩ := codeAt_append.mp h
  obtain ⟨hpredicate, h⟩ := codeAt_append.mp h
  obtain ⟨hcondition, hconsequent⟩ := codeAt_cons.mp h
  have hlen : start + (predicate ++ Instruction.jumpIfFalse
      (start + predicate.length + 1 + consequent.length + 1) :: consequent).length =
        start + predicate.length + 1 + consequent.length := by
    simp only [List.length_append, List.length_cons]
    omega
  rw [hlen] at hjump
  obtain ⟨hjump, halternative⟩ := codeAt_cons.mp hjump
  exact ⟨hpredicate, hcondition, hconsequent, hjump, halternative⟩

theorem codeAt_tailBranch
    (h : CodeAt program start (Code.tailBranch start predicate consequent alternative)) :
    CodeAt program start predicate ∧
      program.code[start + predicate.length]? =
        some (.jumpIfFalse (start + predicate.length + 1 + consequent.length)) ∧
      CodeAt program (start + predicate.length + 1) consequent ∧
      CodeAt program (start + predicate.length + 1 + consequent.length) alternative := by
  rw [Code.tailBranch] at h
  obtain ⟨h, halternative⟩ := codeAt_append.mp h
  obtain ⟨hpredicate, h⟩ := codeAt_append.mp h
  obtain ⟨hcondition, hconsequent⟩ := codeAt_cons.mp h
  have hlen : start + (predicate ++ Instruction.jumpIfFalse
      (start + predicate.length + 1 + consequent.length) :: consequent).length =
        start + predicate.length + 1 + consequent.length := by
    simp only [List.length_append, List.length_cons]
    omega
  rw [hlen] at halternative
  exact ⟨hpredicate, hcondition, hconsequent, halternative⟩

theorem length_inScope (scope : Scope) (body : Code) :
    start + (Code.inScope scope body).length = start + 1 + body.length + 1 := by
  simp only [Code.inScope, List.length_append, List.length_cons, List.length_nil]
  omega

theorem codeAt_inScope {scope : Scope} {body : Code}
    (h : CodeAt program start (Code.inScope scope body)) :
    program.code[start]? = some (.enterScope scope.length) ∧ CodeAt program (start + 1) body ∧
      program.code[start + 1 + body.length]? = some .exitScope := by
  rw [Code.inScope] at h
  obtain ⟨h, hexit⟩ := codeAt_snoc.mp h
  obtain ⟨henter, hbody⟩ := codeAt_cons.mp h
  rw [List.length_cons, Nat.add_comm body.length, ← Nat.add_assoc] at hexit
  exact ⟨henter, hbody, hexit⟩

theorem length_function (arity stack : Nat) (body : Code) :
    start + (Code.function start arity stack body).length = start + 2 + body.length + 3 := by
  simp only [Code.function, List.length_append, List.length_cons, List.length_nil]
  omega

theorem codeAt_function {arity stack : Nat} {body : Code}
    (h : CodeAt program start (Code.function start arity stack body)) :
    program.code[start]? = some (.loadFunction arity (start + 2) stack) ∧
      program.code[start + 1]? = some (.jump (start + 2 + body.length + 3)) ∧
      CodeAt program (start + 2) (body ++ [.pop, .loadConstant .undefined, .ret]) := by
  simp only [Code.function, codeAt_cons, List.length_append, List.length_cons, List.length_nil] at h
  exact ⟨h.1, h.2.1, h.2.2⟩

end

/-! ## Names -/

/-- A name is where its binding says. -/
theorem name_of_find {scope : Scope} {name : String} {slot : Nat} {b : Binding}
    (h : Scope.find name scope = some (slot, b)) : (scope.map (·.name))[slot]? = some name := by
  induction scope generalizing slot b with
  | nil => cases h
  | cons b' scope ih =>
    rw [Scope.find] at h
    by_cases hb : b'.name = name
    · rw [if_pos hb] at h
      cases h
      simp [hb]
    · rw [if_neg hb] at h
      obtain ⟨⟨slot', b''⟩, hfind, heq⟩ := Option.map_eq_some_iff.mp h
      cases heq
      simpa using ih hfind

theorem resolve_some {scopes : Scopes} {name : String} {a : Address} (h : scopes.resolve name = some a) :
    ∃ b, scopes.lookup name = some (a, b) := by
  obtain ⟨⟨a', b⟩, hlook, rfl⟩ := Option.map_eq_some_iff.mp h
  exact ⟨b, hlook⟩

namespace Context

variable {ctx : Context} {name : String} {code : Code}

theorem load_ok (h : ctx.load name = .ok code) :
    ∃ a b, ctx.scopes.lookup name = some (a, b) ∧ code = [.load a] := by
  unfold load at h
  split at h
  · rename_i a hresolve
    cases h
    obtain ⟨b, hlook⟩ := resolve_some hresolve
    exact ⟨a, b, hlook, rfl⟩
  · cases h

theorem initialise_ok (h : ctx.initialise name = .ok code) :
    ∃ a b, ctx.scopes.lookup name = some (a, b) ∧ code = [.assign a] := by
  unfold initialise at h
  split at h
  · rename_i slot hresolve
    cases h
    obtain ⟨b, hlook⟩ := resolve_some hresolve
    exact ⟨_, b, hlook, rfl⟩
  · cases h

theorem assignable_ok {a : Address} (h : ctx.assignable name = .ok a) :
    ∃ b, ctx.scopes.lookup name = some (a, b) := by
  unfold assignable at h
  split at h
  · cases h
  · split at h
    · cases h
    · cases h
      exact ⟨_, ‹_›⟩

end Context

/-! ## Scopes and functions -/

theorem declarations_ok {body : Tree} {scope : Scope} (h : body.declarations = .ok scope) :
    scope = body.declared := by
  unfold Tree.declarations at h
  split at h
  · cases h
  · cases h
    rfl

/-- The code of a function's body, without the return at its end. -/
def bodyCode (ctx : Context) (start : Nat) (body : Tree) : Except CompileError Code := do
  let scope ← body.declarations
  if scope.isEmpty then body.compile ctx .statement start
  else ctx.scope start body fun inner start => body.compile inner .statement start

section

variable {ctx : Context} {start : Nat} {body : Tree} {code : Code}

theorem scope_ok
    (h : ctx.scope start body (fun inner start => body.compile inner .statement start) = .ok code) :
    ∃ inner, body.compile (ctx.enter body.declared) .statement (start + 1) = .ok inner ∧
      code = Code.inScope body.declared inner := by
  obtain ⟨scope, hscope, h⟩ := Actions.of_bind_ok h
  obtain ⟨inner, hinner, h⟩ := Actions.of_bind_ok h
  cases h
  obtain rfl := declarations_ok hscope
  exact ⟨inner, hinner, rfl⟩

/-- A body without declarations has no scope of its own. -/
theorem bodyCode_ok (h : bodyCode ctx start body = .ok code) :
    body.declared.isEmpty = true ∧ body.compile ctx .statement start = .ok code ∨
      body.declared.isEmpty = false ∧
        ctx.scope start body (fun inner start => body.compile inner .statement start) = .ok code := by
  obtain ⟨scope, hscope, h⟩ := Actions.of_bind_ok h
  obtain rfl := declarations_ok hscope
  split at h
  · exact .inl ⟨‹_›, h⟩
  · exact .inr ⟨eq_false_of_ne_true ‹_›, h⟩

/-- The code of a function is that of its body behind two instructions. -/
theorem function_eq {parameters : List String} (hnone : Tree.firstRepeated [] parameters = none) :
    ctx.function start parameters body (fun inner start => body.compile inner .statement start) =
      bodyCode (ctx.enterFunction parameters) (start + 2) body >>= fun inner =>
        .ok (Code.function start parameters.length body.bodyDemand inner) := by
  rw [Context.function, hnone, bodyCode]
  cases body.declarations with
  | error e => rfl
  | ok scope =>
    show (if scope.isEmpty then _ else _) = (if scope.isEmpty then _ else _) >>= _
    split <;> rfl

theorem function_ok {parameters : List String}
    (h : ctx.function start parameters body (fun inner start => body.compile inner .statement start) =
      .ok code) :
    ∃ inner, bodyCode (ctx.enterFunction parameters) (start + 2) body = .ok inner ∧
      code = Code.function start parameters.length body.bodyDemand inner := by
  cases hrepeated : Tree.firstRepeated [] parameters with
  | some name =>
    rw [Context.function, hrepeated] at h
    cases h
  | none =>
    rw [function_eq hrepeated] at h
    obtain ⟨inner, hinner, h⟩ := Actions.of_bind_ok h
    cases h
    exact ⟨inner, hinner, rfl⟩

/-! ## Operands and statements -/

-- The equations of the compiler are derived here, once for all modules that follow it.
attribute [local simp] Tree.compile Tree.compileOperands Tree.compileSequence

theorem compileOperands_cons {t : Tree} {ts : List Tree} {first rest : Code}
    (ht : t.compile ctx .operand start = .ok first)
    (hts : Tree.compileOperands ctx (start + first.length) ts = .ok rest) :
    Tree.compileOperands ctx start (t :: ts) = .ok (first ++ rest) := by
  rw [Tree.compileOperands, ht]
  show (do return first ++ (← Tree.compileOperands ctx (start + first.length) ts)) = _
  rw [hts]
  rfl

theorem compileOperands_nil : Tree.compileOperands ctx start [] = .ok [] := by
  rw [Tree.compileOperands]
  rfl

theorem compileSequence_cons (pos : Position) (t t' : Tree) (ts : List Tree) :
    Tree.compileSequence ctx pos start (t :: t' :: ts) = do
      let code ← t.compile ctx pos start
      return code ++ .pop :: (← Tree.compileSequence ctx pos (start + code.length + 1) (t' :: ts)) := by
  rw [Tree.compileSequence]
  simp

end

/-- The program of a tree is a scope around it and the end. -/
theorem toProgram_ok {globals : Scopes} {tree : Tree} {program : Program}
    (h : tree.toProgram globals = .ok program) :
    ∃ code, (⟨globals, false⟩ : Context).scope 0 tree
        (fun inner start => tree.compile inner .statement start) = .ok code ∧
      CodeAt program 0 code ∧ program.code[code.length]? = some .done ∧
      program.mainStack = tree.stackDemand := by
  obtain ⟨code, hcode, h⟩ := Actions.of_bind_ok h
  cases h
  have hwhole : CodeAt ⟨(code ++ [Instruction.done]).toArray, tree.stackDemand⟩ 0 (code ++ [.done]) := by
    intro k i hi
    simpa using hi
  obtain ⟨hat, hdone⟩ := codeAt_snoc.mp hwhole
  rw [Nat.zero_add] at hdone
  exact ⟨code, hcode, hat, hdone, rfl⟩

/-! ## Demands -/

namespace Tree

attribute [local simp] stackDemand operandDemand statementDemand

theorem one_le_statementDemand (ts : List Tree) : 1 ≤ statementDemand ts := by
  induction ts with
  | nil => rw [statementDemand]
  | cons t ts ih =>
    rw [statementDemand]
    exact Nat.le_trans ih (Nat.le_max_right _ _)

/-- Every tree leaves a value. -/
theorem one_le_stackDemand : (t : Tree) → 1 ≤ t.stackDemand
  | .literal _ | .identifier _ | .lambda .. | .functionDeclaration .. => by rw [stackDemand]
  | .binary .. | .unary .. => by rw [stackDemand]; exact Nat.le_max_left _ _
  | .logical .. => by rw [stackDemand]; exact Nat.le_max_right _ _
  | .conditional predicate _ _ => by
    rw [stackDemand]
    exact Nat.le_trans predicate.one_le_stackDemand (Nat.le_max_left _ _)
  | .application function _ => by
    rw [stackDemand]
    exact Nat.le_trans function.one_le_stackDemand (Nat.le_max_left _ _)
  | .sequence statements => by rw [stackDemand]; exact one_le_statementDemand statements
  | .block body => by rw [stackDemand]; exact body.one_le_stackDemand
  | .declaration _ value _ => by rw [stackDemand]; exact value.one_le_stackDemand
  | .assignment _ value => by rw [stackDemand]; exact value.one_le_stackDemand
  | .ret expression => by rw [stackDemand]; exact expression.one_le_stackDemand

theorem operandDemand_cons (below : Nat) (t : Tree) (ts : List Tree) :
    operandDemand below (t :: ts) = max (below + t.stackDemand) (operandDemand (below + 1) ts) := by
  rw [operandDemand]

/-- Operands on top of one more need one more place. -/
theorem operandDemand_succ (below : Nat) (t : Tree) (ts : List Tree) :
    operandDemand (below + 1) (t :: ts) = operandDemand below (t :: ts) + 1 := by
  induction ts generalizing below t with
  | nil =>
    simp only [operandDemand]
    omega
  | cons t' ts ih =>
    rw [operandDemand_cons (below + 1) t, operandDemand_cons below t, ih (below + 1)]
    omega

/-- The demand of operands, counted from below the first of them. -/
theorem max_operandDemand_le {demand : Nat} (hd : 1 ≤ demand) (ts : List Tree) :
    max demand (operandDemand 0 ts + 1) ≤ max demand (operandDemand 1 ts) := by
  cases ts with
  | nil =>
    rw [operandDemand]
    omega
  | cons t ts => rw [operandDemand_succ]

theorem length_le_operandDemand (below : Nat) (ts : List Tree) : ts.length ≤ operandDemand below ts := by
  induction ts generalizing below with
  | nil => exact Nat.zero_le _
  | cons t ts ih =>
    cases ts with
    | nil =>
      rw [operandDemand]
      have := t.one_le_stackDemand
      exact Nat.le_trans (by simpa using Nat.le_add_left_of_le this) (Nat.le_max_left _ _)
    | cons t' ts =>
      rw [operandDemand, operandDemand_succ]
      exact Nat.le_trans (Nat.succ_le_succ (ih below)) (Nat.le_max_right _ _)

end Tree

end ClosureMachine
