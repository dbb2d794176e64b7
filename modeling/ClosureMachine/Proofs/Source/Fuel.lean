import ClosureMachine.Proofs.Source.Evaluate

/-!
# Evaluation does not depend on its fuel

More fuel makes no difference to an evaluation that has ended. So a tree has at most one outcome, whatever fuel it was
evaluated with, and a tree that has none runs out of any fuel.
-/

set_option autoImplicit false

namespace ClosureMachine.Source

/-! ## Evaluations that go on -/

/-- The second evaluation does what the first one does, unless that one runs out of fuel. -/
def Extends {α : Type} (x y : Eval α) : Prop :=
  ∀ m, (∃ m', x m = .error .outOfFuel m') ∨ y m = x m

namespace Extends

variable {α β : Type}

theorem refl (x : Eval α) : Extends x x := fun _ => .inr rfl

theorem bind {x x' : Eval α} {f f' : α → Eval β} (hx : Extends x x') (hf : ∀ a, Extends (f a) (f' a)) :
    Extends (x >>= f) (x' >>= f') := by
  intro m
  rcases hx m with ⟨m', hm⟩ | hm
  · exact .inl ⟨m', Actions.bind_error hm⟩
  · rw [Actions.bind_apply, Actions.bind_apply, hm]
    cases x m with
    | ok a m' => exact hf a m'
    | error e m' => exact .inr rfl

theorem resultOf {x y : Eval Value} (h : Extends x y) : Extends (resultOf x) (resultOf y) := by
  intro m
  rcases h m with ⟨m', hm⟩ | hm
  · refine .inl ⟨m', ?_⟩
    rw [Source.resultOf, hm]
  · refine .inr ?_
    rw [Source.resultOf, Source.resultOf, hm]

theorem ite {p : Prop} [Decidable p] {x x' y y' : Eval α} (hx : Extends x x') (hy : Extends y y') :
    Extends (if p then x else y) (if p then x' else y') := by
  split
  · exact hx
  · exact hy

end Extends

/-- Calls go on. -/
def CallExtends (call call' : Call) : Prop :=
  ∀ parameters body scopes args, Extends (call parameters body scopes args)
    (call' parameters body scopes args)

section

variable {call call' : Call}

theorem apply_extends (hcall : CallExtends call call') (f : Value) (args : List Value) :
    Extends (apply call f args) (apply call' f args) := by
  cases f with
  | literal value => exact .refl _
  | primitive p => exact .refl _
  | closure identity parameters body scopes => exact .ite (.refl _) (hcall _ _ _ _)

mutual

theorem eval_extends (hcall : CallExtends call call') (scopes : List Nat) :
    (t : Tree) → Extends (eval call scopes t) (eval call' scopes t)
  | .literal _ | .identifier _ | .lambda .. | .functionDeclaration .. => by
    simp only [eval]
    exact .refl _
  | .binary _ left right => by
    simp only [eval]
    exact .bind (.refl _) fun _ => .bind (eval_extends hcall scopes left) fun _ =>
      .bind (eval_extends hcall scopes right) fun _ => apply_extends hcall _ _
  | .unary _ operand => by
    simp only [eval]
    exact .bind (.refl _) fun _ => .bind (eval_extends hcall scopes operand) fun _ => apply_extends hcall _ _
  | .logical _ left right => by
    simp only [eval]
    exact .bind (eval_extends hcall scopes left) fun _ => .bind (.refl _) fun _ =>
      .ite (.ite (eval_extends hcall scopes right) (.refl _)) (.ite (.refl _) (eval_extends hcall scopes right))
  | .conditional predicate consequent alternative => by
    simp only [eval]
    exact .bind (eval_extends hcall scopes predicate) fun _ => .bind (.refl _) fun _ =>
      .ite (eval_extends hcall scopes consequent) (eval_extends hcall scopes alternative)
  | .application function arguments => by
    simp only [eval]
    exact .bind (eval_extends hcall scopes function) fun _ =>
      .bind (evalOperands_extends hcall scopes arguments) fun _ => apply_extends hcall _ _
  | .sequence statements => by
    simp only [eval]
    exact evalSequence_extends hcall scopes statements
  | .block body => by
    simp only [eval]
    exact .bind (.refl _) fun inner => eval_extends hcall inner body
  | .declaration _ value _ => by
    simp only [eval]
    exact .bind (eval_extends hcall scopes value) fun _ => .refl _
  | .assignment _ value => by
    simp only [eval]
    exact .bind (eval_extends hcall scopes value) fun _ => .refl _
  | .ret expression => by
    simp only [eval]
    exact .bind (eval_extends hcall scopes expression) fun _ => .refl _

theorem evalOperands_extends (hcall : CallExtends call call') (scopes : List Nat) :
    (ts : List Tree) → Extends (evalOperands call scopes ts) (evalOperands call' scopes ts)
  | [] => by
    simp only [evalOperands]
    exact .refl _
  | t :: ts => by
    simp only [evalOperands]
    exact .bind (eval_extends hcall scopes t) fun _ => .bind (evalOperands_extends hcall scopes ts) fun _ => .refl _

theorem evalSequence_extends (hcall : CallExtends call call') (scopes : List Nat) :
    (ts : List Tree) → Extends (evalSequence call scopes ts) (evalSequence call' scopes ts)
  | [] => by
    simp only [evalSequence]
    exact .refl _
  | [t] => by
    simp only [evalSequence]
    exact eval_extends hcall scopes t
  | t :: t' :: ts => by
    simp only [evalSequence]
    exact .bind (eval_extends hcall scopes t) fun _ => evalSequence_extends hcall scopes (t' :: ts)

end

end

/-- Calls with more fuel go on. -/
theorem call_extends (fuel : Nat) : CallExtends (call fuel) (call (fuel + 1)) := by
  induction fuel with
  | zero => exact fun _ _ _ _ m => .inl ⟨m, rfl⟩
  | succ fuel ih =>
    intro parameters body scopes args
    rw [call, call]
    refine .bind (.refl _) fun outer => ?_
    exact .ite (.bind (.refl _) fun _ => (eval_extends ih _ body).resultOf)
      (.bind (.refl _) fun _ => (eval_extends ih _ body).resultOf)

/-! ## Outcomes of trees -/

/-- The evaluation has not ended. -/
def OutOfFuel : EStateM.Result Exit Memory Value → Prop
  | .error .outOfFuel _ => True
  | _ => False

theorem evaluate_succ {depth : Nat} {tree : Tree} (h : ¬ OutOfFuel (evaluate depth tree)) :
    evaluate (depth + 1) tree = evaluate depth tree := by
  have hext : Extends (do eval (call depth) (← enter (.unassigned tree.declared) [0]) tree)
      (do eval (call (depth + 1)) (← enter (.unassigned tree.declared) [0]) tree) :=
    .bind (.refl _) fun inner => eval_extends (call_extends depth) inner tree
  rcases hext .initial with ⟨m, hm⟩ | hm
  · rw [evaluate, hm] at h
    exact absurd trivial h
  · exact hm

/-- More fuel makes no difference. -/
theorem evaluate_of_le {depth depth' : Nat} {tree : Tree} (h : ¬ OutOfFuel (evaluate depth tree))
    (hle : depth ≤ depth') : evaluate depth' tree = evaluate depth tree := by
  induction hle with
  | refl => rfl
  | step _ ih => rw [evaluate_succ (by rwa [ih]), ih]

/-- The evaluation of the tree ends so, if it is given enough fuel. -/
def Ends (tree : Tree) (r : EStateM.Result Exit Memory Value) : Prop :=
  ¬ OutOfFuel r ∧ ∃ enough, ∀ depth, enough ≤ depth → evaluate depth tree = r

/-- No fuel is enough. -/
def Diverges (tree : Tree) : Prop := ∀ depth, OutOfFuel (evaluate depth tree)

/-- **Evaluation is a function.** A tree has one outcome, or none. -/
theorem ends_or_diverges (tree : Tree) : (∃! r, Ends tree r) ∨ Diverges tree := by
  by_cases h : Diverges tree
  · exact .inr h
  · obtain ⟨depth, hdepth⟩ := not_forall.mp h
    refine .inl ⟨evaluate depth tree, ⟨hdepth, depth, fun _ hle => evaluate_of_le hdepth hle⟩, ?_⟩
    rintro r ⟨-, enough, hr⟩
    rw [← hr (max depth enough) (Nat.le_max_right _ _)]
    exact evaluate_of_le hdepth (Nat.le_max_left _ _)

end ClosureMachine.Source
