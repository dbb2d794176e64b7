import ClosureMachine.Proofs.Compile.Flow

/-!
# Derived forms

Operators, `&&` and `||`, and function declarations could be left to whoever writes trees: each of them stands for a tree
of other forms, and `Tree.desugar` puts that tree in its place, at every depth. The compiler has a case for each of
them all the same, and so have the two functions that look ahead for it, for the names that a body declares and for
the operands that a tree needs. That none of the three makes a difference is said here: the code is the same, to the last
address.

There is one place where it would not be. What `return` is applied to is compiled in a position of its own, in which an
application becomes a tail call and a conditional returns from each branch; an operator and a logical combination
do neither. There they stay what they are.
-/

set_option autoImplicit false

namespace ClosureMachine

namespace Tree

mutual

/-- The tree with each derived form replaced by what it stands for, except for operators and logical combinations that
are `returned`. -/
def desugar (returned : Bool) : Tree → Tree
  | .literal value => .literal value
  | .identifier name => .identifier name
  | .binary operator left right =>
    if returned then .binary operator (left.desugar false) (right.desugar false)
    else .application (.identifier operator) [left.desugar false, right.desugar false]
  | .unary operator operand =>
    if returned then .unary operator (operand.desugar false)
    else .application (.identifier (unaryName operator)) [operand.desugar false]
  | .logical operator left right =>
    if returned then .logical operator (left.desugar false) (right.desugar false)
    else if operator = "&&" then
      .conditional (left.desugar false) (right.desugar false) (.literal (.boolean false))
    else if operator = "||" then
      .conditional (left.desugar false) (.literal (.boolean true)) (right.desugar false)
    else .logical operator (left.desugar false) (right.desugar false)
  | .conditional predicate consequent alternative =>
    .conditional (predicate.desugar false) (consequent.desugar returned) (alternative.desugar returned)
  | .lambda parameters body => .lambda parameters (body.desugar false)
  | .application function arguments => .application (function.desugar false) (desugarAll arguments)
  | .sequence statements => .sequence (desugarAll statements)
  | .block body => .block (body.desugar false)
  | .declaration name value constant => .declaration name (value.desugar false) constant
  | .assignment name value => .assignment name (value.desugar false)
  | .functionDeclaration name parameters body =>
    .declaration name (.lambda parameters (body.desugar false)) true
  | .ret expression => .ret (expression.desugar true)

def desugarAll : List Tree → List Tree
  | [] => []
  | t :: rest => t.desugar false :: desugarAll rest

end

theorem length_desugarAll (ts : List Tree) : (desugarAll ts).length = ts.length := by
  induction ts with
  | nil => rfl
  | cons t rest ih => rw [desugarAll, List.length_cons, List.length_cons, ih]

/-! ## What is looked ahead for -/

mutual

theorem declared_desugar (returned : Bool) : (t : Tree) → (t.desugar returned).declared = t.declared
  | .sequence statements => by rw [desugar, declared, declared, declaredIn_desugarAll statements]
  | .binary .. | .unary .. => by
    rw [desugar]
    split <;> rfl
  | .logical .. => by
    rw [desugar]
    split
    · rfl
    · split
      · rfl
      · split <;> rfl
  | .literal _ | .identifier _ | .conditional .. | .lambda .. | .application .. | .block _ | .declaration ..
  | .assignment .. | .functionDeclaration .. | .ret _ => rfl

theorem declaredIn_desugarAll : (ts : List Tree) → declaredIn (desugarAll ts) = declaredIn ts
  | [] => rfl
  | t :: rest => by
    rw [desugarAll, declaredIn, declaredIn, t.declared_desugar false, declaredIn_desugarAll rest]

end

theorem declarations_desugar (t : Tree) : (t.desugar false).declarations = t.declarations := by
  unfold declarations
  rw [declared_desugar]

mutual

theorem stackDemand_desugar (returned : Bool) : (t : Tree) → (t.desugar returned).stackDemand = t.stackDemand
  | .literal _ | .identifier _ | .lambda .. | .functionDeclaration .. => by simp [desugar, stackDemand]
  | .binary operator left right => by
    rw [desugar]
    split
    · simp only [stackDemand, left.stackDemand_desugar, right.stackDemand_desugar]
    · rw [← stackDemand_binary]
      simp only [stackDemand, left.stackDemand_desugar, right.stackDemand_desugar]
  | .unary operator operand => by
    rw [desugar]
    split
    · simp only [stackDemand, operand.stackDemand_desugar]
    · rw [← stackDemand_unary]
      simp only [stackDemand, operand.stackDemand_desugar]
  | .logical operator left right => by
    have hkept : (Tree.logical operator (left.desugar false) (right.desugar false)).stackDemand =
        (Tree.logical operator left right).stackDemand := by
      simp only [stackDemand, left.stackDemand_desugar, right.stackDemand_desugar]
    rw [desugar]
    split
    · exact hkept
    · split
      · rw [← stackDemand_conjunction]
        exact hkept
      · split
        · rw [← stackDemand_disjunction]
          exact hkept
        · exact hkept
  | .conditional predicate consequent alternative => by
    simp only [desugar, stackDemand, predicate.stackDemand_desugar, consequent.stackDemand_desugar,
      alternative.stackDemand_desugar]
  | .application function arguments => by
    simp only [desugar, stackDemand, function.stackDemand_desugar, operandDemand_desugarAll]
  | .sequence statements => by simp only [desugar, stackDemand, statementDemand_desugarAll]
  | .block t | .declaration _ t _ | .assignment _ t | .ret t => by
    simp only [desugar, stackDemand, t.stackDemand_desugar]

theorem operandDemand_desugarAll (below : Nat) :
    (ts : List Tree) → operandDemand below (desugarAll ts) = operandDemand below ts
  | [] => rfl
  | t :: rest => by
    rw [desugarAll, operandDemand, operandDemand, t.stackDemand_desugar, operandDemand_desugarAll (below + 1) rest]

theorem statementDemand_desugarAll : (ts : List Tree) → statementDemand (desugarAll ts) = statementDemand ts
  | [] => rfl
  | t :: rest => by
    rw [desugarAll, statementDemand, statementDemand, t.stackDemand_desugar, statementDemand_desugarAll rest]

end

/-! ## Code of derived forms -/

section

variable {ctx : Context} {pos : Position} {start : Nat}

/-- A name is loaded by one instruction. -/
theorem load_cases (ctx : Context) (name : String) :
    (∃ a, ctx.load name = pure [.load a]) ∨ ctx.load name = .error (.unresolvedName name) := by
  unfold Context.load
  cases ctx.scopes.resolve name with
  | none => exact .inr rfl
  | some a => exact .inl ⟨a, rfl⟩

theorem compile_binary (hpos : pos ≠ .tail) (operator : String) (left right : Tree) :
    (binary operator left right).compile ctx pos start =
      (application (.identifier operator) [left, right]).compile ctx pos start := by
  rcases load_cases ctx operator with ⟨a, hload⟩ | hload
  · simp only [compile, compileOperands, hload, pure_bind, bind_assoc, if_neg hpos, Code.finish, List.length_cons,
      List.length_nil, Nat.zero_add, List.append_assoc, List.append_nil]
  · rw [compile, compile, compile, hload]
    rfl

theorem compile_unary (hpos : pos ≠ .tail) (operator : String) (operand : Tree) :
    (unary operator operand).compile ctx pos start =
      (application (.identifier (unaryName operator)) [operand]).compile ctx pos start := by
  rcases load_cases ctx (unaryName operator) with ⟨a, hload⟩ | hload
  · simp only [compile, compileOperands, hload, pure_bind, bind_assoc, if_neg hpos, Code.finish, List.length_cons,
      List.length_nil, Nat.zero_add, List.append_assoc, List.append_nil]
  · rw [compile, compile, compile, hload]
    rfl

theorem compile_conjunction (hpos : pos ≠ .tail) (left right : Tree) :
    (logical "&&" left right).compile ctx pos start =
      (conditional left right (.literal (.boolean false))).compile ctx pos start := by
  cases pos with
  | tail => exact absurd rfl hpos
  | operand | statement => simp only [compile, if_true, pure_bind, Code.finish]

theorem compile_disjunction (hpos : pos ≠ .tail) (left right : Tree) :
    (logical "||" left right).compile ctx pos start =
      (conditional left (.literal (.boolean true)) right).compile ctx pos start := by
  have hne : "||" ≠ "&&" := by decide
  cases pos with
  | tail => exact absurd rfl hpos
  | operand | statement => simp only [compile, if_neg hne, if_true, pure_bind, Code.finish, List.length_singleton]

/-- In a body, to declare a function is to declare a constant. -/
theorem compile_functionDeclaration (name : String) (parameters : List String) (body : Tree) :
    (functionDeclaration name parameters body).compile ctx .statement start =
      (declaration name (.lambda parameters body) true).compile ctx .statement start := by
  simp only [compile, bind_assoc, pure_bind, Code.finish]

end

end Tree

/-! ## Objections -/

namespace CompileError

/-- The same objection. An objection to a position may call the tree by another name, and of a tree without code only the
kind is looked at. -/
inductive Alike : CompileError → CompileError → Prop
  | same (e : CompileError) : Alike e e
  | invalidPosition (nodeType nodeType' : String) (name : Option String) (reason : String) (hint : Option String) :
      Alike (.invalidPosition nodeType name reason hint) (.invalidPosition nodeType' name reason hint)
  | unhandledNode {node node' : Tree} (h : node.typeName = node'.typeName) (hint : Option String) :
      Alike (.unhandledNode node hint) (.unhandledNode node' hint)

end CompileError

/-- The same result, or the same objection. -/
def Agrees {α : Type} : Except CompileError α → Except CompileError α → Prop
  | .ok a, .ok a' => a = a'
  | .error e, .error e' => e.Alike e'
  | _, _ => False

namespace Agrees

variable {α β : Type} {x y : Except CompileError α} {f g : α → Except CompileError β}

theorem refl (x : Except CompileError α) : Agrees x x := by
  cases x with
  | ok a => exact rfl
  | error e => exact .same e

theorem throw {e e' : CompileError} (h : e.Alike e') : Agrees (throw e : Except CompileError α) (throw e') := h

theorem bind (h : Agrees x y) (hf : ∀ a, Agrees (f a) (g a)) : Agrees (x >>= f) (y >>= g) := by
  cases x with
  | ok a =>
    cases y with
    | ok a' =>
      obtain rfl : a = a' := h
      exact hf a
    | error e => exact h.elim
  | error e =>
    cases y with
    | ok a => exact h.elim
    | error e' => exact h

/-- The same is done with the result. -/
theorem next (h : Agrees x y) (f : α → Except CompileError β) : Agrees (x >>= f) (y >>= f) :=
  h.bind fun _ => .refl _

theorem ok_iff (h : Agrees x y) (a : α) : y = .ok a ↔ x = .ok a := by
  cases x with
  | ok b =>
    cases y with
    | ok b' =>
      obtain rfl : b = b' := h
      exact Iff.rfl
    | error e => exact h.elim
  | error e =>
    cases y with
    | ok b => exact h.elim
    | error e' => exact iff_of_false nofun nofun

theorem exists_error (h : Agrees x y) {e : CompileError} (hx : x = .error e) : ∃ e', y = .error e' ∧ e.Alike e' := by
  subst hx
  cases y with
  | ok b => exact h.elim
  | error e' => exact ⟨e', rfl, h⟩

theorem ite {c : Prop} [Decidable c] {x' y' : Except CompileError α} (h : Agrees x y) (h' : Agrees x' y') :
    Agrees (if c then x else x') (if c then y else y') := by
  split
  · exact h
  · exact h'

end Agrees

/-! ## The compiler -/

section

variable {ctx : Context} {pos : Position} {start : Nat}

theorem agrees_scope {body : Tree} {compileBody compileBody' : Context → Nat → Except CompileError Code}
    (h : ∀ ctx start, Agrees (compileBody ctx start) (compileBody' ctx start)) :
    Agrees (ctx.scope start body compileBody) (ctx.scope start (body.desugar false) compileBody') := by
  unfold Context.scope
  rw [Tree.declarations_desugar]
  exact .bind (.refl _) fun scope => (h _ _).next _

theorem agrees_function {parameters : List String} {body : Tree}
    {compileBody compileBody' : Context → Nat → Except CompileError Code}
    (h : ∀ ctx start, Agrees (compileBody ctx start) (compileBody' ctx start)) :
    Agrees (ctx.function start parameters body compileBody)
      (ctx.function start parameters (body.desugar false) compileBody') := by
  unfold Context.function
  cases Tree.firstRepeated [] parameters with
  | some name => exact .refl _
  | none =>
    rw [Tree.declarations_desugar, Tree.bodyDemand, Tree.bodyDemand, Tree.stackDemand_desugar]
    exact .bind (.refl _) fun scope => .ite ((h _ _).next _) ((agrees_scope h).next _)

/-- Where the two trees stand, their codes agree. -/
def SameCode (ctx : Context) (pos : Position) (t t' : Tree) : Prop :=
  ∀ start, Agrees (t.compile ctx pos start) (t'.compile ctx pos start)

/-- The codes of the operands agree. -/
def SameOperands (ctx : Context) (ts ts' : List Tree) : Prop :=
  ∀ start, Agrees (Tree.compileOperands ctx start ts) (Tree.compileOperands ctx start ts')

theorem sameOperands_nil : SameOperands ctx [] [] := fun _ => .refl _

theorem sameOperands_cons {t t' : Tree} {ts ts' : List Tree} (ht : SameCode ctx .operand t t')
    (hts : SameOperands ctx ts ts') : SameOperands ctx (t :: ts) (t' :: ts') := by
  intro start
  rw [Tree.compileOperands, Tree.compileOperands]
  exact .bind (ht _) fun code => (hts _).next _

theorem sameCode_application {function function' : Tree} {arguments arguments' : List Tree}
    (hf : SameCode ctx .operand function function') (hargs : SameOperands ctx arguments arguments')
    (hlength : arguments'.length = arguments.length) :
    SameCode ctx pos (.application function arguments) (.application function' arguments') := by
  intro start
  rw [Tree.compile, Tree.compile, hlength]
  exact .bind (hf _) fun callee => (hargs _).next _

theorem sameCode_conditional {predicate predicate' consequent consequent' alternative alternative' : Tree}
    (hpos : pos ≠ .tail) (hp : SameCode ctx .operand predicate predicate')
    (hx : SameCode ctx .operand consequent consequent') (hy : SameCode ctx .operand alternative alternative') :
    SameCode ctx pos (.conditional predicate consequent alternative)
      (.conditional predicate' consequent' alternative') := by
  intro start
  rw [Tree.compile, Tree.compile]
  cases pos with
  | tail => exact absurd rfl hpos
  | operand | statement => exact .bind (hp _) fun _ => .bind (hx _) fun _ => (hy _).next _

theorem sameCode_binary {operator : String} {left left' right right' : Tree} (hl : SameCode ctx .operand left left')
    (hr : SameCode ctx .operand right right') :
    SameCode ctx pos (.binary operator left right) (.binary operator left' right') := by
  intro start
  rw [Tree.compile, Tree.compile]
  exact .bind (.refl _) fun callee => .bind (hl _) fun _ => (hr _).next _

theorem sameCode_unary {operator : String} {operand operand' : Tree} (h : SameCode ctx .operand operand operand') :
    SameCode ctx pos (.unary operator operand) (.unary operator operand') := by
  intro start
  rw [Tree.compile, Tree.compile]
  exact .bind (.refl _) fun callee => (h _).next _

theorem sameCode_logical {operator : String} {left left' right right' : Tree} (hl : SameCode ctx .operand left left')
    (hr : SameCode ctx .operand right right') :
    SameCode ctx pos (.logical operator left right) (.logical operator left' right') := by
  intro start
  rw [Tree.compile, Tree.compile]
  have htype : (Tree.logical operator left right).typeName = (Tree.logical operator left' right').typeName := rfl
  exact .ite (.bind (hl _) fun _ => (hr _).next _) (.ite (.bind (hl _) fun _ => (hr _).next _)
    (.throw (.unhandledNode htype _)))

end

namespace Tree

mutual

/-- What a tree stands for has the code of the tree, in every context and position. -/
theorem sameCode_desugar (ctx : Context) (pos : Position) :
    (t : Tree) → SameCode ctx pos t (t.desugar (decide (pos = .tail)))
  | .literal _ | .identifier _ => fun _ => .refl _
  | .binary operator left right => by
    have hl := left.sameCode_desugar ctx .operand
    have hr := right.sameCode_desugar ctx .operand
    by_cases hpos : pos = .tail
    · rw [desugar, if_pos (decide_eq_true hpos)]
      exact sameCode_binary hl hr
    · intro start
      rw [desugar, if_neg (by simpa using hpos), compile_binary hpos]
      have hargs := sameOperands_cons hl (sameOperands_cons hr sameOperands_nil)
      exact sameCode_application (fun _ => .refl _) hargs rfl start
  | .unary operator operand => by
    have h := operand.sameCode_desugar ctx .operand
    by_cases hpos : pos = .tail
    · rw [desugar, if_pos (decide_eq_true hpos)]
      exact sameCode_unary h
    · intro start
      rw [desugar, if_neg (by simpa using hpos), compile_unary hpos]
      have hargs := sameOperands_cons h sameOperands_nil
      exact sameCode_application (fun _ => .refl _) hargs rfl start
  | .logical operator left right => by
    have hl := left.sameCode_desugar ctx .operand
    have hr := right.sameCode_desugar ctx .operand
    by_cases hpos : pos = .tail
    · rw [desugar, if_pos (decide_eq_true hpos)]
      exact sameCode_logical hl hr
    · rw [desugar, if_neg (by simpa using hpos)]
      split
      · next hand =>
        intro start
        rw [hand, compile_conjunction hpos]
        exact sameCode_conditional hpos hl hr (fun _ => .refl _) start
      · split
        · next hor =>
          intro start
          rw [hor, compile_disjunction hpos]
          exact sameCode_conditional hpos hl (fun _ => .refl _) hr start
        · exact sameCode_logical hl hr
  | .conditional predicate consequent alternative => by
    have hp := predicate.sameCode_desugar ctx .operand
    rw [desugar]
    cases pos with
    | tail =>
      intro start
      rw [compile, compile]
      exact .bind (hp _) fun _ => .bind (consequent.sameCode_desugar ctx .tail _) fun _ =>
        (alternative.sameCode_desugar ctx .tail _).next _
    | operand | statement =>
      exact sameCode_conditional nofun hp (consequent.sameCode_desugar ctx .operand)
        (alternative.sameCode_desugar ctx .operand)
  | .lambda parameters body => by
    intro start
    rw [desugar, compile, compile]
    exact (agrees_function fun inner start => body.sameCode_desugar inner .statement start).next _
  | .application function arguments =>
    sameCode_application (function.sameCode_desugar ctx .operand) (sameOperands_desugarAll ctx arguments)
      (length_desugarAll arguments)
  | .sequence statements => by
    intro start
    rw [desugar, compile, compile]
    -- a sequence that is returned is compiled as an operand, so no statement of it is in tail position
    refine (agrees_desugarAll ctx ?_ statements start).next _
    split <;> decide
  | .block body => by
    intro start
    rw [desugar, compile, compile]
    exact (agrees_scope fun inner start => body.sameCode_desugar inner .statement start).next _
  | .declaration name value constant => by
    intro start
    cases pos with
    | statement =>
      rw [desugar, compile, compile]
      exact (value.sameCode_desugar ctx .operand start).next _
    | operand | tail =>
      simp only [desugar, compile]
      exact .throw (.invalidPosition ..)
  | .assignment name value => by
    intro start
    rw [desugar, compile, compile]
    exact .bind (.refl _) fun address => (value.sameCode_desugar ctx .operand start).next _
  | .functionDeclaration name parameters body => by
    intro start
    cases pos with
    | statement =>
      rw [compile_functionDeclaration, desugar, compile, compile, compile, compile]
      exact ((agrees_function fun inner start => body.sameCode_desugar inner .statement start).next _).next _
    | operand | tail =>
      simp only [desugar, compile]
      exact .throw (.invalidPosition ..)
  | .ret expression => by
    intro start
    rw [desugar, compile, compile]
    exact .ite ((expression.sameCode_desugar ctx .tail start).next _) (.refl _)

theorem sameOperands_desugarAll (ctx : Context) : (ts : List Tree) → SameOperands ctx ts (desugarAll ts)
  | [] => sameOperands_nil
  | t :: rest => sameOperands_cons (t.sameCode_desugar ctx .operand) (sameOperands_desugarAll ctx rest)

theorem agrees_desugarAll (ctx : Context) {pos : Position} (hpos : pos ≠ .tail) : (ts : List Tree) →
    (start : Nat) → Agrees (compileSequence ctx pos start ts) (compileSequence ctx pos start (desugarAll ts))
  | [], _ => .refl _
  | [t], start => by
    have h := t.sameCode_desugar ctx pos start
    rw [decide_eq_false hpos] at h
    exact h
  | t :: t' :: rest, start => by
    have h := t.sameCode_desugar ctx pos start
    rw [decide_eq_false hpos] at h
    exact .bind h fun code => (agrees_desugarAll ctx hpos (t' :: rest) _).next _

end

/-- **Derived forms have the code of what they stand for.** Whatever the global scopes are, a tree and the one without
derived forms compile to the same program, or to none for the same reason. -/
theorem toProgram_desugar (globals : Scopes) (t : Tree) :
    (∀ program, (t.desugar false).toProgram globals = .ok program ↔ t.toProgram globals = .ok program) ∧
    ∀ e, t.toProgram globals = .error e → ∃ e', (t.desugar false).toProgram globals = .error e' ∧ e.Alike e' := by
  have hagrees : Agrees (t.toProgram globals) ((t.desugar false).toProgram globals) := by
    unfold toProgram
    rw [stackDemand_desugar]
    exact (agrees_scope fun inner start => t.sameCode_desugar inner .statement start).next _
  exact ⟨hagrees.ok_iff, fun e => hagrees.exists_error⟩

/-- A function with all derived forms in it, of which the minus is returned and stays:

    function absolute(x) { return x < 0 || x === 0 ? -x : x; }
-/
def absolute : Tree :=
  let zero : Tree := .literal (.number ⟨0⟩)
  .functionDeclaration "absolute" ["x"] (.ret (.conditional
    (.logical "||" (.binary "<" (.identifier "x") zero) (.binary "===" (.identifier "x") zero))
    (.unary "-" (.identifier "x")) (.identifier "x")))

/-- Where a declaration is allowed, the function has the same code as what it stands for; and where it is not, both are
refused, under different names. -/
theorem toProgram_desugar_absolute :
    (∃ program, absolute.toProgram Primitive.globals = .ok program ∧
      (absolute.desugar false).toProgram Primitive.globals = .ok program) ∧
    ∃ e', ((Tree.application absolute []).desugar false).toProgram Primitive.globals = .error e' ∧
      (CompileError.misplacedDeclaration "function declaration" "absolute").Alike e' := by
  have hok : (absolute.toProgram Primitive.globals).toOption.any (fun _ => true) = true := by decide +kernel
  have hmisplaced : (Tree.application absolute []).toProgram Primitive.globals =
      .error (.misplacedDeclaration "function declaration" "absolute") := rfl
  obtain ⟨program, hprogram, -⟩ := Actions.of_any_ok hok
  exact ⟨⟨program, hprogram, ((toProgram_desugar _ absolute).1 program).mpr hprogram⟩,
    (toProgram_desugar _ _).2 _ hmisplaced⟩

end Tree

end ClosureMachine
