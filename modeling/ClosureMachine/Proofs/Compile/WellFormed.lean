import Mathlib.Data.List.Nodup
import ClosureMachine.Compile.Basic

/-!
# The trees that have code

The rules of scoping, said without compiling anything. A body opens a scope with all the names that its statements
declare, and its statements are what is left when sequences in it are written out (`Tree.statements`). A
statement may be a declaration; an operand may not, and has declarations only inside a body of its own. All
that a rule asks of a name is that it is among the bindings in sight, of which the first with that name counts.

`WellFormed.Body`, `Statement`, `Function` and `Expression` are these rules. The compiler finds code for a tree if and
only if the tree obeys them (`toProgram_ok_iff`), whatever the scopes around it are.
-/

set_option autoImplicit false

namespace ClosureMachine

namespace Tree

/-! ## The rules -/

mutual

/-- The statements of a body. Those of a sequence in it are its own. -/
def statements : Tree → List Tree
  | .sequence ts => statementsOf ts
  | t => [t]

def statementsOf : List Tree → List Tree
  | [] => []
  | t :: rest => t.statements ++ statementsOf rest

end

/-- What a statement declares. -/
def binding? : Tree → Option Binding
  | .declaration name _ constant => some ⟨name, constant⟩
  | .functionDeclaration name _ _ => some ⟨name, true⟩
  | _ => none

/-- The scope that a body opens. -/
def bindings (body : Tree) : Scope := body.statements.filterMap binding?

end Tree

namespace Scopes

/-- Some scope has the name. -/
def Binds (scopes : Scopes) (name : String) : Prop := ∃ b ∈ scopes.flatten, b.name = name

/-- The first binding of the name, from the innermost scope outward, is not a constant one. -/
def Assignable (scopes : Scopes) (name : String) : Prop :=
  ∃ b, scopes.flatten.find? (·.name = name) = some b ∧ b.constant = false

end Scopes

/-- The scope of the parameters of a function. -/
def Scope.ofParameters (parameters : List String) : Scope := parameters.map (⟨·, false⟩)

namespace WellFormed

mutual

/-- A tree that may stand anywhere. -/
inductive Expression : Scopes → (inFunction : Bool) → Tree → Prop
  | literal {scopes : Scopes} {inFunction : Bool} (value : Literal) :
      Expression scopes inFunction (.literal value)
  | identifier {scopes : Scopes} {inFunction : Bool} {name : String} :
      scopes.Binds name → Expression scopes inFunction (.identifier name)
  | binary {scopes : Scopes} {inFunction : Bool} {operator : String} {left right : Tree} :
      scopes.Binds operator → Expression scopes inFunction left → Expression scopes inFunction right →
      Expression scopes inFunction (.binary operator left right)
  | unary {scopes : Scopes} {inFunction : Bool} {operator : String} {operand : Tree} :
      scopes.Binds (Tree.unaryName operator) → Expression scopes inFunction operand →
      Expression scopes inFunction (.unary operator operand)
  | logical {scopes : Scopes} {inFunction : Bool} {operator : String} {left right : Tree} :
      operator = "&&" ∨ operator = "||" → Expression scopes inFunction left →
      Expression scopes inFunction right → Expression scopes inFunction (.logical operator left right)
  | conditional {scopes : Scopes} {inFunction : Bool} {predicate consequent alternative : Tree} :
      Expression scopes inFunction predicate → Expression scopes inFunction consequent →
      Expression scopes inFunction alternative →
      Expression scopes inFunction (.conditional predicate consequent alternative)
  | lambda {scopes : Scopes} {inFunction : Bool} {parameters : List String} {body : Tree} :
      Function scopes parameters body → Expression scopes inFunction (.lambda parameters body)
  | application {scopes : Scopes} {inFunction : Bool} {function : Tree} {arguments : List Tree} :
      Expression scopes inFunction function → (∀ t ∈ arguments, Expression scopes inFunction t) →
      Expression scopes inFunction (.application function arguments)
  | sequence {scopes : Scopes} {inFunction : Bool} {ts : List Tree} :
      (∀ t ∈ ts, Expression scopes inFunction t) → Expression scopes inFunction (.sequence ts)
  | block {scopes : Scopes} {inFunction : Bool} {body : Tree} :
      Body scopes inFunction body → Expression scopes inFunction (.block body)
  | assignment {scopes : Scopes} {inFunction : Bool} {name : String} {value : Tree} :
      scopes.Assignable name → Expression scopes inFunction value →
      Expression scopes inFunction (.assignment name value)
  | ret {scopes : Scopes} {expression : Tree} :
      Expression scopes true expression → Expression scopes true (.ret expression)

/-- A tree that may stand directly in a body. -/
inductive Statement : Scopes → (inFunction : Bool) → Tree → Prop
  | expression {scopes : Scopes} {inFunction : Bool} {t : Tree} :
      Expression scopes inFunction t → Statement scopes inFunction t
  | declaration {scopes : Scopes} {inFunction : Bool} {name : String} {value : Tree} {constant : Bool} :
      Expression scopes inFunction value →
      Statement scopes inFunction (.declaration name value constant)
  | functionDeclaration {scopes : Scopes} {inFunction : Bool} {name : String}
      {parameters : List String} {body : Tree} : Function scopes parameters body →
      Statement scopes inFunction (.functionDeclaration name parameters body)

/-- A body with a scope of its own. -/
inductive Body : Scopes → (inFunction : Bool) → Tree → Prop
  | scope {scopes : Scopes} {inFunction : Bool} {body : Tree} : (body.bindings.map (·.name)).Nodup →
      (∀ t ∈ body.statements, Statement (body.bindings :: scopes) inFunction t) →
      Body scopes inFunction body

/-- The parameters and the body of a function. The parameters are a scope, and the body has one inside it if
it declares anything. -/
inductive Function : Scopes → List String → Tree → Prop
  | declaring {scopes : Scopes} {parameters : List String} {body : Tree} : parameters.Nodup →
      body.bindings ≠ [] → Body (.ofParameters parameters :: scopes) true body →
      Function scopes parameters body
  | plain {scopes : Scopes} {parameters : List String} {body : Tree} : parameters.Nodup →
      body.bindings = [] →
      (∀ t ∈ body.statements, Statement (.ofParameters parameters :: scopes) true t) →
      Function scopes parameters body

end

/-! ### Their inversions -/

section

variable {scopes : Scopes} {inFunction : Bool} {name operator : String} {parameters : List String}
  {left right body t value predicate : Tree} {ts : List Tree}

theorem expression_identifier :
    Expression scopes inFunction (.identifier name) ↔ scopes.Binds name :=
  ⟨fun | .identifier h => h, .identifier⟩

theorem expression_binary : Expression scopes inFunction (.binary operator left right) ↔
    scopes.Binds operator ∧ Expression scopes inFunction left ∧ Expression scopes inFunction right :=
  ⟨fun | .binary h hl hr => ⟨h, hl, hr⟩, fun ⟨h, hl, hr⟩ => .binary h hl hr⟩

theorem expression_unary : Expression scopes inFunction (.unary operator t) ↔
    scopes.Binds (Tree.unaryName operator) ∧ Expression scopes inFunction t :=
  ⟨fun | .unary h ht => ⟨h, ht⟩, fun ⟨h, ht⟩ => .unary h ht⟩

theorem expression_logical : Expression scopes inFunction (.logical operator left right) ↔
    (operator = "&&" ∨ operator = "||") ∧ Expression scopes inFunction left ∧
      Expression scopes inFunction right :=
  ⟨fun | .logical h hl hr => ⟨h, hl, hr⟩, fun ⟨h, hl, hr⟩ => .logical h hl hr⟩

theorem expression_conditional : Expression scopes inFunction (.conditional predicate left right) ↔
    Expression scopes inFunction predicate ∧ Expression scopes inFunction left ∧
      Expression scopes inFunction right :=
  ⟨fun | .conditional h hl hr => ⟨h, hl, hr⟩, fun ⟨h, hl, hr⟩ => .conditional h hl hr⟩

theorem expression_lambda : Expression scopes inFunction (.lambda parameters body) ↔
    Function scopes parameters body :=
  ⟨fun | .lambda h => h, .lambda⟩

theorem expression_application : Expression scopes inFunction (.application t ts) ↔
    Expression scopes inFunction t ∧ ∀ t ∈ ts, Expression scopes inFunction t :=
  ⟨fun | .application h hs => ⟨h, hs⟩, fun ⟨h, hs⟩ => .application h hs⟩

theorem expression_sequence : Expression scopes inFunction (.sequence ts) ↔
    ∀ t ∈ ts, Expression scopes inFunction t :=
  ⟨fun | .sequence h => h, .sequence⟩

theorem expression_block : Expression scopes inFunction (.block body) ↔ Body scopes inFunction body :=
  ⟨fun | .block h => h, .block⟩

theorem expression_assignment : Expression scopes inFunction (.assignment name value) ↔
    scopes.Assignable name ∧ Expression scopes inFunction value :=
  ⟨fun | .assignment h hv => ⟨h, hv⟩, fun ⟨h, hv⟩ => .assignment h hv⟩

theorem expression_ret : Expression scopes inFunction (.ret t) ↔
    inFunction = true ∧ Expression scopes inFunction t :=
  ⟨fun | .ret h => ⟨rfl, h⟩, fun ⟨hf, h⟩ => by subst hf; exact .ret h⟩

theorem statement_declaration {constant : Bool} :
    Statement scopes inFunction (.declaration name value constant) ↔
      Expression scopes inFunction value := by
  constructor
  · intro h
    cases h with
    | expression h => cases h
    | declaration h => exact h
  · exact .declaration

theorem statement_functionDeclaration :
    Statement scopes inFunction (.functionDeclaration name parameters body) ↔
      Function scopes parameters body := by
  constructor
  · intro h
    cases h with
    | expression h => cases h
    | functionDeclaration h => exact h
  · exact .functionDeclaration

/-- Declarations are statements and nothing else. -/
theorem Expression.binding?_eq_none (h : Expression scopes inFunction t) : t.binding? = none := by
  cases h <;> rfl

theorem body_iff : Body scopes inFunction body ↔ (body.bindings.map (·.name)).Nodup ∧
    ∀ t ∈ body.statements, Statement (body.bindings :: scopes) inFunction t :=
  ⟨fun | .scope h hs => ⟨h, hs⟩, fun ⟨h, hs⟩ => .scope h hs⟩

theorem function_iff : Function scopes parameters body ↔ parameters.Nodup ∧
    if body.bindings = [] then
      ∀ t ∈ body.statements, Statement (.ofParameters parameters :: scopes) true t
    else Body (.ofParameters parameters :: scopes) true body := by
  constructor
  · intro h
    cases h with
    | declaring h hne hb => exact ⟨h, by rwa [if_neg hne]⟩
    | plain h hnil hs => exact ⟨h, by rwa [if_pos hnil]⟩
  · intro ⟨h, hb⟩
    by_cases hnil : body.bindings = []
    · rw [if_pos hnil] at hb
      exact .plain h hnil hb
    · rw [if_neg hnil] at hb
      exact .declaring h hnil hb

end

end WellFormed

/-! ## Names -/

section

variable {name : String} {scope : Scope} {scopes : Scopes}

theorem Scope.find_eq (name : String) (scope : Scope) :
    (Scope.find name scope).map (·.2) = scope.find? (·.name = name) := by
  induction scope with
  | nil => rfl
  | cons b rest ih =>
    rw [Scope.find]
    by_cases hb : b.name = name
    · simp [hb]
    · simp [hb, ← ih, Function.comp_def]

/-- Looking up a name finds the first binding in sight. -/
theorem Scopes.lookup_eq (name : String) (scopes : Scopes) :
    (scopes.lookup name).map (·.2) = scopes.flatten.find? (·.name = name) := by
  induction scopes with
  | nil => rfl
  | cons scope outer ih =>
    rw [Scopes.lookup, List.flatten_cons, List.find?_append, ← Scope.find_eq]
    cases Scope.find name scope with
    | none => simp [← ih, Function.comp_def]
    | some found => rfl

theorem Scopes.binds_iff : scopes.Binds name ↔ ∃ found, scopes.lookup name = some found := by
  have heq := Scopes.lookup_eq name scopes
  constructor
  · rintro ⟨b, hb, hname⟩
    rw [← Option.isSome_iff_exists]
    have hfound : (scopes.flatten.find? (·.name = name)).isSome :=
      List.find?_isSome.mpr ⟨b, hb, by simpa using hname⟩
    rw [← heq] at hfound
    simpa using hfound
  · rintro ⟨found, hfound⟩
    rw [hfound] at heq
    exact ⟨_, List.mem_of_find?_eq_some heq.symm, by simpa using List.find?_some heq.symm⟩

/-- A name of the innermost scope is found there. -/
theorem Scopes.resolve_innermost (h : ∃ b ∈ scope, b.name = name) :
    ∃ slot, Scopes.resolve name (scope :: scopes) = some ⟨0, slot⟩ := by
  obtain ⟨b, hb, hname⟩ := h
  have hfound : (scope.find? (·.name = name)).isSome :=
    List.find?_isSome.mpr ⟨b, hb, by simpa using hname⟩
  rw [← Scope.find_eq] at hfound
  rw [Scopes.resolve, Scopes.lookup]
  cases hfind : Scope.find name scope with
  | none => simp [hfind] at hfound
  | some found => exact ⟨found.1, rfl⟩

end

/-! ## Declarations -/

namespace Tree

theorem firstRepeated_eq_none {seen names : List String} :
    firstRepeated seen names = none ↔ names.Nodup ∧ ∀ name ∈ names, name ∉ seen := by
  induction names generalizing seen with
  | nil => simp [firstRepeated]
  | cons name rest ih =>
    rw [firstRepeated]
    by_cases hseen : name ∈ seen
    · simp [hseen]
    · simp only [List.contains_iff_mem, hseen, if_false, ih, List.nodup_cons, List.mem_cons, not_or]
      grind

mutual

/-- The compiler looks through sequences in the same way. -/
theorem declared_eq : (t : Tree) → t.declared = t.bindings
  | .sequence ts => declaredIn_eq ts
  | .declaration .. | .functionDeclaration .. => rfl
  | .literal _ | .identifier _ | .binary .. | .unary .. | .logical .. | .conditional .. | .lambda ..
  | .application .. | .block _ | .assignment .. | .ret _ => rfl

theorem declaredIn_eq : (ts : List Tree) → declaredIn ts = (statementsOf ts).filterMap binding?
  | [] => rfl
  | t :: rest => by
    rw [declaredIn, statementsOf, List.filterMap_append, declared_eq t, declaredIn_eq rest]
    rfl

end

end Tree

/-! ## Success -/

/-- There is a result. -/
def Succeeds {ε α : Type} (x : Except ε α) : Prop := ∃ a, x = .ok a

section

variable {ε α β : Type} {x : Except ε α} {f : α → Except ε β} {P Q : Prop}

theorem succeeds_pure (a : α) : Succeeds (pure a : Except ε α) := ⟨a, rfl⟩

theorem not_succeeds_error (e : ε) : ¬ Succeeds (.error e : Except ε α) := by
  rintro ⟨a, h⟩
  cases h

/-- One thing after the other, where the second one succeeds or not whatever the first one gave. -/
theorem succeeds_bind (hx : Succeeds x ↔ Q) (hf : ∀ a, x = .ok a → (Succeeds (f a) ↔ P)) :
    Succeeds (x >>= f) ↔ Q ∧ P := by
  cases x with
  | error e =>
    have hnot : ¬ Q := fun hq => not_succeeds_error e (hx.mpr hq)
    exact ⟨fun hs => absurd hs (not_succeeds_error e), fun hs => absurd hs.1 hnot⟩
  | ok a =>
    have hq : Q := hx.mp (succeeds_pure a)
    exact (hf a rfl).trans ⟨fun hp => ⟨hq, hp⟩, And.right⟩

theorem succeeds_map {g : α → β} (hx : Succeeds x ↔ Q) :
    Succeeds (x >>= fun a => pure (g a)) ↔ Q := by
  have hpure : ∀ a, x = .ok a → (Succeeds (pure (g a) : Except ε β) ↔ True) :=
    fun a _ => iff_true_intro (succeeds_pure (g a))
  rw [succeeds_bind hx hpure]
  exact iff_of_eq (and_true _)

end

namespace Context

variable {ctx : Context} {name : String}

theorem succeeds_load : Succeeds (ctx.load name) ↔ ctx.scopes.Binds name := by
  rw [Scopes.binds_iff, load, Scopes.resolve]
  cases ctx.scopes.lookup name with
  | none => exact iff_of_false (not_succeeds_error _) (by simp)
  | some found => exact iff_of_true (succeeds_pure _) ⟨found, rfl⟩

theorem succeeds_assignable : Succeeds (ctx.assignable name) ↔ ctx.scopes.Assignable name := by
  rw [Scopes.Assignable, ← Scopes.lookup_eq, assignable]
  cases ctx.scopes.lookup name with
  | none => exact iff_of_false (not_succeeds_error _) (by simp)
  | some found =>
    obtain ⟨address, b⟩ := found
    dsimp only
    split
    · exact iff_of_false (not_succeeds_error _) (by simpa)
    · exact iff_of_true (succeeds_pure _) ⟨b, rfl, eq_false_of_ne_true ‹_›⟩

/-- The innermost scope has a slot for each name that the tree declares. -/
def HasRoom (ctx : Context) (t : Tree) : Prop :=
  ∃ scope outer, ctx.scopes = scope :: outer ∧ ∀ b ∈ t.bindings, b ∈ scope

theorem succeeds_initialise {t : Tree} {b : Binding} (h : ctx.HasRoom t) (hb : b ∈ t.bindings) :
    Succeeds (ctx.initialise b.name) := by
  obtain ⟨scope, outer, hscopes, hmem⟩ := h
  obtain ⟨slot, hslot⟩ := @Scopes.resolve_innermost _ scope outer ⟨b, hmem b hb, rfl⟩
  rw [initialise, hscopes, hslot]
  exact succeeds_pure _

end Context

/-! ## The compiler obeys the rules -/

open WellFormed

/-- What the rules ask of a tree in a position. -/
def Accepted (pos : Position) (ctx : Context) (t : Tree) : Prop :=
  match pos with
  | .statement => ∀ s ∈ t.statements, Statement ctx.scopes ctx.inFunction s
  | _ => Expression ctx.scopes ctx.inFunction t

section

variable {ctx : Context} {pos : Position} {start : Nat} {t body : Tree} {parameters : List String}
  {compileBody : Context → Nat → Except CompileError Code}

theorem WellFormed.Statement.expression_of {scopes : Scopes} {inFunction : Bool}
    (h : Statement scopes inFunction t) (hb : t.binding? = none) :
    Expression scopes inFunction t := by
  cases h with
  | expression h => exact h
  | declaration => cases hb
  | functionDeclaration => cases hb

/-- Only sequences and declarations may do more in one position than in another. -/
theorem accepted_iff (hs : t.statements = [t]) (hb : t.binding? = none) :
    Accepted pos ctx t ↔ Expression ctx.scopes ctx.inFunction t := by
  cases pos with
  | statement =>
    refine ⟨fun h => (h t (by simp [hs])).expression_of hb, fun h s hmem => ?_⟩
    obtain rfl : s = t := by simpa [hs] using hmem
    exact .expression h
  | operand => exact Iff.rfl
  | tail => exact Iff.rfl

theorem accepted_declaration (hs : t.statements = [t]) :
    Accepted .statement ctx t ↔ Statement ctx.scopes ctx.inFunction t := by
  simp [Accepted, hs]

theorem succeeds_declarations :
    Succeeds body.declarations ↔ (body.bindings.map (·.name)).Nodup := by
  have hnone := @Tree.firstRepeated_eq_none [] (body.declared.map (·.name))
  rw [Tree.declarations, ← Tree.declared_eq]
  cases hrepeated : Tree.firstRepeated [] (body.declared.map (·.name)) with
  | none => exact iff_of_true (succeeds_pure _) (hnone.mp hrepeated).1
  | some name =>
    refine iff_of_false (not_succeeds_error _) fun hnodup => ?_
    rw [hnone.mpr ⟨hnodup, by simp⟩] at hrepeated
    cases hrepeated

theorem declarations_eq {scope : Scope} (h : body.declarations = .ok scope) : scope = body.bindings := by
  rw [Tree.declarations] at h
  split at h
  · cases h
  · rw [← Tree.declared_eq]
    exact (Except.ok.inj h).symm

/-- A scope has code if its body has. -/
theorem succeeds_scope
    (h : ∀ start, Succeeds (compileBody (ctx.enter body.bindings) start) ↔
      Accepted .statement (ctx.enter body.bindings) body) :
    Succeeds (ctx.scope start body compileBody) ↔ Body ctx.scopes ctx.inFunction body := by
  rw [body_iff, Context.scope]
  refine succeeds_bind succeeds_declarations fun scope hscope => ?_
  obtain rfl := declarations_eq hscope
  exact succeeds_map (h (start + 1))

theorem succeeds_function
    (hplain : body.bindings = [] → ∀ start, Succeeds (compileBody (ctx.enterFunction parameters) start) ↔
      Accepted .statement (ctx.enterFunction parameters) body)
    (hscope : ∀ start,
      Succeeds (compileBody ((ctx.enterFunction parameters).enter body.bindings) start) ↔
        Accepted .statement ((ctx.enterFunction parameters).enter body.bindings) body) :
    Succeeds (ctx.function start parameters body compileBody) ↔
      Function ctx.scopes parameters body := by
  have hnone := @Tree.firstRepeated_eq_none [] parameters
  rw [function_iff, Context.function]
  cases hrepeated : Tree.firstRepeated [] parameters with
  | some name =>
    refine iff_of_false (not_succeeds_error _) fun hnodup => ?_
    rw [hnone.mpr ⟨hnodup.1, by simp⟩] at hrepeated
    cases hrepeated
  | none =>
    rw [iff_true_intro (hnone.mp hrepeated).1, true_and]
    dsimp only
    refine (succeeds_bind (P := if body.bindings = [] then
          ∀ t ∈ body.statements, Statement (.ofParameters parameters :: ctx.scopes) true t
        else Body (.ofParameters parameters :: ctx.scopes) true body) succeeds_declarations
      fun scope h => ?_).trans ?_
    · obtain rfl := declarations_eq h
      by_cases hnil : body.bindings = []
      · rw [if_pos hnil, if_pos (by simp [hnil])]
        exact succeeds_map (hplain hnil (start + 2))
      · rw [if_neg hnil, if_neg (by simpa using hnil)]
        exact succeeds_map (succeeds_scope hscope)
    refine ⟨And.right, fun h => ⟨?_, h⟩⟩
    by_cases hnil : body.bindings = []
    · simp [hnil]
    · rw [if_neg hnil] at h
      exact (body_iff.mp h).1

end

namespace Tree

theorem mem_statementsOf {s : Tree} {ts : List Tree} :
    s ∈ statementsOf ts ↔ ∃ t ∈ ts, s ∈ t.statements := by
  induction ts with
  | nil => simp [statementsOf]
  | cons t rest ih => simp [statementsOf, ih]

theorem mem_bindings_sequence {b : Binding} {ts : List Tree} :
    b ∈ (Tree.sequence ts).bindings ↔ ∃ t ∈ ts, b ∈ t.bindings := by
  simp only [bindings, statements, List.mem_filterMap, mem_statementsOf]
  grind

end Tree

namespace Context.HasRoom

variable {ctx : Context} {t : Tree} {ts : List Tree}

theorem enter (ctx : Context) (t : Tree) : (ctx.enter t.bindings).HasRoom t :=
  ⟨t.bindings, ctx.scopes, rfl, fun _ h => h⟩

theorem enterFunction (ctx : Context) (parameters : List String) (h : t.bindings = []) :
    (ctx.enterFunction parameters).HasRoom t :=
  ⟨_, ctx.scopes, rfl, by simp [h]⟩

theorem of_sequence (h : ctx.HasRoom (.sequence ts)) (ht : t ∈ ts) : ctx.HasRoom t := by
  obtain ⟨scope, outer, hscopes, hmem⟩ := h
  exact ⟨scope, outer, hscopes, fun b hb => hmem b (Tree.mem_bindings_sequence.mpr ⟨t, ht, hb⟩)⟩

end Context.HasRoom

theorem accepted_sequence {pos : Position} {ctx : Context} {ts : List Tree} :
    Accepted pos ctx (.sequence ts) ↔
      ∀ t ∈ ts, Accepted (if pos = .statement then .statement else .operand) ctx t := by
  cases pos with
  | statement =>
    simp only [Accepted, Tree.statements, Tree.mem_statementsOf, if_true]
    grind
  | operand => exact expression_sequence
  | tail => exact expression_sequence

mutual

/-- **There is code for a tree in a position if the rules accept it there.** The induction is on the tree; that the
innermost scope has the names a statement declares is what keeps the compiler from breaking its own rule. -/
theorem compiles_iff : (t : Tree) → (ctx : Context) → (pos : Position) → (start : Nat) →
    (pos = .statement → ctx.HasRoom t) → (Succeeds (t.compile ctx pos start) ↔ Accepted pos ctx t)
  | .literal value, ctx, pos, start, _ => by
    rw [Tree.compile, accepted_iff rfl rfl]
    exact iff_of_true (succeeds_pure _) (.literal value)
  | .identifier name, ctx, pos, start, _ => by
    rw [Tree.compile, accepted_iff rfl rfl, expression_identifier]
    exact succeeds_map Context.succeeds_load
  | .binary operator left right, ctx, pos, start, _ => by
    rw [Tree.compile, accepted_iff rfl rfl, expression_binary]
    refine succeeds_bind Context.succeeds_load fun _ _ => ?_
    refine succeeds_bind (compiles_iff left ctx .operand _ (by simp)) fun _ _ => ?_
    exact succeeds_map (compiles_iff right ctx .operand _ (by simp))
  | .unary operator operand, ctx, pos, start, _ => by
    rw [Tree.compile, accepted_iff rfl rfl, expression_unary]
    refine succeeds_bind Context.succeeds_load fun _ _ => ?_
    exact succeeds_map (compiles_iff operand ctx .operand _ (by simp))
  | .logical operator left right, ctx, pos, start, _ => by
    have hl := fun start => compiles_iff left ctx .operand start (by simp)
    have hr := fun start => compiles_iff right ctx .operand start (by simp)
    rw [Tree.compile, accepted_iff rfl rfl, expression_logical]
    by_cases hand : operator = "&&"
    · rw [if_pos hand, iff_true_intro (Or.inl hand), true_and]
      exact succeeds_bind (hl _) fun _ _ => succeeds_map (hr _)
    · rw [if_neg hand]
      by_cases hor : operator = "||"
      · rw [if_pos hor, iff_true_intro (Or.inr hor), true_and]
        exact succeeds_bind (hl _) fun _ _ => succeeds_map (hr _)
      · rw [if_neg hor]
        exact iff_of_false (not_succeeds_error _) fun h => h.1.elim hand hor
  | .conditional predicate consequent alternative, ctx, pos, start, _ => by
    have hc := fun pos' start h => compiles_iff consequent ctx pos' start h
    have ha := fun pos' start h => compiles_iff alternative ctx pos' start h
    rw [Tree.compile, accepted_iff rfl rfl, expression_conditional]
    refine succeeds_bind (compiles_iff predicate ctx .operand _ (by simp)) fun _ _ => ?_
    cases pos with
    | tail =>
      exact succeeds_bind (hc .tail _ (by simp)) fun _ _ => succeeds_map (ha .tail _ (by simp))
    | operand =>
      exact succeeds_bind (hc .operand _ (by simp)) fun _ _ => succeeds_map (ha .operand _ (by simp))
    | statement =>
      exact succeeds_bind (hc .operand _ (by simp)) fun _ _ => succeeds_map (ha .operand _ (by simp))
  | .lambda parameters body, ctx, pos, start, _ => by
    rw [Tree.compile, accepted_iff rfl rfl, expression_lambda]
    exact succeeds_map (succeeds_function
      (fun hnil start => compiles_iff body _ .statement start fun _ => .enterFunction ctx parameters hnil)
      fun start => compiles_iff body _ .statement start fun _ => .enter _ body)
  | .application function arguments, ctx, pos, start, _ => by
    rw [Tree.compile, accepted_iff rfl rfl, expression_application]
    refine succeeds_bind (compiles_iff function ctx .operand _ (by simp)) fun _ _ => ?_
    exact succeeds_map (operands_compile_iff arguments ctx _)
  | .sequence ts, ctx, pos, start, hroom => by
    rw [Tree.compile, accepted_sequence]
    refine succeeds_map (sequence_compiles_iff ts ctx _ start fun hpos t ht => ?_)
    have hstatement : pos = .statement := by
      by_contra hne
      rw [if_neg hne] at hpos
      cases hpos
    exact (hroom hstatement).of_sequence ht
  | .block body, ctx, pos, start, _ => by
    rw [Tree.compile, accepted_iff rfl rfl, expression_block]
    exact succeeds_map (succeeds_scope fun start =>
      compiles_iff body _ .statement start fun _ => .enter ctx body)
  | .declaration name value constant, ctx, .statement, start, hroom => by
    have hinit : Succeeds (ctx.initialise name) :=
      Context.succeeds_initialise (b := ⟨name, constant⟩) (hroom rfl) (List.mem_singleton_self _)
    have hvalue := compiles_iff value ctx .operand start (by simp)
    rw [Tree.compile, accepted_declaration rfl, statement_declaration]
    refine (succeeds_bind hvalue fun _ _ => succeeds_map (iff_true_intro hinit)).trans ?_
    exact iff_of_eq (and_true _)
  | .declaration name value constant, ctx, .operand, start, _ => by
    rw [Tree.compile]
    · exact iff_of_false (not_succeeds_error _) fun h => by cases h.binding?_eq_none
    · simp
  | .declaration name value constant, ctx, .tail, start, _ => by
    rw [Tree.compile]
    · exact iff_of_false (not_succeeds_error _) fun h => by cases h.binding?_eq_none
    · simp
  | .assignment name value, ctx, pos, start, _ => by
    rw [Tree.compile, accepted_iff rfl rfl, expression_assignment]
    refine succeeds_bind Context.succeeds_assignable fun _ _ => ?_
    exact succeeds_map (compiles_iff value ctx .operand _ (by simp))
  | .functionDeclaration name parameters body, ctx, .statement, start, hroom => by
    have hinit : Succeeds (ctx.initialise name) :=
      Context.succeeds_initialise (b := ⟨name, true⟩) (hroom rfl) (List.mem_singleton_self _)
    rw [Tree.compile, accepted_declaration rfl, statement_functionDeclaration]
    refine (succeeds_bind (succeeds_function ?_ ?_) fun _ _ => succeeds_map (iff_true_intro hinit)).trans
      (iff_of_eq (and_true _))
    · exact fun hnil start => compiles_iff body _ .statement start fun _ =>
        .enterFunction ctx parameters hnil
    · exact fun start => compiles_iff body _ .statement start fun _ => .enter _ body
  | .functionDeclaration name parameters body, ctx, .operand, start, _ => by
    rw [Tree.compile]
    · exact iff_of_false (not_succeeds_error _) fun h => by cases h.binding?_eq_none
    · simp
  | .functionDeclaration name parameters body, ctx, .tail, start, _ => by
    rw [Tree.compile]
    · exact iff_of_false (not_succeeds_error _) fun h => by cases h.binding?_eq_none
    · simp
  | .ret expression, ctx, pos, start, _ => by
    rw [Tree.compile, accepted_iff rfl rfl, expression_ret]
    by_cases hf : ctx.inFunction = true
    · rw [if_pos hf, iff_true_intro hf, true_and]
      exact succeeds_map (compiles_iff expression ctx .tail _ (by simp))
    · rw [if_neg hf]
      exact iff_of_false (not_succeeds_error _) fun h => hf h.1

theorem operands_compile_iff : (ts : List Tree) → (ctx : Context) → (start : Nat) →
    (Succeeds (Tree.compileOperands ctx start ts) ↔
      ∀ t ∈ ts, Expression ctx.scopes ctx.inFunction t)
  | [], ctx, start => by
    rw [Tree.compileOperands]
    exact iff_of_true (succeeds_pure _) (by simp)
  | t :: rest, ctx, start => by
    rw [Tree.compileOperands, List.forall_mem_cons]
    refine succeeds_bind (compiles_iff t ctx .operand _ (by simp)) fun _ _ => ?_
    exact succeeds_map (operands_compile_iff rest ctx _)

theorem sequence_compiles_iff : (ts : List Tree) → (ctx : Context) → (pos : Position) →
    (start : Nat) → (pos = .statement → ∀ t ∈ ts, ctx.HasRoom t) →
    (Succeeds (Tree.compileSequence ctx pos start ts) ↔ ∀ t ∈ ts, Accepted pos ctx t)
  | [], ctx, pos, start, _ => by
    rw [Tree.compileSequence]
    exact iff_of_true (succeeds_pure _) (by simp)
  | [t], ctx, pos, start, hroom => by
    rw [Tree.compileSequence]
    simpa using compiles_iff t ctx pos start fun hpos => hroom hpos t (by simp)
  | t :: t' :: rest, ctx, pos, start, hroom => by
    rw [Tree.compileSequence, List.forall_mem_cons]
    · refine succeeds_bind (compiles_iff t ctx pos start fun hpos => hroom hpos t (by simp))
        fun _ _ => ?_
      exact succeeds_map (sequence_compiles_iff (t' :: rest) ctx pos _ fun hpos s hs =>
        hroom hpos s (List.mem_cons_of_mem t hs))
    · simp

end

/-- **The compiler accepts the trees that obey the rules, and no others.** -/
theorem toProgram_ok_iff (globals : Scopes) (tree : Tree) :
    (∃ program, tree.toProgram globals = .ok program) ↔ Body globals false tree := by
  have hbody : ∀ start, Succeeds (tree.compile (Context.enter ⟨globals, false⟩ tree.bindings)
      .statement start) ↔ Accepted .statement (Context.enter ⟨globals, false⟩ tree.bindings) tree :=
    fun start => compiles_iff tree _ .statement start fun _ => .enter _ tree
  exact succeeds_map (succeeds_scope hbody)

end ClosureMachine
