import ClosureMachine.Proofs.Actions
import ClosureMachine.Proofs.Host.StringTable

/-!
# What primitive functions mean

A primitive function works on operands in which texts are numbers of the string table and closures
are references. Here is what it computes when both are left out: an `Argument` holds its text itself,
and a closure is known by any identity. `Primitive.meaning` gives the value and the line that is
displayed, if there is one; it reads no state and changes none.

`Primitive.apply_meaning` says that the two agree: the answer depends on the texts and on which closures
are the same, and on neither the numbers nor the positions in memory.
-/

set_option autoImplicit false

namespace ClosureMachine

/-- An operand without the memory behind it. -/
inductive Argument where
  | literal (value : Literal)
  | function (identity arity : Nat)
  | primitive (id : Nat)
deriving DecidableEq, Repr

namespace Argument

/-- The type, as programs and messages name it. -/
def typeName : Argument → String
  | .literal (.number _) => "number"
  | .literal (.boolean _) => "boolean"
  | .literal (.string _) => "string"
  | .literal .undefined => "undefined"
  | .literal .null => "null"
  | .function .. | .primitive _ => "function"

/-- The argument as `display` shows it. -/
def render : Argument → String
  | .literal value => value.text
  | .function _ arity => s!"<function/{arity}>"
  | .primitive id =>
    match Primitive.ofId? id with
    | some p => s!"<primitive {p.name}>"
    | none => "<primitive>"

/-- The argument as the answer of a program. -/
def answer : Argument → Answer
  | .literal value => .literal value
  | .function _ arity => .function arity
  | .primitive id => .primitive (((Primitive.ofId? id).map (·.name)).getD "?")

/-- The argument as it is joined to a text. -/
def joinText : Argument → String
  | .literal (.string s) => s
  | a => a.render

/-- Whether two arguments are the same value. -/
def identical : Argument → Argument → Bool
  | .literal (.number x), .literal (.number y) => x.eq y
  | .literal x, .literal y => x = y
  | .function x _, .function y _ => x = y
  | .primitive x, .primitive y => x = y
  | _, _ => false

/-- The type to blame where two arguments do not go together. -/
def misfit (a b : Argument) : String :=
  match a with
  | .literal (.number _) => b.typeName
  | _ => a.typeName

/-- One of the arguments, which may be missing. -/
def get (context : String) (args : List Argument) (i : Nat) : Except Fault Argument :=
  match args[i]? with
  | some a => .ok a
  | none => .error (.typeError context "an argument" "nothing")

/-- The type of an argument that may be missing. -/
def typeAt (args : List Argument) (i : Nat) : String :=
  match args[i]? with
  | some a => a.typeName
  | none => "nothing"

/-- An argument that must be a number. -/
def number (context : String) (args : List Argument) (i : Nat) : Except Fault Number :=
  match args[i]? with
  | some (.literal (.number x)) => .ok x
  | _ => .error (.typeError context "number" (typeAt args i))

/-- An argument that must be a truth value. -/
def boolean (context : String) (args : List Argument) (i : Nat) : Except Fault Bool :=
  match args[i]? with
  | some (.literal (.boolean x)) => .ok x
  | _ => .error (.typeError context "boolean" (typeAt args i))

/-- A function of one number. -/
def onNumber (context : String) (f : Number → Number) (args : List Argument) :
    Except Fault Literal := do
  return .number (f (← number context args 0))

/-- A function of two numbers. -/
def onNumbers (context : String) (f : Number → Number → Number) (args : List Argument) :
    Except Fault Literal := do
  return .number (f (← number context args 0) (← number context args 1))

/-- A question about one argument. -/
def question (context : String) (test : Argument → Bool) (args : List Argument) :
    Except Fault Literal := do
  return .boolean (test (← get context args 0))

/-- A sum, or two texts joined. -/
def sum (a b : Argument) : Except Fault Literal :=
  match a, b with
  | .literal (.number x), .literal (.number y) => .ok (.number (x.add y))
  | .literal (.string _), .literal _ => .ok (.string (a.joinText ++ b.joinText))
  | .literal _, .literal (.string _) => .ok (.string (a.joinText ++ b.joinText))
  | _, _ => .error (.typeError "+" "numbers or strings" (misfit a b))

/-- A comparison of two numbers or two texts. -/
def compare (context : String) (numbers : Number → Number → Bool)
    (texts : String → String → Bool) (args : List Argument) : Except Fault Literal := do
  let a ← get context args 0
  let b ← get context args 1
  match a, b with
  | .literal (.number x), .literal (.number y) => .ok (.boolean (numbers x y))
  | .literal (.string x), .literal (.string y) => .ok (.boolean (texts x y))
  | _, _ => .error (.typeError context "two numbers or two strings" (misfit a b))

end Argument

namespace Primitive

/-- The value of a primitive. Only `display` has an effect, which `shows` gives. -/
def meaning (p : Primitive) (args : List Argument) : Except Fault Literal :=
  match p with
  | .add => do
    let a ← Argument.get "+" args 0
    let b ← Argument.get "+" args 1
    Argument.sum a b
  | .sub => Argument.onNumbers "-" Number.sub args
  | .mul => Argument.onNumbers "*" Number.mul args
  | .div => Argument.onNumbers "/" Number.div args
  | .rem => Argument.onNumbers "%" Number.rem args
  | .same => do
    let a ← Argument.get "===" args 0
    return .boolean (a.identical (← Argument.get "===" args 1))
  | .differ => do
    let a ← Argument.get "!==" args 0
    return .boolean (!a.identical (← Argument.get "!==" args 1))
  | .less => Argument.compare "<" Number.lt (fun x y => decide (x < y)) args
  | .greater => Argument.compare ">" (fun x y => y.lt x) (fun x y => decide (y < x)) args
  | .atMost => Argument.compare "<=" Number.le (fun x y => decide (¬ y < x)) args
  | .atLeast => Argument.compare ">=" (fun x y => y.le x) (fun x y => decide (¬ x < y)) args
  | .not => do return .boolean (!(← Argument.boolean "!" args 0))
  | .negate => Argument.onNumber "-" Number.neg args
  | .display => do
    let _ ← Argument.get "display" args 0
    return .undefined
  | .abs => Argument.onNumber "math_abs" Number.abs args
  | .floor => Argument.onNumber "math_floor" Number.floor args
  | .sqrt => Argument.onNumber "math_sqrt" Number.sqrt args
  | .max => Argument.onNumbers "math_max" Number.max args
  | .min => Argument.onNumbers "math_min" Number.min args
  | .isNumber => Argument.question "is_number" (·.typeName = "number") args
  | .isBoolean => Argument.question "is_boolean" (·.typeName = "boolean") args
  | .isString => Argument.question "is_string" (·.typeName = "string") args
  | .isUndefined => Argument.question "is_undefined" (·.typeName = "undefined") args
  | .isFunction => Argument.question "is_function" (·.typeName = "function") args

/-- What a primitive adds to the output. -/
def shows (p : Primitive) (args : List Argument) : Array String :=
  match p, args with
  | .display, a :: _ => #[a.render]
  | _, _ => #[]

end Primitive

/-! ## How primitives fail -/

/-- The computation fails with type errors only. -/
def OnlyTypeErrors {α : Type} (x : Except Fault α) : Prop :=
  ∀ ⦃e : Fault⦄, x = .error e → ∃ context expected got, e = .typeError context expected got

namespace OnlyTypeErrors

variable {α β : Type}

theorem ok (a : α) : OnlyTypeErrors (.ok a) := by
  intro e h
  simp at h

theorem error (context expected got : String) :
    OnlyTypeErrors (.error (.typeError context expected got) : Except Fault α) := by
  intro e h
  exact ⟨context, expected, got, by simpa using h.symm⟩

theorem bind {x : Except Fault α} {f : α → Except Fault β} (hx : OnlyTypeErrors x)
    (hf : ∀ a, OnlyTypeErrors (f a)) : OnlyTypeErrors (x >>= f) := by
  cases x with
  | error e => exact fun e' h => hx (by simpa [Bind.bind, Except.bind] using h)
  | ok a => exact hf a

theorem get (context : String) (args : List Argument) (i : Nat) :
    OnlyTypeErrors (Argument.get context args i) := by
  unfold Argument.get
  split
  · exact ok _
  · exact error _ _ _

theorem number (context : String) (args : List Argument) (i : Nat) :
    OnlyTypeErrors (Argument.number context args i) := by
  unfold Argument.number
  split
  · exact ok _
  · exact error _ _ _

theorem boolean (context : String) (args : List Argument) (i : Nat) :
    OnlyTypeErrors (Argument.boolean context args i) := by
  unfold Argument.boolean
  split
  · exact ok _
  · exact error _ _ _

theorem sum (a b : Argument) : OnlyTypeErrors (Argument.sum a b) := by
  unfold Argument.sum
  split
  · exact ok _
  · exact ok _
  · exact ok _
  · exact error _ _ _

theorem compare (context : String) (numbers : Number → Number → Bool)
    (texts : String → String → Bool) (args : List Argument) :
    OnlyTypeErrors (Argument.compare context numbers texts args) := by
  refine bind (get _ _ _) fun a => bind (get _ _ _) fun b => ?_
  split
  · exact ok _
  · exact ok _
  · exact error _ _ _

theorem onNumber (context : String) (f : Number → Number) (args : List Argument) :
    OnlyTypeErrors (Argument.onNumber context f args) :=
  bind (number _ _ _) fun _ => ok _

theorem onNumbers (context : String) (f : Number → Number → Number) (args : List Argument) :
    OnlyTypeErrors (Argument.onNumbers context f args) :=
  bind (number _ _ _) fun _ => bind (number _ _ _) fun _ => ok _

theorem question (context : String) (test : Argument → Bool) (args : List Argument) :
    OnlyTypeErrors (Argument.question context test args) :=
  bind (get _ _ _) fun _ => ok _

end OnlyTypeErrors

theorem Primitive.meaning_error (p : Primitive) (args : List Argument) :
    OnlyTypeErrors (p.meaning args) := by
  cases p with
  | add => exact .bind (.get _ _ _) fun _ => .bind (.get _ _ _) fun _ => .sum _ _
  | same | differ => exact .bind (.get _ _ _) fun _ => .bind (.get _ _ _) fun _ => .ok _
  | less | greater | atMost | atLeast => exact .compare _ _ _ _
  | not => exact .bind (.boolean _ _ _) fun _ => .ok _
  | display => exact .bind (.get _ _ _) fun _ => .ok _
  | sub | mul | div | rem | max | min => exact .onNumbers _ _ _
  | negate | abs | floor | sqrt => exact .onNumber _ _ _
  | isNumber | isBoolean | isString | isUndefined | isFunction => exact .question _ _ _

/-! ## Operands and arguments -/

/-- Where closures are, and which texts the numbers stand for. -/
structure World where
  /-- The place of each identity that has one. -/
  place : Nat → Option Ref
  texts : StringTable

namespace World

/-- The datum stands for the literal. -/
def Means (w : World) : Datum → Literal → Prop
  | .number x, .number y => x = y
  | .boolean x, .boolean y => x = y
  | .string id, .string s => w.texts.Holds id s
  | .undefined, .undefined => True
  | .null, .null => True
  | _, _ => False

/-- The operand stands for the argument. -/
def Stands (w : World) : Operand → Argument → Prop
  | .datum d, .literal x => w.Means d x
  | .closure r arity, .function l arity' => w.place l = some r ∧ arity = arity'
  | .primitive id, .primitive id' => id = id'
  | _, _ => False

attribute [local simp] Means Stands

/-- Different closures are in different places. -/
def Distinct (w : World) : Prop :=
  ∀ {l l' : Nat} {r : Ref}, w.place l = some r → w.place l' = some r → l = l'

theorem Means.literalOf {w : World} {host : Host} (ht : host.strings = w.texts) {d : Datum}
    {x : Literal} (h : w.Means d x) : host.literalOf d = x := by
  cases d <;> cases x <;> simp only [Means] at h <;> simp only [Host.literalOf, Host.text]
  · rw [h]
  · rw [h]
  · rw [ht, h.text]

theorem Means.typeName {w : World} {d : Datum} {x : Literal} (h : w.Means d x) :
    d.typeName = (Argument.literal x).typeName := by
  cases d <;> cases x <;> simp only [Means] at h <;> rfl

theorem Stands.typeName {w : World} {o : Operand} {a : Argument} (h : w.Stands o a) :
    o.typeName = a.typeName := by
  cases o <;> cases a <;> simp only [Stands] at h <;> try rfl
  exact h.typeName

theorem Stands.render {w : World} {host : Host} (ht : host.strings = w.texts) {o : Operand}
    {a : Argument} (h : w.Stands o a) : host.render o = a.render := by
  cases o <;> cases a <;> simp only [Stands] at h
  · simp only [Host.render, Argument.render, h.literalOf ht]
  · simp only [Host.render, Argument.render, h.2]
  · subst h
    rfl

theorem Stands.joinText {w : World} {host : Host} (ht : host.strings = w.texts) {o : Operand}
    {a : Argument} (h : w.Stands o a) : host.joinText o = a.joinText := by
  have hr := h.render ht
  cases o with
  | datum d =>
    cases a with
    | literal x =>
      cases d <;> cases x <;> simp only [Stands, Means] at h <;> try exact hr
      simp only [Host.joinText, Argument.joinText, Host.text, ht, h.text]
    | function _ _ => simp only [Stands] at h
    | primitive _ => simp only [Stands] at h
  | closure _ _ =>
    cases a <;> simp only [Stands] at h
    exact hr
  | primitive _ =>
    cases a <;> simp only [Stands] at h
    exact hr

/-- Identity of operands is identity of arguments: equal texts have equal numbers, and different
closures different places. -/
theorem Stands.identical {w : World} (ht : w.texts.Sound) (hd : w.Distinct) {o o' : Operand}
    {a a' : Argument} (h : w.Stands o a) (h' : w.Stands o' a') :
    Primitive.identical o o' = a.identical a' := by
  cases o with
  | datum d =>
    cases a with
    | literal x =>
      cases o' with
      | datum d' =>
        cases a' with
        | literal x' =>
          simp only [Stands] at h h'
          cases d <;> cases x <;> simp only [Means] at h <;> cases d' <;> cases x' <;>
            simp only [Means] at h' <;> simp_all [Primitive.identical, Argument.identical]
          constructor
          · rintro rfl
            exact h.unique h'
          · rintro rfl
            exact ht.inj h h'
        | function _ _ => simp only [Stands] at h'
        | primitive _ => simp only [Stands] at h'
      | closure _ _ =>
        cases a' <;> simp only [Stands] at h'
        cases d <;> cases x <;> simp only [Stands, Means] at h <;> rfl
      | primitive _ =>
        cases a' <;> simp only [Stands] at h'
        cases d <;> cases x <;> simp only [Stands, Means] at h <;> rfl
    | function _ _ => simp only [Stands] at h
    | primitive _ => simp only [Stands] at h
  | closure r _ =>
    cases a <;> simp only [Stands] at h
    rename_i l _
    cases o' <;> cases a' <;> simp only [Stands] at h' <;>
      simp only [Primitive.identical, Argument.identical]
    rename_i r' _ l' _
    rw [decide_eq_decide]
    constructor
    · rintro rfl
      exact hd h.1 h'.1
    · rintro rfl
      simpa [h.1] using h'.1
  | primitive _ =>
    cases a <;> simp only [Stands] at h
    cases o' <;> cases a' <;> simp only [Stands] at h' <;>
      simp only [Primitive.identical, Argument.identical]
    rw [h, h']

/-- Lists that correspond have corresponding entries at the same places. -/
theorem forall₂_getElem? {α β : Type} {R : α → β → Prop} {l : List α} {l' : List β}
    (h : List.Forall₂ R l l') (i : Nat) :
    (l[i]? = none ∧ l'[i]? = none) ∨ ∃ a b, l[i]? = some a ∧ l'[i]? = some b ∧ R a b := by
  induction h generalizing i with
  | nil => simp
  | cons hab _ ih =>
    cases i with
    | zero => exact Or.inr ⟨_, _, rfl, rfl, hab⟩
    | succ i => simpa using ih i

/-! ## Corresponding answers -/

/-- The texts that are held stay held. -/
def Grows (w : World) (texts : StringTable) : Prop :=
  texts.Sound ∧ ∀ {id : Nat} {s : String}, w.texts.Holds id s → texts.Holds id s

/-- The outcome of a primitive on operands corresponds to a value of its meaning. -/
def Answers (w : World) (host : Host) (shown : Array String) :
    EStateM.Result Fault Host Datum → Except Fault Literal → Prop
  | .ok d host', .ok x =>
    host'.output = host.output ++ shown ∧ w.Grows host'.strings ∧
      World.Means ⟨w.place, host'.strings⟩ d x
  | .error e host', .error e' => e = e' ∧ host' = host
  | _, _ => False

section

variable {w : World} {host : Host} {operands : List Operand} {args : List Argument}

/-- An answer that needs neither the table nor the output. -/
theorem Answers.plain (ht : host.strings = w.texts) (hs : w.texts.Sound) {d : Datum} {x : Literal}
    (h : w.Means d x) : w.Answers host #[] (.ok d host) (.ok x) := by
  refine ⟨by simp, ⟨ht ▸ hs, fun hh => ht ▸ hh⟩, ?_⟩
  rw [ht]
  exact h

theorem Answers.fail (e : Fault) (shown : Array String) :
    w.Answers host shown (.error e host) (.error e) := ⟨rfl, rfl⟩

/-- Taking an operand and taking an argument succeed together. -/
theorem operand_cases (host : Host) (h : List.Forall₂ w.Stands operands args) (context : String)
    (i : Nat) :
    (∃ o a, Primitive.operand context operands i host = .ok o host ∧
        Argument.get context args i = .ok a ∧ operands[i]? = some o ∧ args[i]? = some a ∧
        w.Stands o a) ∨
      ∃ e, Primitive.operand context operands i host = .error e host ∧
        Argument.get context args i = .error e := by
  unfold Primitive.operand Argument.get
  rcases forall₂_getElem? h i with ⟨ho, ha⟩ | ⟨o, a, ho, ha, hoa⟩
  · exact Or.inr ⟨_, by rw [ho]; rfl, by rw [ha]⟩
  · exact Or.inl ⟨o, a, by rw [ho]; rfl, by rw [ha], ho, ha, hoa⟩

theorem typeAt_eq (h : List.Forall₂ w.Stands operands args) (i : Nat) :
    Primitive.typeAt operands i = Argument.typeAt args i := by
  unfold Primitive.typeAt Argument.typeAt
  rcases forall₂_getElem? h i with ⟨ho, ha⟩ | ⟨o, a, ho, ha, hoa⟩
  · rw [ho, ha]
  · rw [ho, ha]
    exact hoa.typeName

theorem number_cases (host : Host) (h : List.Forall₂ w.Stands operands args) (context : String)
    (i : Nat) :
    (∃ x, Primitive.number context operands i host = .ok x host ∧
        Argument.number context args i = .ok x) ∨
      ∃ e, Primitive.number context operands i host = .error e host ∧
        Argument.number context args i = .error e := by
  unfold Primitive.number Argument.number
  rw [typeAt_eq h i]
  rcases forall₂_getElem? h i with ⟨ho, ha⟩ | ⟨o, a, ho, ha, hoa⟩
  · exact Or.inr ⟨_, by rw [ho]; rfl, by rw [ha]⟩
  · rw [ho, ha]
    rcases o with ⟨d⟩ | _ | _ <;> rcases a with ⟨x⟩ | _ | _ <;> simp only [Stands] at hoa
    · cases d <;> cases x <;> simp only [Means] at hoa
      · subst hoa
        exact Or.inl ⟨_, rfl, rfl⟩
      all_goals exact Or.inr ⟨_, rfl, rfl⟩
    · exact Or.inr ⟨_, rfl, rfl⟩
    · exact Or.inr ⟨_, rfl, rfl⟩

theorem boolean_cases (host : Host) (h : List.Forall₂ w.Stands operands args) (context : String)
    (i : Nat) :
    (∃ x, Primitive.boolean context operands i host = .ok x host ∧
        Argument.boolean context args i = .ok x) ∨
      ∃ e, Primitive.boolean context operands i host = .error e host ∧
        Argument.boolean context args i = .error e := by
  unfold Primitive.boolean Argument.boolean
  rw [typeAt_eq h i]
  rcases forall₂_getElem? h i with ⟨ho, ha⟩ | ⟨o, a, ho, ha, hoa⟩
  · exact Or.inr ⟨_, by rw [ho]; rfl, by rw [ha]⟩
  · rw [ho, ha]
    rcases o with ⟨d⟩ | _ | _ <;> rcases a with ⟨x⟩ | _ | _ <;> simp only [Stands] at hoa
    · cases d <;> cases x <;> simp only [Means] at hoa
      case boolean.boolean =>
        subst hoa
        exact Or.inl ⟨_, rfl, rfl⟩
      all_goals exact Or.inr ⟨_, rfl, rfl⟩
    · exact Or.inr ⟨_, rfl, rfl⟩
    · exact Or.inr ⟨_, rfl, rfl⟩

theorem Stands.misfit {o o' : Operand} {a a' : Argument} (h : w.Stands o a) (h' : w.Stands o' a') :
    Primitive.misfit o o' = a.misfit a' := by
  rcases o with ⟨d⟩ | _ | _ <;> rcases a with ⟨x⟩ | _ | _ <;> simp only [Stands] at h
  · cases d <;> cases x <;> simp only [Means] at h
    · exact h'.typeName
    all_goals rfl
  · rfl
  · rfl

/-! ## The shapes of primitives -/

theorem answers_onNumber (ht : host.strings = w.texts) (hs : w.texts.Sound)
    (h : List.Forall₂ w.Stands operands args) (context : String) (f : Number → Number) :
    w.Answers host #[] (Primitive.onNumber context f operands host)
      (Argument.onNumber context f args) := by
  unfold Primitive.onNumber Argument.onNumber
  rcases number_cases host h context 0 with ⟨x, hx, hx'⟩ | ⟨e, he, he'⟩
  · simp only [Actions.bind_apply, hx, hx']
    exact Answers.plain ht hs rfl
  · simp only [Actions.bind_apply, he, he']
    exact Answers.fail e _

theorem answers_onNumbers (ht : host.strings = w.texts) (hs : w.texts.Sound)
    (h : List.Forall₂ w.Stands operands args) (context : String) (f : Number → Number → Number) :
    w.Answers host #[] (Primitive.onNumbers context f operands host)
      (Argument.onNumbers context f args) := by
  unfold Primitive.onNumbers Argument.onNumbers
  rcases number_cases host h context 0 with ⟨x, hx, hx'⟩ | ⟨e, he, he'⟩
  · rcases number_cases host h context 1 with ⟨y, hy, hy'⟩ | ⟨e, he, he'⟩
    · simp only [Actions.bind_apply, hx, hx', hy, hy']
      exact Answers.plain ht hs rfl
    · simp only [Actions.bind_apply, hx, hx', he, he']
      exact Answers.fail e _
  · simp only [Actions.bind_apply, he, he']
    exact Answers.fail e _

theorem answers_question (ht : host.strings = w.texts) (hs : w.texts.Sound)
    (h : List.Forall₂ w.Stands operands args) (context : String) (test : Operand → Bool)
    (test' : Argument → Bool) (hq : ∀ {o a}, w.Stands o a → test o = test' a) :
    w.Answers host #[] (Primitive.question context test operands host)
      (Argument.question context test' args) := by
  unfold Primitive.question Argument.question
  rcases operand_cases host h context 0 with ⟨o, a, ho, ha, _, _, hoa⟩ | ⟨e, he, he'⟩
  · simp only [Actions.bind_apply, ho, ha, hq hoa]
    exact Answers.plain ht hs rfl
  · simp only [Actions.bind_apply, he, he']
    exact Answers.fail e _

theorem answers_identical (ht : host.strings = w.texts) (hs : w.texts.Sound) (hd : w.Distinct)
    (h : List.Forall₂ w.Stands operands args) (context : String) (f : Bool → Bool) :
    w.Answers host #[]
      ((do
        let a ← Primitive.operand context operands 0
        return .boolean (f (Primitive.identical a (← Primitive.operand context operands 1))) :
          HostM Datum) host)
      (do
        let a ← Argument.get context args 0
        return .boolean (f (a.identical (← Argument.get context args 1)))) := by
  rcases operand_cases host h context 0 with ⟨o, a, ho, ha, _, _, hoa⟩ | ⟨e, he, he'⟩
  · rcases operand_cases host h context 1 with ⟨o', a', ho', ha', _, _, hoa'⟩ | ⟨e, he, he'⟩
    · simp only [Actions.bind_apply, ho, ha, ho', ha', hoa.identical hs hd hoa']
      exact Answers.plain ht hs rfl
    · simp only [Actions.bind_apply, ho, ha, he, he']
      exact Answers.fail e _
  · simp only [Actions.bind_apply, he, he']
    exact Answers.fail e _

theorem answers_compare (ht : host.strings = w.texts) (hs : w.texts.Sound)
    (h : List.Forall₂ w.Stands operands args) (context : String) (numbers : Number → Number → Bool)
    (texts : String → String → Bool) :
    w.Answers host #[] (Primitive.compareOperands context numbers texts operands host)
      (Argument.compare context numbers texts args) := by
  unfold Primitive.compareOperands Argument.compare
  rcases operand_cases host h context 0 with ⟨o, a, ho, ha, _, _, hoa⟩ | ⟨e, he, he'⟩
  · rcases operand_cases host h context 1 with ⟨o', a', ho', ha', _, _, hoa'⟩ | ⟨e, he, he'⟩
    · simp only [Actions.bind_apply, ho, ha, ho', ha']
      have hfail : w.Answers host #[]
          (.error (.typeError context "two numbers or two strings" (Primitive.misfit o o')) host)
          (.error (.typeError context "two numbers or two strings" (a.misfit a'))) := by
        rw [hoa.misfit hoa']
        exact Answers.fail _ _
      rcases o with ⟨d⟩ | _ | _ <;> rcases a with ⟨x⟩ | _ | _ <;> simp only [Stands] at hoa
      · rcases o' with ⟨d'⟩ | _ | _ <;> rcases a' with ⟨x'⟩ | _ | _ <;> simp only [Stands] at hoa'
        · cases d <;> cases x <;> simp only [Means] at hoa <;> cases d' <;> cases x' <;>
            simp only [Means] at hoa'
          case number.number.number.number =>
            subst hoa hoa'
            exact Answers.plain ht hs rfl
          case string.string.string.string =>
            simp only [Actions.bind_apply, Actions.get_apply, Host.text, ht, hoa.text, hoa'.text]
            exact Answers.plain ht hs rfl
          all_goals exact hfail
        all_goals cases d <;> cases x <;> simp only [Means] at hoa <;> exact hfail
      all_goals exact hfail
    · simp only [Actions.bind_apply, ho, ha, he, he']
      exact Answers.fail e _
  · simp only [Actions.bind_apply, he, he']
    exact Answers.fail e _

/-- A text that is made is interned, which keeps the texts that are held. -/
theorem answers_intern (ht : host.strings = w.texts) (hs : w.texts.Sound) (s : String) :
    w.Answers host #[] ((do return .string (← Host.intern s) : HostM Datum) host)
      (.ok (.string s)) := by
  have hi := hs.intern s
  simp only [Host.intern, Actions.bind_apply, Actions.modifyGet_apply, Actions.pure_apply, ht]
  refine ⟨by simp, ⟨hi.1, fun hh => (hi.2 _ _).mpr (Or.inl hh)⟩, ?_⟩
  exact hs.holds_intern s

theorem answers_sum (ht : host.strings = w.texts) (hs : w.texts.Sound) {o o' : Operand}
    {a a' : Argument} (hoa : w.Stands o a) (hoa' : w.Stands o' a') :
    w.Answers host #[] (Primitive.addOperands o o' host) (Argument.sum a a') := by
  have hjoin : w.Answers host #[]
      ((do
        let host ← get
        return .string (← Host.intern (host.joinText o ++ host.joinText o')) : HostM Datum) host)
      (.ok (.string (a.joinText ++ a'.joinText))) := by
    simp only [Actions.bind_apply, Actions.get_apply, hoa.joinText ht, hoa'.joinText ht]
    exact answers_intern ht hs _
  have hfail : w.Answers host #[]
      (.error (.typeError "+" "numbers or strings" (Primitive.misfit o o')) host)
      (.error (.typeError "+" "numbers or strings" (a.misfit a'))) := by
    rw [hoa.misfit hoa']
    exact Answers.fail _ _
  unfold Primitive.addOperands Argument.sum
  rcases o with ⟨d⟩ | _ | _ <;> rcases a with ⟨x⟩ | _ | _ <;> simp only [Stands] at hoa
  · rcases o' with ⟨d'⟩ | _ | _ <;> rcases a' with ⟨x'⟩ | _ | _ <;> simp only [Stands] at hoa'
    · cases d <;> cases x <;> simp only [Means] at hoa <;> cases d' <;> cases x' <;>
        simp only [Means] at hoa'
      case number.number.number.number =>
        subst hoa hoa'
        exact Answers.plain ht hs rfl
      all_goals first | exact hjoin | exact hfail
    all_goals cases d <;> cases x <;> simp only [Means] at hoa <;> exact hfail
  all_goals exact hfail

end

end World

/-- **A primitive does what it means.** The value is the value of the meaning, and the output grows by
what the meaning shows; a fault is the same fault, and leaves the host as it was. -/
theorem Primitive.apply_meaning {w : World} {host : Host} (ht : host.strings = w.texts)
    (hs : w.texts.Sound) (hd : w.Distinct) {operands : List Operand} {args : List Argument}
    (h : List.Forall₂ w.Stands operands args) (p : Primitive) :
    w.Answers host (p.shows args) (p.apply operands host) (p.meaning args) := by
  have hquestion : ∀ (name : String) {o a}, w.Stands o a →
      decide (o.typeName = name) = decide (a.typeName = name) := by
    intro name o a hoa
    rw [hoa.typeName]
  cases p <;> simp only [Primitive.apply, Primitive.meaning, Primitive.shows]
  case add =>
    rcases World.operand_cases host h "+" 0 with ⟨o, a, ho, ha, _, _, hoa⟩ | ⟨e, he, he'⟩
    · rcases World.operand_cases host h "+" 1 with
        ⟨o', a', ho', ha', _, _, hoa'⟩ | ⟨e, he, he'⟩
      · simp only [Actions.bind_apply, ho, ha, ho', ha']
        exact World.answers_sum ht hs hoa hoa'
      · simp only [Actions.bind_apply, ho, ha, he, he']
        exact World.Answers.fail e _
    · simp only [Actions.bind_apply, he, he']
      exact World.Answers.fail e _
  case sub => exact World.answers_onNumbers ht hs h _ _
  case mul => exact World.answers_onNumbers ht hs h _ _
  case div => exact World.answers_onNumbers ht hs h _ _
  case rem => exact World.answers_onNumbers ht hs h _ _
  case same => exact World.answers_identical ht hs hd h _ id
  case differ => exact World.answers_identical ht hs hd h _ (fun b => !b)
  case less => exact World.answers_compare ht hs h _ _ _
  case greater => exact World.answers_compare ht hs h _ _ _
  case atMost => exact World.answers_compare ht hs h _ _ _
  case atLeast => exact World.answers_compare ht hs h _ _ _
  case not =>
    rcases World.boolean_cases host h "!" 0 with ⟨x, hx, hx'⟩ | ⟨e, he, he'⟩
    · simp only [Actions.bind_apply, hx, hx']
      exact World.Answers.plain ht hs rfl
    · simp only [Actions.bind_apply, he, he']
      exact World.Answers.fail e _
  case negate => exact World.answers_onNumber ht hs h _ _
  case display =>
    rcases World.operand_cases host h "display" 0 with
      ⟨o, a, ho, ha, _, harg, hoa⟩ | ⟨e, he, he'⟩
    · obtain ⟨rest, rfl⟩ : ∃ rest, args = a :: rest := by
        cases args with
        | nil => simp at harg
        | cons b rest => exact ⟨rest, by simpa using harg⟩
      simp only [Actions.bind_apply, Actions.modify_apply, Actions.pure_apply, ho, ha]
      refine ⟨?_, ⟨ht ▸ hs, fun hh => ht ▸ hh⟩, trivial⟩
      rw [hoa.render ht]
      exact Array.push_eq_append
    · simp only [Actions.bind_apply, he, he']
      exact World.Answers.fail e _
  case abs => exact World.answers_onNumber ht hs h _ _
  case floor => exact World.answers_onNumber ht hs h _ _
  case sqrt => exact World.answers_onNumber ht hs h _ _
  case max => exact World.answers_onNumbers ht hs h _ _
  case min => exact World.answers_onNumbers ht hs h _ _
  case isNumber =>
    refine World.answers_question ht hs h _ _ _ fun {o a} hoa => ?_
    rw [← hquestion "number" hoa]
    rcases o with ⟨_ | _ | _ | _ | _⟩ | _ | _ <;>
      simp [Operand.typeName, Datum.typeName]
  case isBoolean =>
    refine World.answers_question ht hs h _ _ _ fun {o a} hoa => ?_
    rw [← hquestion "boolean" hoa]
    rcases o with ⟨_ | _ | _ | _ | _⟩ | _ | _ <;>
      simp [Operand.typeName, Datum.typeName]
  case isString =>
    refine World.answers_question ht hs h _ _ _ fun {o a} hoa => ?_
    rw [← hquestion "string" hoa]
    rcases o with ⟨_ | _ | _ | _ | _⟩ | _ | _ <;>
      simp [Operand.typeName, Datum.typeName]
  case isUndefined =>
    refine World.answers_question ht hs h _ _ _ fun {o a} hoa => ?_
    rw [← hquestion "undefined" hoa]
    rcases o with ⟨_ | _ | _ | _ | _⟩ | _ | _ <;>
      simp [Operand.typeName, Datum.typeName]
  case isFunction =>
    refine World.answers_question ht hs h _ _ _ fun {o a} hoa => ?_
    rw [← hquestion "function" hoa]
    rcases o with ⟨_ | _ | _ | _ | _⟩ | _ | _ <;>
      simp [Operand.typeName, Datum.typeName]

/-! ## Other names for closures

Primitives tell closures apart and nothing else: which identities they have makes no difference. -/

namespace Argument

/-- The same argument, up to names of closures. -/
inductive Alike (names : Nat → Nat → Prop) : Argument → Argument → Prop
  | literal (x : Literal) : Alike names (.literal x) (.literal x)
  | function {x y : Nat} (arity : Nat) : names x y → Alike names (.function x arity) (.function y arity)
  | primitive (id : Nat) : Alike names (.primitive id) (.primitive id)

/-- Names that correspond to equal ones are equal. -/
def OneToOne (names : Nat → Nat → Prop) : Prop :=
  ∀ ⦃x y x' y' : Nat⦄, names x y → names x' y' → (x = x' ↔ y = y')

variable {names : Nat → Nat → Prop} {a a' b b' : Argument} {args args' : List Argument}

theorem Alike.typeName (h : Alike names a a') : a.typeName = a'.typeName := by
  cases h <;> rfl

theorem Alike.render (h : Alike names a a') : a.render = a'.render := by
  cases h <;> rfl

theorem Alike.answer (h : Alike names a a') : a.answer = a'.answer := by
  cases h <;> rfl

theorem Alike.eq_literal {x : Literal} (h : Alike names a (.literal x)) : a = .literal x := by
  cases h
  rfl

theorem Alike.identical (hn : OneToOne names) (ha : Alike names a a') (hb : Alike names b b') :
    a.identical b = a'.identical b' := by
  cases ha with
  | literal x => cases x <;> cases hb <;> rfl
  | primitive id => cases hb <;> rfl
  | function arity hx =>
    cases hb with
    | function arity' hy => exact decide_eq_decide.mpr (hn hx hy)
    | literal y => rfl
    | primitive id => rfl

theorem Alike.sum (ha : Alike names a a') (hb : Alike names b b') : a.sum b = a'.sum b' := by
  cases ha with
  | literal x => cases x <;> cases hb <;> rfl
  | function arity hx => cases hb <;> rfl
  | primitive id => cases hb <;> rfl

section

variable (h : List.Forall₂ (Alike names) args args')
include h

/-- Arguments that are not there are missing on both sides. -/
theorem alike_get (context : String) (i : Nat) :
    (∃ e, get context args i = .error e ∧ get context args' i = .error e) ∨
      ∃ a a', get context args i = .ok a ∧ get context args' i = .ok a' ∧ Alike names a a' := by
  rcases World.forall₂_getElem? h i with ⟨hi, hi'⟩ | ⟨a, a', hi, hi', haa⟩
  · exact .inl ⟨_, by rw [get, hi], by rw [get, hi']⟩
  · exact .inr ⟨a, a', by rw [get, hi], by rw [get, hi'], haa⟩

theorem alike_number (context : String) (i : Nat) : number context args i = number context args' i := by
  rcases World.forall₂_getElem? h i with ⟨hi, hi'⟩ | ⟨a, a', hi, hi', haa⟩
  · simp only [number, typeAt, hi, hi']
  · cases haa <;> simp only [number, typeAt, hi, hi', typeName]

theorem alike_boolean (context : String) (i : Nat) :
    boolean context args i = boolean context args' i := by
  rcases World.forall₂_getElem? h i with ⟨hi, hi'⟩ | ⟨a, a', hi, hi', haa⟩
  · simp only [boolean, typeAt, hi, hi']
  · cases haa <;> simp only [boolean, typeAt, hi, hi', typeName]

theorem alike_onNumber (context : String) (f : Number → Number) :
    onNumber context f args = onNumber context f args' := by
  rw [onNumber, onNumber, alike_number h]

theorem alike_onNumbers (context : String) (f : Number → Number → Number) :
    onNumbers context f args = onNumbers context f args' := by
  rw [onNumbers, onNumbers, alike_number h, alike_number h]

theorem alike_question (context : String) (test : String → Bool) :
    question context (fun a => test a.typeName) args = question context (fun a => test a.typeName) args' := by
  rcases alike_get h context 0 with ⟨e, he, he'⟩ | ⟨a, a', ha, ha', haa⟩
  · rw [question, question, he, he']
  · rw [question, question, ha, ha']
    exact congrArg (fun name => Except.ok (Literal.boolean (test name))) haa.typeName

/-- What is done with two arguments. -/
theorem alike_pair {α : Type} (context : String) {f : Argument → Argument → Except Fault α}
    (hf : ∀ {a a' b b'}, Alike names a a' → Alike names b b' → f a b = f a' b') :
    (do f (← get context args 0) (← get context args 1)) =
      (do f (← get context args' 0) (← get context args' 1)) := by
  rcases alike_get h context 0 with ⟨e, he, he'⟩ | ⟨a, a', ha, ha', haa⟩
  · rw [he, he']
    rfl
  · rcases alike_get h context 1 with ⟨e, he, he'⟩ | ⟨b, b', hb, hb', hbb⟩
    · rw [ha, ha', he, he']
      rfl
    · rw [ha, ha', hb, hb']
      exact hf haa hbb

theorem alike_compare (context : String) (numbers : Number → Number → Bool)
    (texts : String → String → Bool) :
    compare context numbers texts args = compare context numbers texts args' := by
  refine alike_pair h context fun ha hb => ?_
  cases ha with
  | literal x => cases x <;> cases hb <;> rfl
  | function arity hx => cases hb <;> rfl
  | primitive id => cases hb <;> rfl

end

end Argument

/-- **Primitives do not see names of closures.** -/
theorem Primitive.meaning_alike {names : Nat → Nat → Prop} (hn : Argument.OneToOne names)
    {args args' : List Argument} (h : List.Forall₂ (Argument.Alike names) args args') (p : Primitive) :
    p.meaning args = p.meaning args' := by
  cases p with
  | add => exact Argument.alike_pair h "+" fun ha hb => ha.sum hb
  | same =>
    refine Argument.alike_pair h "===" fun {a a' b b'} ha hb => ?_
    rw [ha.identical hn hb]
  | differ =>
    refine Argument.alike_pair h "!==" fun {a a' b b'} ha hb => ?_
    rw [ha.identical hn hb]
  | less | greater | atMost | atLeast => exact Argument.alike_compare h _ _ _
  | not =>
    show (do return Literal.boolean (!(← Argument.boolean "!" args 0))) = _
    rw [Argument.alike_boolean h]
    rfl
  | display =>
    rcases Argument.alike_get h "display" 0 with ⟨e, he, he'⟩ | ⟨a, a', ha, ha', -⟩
    · simp only [Primitive.meaning, he, he']
    · simp only [Primitive.meaning, ha, ha']
      rfl
  | sub | mul | div | rem | max | min => exact Argument.alike_onNumbers h _ _
  | negate | abs | floor | sqrt => exact Argument.alike_onNumber h _ _
  | isNumber | isBoolean | isString | isUndefined | isFunction =>
    exact Argument.alike_question h _ (fun name => name = _)

theorem Primitive.shows_alike {names : Nat → Nat → Prop} {args args' : List Argument}
    (h : List.Forall₂ (Argument.Alike names) args args') (p : Primitive) :
    p.shows args = p.shows args' := by
  cases h with
  | nil => rfl
  | cons ha _ => cases p <;> first | exact congrArg (#[·]) ha.render | rfl

end ClosureMachine
