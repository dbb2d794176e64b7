import ClosureMachine.Host.Basic
import ClosureMachine.Scope

/-!
# Primitive functions

The operators of the language and a small library. Programs reach them by name through the outermost
scope, where each has the slot of its number. They are ordinary values: they can be passed around,
and they shadow like any other name.

A primitive takes its operands unboxed and gives a datum; none makes functions. It looks at its
operands from left to right and objects to the first that does not fit.
-/

set_option autoImplicit false

namespace ClosureMachine

/-- The primitive functions. -/
inductive Primitive where
  | add
  | sub
  | mul
  | div
  | rem
  | same
  | differ
  | less
  | greater
  | atMost
  | atLeast
  | not
  | negate
  | display
  | abs
  | floor
  | sqrt
  | max
  | min
  | isNumber
  | isBoolean
  | isString
  | isUndefined
  | isFunction
deriving DecidableEq, Repr

namespace Primitive

/-- All primitives, in the order of their numbers. -/
def all : List Primitive :=
  [.add, .sub, .mul, .div, .rem, .same, .differ, .less, .greater, .atMost, .atLeast, .not, .negate,
    .display, .abs, .floor, .sqrt, .max, .min, .isNumber, .isBoolean, .isString, .isUndefined,
    .isFunction]

/-- The name under which programs know a primitive. -/
def name : Primitive → String
  | .add => "+"
  | .sub => "-"
  | .mul => "*"
  | .div => "/"
  | .rem => "%"
  | .same => "==="
  | .differ => "!=="
  | .less => "<"
  | .greater => ">"
  | .atMost => "<="
  | .atLeast => ">="
  | .not => "!"
  | .negate => "-unary"
  | .display => "display"
  | .abs => "math_abs"
  | .floor => "math_floor"
  | .sqrt => "math_sqrt"
  | .max => "math_max"
  | .min => "math_min"
  | .isNumber => "is_number"
  | .isBoolean => "is_boolean"
  | .isString => "is_string"
  | .isUndefined => "is_undefined"
  | .isFunction => "is_function"

/-- The number of operands. -/
def arity : Primitive → Nat
  | .not | .negate | .display | .abs | .floor | .sqrt | .isNumber | .isBoolean | .isString
  | .isUndefined | .isFunction => 1
  | _ => 2

/-- The primitive of a number. -/
def ofId? (id : Nat) : Option Primitive := all[id]?

/-- The primitive of a name. -/
def ofName? (name : String) : Option Primitive := all.find? (·.name = name)

/-- The outermost scope: all primitives, none of which can be assigned to. -/
def globals : Scopes := [all.map fun p => ⟨p.name, true⟩]

end Primitive

/-! ## Operands as text -/

/-- An operand as `display` shows it. -/
def Host.render (host : Host) : Operand → String
  | .datum value => (host.literalOf value).text
  | .closure _ arity => s!"<function/{arity}>"
  | .primitive id =>
    match Primitive.ofId? id with
    | some p => s!"<primitive {p.name}>"
    | none => "<primitive>"

/-- An operand as it is joined to a text: a text itself goes in without quotes. -/
def Host.joinText (host : Host) : Operand → String
  | .datum (.string id) => host.text id
  | operand => host.render operand

namespace Primitive

/-! ## Access to operands

`context` is the operation that messages name. -/

/-- An operand of any type. -/
def operand (context : String) (operands : List Operand) (i : Nat) : HostM Operand :=
  match operands[i]? with
  | some operand => return operand
  | none => throw (.typeError context "an argument" "nothing")

/-- The type of an operand that may be missing. -/
def typeAt (operands : List Operand) (i : Nat) : String :=
  match operands[i]? with
  | some operand => operand.typeName
  | none => "nothing"

/-- An operand that must be a number. -/
def number (context : String) (operands : List Operand) (i : Nat) : HostM Number :=
  match operands[i]? with
  | some (.datum (.number value)) => return value
  | _ => throw (.typeError context "number" (typeAt operands i))

/-- An operand that must be a truth value. -/
def boolean (context : String) (operands : List Operand) (i : Nat) : HostM Bool :=
  match operands[i]? with
  | some (.datum (.boolean value)) => return value
  | _ => throw (.typeError context "boolean" (typeAt operands i))

/-- A function of one number. -/
def onNumber (context : String) (f : Number → Number) (operands : List Operand) :
    HostM Datum := do
  return .number (f (← number context operands 0))

/-- A function of two numbers. -/
def onNumbers (context : String) (f : Number → Number → Number) (operands : List Operand) :
    HostM Datum := do
  return .number (f (← number context operands 0) (← number context operands 1))

/-- A question about one operand. -/
def question (context : String) (test : Operand → Bool) (operands : List Operand) :
    HostM Datum := do
  return .boolean (test (← operand context operands 0))

/-! ## What the primitives do -/

/-- The type to blame where two operands do not go together: the second one's, if the first is a
number, and otherwise the first one's. -/
def misfit (a b : Operand) : String :=
  match a with
  | .datum (.number _) => b.typeName
  | _ => a.typeName

/-- The sum of two numbers, or the text of two data of which one is a text. -/
def addOperands (a b : Operand) : HostM Datum :=
  let join : HostM Datum := do
    let host ← get
    return .string (← Host.intern (host.joinText a ++ host.joinText b))
  match a, b with
  | .datum (.number x), .datum (.number y) => return .number (x.add y)
  | .datum (.string _), .datum _ => join
  | .datum _, .datum (.string _) => join
  | _, _ => throw (.typeError "+" "numbers or strings" (misfit a b))

/-- Whether two operands are the same value: numbers by size, texts and functions by identity. -/
def identical : Operand → Operand → Bool
  | .datum (.number x), .datum (.number y) => x.eq y
  | .datum x, .datum y => x = y
  | .closure x _, .closure y _ => x = y
  | .primitive x, .primitive y => x = y
  | _, _ => false

/-- A comparison of two numbers or, in the order of their characters, of two texts. -/
def compareOperands (context : String) (numbers : Number → Number → Bool)
    (texts : String → String → Bool) (operands : List Operand) : HostM Datum := do
  let a ← operand context operands 0
  let b ← operand context operands 1
  match a, b with
  | .datum (.number x), .datum (.number y) => return .boolean (numbers x y)
  | .datum (.string x), .datum (.string y) =>
    let host ← get
    return .boolean (texts (host.text x) (host.text y))
  | _, _ => throw (.typeError context "two numbers or two strings" (misfit a b))

/-- Applies a primitive to operands, of which there may also be too few or too many. -/
def apply (p : Primitive) (operands : List Operand) : HostM Datum :=
  match p with
  | .add => do
    let a ← operand "+" operands 0
    let b ← operand "+" operands 1
    addOperands a b
  | .sub => onNumbers "-" Number.sub operands
  | .mul => onNumbers "*" Number.mul operands
  | .div => onNumbers "/" Number.div operands
  | .rem => onNumbers "%" Number.rem operands
  | .same => do
    let a ← operand "===" operands 0
    return .boolean (identical a (← operand "===" operands 1))
  | .differ => do
    let a ← operand "!==" operands 0
    return .boolean (!identical a (← operand "!==" operands 1))
  | .less => compareOperands "<" Number.lt (fun x y => decide (x < y)) operands
  | .greater => compareOperands ">" (fun x y => y.lt x) (fun x y => decide (y < x)) operands
  | .atMost => compareOperands "<=" Number.le (fun x y => decide (¬ y < x)) operands
  | .atLeast => compareOperands ">=" (fun x y => y.le x) (fun x y => decide (¬ x < y)) operands
  | .not => return .boolean (!(← boolean "!" operands 0))
  | .negate => onNumber "-" Number.neg operands
  | .display => do
    let shown ← operand "display" operands 0
    modify fun host =>
      let line := host.render shown
      { host with output := host.output.push line }
    return .undefined
  | .abs => onNumber "math_abs" Number.abs operands
  | .floor => onNumber "math_floor" Number.floor operands
  | .sqrt => onNumber "math_sqrt" Number.sqrt operands
  | .max => onNumbers "math_max" Number.max operands
  | .min => onNumbers "math_min" Number.min operands
  | .isNumber => question "is_number" (fun | .datum (.number _) => true | _ => false) operands
  | .isBoolean => question "is_boolean" (fun | .datum (.boolean _) => true | _ => false) operands
  | .isString => question "is_string" (fun | .datum (.string _) => true | _ => false) operands
  | .isUndefined => question "is_undefined" (fun | .datum .undefined => true | _ => false) operands
  | .isFunction =>
    question "is_function" (fun | .closure .. | .primitive _ => true | .datum _ => false) operands

end Primitive

end ClosureMachine
