import ClosureMachine.Number.Basic

/-!
# The fewest digits that read back

A double stands for all reals that round to it. Among the decimals in that interval the printers
want one with as few digits as possible and, of those, the one nearest to the double itself.

The search is by number of digits. For each count the decimals of that many digits form a grid, and
if the interval holds a point of the grid at all, it holds one of the two points next to the
double: those two are the only candidates. All comparisons are between natural numbers, over a
common denominator.
-/

set_option autoImplicit false

namespace ClosureMachine

/-- A positive decimal `0.d₁d₂d₃… · 10 ^ point`, whose first and last digits are not zero. -/
structure Decimal where
  digits : List Char
  point : Int
deriving DecidableEq, Repr

/-- A double and the interval of reals that round to it, each a multiple of `1 / unit`. -/
structure Reach where
  lower : Nat
  value : Nat
  upper : Nat
  unit : Nat
  /-- Whether the ends of the interval round to the double too. -/
  closed : Bool

namespace Reach

/-- The reach of `significand · 2 ^ exponent`. The interval ends half way to the neighbours; below
a power of two the neighbour is only half as far, unless the numbers there are subnormal. An end
rounds to the even significand. -/
def ofParts (significand : Nat) (exponent : Int) : Reach :=
  let below := if significand = 1 <<< 52 ∧ -1074 < exponent then 1 else 2
  let scale := 1 <<< (exponent - 2).toNat
  { lower := (4 * significand - below) * scale
    value := 4 * significand * scale
    upper := (4 * significand + 2) * scale
    unit := 1 <<< (2 - exponent).toNat
    closed := significand % 2 == 0 }

/-- The number of digits before the decimal point, negative or zero for a value below one tenth.
No double is below `10 ^ -340`, so the shifted quotient has at least one digit. -/
def point (r : Reach) : Int :=
  (Nat.toDigits 10 (r.value * Nat.pow 10 340 / r.unit)).length - (340 : Int)

/-- The multiple of `10 ^ place` in the interval that is next to the value, if there is one. Of
two that are equally near, the upper one is taken. -/
def onGrid (r : Reach) (place : Int) : Option Nat :=
  let fine := Nat.pow 10 (-place).toNat
  let step := r.unit * Nat.pow 10 place.toNat
  let value := r.value * fine
  let d := value / step
  let fits (least most : Nat) : Bool := if r.closed then least ≤ most else least < most
  match fits (r.lower * fine) (d * step), fits ((d + 1) * step) (r.upper * fine) with
  | true, true => some (if 2 * (value - d * step) < step then d else d + 1)
  | true, false => some d
  | false, true => some (d + 1)
  | false, false => none

/-- The shortest decimal in the interval. Seventeen digits always suffice for a double. -/
def shortest (r : Reach) : Option Decimal :=
  let point := r.point
  (List.range' 1 17).findSome? fun (count : Nat) =>
    (r.onGrid (point - count)).map fun d =>
      let digits := Nat.toDigits 10 d
      { digits := (digits.reverse.dropWhile (· == '0')).reverse
        point := digits.length + (point - count) }

end Reach

end ClosureMachine
