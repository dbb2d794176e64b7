/-!
# Doubles by their bits

The numbers of the language are IEEE-754 doubles. A `Number` holds the 64-bit pattern itself, so
that two numbers are equal as values exactly when they are written the same way on the wire:
`-0` and `0` are different values that compare equal, and a not-a-number equals itself as a value
although no comparison of the language says so.

Sums, products, quotients and square roots are those of the machine's floating-point unit, which
rounds to nearest. The sign operations and the remainder are defined on the bits: they are exact,
so nothing is left to rounding.
-/

set_option autoImplicit false

namespace ClosureMachine

/-- An IEEE-754 double, held as its bit pattern: sign, eleven bits of exponent, fifty-two bits of
fraction. -/
structure Number where
  /-- The pattern, the sign in the highest bit. -/
  bits : UInt64
deriving DecidableEq, Repr, Inhabited

/-- What a double says about size: not a number, infinite, or `significand · 2 ^ exponent`. -/
inductive Magnitude where
  | nan
  | infinite
  | finite (significand : Nat) (exponent : Int)
deriving DecidableEq, Repr

namespace Number

/-- The bits of a floating-point result. -/
def ofFloat (x : Float) : Number := ⟨x.toBits⟩

/-- The operand that the floating-point unit works on. -/
def toFloat (x : Number) : Float := Float.ofBits x.bits

/-- The double nearest to an integer. -/
def ofInt (i : Int) : Number := ofFloat (Float.ofInt i)

/-- The double nearest to a natural number. -/
def ofNat (n : Nat) : Number := ofInt n

/-- The quiet not-a-number that undefined operations give. -/
def nan : Number := ⟨0x7ff8000000000000⟩

/-! ## Parts of the pattern -/

/-- The sign bit. It is also set in `-0`. -/
def isNegative (x : Number) : Bool := x.bits >>> 63 == 1

/-- The biased exponent. -/
def exponentField (x : Number) : Nat := ((x.bits >>> 52) &&& 0x7ff).toNat

/-- The fraction, without the leading one that normal numbers leave out. -/
def fractionField (x : Number) : Nat := (x.bits &&& 0xfffffffffffff).toNat

/-- The size of a number. A biased exponent of 0 marks the subnormal numbers, which have no
leading one and share the exponent of the smallest normal ones. -/
def magnitude (x : Number) : Magnitude :=
  if x.exponentField = 0x7ff then
    if x.fractionField = 0 then .infinite else .nan
  else if x.exponentField = 0 then
    .finite x.fractionField (-1074)
  else
    .finite ((1 <<< 52) + x.fractionField) (x.exponentField - 1075)

/-- Whether the pattern is one of the not-a-number patterns. -/
def isNaN (x : Number) : Bool := x.magnitude == .nan

/-- The double of the given sign and exact size `significand · 2 ^ exponent`, for a significand of
at most 53 bits and an exponent of at least -1074. The significand is moved up until it fills 53
bits or the exponent reaches its least value. -/
def ofParts (negative : Bool) (significand : Nat) (exponent : Int) : Number :=
  let shift := min (52 - Nat.log2 significand) (exponent + 1074).toNat
  let scaled := significand <<< shift
  let field := if scaled < 1 <<< 52 then 0 else (exponent - shift + 1074).toNat
  let size := (field <<< 52) + scaled
  ⟨(if negative then 0x8000000000000000 else 0) ||| size.toUInt64⟩

/-! ## Arithmetic -/

def add (x y : Number) : Number := ofFloat (x.toFloat + y.toFloat)

def sub (x y : Number) : Number := ofFloat (x.toFloat - y.toFloat)

def mul (x y : Number) : Number := ofFloat (x.toFloat * y.toFloat)

def div (x y : Number) : Number := ofFloat (x.toFloat / y.toFloat)

/-- The remainder of the division that drops the fraction of the quotient. It has the sign of the
dividend and is always exact: it is a multiple of the smaller of the two last places and smaller
than either operand, so it fits the 53 bits. -/
def rem (x y : Number) : Number :=
  match x.magnitude, y.magnitude with
  | .nan, _ | _, .nan | .infinite, _ | _, .finite 0 _ => nan
  | .finite .., .infinite => x
  | .finite a p, .finite b q =>
    let e := min p q
    ofParts x.isNegative ((a <<< (p - e).toNat) % (b <<< (q - e).toNat)) e

/-- The number with the other sign. -/
def neg (x : Number) : Number := ⟨x.bits ^^^ 0x8000000000000000⟩

/-- The number without its sign. -/
def abs (x : Number) : Number := ⟨x.bits &&& 0x7fffffffffffffff⟩

/-- The greatest integer that is not greater. -/
def floor (x : Number) : Number := ofFloat x.toFloat.floor

def sqrt (x : Number) : Number := ofFloat x.toFloat.sqrt

/-! ## Comparison

A not-a-number is neither less than, equal to nor greater than anything. -/

/-- Numeric equality: the two zeros are the same. -/
def eq (x y : Number) : Bool := x.toFloat == y.toFloat

def lt (x y : Number) : Bool := x.toFloat < y.toFloat

def le (x y : Number) : Bool := x.toFloat ≤ y.toFloat

/-- The greater of two numbers; a not-a-number gives way to the other one. -/
def max (x y : Number) : Number :=
  if x.isNaN then y else if y.isNaN then x else if x.lt y then y else x

/-- The smaller of two numbers; a not-a-number gives way to the other one. -/
def min (x y : Number) : Number :=
  if x.isNaN then y else if y.isNaN then x else if y.lt x then y else x

end Number

end ClosureMachine
