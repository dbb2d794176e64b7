import ClosureMachine.Number.Shortest
import ClosureMachine.Text.Column

/-!
# Numbers as text

One search for digits (`Reach.shortest`) serves two spellings, which differ only in where the
exponent form begins and whether an integer keeps a fraction. Percentages are printed with a fixed
number of places instead: the exact value of the double, a half going to the even neighbour.
-/

set_option autoImplicit false

namespace ClosureMachine

/-- How digits are laid out as text. -/
structure NumberFormat where
  /-- Which positions of the decimal point are written without an exponent. -/
  positional : Int → Bool
  /-- Whether an integer is written with the fraction `.0`. -/
  keepsFraction : Bool

namespace Decimal

/-- All digits in place, with zeros where the digits do not reach the point. -/
def positional (d : Decimal) (keepsFraction : Bool) : String :=
  if d.point ≤ 0 then
    "0." ++ Text.repeated '0' (-d.point).toNat ++ String.ofList d.digits
  else if d.digits.length ≤ d.point then
    String.ofList d.digits ++ Text.repeated '0' (d.point.toNat - d.digits.length)
      ++ (if keepsFraction then ".0" else "")
  else
    String.ofList (d.digits.take d.point.toNat) ++ "." ++ String.ofList (d.digits.drop d.point.toNat)

/-- One digit before the point, and the power of ten it stands for. -/
def scientific (d : Decimal) : String :=
  let fraction := d.digits.drop 1
  String.ofList (d.digits.take 1)
    ++ (if fraction.isEmpty then "" else "." ++ String.ofList fraction)
    ++ "e" ++ toString (d.point - 1)

/-- The decimal laid out as the format says. -/
def render (format : NumberFormat) (d : Decimal) : String :=
  if format.positional d.point then d.positional format.keepsFraction else d.scientific

end Decimal

namespace Number

/-- The number in the given format. A zero has no digits to search for, and keeps its sign. -/
def render (format : NumberFormat) (x : Number) : String :=
  let sign := if x.isNegative then "-" else ""
  match x.magnitude with
  | .nan => "NaN"
  | .infinite => sign ++ "inf"
  | .finite 0 _ => sign ++ (if format.keepsFraction then "0.0" else "0")
  | .finite m e => sign ++ ((Reach.ofParts m e).shortest.map (·.render format)).getD ""

/-- The spelling that programs see: never an exponent, and integers without a fraction. -/
def programFormat : NumberFormat := ⟨fun _ => true, false⟩

/-- The spelling in reports about memory words: an exponent from `10 ^ 16` on and below `10 ^ -4`,
and a fraction always. -/
def wordFormat : NumberFormat := ⟨fun point => decide (-4 < point ∧ point < 17), true⟩

instance : ToString Number := ⟨render programFormat⟩

/-- `num / den` to the nearest natural number, a half to the even one. -/
def roundHalfEven (num den : Nat) : Nat :=
  let q := num / den
  let twice := 2 * (num % den)
  if twice < den then q
  else if den < twice then q + 1
  else if q % 2 = 0 then q else q + 1

/-- The exact value of a number that is not negative, rounded to `places` decimal places. -/
def fixed (places : Nat) (x : Number) : String :=
  match x.magnitude with
  | .nan => "NaN"
  | .infinite => "inf"
  | .finite m e =>
    let one := Nat.pow 10 places
    let scaled := roundHalfEven ((m <<< e.toNat) * one) (1 <<< (-e).toNat)
    toString (scaled / one) ++ "." ++ Text.digits places (scaled % one)

end Number

end ClosureMachine
