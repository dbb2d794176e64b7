/-!
# Text in columns

Listings and log lines put numbers and mnemonics into columns. A width counts characters, and a
text that is already as wide as its column is left alone.
-/

set_option autoImplicit false

namespace ClosureMachine.Text

/-- `times` copies of `c`. -/
def repeated (c : Char) (times : Nat) : String :=
  String.ofList (List.replicate times c)

/-- `text` at the left edge of a column of `width` characters. -/
def alignLeft (width : Nat) (text : String) : String :=
  text ++ repeated ' ' (width - text.length)

/-- `text` at the right edge of a column of `width` characters. -/
def alignRight (width : Nat) (text : String) : String :=
  repeated ' ' (width - text.length) ++ text

/-- A number with at least `width` digits. -/
def digits (width : Nat) (n : Nat) : String :=
  repeated '0' (width - (toString n).length) ++ toString n

/-- A code address: at least four digits. -/
def address (n : Nat) : String := digits 4 n

end ClosureMachine.Text
