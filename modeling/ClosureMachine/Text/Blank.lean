/-!
# White space

The characters that Unicode calls white space, and the removal of them at both ends of a text.
-/

set_option autoImplicit false

namespace ClosureMachine.Text

/-- Whether a character is white space: the property of that name has these characters and no
others. -/
def isBlank (c : Char) : Bool :=
  let n := c.toNat
  (0x09 ≤ n && n ≤ 0x0d) || n == 0x20 || n == 0x85 || n == 0xa0 || n == 0x1680
    || (0x2000 ≤ n && n ≤ 0x200a) || n == 0x2028 || n == 0x2029 || n == 0x202f || n == 0x205f
    || n == 0x3000

/-- A text without the white space at its ends. -/
def trim (s : String) : String :=
  String.ofList ((s.toList.dropWhile isBlank).reverse.dropWhile isBlank).reverse

end ClosureMachine.Text
