/-!
# Text without terminal controls

Text for a terminal may hold control characters and control sequences, which steer the terminal and
are not shown. Where nobody looks at a terminal they are left out. A sequence begins with the escape
character. What follows tells its kind, and its kind tells where it ends; a cancelling character ends
any sequence, and another escape character begins a new one. Blanks such as a line feed are shown even
inside of the shorter sequences, and cut these off; the longer ones, which carry a text of their own,
swallow them.
-/

set_option autoImplicit false

namespace ClosureMachine.Terminal

/-- Where in a text for a terminal we are. -/
inductive Mode where
  /-- Outside of all sequences. -/
  | plain
  /-- Behind the escape character. -/
  | escape
  /-- In a short sequence whose last character is still to come. -/
  | short
  /-- In a control sequence, which ends with a letter or the like. -/
  | control
  /-- In a command to the system, which ends with a bell. -/
  | command
  /-- At the head of a string for a device. -/
  | deviceEntry
  /-- Among the parameters of a string for a device. -/
  | deviceParameter
  /-- Behind the parameters of a string for a device. -/
  | deviceIntermediate
  /-- In a string that is not for the reader. -/
  | string
deriving DecidableEq, Repr

/-- The control characters that are shown. -/
def isShownControl (n : Nat) : Bool := n == 0x09 || n == 0x0a || n == 0x0c || n == 0x0d

/-- The mode behind the character after an escape character. -/
def afterEscape (n : Nat) : Mode :=
  if n ≤ 0x2f then .short
  else if n = 0x5b then .control
  else if n = 0x5d then .command
  else if n = 0x50 then .deviceEntry
  else if n = 0x58 ∨ n = 0x5e ∨ n = 0x5f then .string
  else if n ≤ 0x7e then .plain
  else .escape

/-- The mode behind a character of a sequence that is neither a control character nor the beginning of
a new sequence. -/
def inside (mode : Mode) (c : Char) : Mode :=
  let n := c.toNat
  match mode with
  | .plain => .plain
  | .escape => afterEscape n
  | .short => if 0x30 ≤ n ∧ n ≤ 0x7e then .plain else .short
  | .control => if 0x40 ≤ n ∧ n ≤ 0x7e then .plain else .control
  | .command => .command
  | .deviceEntry =>
    if n ≤ 0x2f then .deviceIntermediate
    else if n ≤ 0x3f then .deviceParameter
    else if n ≤ 0x7e then .string
    else .deviceEntry
  | .deviceParameter =>
    if n ≤ 0x2f then .deviceIntermediate
    else if n ≤ 0x3b then .deviceParameter
    else if n ≤ 0x7e then .string
    else .deviceParameter
  | .deviceIntermediate => if 0x30 ≤ n ∧ n ≤ 0x7e then .string else .deviceIntermediate
  -- The terminator is a byte, and so also a part of some letters.
  | .string => if (String.utf8EncodeChar c).contains 0x9c then .plain else .string

/-- The mode behind a character, and whether the character is shown. -/
def step (mode : Mode) (c : Char) : Mode × Bool :=
  let n := c.toNat
  if n = 0x18 ∨ n = 0x1a then (.plain, false)
  else if n = 0x1b then (.escape, false)
  else if n < 0x20 then
    match mode with
    | .plain | .escape | .short | .control =>
      if isShownControl n then (.plain, true) else (mode, false)
    | .command => (if n = 0x07 then .plain else .command, false)
    | _ => (mode, false)
  else match mode with
    | .plain => (.plain, n ≠ 0x7f)
    | _ => (inside mode c, false)

/-- The characters that are shown of a text, from a mode on. -/
def shown : Mode → List Char → List Char
  | _, [] => []
  | mode, c :: rest =>
    match step mode c with
    | (next, true) => c :: shown next rest
    | (next, false) => shown next rest

/-- What is shown of a text. -/
def strip (s : String) : String := String.ofList (shown .plain s.toList)

end ClosureMachine.Terminal
