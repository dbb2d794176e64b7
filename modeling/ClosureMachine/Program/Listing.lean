import ClosureMachine.Program.Basic

/-!
# Listings

A listing shows a program one instruction a line, with a rule above every place where control can
arrive other than from the line before: the entry of a function, or the target of a jump. Only jump
targets have a mark on the line itself. The statistics count instructions by mnemonic.
-/

set_option autoImplicit false

namespace ClosureMachine.Program

/-- The addresses that some instruction jumps to. -/
def jumpTargets (p : Program) : List Nat :=
  p.code.toList.filterMap Instruction.jumpTarget

/-- The line of the instruction at `address`, with the rule above it if there is one. -/
def listingLine (entries targets : List Nat) (address : Nat) (i : Instruction) : String :=
  let isTarget := targets.contains address
  let rule :=
    if entries.contains address then
      s!"      ── fn @{Text.address address} ──────────────────────────\n"
    else if isTarget then "      ┌──────────────────────────────────\n"
    else ""
  rule ++ Text.address address ++ " " ++ (if isTarget then "► " else "  ") ++ i.text ++ "\n"

/-- All instructions, one a line. -/
def disassembly (p : Program) : String :=
  let entries := p.functionEntries
  let targets := p.jumpTargets
  String.join (p.code.toList.zipIdx.map fun (i, address) => listingLine entries targets address i)

/-- The double rule around the head of a listing. -/
def headRule : String := Text.repeated '═' 40 ++ "\n"

/-- The program with a head that gives its measures. -/
def listing (p : Program) : String :=
  "=== BYTECODE PROGRAM ===\n\n" ++ headRule
    ++ s!" {p.code.size} instructions\n"
    ++ s!" {p.functionEntries.length} function bodies\n"
    ++ s!" main operand stack: {p.mainStack}\n"
    ++ headRule ++ p.disassembly ++ "\n"

/-! ## Statistics -/

/-- The mnemonics of a program with their numbers of occurrences: the most frequent first, and
those that are equally frequent in alphabetical order. -/
def frequencies (p : Program) : List (String × Nat) :=
  let mnemonics := p.code.toList.map (·.mnemonic)
  let counted := mnemonics.eraseDups.map fun m => (m, mnemonics.count m)
  counted.mergeSort fun a b => b.2 < a.2 || (a.2 == b.2 && a.1 ≤ b.1)

/-- `count` as a percentage of `total`: the quotient is rounded to a double before it is scaled. -/
def percentage (count total : Nat) : Number :=
  ((Number.ofNat count).div (Number.ofNat total)).mul (Number.ofNat 100)

/-- The line for one mnemonic. -/
def frequencyLine (total : Nat) (entry : String × Nat) : String :=
  let share := (percentage entry.2 total).fixed 1
  "  " ++ Text.alignLeft 14 entry.1 ++ " " ++ Text.alignRight 4 (toString entry.2)
    ++ " (" ++ Text.alignRight 5 share ++ "%)\n"

/-- The measures of a program and its ten most frequent instructions. -/
def statistics (p : Program) : String :=
  "=== BYTECODE STATISTICS ===\n\n"
    ++ s!"Instructions:     {p.code.size}\n"
    ++ s!"Function bodies:  {p.functionEntries.length}\n"
    ++ "\nOp frequency:\n"
    ++ String.join ((p.frequencies.take 10).map (frequencyLine p.code.size))

end ClosureMachine.Program
