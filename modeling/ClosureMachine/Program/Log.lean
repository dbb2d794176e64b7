import ClosureMachine.Log
import ClosureMachine.Program.Basic

/-!
# The log of a compilation
-/

set_option autoImplicit false

namespace ClosureMachine

/-- Adds the line that says what a compilation has made. -/
def Program.logCompiled (p : Program) (log : Log) : Log :=
  log.add .debug .compilation fun _ =>
    s!"compiled {p.code.size} instructions, {p.functionEntries.length} function bodies, main stack {p.mainStack}"

end ClosureMachine
