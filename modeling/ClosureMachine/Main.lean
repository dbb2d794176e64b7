import ClosureMachine.CommandLine.Session

/-!
# The command line

Carries out a session with real files and shows its transcript. The exit status is that of the
transcript.
-/

set_option autoImplicit false

namespace ClosureMachine.CommandLine

/-- The reason of a failed operation on a file. -/
def reason (e : IO.Error) : FileError :=
  let known := match e with
    | .noFileOrDirectory _ code _ | .inappropriateType _ code _ | .permissionDenied _ code _
    | .invalidArgument _ code _ => FileError.ofCode? code.toNat
    | _ => none
  known.getD (.other (toString e))

/-- Runs an operation that may fail. -/
def attempt {α : Type} (act : IO α) : IO (Except FileError α) := do
  try
    return .ok (← act)
  catch e =>
    return .error (reason e)

/-- Carries out a session. -/
def carryOut : Job → IO Transcript
  | .finished transcript => return transcript
  | .readFile path next => do
    let bytes ← attempt (IO.FS.readBinFile path)
    return next (bytes.map (·.toList))
  | .writeFile path bytes next => do
    let outcome ← attempt (IO.FS.writeBinFile path ⟨bytes.toArray⟩)
    return next outcome

/-- More instructions than any run will ever take. -/
def fuel : Nat := 1 <<< 62

end ClosureMachine.CommandLine

open ClosureMachine

/-- Runs the command line. -/
def main (args : List String) : IO UInt32 := do
  let logSpec ← IO.getEnv "RUST_LOG"
  let transcript ← CommandLine.carryOut (Session.start CommandLine.fuel logSpec args)
  IO.print transcript.stdout
  IO.eprint transcript.stderr
  return transcript.status.toUInt32
