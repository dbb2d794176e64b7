/-!
# Why an operation on a file fails

The reasons for which files cannot be read or written, in the words and with the numbers that the
operating system has for them.
-/

set_option autoImplicit false

namespace ClosureMachine

/-- Why an operation on a file fails. -/
inductive FileError where
  | noSuchFile
  | permissionDenied
  | notADirectory
  | isADirectory
  | nameTooLong
  /-- Another reason, in words. -/
  | other (text : String)
deriving DecidableEq, Repr

/-- A reason in words. -/
def FileError.message : FileError → String
  | .noSuchFile => "No such file or directory (os error 2)"
  | .permissionDenied => "Permission denied (os error 13)"
  | .notADirectory => "Not a directory (os error 20)"
  | .isADirectory => "Is a directory (os error 21)"
  | .nameTooLong => "File name too long (os error 36)"
  | .other text => text

/-- The reason of a number. -/
def FileError.ofCode? : Nat → Option FileError
  | 2 => some .noSuchFile
  | 13 => some .permissionDenied
  | 20 => some .notADirectory
  | 21 => some .isADirectory
  | 36 => some .nameTooLong
  | _ => none

end ClosureMachine
