/-!
# Options of the command line

The command line names a file to run, or options. An option that takes values has them in the
following arguments, or its only value behind an equals sign. An argument that starts with a dash is
never a value, but for the dash alone; behind `--` everything is a file.

The values of an option are looked at when the next option or file begins, or at the end. So the
order of objections is not quite that of the arguments: an option that does not exist, or a switch
that is given a value, is noticed before anything is said about the option in front of it.
-/

set_option autoImplicit false

namespace ClosureMachine

/-- What the command line asks for. -/
structure Options where
  file : Option String
  heapSize : Option Nat
  maxSteps : Option Nat
  /-- Whether the program is listed before it runs. -/
  bytecode : Bool
  demo : Option String
  /-- Pairs of a demonstration and the file to write it to, all in one list. -/
  emitDemo : Option (List String)
deriving DecidableEq, Repr

/-- Why a command line asks for nothing that can be done. The last two are wishes and not mistakes. -/
inductive OptionError where
  /-- Two arguments that exclude each other, or an option that must not be repeated. -/
  | argumentConflict
  | unknownArgument
  /-- A value is missing, or empty where it must not be. -/
  | invalidValue
  /-- A value is not a number. -/
  | valueValidation
  | wrongNumberOfValues
  /-- A switch was given a value. -/
  | tooManyValues
  | displayHelp
  | displayVersion
deriving DecidableEq, Repr

namespace Options

/-- Nothing asked for. -/
def empty : Options := ⟨none, none, none, false, none, none⟩

/-- What values can be given for. -/
inductive Key where
  | file
  | heapSize
  | maxSteps
  | demo
  | emitDemo
deriving DecidableEq, Repr

/-- Options without a value. -/
inductive Switch where
  | bytecode
  | help
  | version
deriving DecidableEq, Repr

/-- The number of values. -/
def Key.count : Key → Nat
  | .emitDemo => 2
  | _ => 1

/-- The option of a name, which takes values. -/
def Key.ofName? : String → Option Key
  | "heap-size" => some .heapSize
  | "max-steps" => some .maxSteps
  | "demo" => some .demo
  | "emit-demo" => some .emitDemo
  | _ => none

/-- The option of a name, which takes no value. -/
def Switch.ofName? : String → Option Switch
  | "bc" => some .bytecode
  | "help" => some .help
  | "version" => some .version
  | _ => none

/-- The option of a letter. -/
def Switch.ofLetter? : Char → Option Switch
  | 'h' => some .help
  | 'V' => some .version
  | _ => none

/-! ## Values -/

/-- A number of 64 bits: decimal digits, of which there must be one, perhaps behind a plus sign. -/
def parseCount (s : String) : Except OptionError Nat :=
  let digits : List Char := match s.toList with
    | '+' :: rest => rest
    | all => all
  let value : Nat := digits.foldl (fun n c => 10 * n + (c.toNat - '0'.toNat)) 0
  if digits ≠ [] ∧ digits.all Char.isDigit ∧ value < UInt64.size then .ok value
  else .error .valueValidation

/-- Insists that an option was not given before. -/
def once {α : Type} (previous : Option α) : Except OptionError Unit :=
  if previous.isSome then .error .argumentConflict else .ok ()

/-- Takes over one value of an option. -/
def setValue (o : Options) (key : Key) (value : String) : Except OptionError Options := do
  match key with
  | .file => if value.isEmpty then throw .invalidValue else return { o with file := some value }
  | .heapSize =>
    once o.heapSize
    return { o with heapSize := some (← parseCount value) }
  | .maxSteps =>
    once o.maxSteps
    return { o with maxSteps := some (← parseCount value) }
  | .demo =>
    once o.demo
    return { o with demo := some value }
  | .emitDemo => return { o with emitDemo := some (o.emitDemo.getD [] ++ [value]) }

/-- Takes over all values of an option, the number of which must be right. -/
def setValues (o : Options) (key : Key) (values : List String) : Except OptionError Options :=
  if values.isEmpty then .error .invalidValue
  else if values.length ≠ key.count then .error .wrongNumberOfValues
  else values.foldlM (fun o value => o.setValue key value) o

/-- Takes over a switch. -/
def setSwitch (o : Options) : Switch → Except OptionError Options
  | .bytecode => if o.bytecode then .error .argumentConflict else .ok { o with bytecode := true }
  | .help => .error .displayHelp
  | .version => .error .displayVersion

/-! ## Arguments -/

/-- How far the arguments have been read. -/
structure Reading where
  options : Options
  /-- An option or file whose values have not been looked at. -/
  pending : Option (Key × List String)
  /-- Whether there was a file. -/
  hasFile : Bool
  /-- Whether only files can follow. -/
  onlyFiles : Bool

namespace Reading

/-- At the first argument. -/
def start : Reading := ⟨Options.empty, none, false, false⟩

/-- Takes over what is pending. -/
def settle (r : Reading) : Except OptionError Options :=
  match r.pending with
  | some (key, values) => r.options.setValues key values
  | none => .ok r.options

/-- Reads a file. There can be one. -/
def addFile (r : Reading) (path : String) : Except OptionError Reading := do
  if r.hasFile then throw .unknownArgument
  return { r with options := ← r.settle, pending := some (.file, [path]), hasFile := true }

/-- Reads a switch. -/
def addSwitch (r : Reading) (switch : Switch) : Except OptionError Reading := do
  let options ← r.settle
  return { r with options := ← options.setSwitch switch, pending := none }

/-- Reads an option by its name, perhaps with a value behind an equals sign. -/
def addLong (r : Reading) (name : String) (attached : Option String) :
    Except OptionError Reading := do
  match Key.ofName? name, Switch.ofName? name, attached with
  | some key, _, some value =>
    let options ← r.settle
    return { r with options := ← options.setValues key [value], pending := none }
  | some key, _, none => return { r with options := ← r.settle, pending := some (key, []) }
  | none, some _, some _ => throw .tooManyValues
  | none, some switch, none => r.addSwitch switch
  | none, none, _ => throw .unknownArgument

/-- Reads letters behind one dash. None of the options with a letter lets another one follow. -/
def addLetters (r : Reading) (letters : List Char) : Except OptionError Reading :=
  match letters.head?.bind Switch.ofLetter? with
  | some switch => r.addSwitch switch
  | none => .error .unknownArgument

/-- Reads a value or a file. -/
def addPlain (r : Reading) (arg : String) : Except OptionError Reading :=
  match r.pending with
  | some (key, values) =>
    if values.length < key.count then .ok { r with pending := some (key, values ++ [arg]) }
    else r.addFile arg
  | none => r.addFile arg

/-- Reads one argument. -/
def add (r : Reading) (arg : String) : Except OptionError Reading :=
  if r.onlyFiles then r.addFile arg
  else match arg.toList with
    | ['-', '-'] => .ok { r with onlyFiles := true }
    | '-' :: '-' :: rest =>
      let name := rest.takeWhile (· ≠ '=')
      let behind := rest.dropWhile (· ≠ '=')
      r.addLong (String.ofList name)
        (if behind.isEmpty then none else some (String.ofList (behind.drop 1)))
    | '-' :: c :: rest => r.addLetters (c :: rest)
    | _ => r.addPlain arg

end Reading

/-- Whether no two options exclude each other. A file, a demonstration to run and one to write do. -/
def compatible (o : Options) : Bool :=
  !((o.file.isSome && (o.demo.isSome || o.emitDemo.isSome)) ||
    (o.demo.isSome && o.emitDemo.isSome))

/-- What the arguments ask for. -/
def parse (args : List String) : Except OptionError Options := do
  let reading ← args.foldlM Reading.add Reading.start
  let options ← reading.settle
  if options.compatible then return options else throw .argumentConflict

end Options

end ClosureMachine
