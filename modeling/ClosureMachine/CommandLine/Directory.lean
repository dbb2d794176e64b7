import ClosureMachine.CommandLine.Session

/-!
# Sessions in a directory

A small file system in memory, in which a session can be carried out without touching a disk. The
session works in a directory, and there are others above it, up to the root. Nothing tells those above
apart, so they count as one. There is no directory below, and going up is the only way from one
directory to another.
-/

set_option autoImplicit false

namespace ClosureMachine

/-- A directory of the file system. -/
inductive Folder where
  /-- The one that the session works in. -/
  | here
  /-- Those above it. -/
  | above
deriving DecidableEq, Repr

/-- The files of the file system, by directory and name. -/
abbrev Directory := List ((Folder × String) × List UInt8)

/-- What a path leads to. -/
inductive Spot where
  | folder (folder : Folder)
  | file (folder : Folder) (name : String) (bytes : List UInt8)
  /-- Nothing yet, under a name that a file could get. -/
  | free (folder : Folder) (name : String)

namespace Directory

/-- The directory that the session works in, with some files. -/
def ofFiles (files : List (String × List UInt8)) : Directory :=
  files.map fun (name, bytes) => ((.here, name), bytes)

/-- The most bytes that a name may have. -/
def nameLimit : Nat := 255

/-- The first number of bytes that a path may not have. -/
def pathLimit : Nat := 4096

/-- Goes from a place by one name. -/
def step (d : Directory) : Spot → String → Except FileError Spot
  | .file .., _ => .error .notADirectory
  | .free .., _ => .error .noSuchFile
  | .folder folder, "." => .ok (.folder folder)
  | .folder _, ".." => .ok (.folder .above)
  | .folder folder, name =>
    if name.utf8ByteSize > nameLimit then .error .nameTooLong
    else match List.lookup (folder, name) d with
      | some bytes => .ok (.file folder name bytes)
      | none => .ok (.free folder name)

/-- A path: where it starts, its names, and whether it ends with a slash and so names a directory. -/
structure Path where
  start : Folder
  names : List String
  trailing : Bool

/-- Reads a path. Several slashes are like one. -/
def path (text : String) : Except FileError Path :=
  if text.isEmpty then .error .noSuchFile
  else if text.utf8ByteSize ≥ pathLimit then .error .nameTooLong
  else .ok {
    start := if text.startsWith "/" then .above else .here
    names := (text.splitOn "/").filter (· ≠ "")
    trailing := text.endsWith "/" }

/-- Reads a file. -/
def read (d : Directory) (text : String) : Except FileError (List UInt8) := do
  let p ← path text
  match ← p.names.foldlM d.step (.folder p.start) with
  | .folder _ => .error .isADirectory
  | .free _ _ => .error .noSuchFile
  | .file _ _ bytes => if p.trailing then .error .notADirectory else .ok bytes

/-- Writes a file, which need not have been there. A name with a slash behind it is refused before
anybody looks for the file. -/
def write (d : Directory) (text : String) (bytes : List UInt8) : Except FileError Directory := do
  let p ← path text
  let parent ← p.names.dropLast.foldlM d.step (.folder p.start)
  match parent, p.trailing with
  | .folder _, true => .error .isADirectory
  | _, _ =>
    match ← p.names.getLast?.toList.foldlM d.step parent with
    | .folder _ => .error .isADirectory
    | .file folder name _ | .free folder name =>
      .ok (((folder, name), bytes) :: d.filter (·.1 ≠ (folder, name)))

/-- Carries out a session. -/
def run (d : Directory) : Job → Transcript × Directory
  | .finished transcript => (transcript, d)
  | .readFile path next => (next (d.read path), d)
  | .writeFile path bytes next =>
    match d.write path bytes with
    | .ok d => (next (.ok ()), d)
    | .error e => (next (.error e), d)

end Directory

end ClosureMachine
