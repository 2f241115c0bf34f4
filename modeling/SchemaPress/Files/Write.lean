import SchemaPress.Files.Tree

/-!
Writing files. Missing directories above a file are made first. An atomic write fills a temporary
file beside its target and then moves it there, so the target never holds a part of the content.
Beside what the file tree does not allow, any step can fail on its own.
-/

namespace SchemaPress

/-- The steps of a write that can fail on their own. A directory below missing ones is tried to be
made again once these are there. -/
inductive WriteStep where
  | makeDirectory (place : Place) (isRetry : Bool)
  | createTemporary
  | fill
  | replace
  deriving DecidableEq, Repr

/-- Which steps of a write fail, and how, and what a file holds then if filling it fails. -/
structure WriteFaults where
  fault? : WriteStep → Option FileFault := fun _ => none
  leftover : String := ""

namespace WriteFaults

/-- No step fails on its own. -/
def none : WriteFaults := {}

/-- Fails if a step is to fail. -/
def check (faults : WriteFaults) (step : WriteStep) : Action FileTree Unit :=
  match faults.fault? step with
  | some fault => throw (.file fault)
  | Option.none => return

end WriteFaults

namespace FileTree

/-- Makes one directory, whose parent has to exist. -/
def makeDirectory (faults : WriteFaults) (place : Place) (isRetry : Bool) :
    Action FileTree Unit := do
  faults.check (.makeDirectory place isRetry)
  let tree ← get
  let target ← tree.locate place
  if (tree.get? target).isSome then throw (.file .occupied)
  MonadState.set (tree ++ [(target, .directory)])

/-- What it means that a directory cannot be made: nothing if it is there, unless something above
it is missing. -/
def settleDirectory (place : Place) : Failure → Action FileTree Unit
  | .file .missing => throw (.file .missing)
  | failure => do
    let tree ← get
    unless failure.kind = .file && tree.isDirectory place do throw failure

/-- Makes one directory unless it exists. -/
def ensureDirectory (faults : WriteFaults) (place : Place) (isRetry : Bool) :
    Action FileTree Unit := do
  try makeDirectory faults place isRetry
  catch failure => settleDirectory place failure

/-- Makes a directory and those missing above it, given the names of the place from the last to
the first. -/
def makeDirectoriesWith (faults : WriteFaults) : List String → Action FileTree Unit
  | [] => ensureDirectory faults [] false
  | name :: above => do
    let place := (name :: above).reverse
    match ← (makeDirectory faults place false).attempt with
    | .ok () => return
    | .error (.file .missing) =>
      makeDirectoriesWith faults above
      ensureDirectory faults place true
    | .error failure => settleDirectory place failure

/-- Makes a directory and those missing above it. -/
def makeDirectories : List String → Action FileTree Unit :=
  makeDirectoriesWith .none

/-- Where a file with a place goes: a place without `..` at which there is no directory. -/
def fileTarget (tree : FileTree) (place : Place) : Except Failure Place := do
  let target ← tree.locate place
  match tree.get? target with
  | some .directory => .error (.file .isDirectory)
  | _ => return target

/-- The number of bytes by which the name of a temporary file is longer than the name of its
target. -/
def temporaryExtra : Nat := 14

/-- The names that a temporary file for a target can have. -/
def temporaryName (target : String) (number : Nat) : String :=
  let digits := Nat.toDigits 10 number
  "." ++ target ++ "." ++ String.ofList (List.replicate (8 - digits.length) '0' ++ digits) ++ ".tmp"

/-- A place for a temporary file in a directory, at which there is nothing yet. -/
def temporaryPlace (tree : FileTree) (directory : Place) (target : String) : Place :=
  let places := (List.range (tree.length + 1)).map fun number =>
    directory ++ [temporaryName target number]
  (places.find? fun place => (tree.get? place).isNone).getD directory

end FileTree

/-- A way to write a content to a place. -/
abbrev Writer := Place → String → Action FileTree Unit

namespace Writer

/-- Creates an empty temporary file beside a target. -/
def createTemporary (place : Place) : Action FileTree Place := do
  let tree ← get
  let name := (place.getLast?).getD ""
  let directory ← tree.locate place.dropLast
  if name.toList.contains '\x00' then throw (.mismatch .value)
  let size := name.utf8ByteSize + FileTree.temporaryExtra
  let total := directory.text.utf8ByteSize + 1 + size
  if FileTree.nameLimit < size || FileTree.pathLimit < total then
    throw (.file .nameTooLong)
  let temporary := tree.temporaryPlace directory name
  set (tree.set temporary (.file ""))
  return temporary

/-- Fills a temporary file. -/
def fill (faults : WriteFaults) (temporary : Place) (content : String) : Action FileTree Unit :=
  match faults.fault? .fill with
  | none => modify fun tree => tree.set temporary (.file content)
  | some fault => do
    modify fun tree => tree.set temporary (.file faults.leftover)
    throw (.file fault)

/-- Moves a temporary file to its target. -/
def replace (temporary place : Place) : Action FileTree Unit := do
  let tree ← get
  let target ← tree.fileTarget place
  match tree.get? temporary with
  | some entry => set ((tree.erase temporary).set target entry)
  | none => throw (.file .missing)

/-- Writes a file in one step, as far as others can see. -/
def atomicWith (faults : WriteFaults) : Writer := fun place content => do
  FileTree.makeDirectoriesWith faults place.dropLast.reverse
  faults.check .createTemporary
  let temporary ← createTemporary place
  try
    fill faults temporary content
    faults.check .replace
    replace temporary place
  catch failure =>
    modify (FileTree.erase temporary)
    throw failure
  Action.record .debug ("Wrote " ++ place.text)

/-- Writes a file in one step, as far as others can see. -/
def atomic : Writer := atomicWith .none

/-- Writes a file at its place. -/
def direct : Writer := fun place content => do
  FileTree.makeDirectories place.dropLast.reverse
  let tree ← get
  let target ← tree.fileTarget place
  set (tree.set target (.file content))

/-- The writer that settings ask for. -/
def of (isAtomic : Bool) : Writer :=
  if isAtomic then atomic else direct

/-- The atomic writer, except that files whose name contains a text cannot be written. -/
def failingOn (piece : String) : Writer := fun place content =>
  if Text.contains ((place.getLast?).getD "") piece then throw (.file .denied)
  else atomic place content

end Writer

end SchemaPress
