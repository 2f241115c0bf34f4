import SchemaPress.Compile
import SchemaPress.Files.Write

/-!
Writing what a document compiles to. A bundle that cannot be written is a failure; other modules
are written as far as possible.
-/

namespace SchemaPress

/-- A compiler and the files it writes to. -/
structure Workspace where
  compiler : Compiler
  files : FileTree

namespace Workspace

/-- The compiler of a workspace as a state of its own. -/
def withCompiler {α : Type} (action : Action Compiler α) : Action Workspace α :=
  action.within (·.compiler) fun compiler workspace => { workspace with compiler }

/-- The files of a workspace as a state of their own. -/
def withFiles {α : Type} (action : Action FileTree α) : Action Workspace α :=
  action.within (·.files) fun files workspace => { workspace with files }

/-- Writes modules into a directory, one after the other, and yields the places of those that were
written. -/
def writeEach (writer : Writer) (directory : Place) :
    Table String → Action Workspace (List Place)
  | [] => return []
  | (path, code) :: rest => do
    let place := directory.join path
    match ← (withFiles (writer place code)).attempt with
    | .ok () =>
      Action.record .info ("Wrote " ++ place.text)
      return place :: (← writeEach writer directory rest)
    | .error failure =>
      if failure.kind ≠ .file then throw failure
      if (← get).compiler.plan.method = .bundled then throw (.unwritten place.text failure)
      Action.record .error ("Failed to write to file: " ++ place.text ++ ": " ++ failure.shown)
      withCompiler (Compiler.fail path failure)
      writeEach writer directory rest

/-- The writer that the settings of the compiler ask for. -/
def writer (workspace : Workspace) : Writer :=
  .of workspace.compiler.settings.output.atomicWrite.isTruthy

/-- Compiles the document and writes its modules into a directory, with the writer of the settings
unless one is given. -/
def write (writer? : Option Writer) (directory : Place) : Action Workspace (List Place) := do
  let outputs ← withCompiler Compiler.compile
  writeEach (writer?.getD (← get).writer) directory outputs

end Workspace

end SchemaPress
