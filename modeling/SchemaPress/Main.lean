import SchemaPress.CommandLine.Run

/-!
The program: it loads the files that its arguments name, runs the command line on them, prints the
report and stores the files that are new or changed. It starts no other programs, so code is never
formatted.
-/

namespace SchemaPress.Main

/-- The paths that an argument may name: itself, or the value of an option. -/
def pathsIn (argument : String) : List String :=
  let cs := argument.toList
  [argument, String.ofList (cs.drop 2), String.ofList ((cs.dropWhile (· ≠ '=')).drop 1)]

/-- Adds a directory with everything in it. The content of its files does not matter. -/
partial def addDirectory (place : Place) (files : FileTree) : IO FileTree := do
  let top ← IO.currentDir
  let mut files := files.withDirectories place
  for entry in ← (top / place.text).readDir do
    let inner := place ++ [entry.fileName]
    if ← entry.path.isDir then
      files ← addDirectory inner files
    else if (files.get? inner).isNone then
      files := files.set inner (.file "")
  return files

/-- Adds what a path leads to, if it exists. -/
def addPath (workingDir : Place) (files : FileTree) (path : String) : IO FileTree := do
  let place := CommandLine.placeOf workingDir path
  let target := (← IO.currentDir) / place.text
  if ← target.isDir then addDirectory place files
  else if ← target.pathExists then
    match String.fromUTF8? (← IO.FS.readBinFile target) with
    | some text => return (files.withDirectories place.dropLast).set place (.file text)
    | none => return files
  else return files

/-- Stores an entry of a file tree. -/
def store (place : Place) : FileEntry → IO Unit
  | .directory => IO.FS.createDirAll place.text
  | .file content => IO.FS.writeFile place.text content

/-- Runs the command line. -/
def run (arguments : List String) : IO UInt32 := do
  let workingDir := ModulePath.normalize [] (ModulePath.components (← IO.currentDir).toString)
  let paths := arguments.flatMap pathsIn
  let files ← paths.foldlM (addPath workingDir) (FileTree.withDirectories [] workingDir)
  let (report, after) := CommandLine.run workingDir {} arguments files
  (after.filter fun entry => !files.contains entry).forM fun entry => store entry.1 entry.2
  IO.print report.output
  IO.eprint report.problems
  match report.ending with
  | .misused => IO.eprintln "Usage: gen [-s SPEC] [-c CONFIG] DOCUMENT OUTPUT"
  | .stopped failure => IO.eprintln failure.inspected
  | .done | .failed => pure ()
  return report.ending.code.toUInt32

end SchemaPress.Main

/-- Runs the command line on the arguments of the program. -/
def main (arguments : List String) : IO UInt32 :=
  SchemaPress.Main.run arguments
