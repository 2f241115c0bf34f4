import SchemaPress.CommandLine.Options
import SchemaPress.Dependency.Tree
import SchemaPress.Module.Path
import SchemaPress.Plan.Entries
import SchemaPress.Workspace

/-!
The command line: generating modules for a document, and printing the dependency tree of a
definition. Progress goes to standard output and problems to standard error.
-/

namespace SchemaPress.CommandLine

/-- What is to be done. -/
inductive Command where
  | generate (plan? settings? : Option Place) (document output : Place)
  | analyze (document : Place) (ref : String)

/-- A command and how much is reported about it. -/
structure Request where
  threshold : Level
  command : Command

/-- How a run ends: the command line is not understood, the command is done, it failed, or a
failure that is not its own stopped it. -/
inductive Ending where
  | misused
  | done
  | failed
  | stopped (failure : Failure)

/-- The exit code for an ending. -/
def Ending.code : Ending → Nat
  | .misused => 2
  | .done => 0
  | .failed | .stopped _ => 1

/-- What a run reports. -/
structure Report where
  ending : Ending
  output : String := ""
  problems : String := ""

/-- The options before the command. -/
def mainOptions : List OptionSpec :=
  [{ key := "silent", long := "--silent" },
    { key := "verbose", long := "--verbose", short := some 'v' }]

/-- The options of generation. -/
def generateOptions : List OptionSpec :=
  [{ key := "spec", long := "--spec", short := some 's', hasValue := true },
    { key := "config", long := "--config", short := some 'c', hasValue := true }]

/-- The place that a path names. -/
def placeOf (workingDir : Place) (path : String) : Place :=
  ModulePath.resolve workingDir (ModulePath.isAbsolute path) (ModulePath.components path)

/-- The place that an argument names, if there can be such a place. -/
def placeGiven (workingDir : Place) (path : String) : Except Ending Place :=
  if path.toList.contains '\x00' then .error (.stopped (.mismatch .value))
  else .ok (placeOf workingDir path)

/-- The place of a file that has to exist. -/
def fileOf (workingDir : Place) (files : FileTree) (path : String) : Except Ending Place := do
  let place ← placeGiven workingDir path
  if (files.content? place).isSome then .ok place else .error .misused

/-- The place of a directory that has to exist. -/
def directoryOf (workingDir : Place) (files : FileTree) (path : String) :
    Except Ending Place := do
  let place ← placeGiven workingDir path
  if files.isDirectory place then .ok place else .error .misused

/-- The places of the files that options name, in the order in which the options were first
given. -/
def optionFiles (workingDir : Place) (files : FileTree) (arguments : Arguments) :
    Except Ending (Table Place) :=
  (Text.unique (arguments.options.map Prod.fst)).mapM fun key => do
    return (key, ← fileOf workingDir files ((arguments.value? key).getD ""))

/-- Whether the name of a file says that it is a program: a name before the ending of programs. -/
def isProgram (place : Place) : Bool :=
  match (((place.getLast?).getD "").toList).reverse with
  | 'y' :: 'p' :: '.' :: name => !name.isEmpty
  | _ => false

/-- Reads the options and arguments of a command. -/
def readAll (specs : List OptionSpec) (anywhere : Bool) (arguments : List String) :
    Except Ending Arguments :=
  (read? specs anywhere arguments).elim (.error .misused) .ok

/-- The first argument of a command, a file that has to exist, and the other arguments. -/
def documentFirst (workingDir : Place) (files : FileTree) :
    List String → Except Ending (Place × List String)
  | [] => .error .misused
  | document :: others => do return (← fileOf workingDir files document, others)

/-- The generation that arguments ask for. A plan that is a program is not understood. -/
def generationOf (workingDir : Place) (files : FileTree) (arguments : List String) :
    Except Ending Command := do
  let arguments ← readAll generateOptions true arguments
  let named ← optionFiles workingDir files arguments
  let (document, others) ← documentFirst workingDir files arguments.others
  match others with
  | [] => .error .misused
  | output :: others =>
    let output ← directoryOf workingDir files output
    let plan? := Table.get? named "spec"
    if !others.isEmpty || plan?.any isProgram then .error .misused
    else return .generate plan? (Table.get? named "config") document output

/-- The analysis that arguments ask for. -/
def analysisOf (workingDir : Place) (files : FileTree) (arguments : List String) :
    Except Ending Command := do
  let arguments ← readAll [] true arguments
  let (document, others) ← documentFirst workingDir files arguments.others
  match others with
  | [ref] => return .analyze document ref
  | _ => .error .misused

/-- The command that arguments ask for. -/
def commandOf (workingDir : Place) (files : FileTree) : List String → Except Ending Command
  | "gen" :: arguments => generationOf workingDir files arguments
  | "analyze-dependency-tree" :: arguments => analysisOf workingDir files arguments
  | _ => .error .misused

/-- The request that a command line makes. What is wrong with it shows in the order of options and
then of arguments. -/
def requestOf (workingDir : Place) (files : FileTree) (arguments : List String) :
    Except Ending Request := do
  let arguments ← readAll mainOptions false arguments
  return {
    threshold := Level.threshold (arguments.isSet "silent") (arguments.isSet "verbose")
    command := ← commandOf workingDir files arguments.others }

/-- The text of a file. -/
def textOf (place : Place) : Action FileTree String := do
  match (← get).content? place with
  | some text => return text
  | none => throw (.file .missing)

/-- The value in a file. -/
def valueOf (place : Place) : Action FileTree Json := do
  match Json.read (← textOf place) with
  | .ok value => return value
  | .error .malformed => throw .malformedJson
  | .error .longInteger => throw (.mismatch .value)

/-- The plan in a file, and the usual one without a file. -/
def planOf : Option Place → Action FileTree Plan
  | none => return {}
  | some place => do Plan.ofJson (← valueOf place)

/-- The settings in a file, and the usual ones without a file. -/
def settingsOf : Option Place → Action FileTree Settings
  | none => return {}
  | some place => do Settings.ofJson (← valueOf place)

/-- The document in a file. -/
def documentOf (place : Place) : Action FileTree Document := do
  Document.ofText place.text (← textOf place)

/-- Reports a failure of its own kind; other failures stop the run. -/
def reportFailure (withCause : Bool) (failure : Failure) : Action FileTree Ending := do
  if !failure.kind.isOwn then throw failure
  Action.record .error failure.shown
  if withCause then
    match failure.cause? with
    | some cause => Action.record .error ("Caused by: " ++ cause.shown)
    | none => pure ()
  return .failed

/-- Compiles a document and writes its modules; yields the compiler with the failures it noted. -/
def writeModules (workingDir : Place) (shell : Shell) (plan : Plan) (settings : Settings)
    (document output : Place) : Action FileTree Compiler := do
  let document ← documentOf document
  let compiler := Compiler.new workingDir document plan settings none shell
  fun files =>
    let (written, workspace) := Workspace.write none output { compiler, files }
    ({ written with result := written.result.map fun _ => workspace.compiler }, workspace.files)

/-- Says which modules were skipped. -/
def reportSkipped (failures : Table Failure) : Action FileTree Unit := do
  unless failures.isEmpty do
    Action.record .warning ("Skipped " ++ integerText failures.length ++ " module(s): " ++
      Text.join ", " (Table.keys failures))

/-- Generates modules for a document. -/
def generate (workingDir : Place) (shell : Shell) (plan? settings? : Option Place)
    (document output : Place) : Action FileTree Ending := do
  let plan ← planOf plan?
  let settings ← settingsOf settings?
  match ← (writeModules workingDir shell plan settings document output).attempt with
  | .error failure => reportFailure true failure
  | .ok compiler =>
    reportSkipped compiler.failures
    Action.record .info "Done!"
    return .done

/-- The dependency tree of a definition of a document, as a text. -/
def treeText (document : Place) (ref : String) : Action FileTree String := do
  let document ← documentOf document
  let root ← Reference.toId ref
  return treeOutline "" (← document.schemas.tree root) ++ "\n"

/-- Runs a command; what it prints besides its records comes with the ending. -/
def perform (workingDir : Place) (shell : Shell) : Command → Action FileTree (Ending × String)
  | .generate plan? settings? document output => do
    return (← generate workingDir shell plan? settings? document output, "")
  | .analyze document ref => do
    match ← (treeText document ref).attempt with
    | .ok text => return (.done, text)
    | .error failure => return (← reportFailure false failure, "")

/-- Runs a command line on a file tree. -/
def run (workingDir : Place) (shell : Shell) (arguments : List String) (files : FileTree) :
    Report × FileTree :=
  match requestOf workingDir files arguments with
  | .error ending => ({ ending }, files)
  | .ok request =>
    let (performed, files) := perform workingDir shell request.command files
    let (ending, printed) := match performed.result with
      | .ok result => result
      | .error failure => (Ending.stopped failure, "")
    ({ ending
       output := Record.progress request.threshold performed.log ++ printed
       problems := Record.problems request.threshold performed.log }, files)

end SchemaPress.CommandLine
