import SchemaPress.Document
import SchemaPress.Format.Formatter
import SchemaPress.Module.Generate
import SchemaPress.Plan.Resolve

/-!
Compilation of a document into modules. One-to-one and custom compilation go on after a failure
and account for it; a bundle is all or nothing.
-/

namespace SchemaPress

/-- The position of a value in a list of ids; lists and objects cannot be looked for. -/
def positionIn (ids : List String) (value : Json) : Except Failure (Option Nat) := do
  return (← value.asKey).text?.bind fun id => ids.idxOf? id

/-- Whether a value stands before another in a list of ids, which is so if either is not in it. -/
def standsBefore (ids : List String) (value other : Json) : Except Failure Bool := do
  let position? ← positionIn ids value
  let other? ← positionIn ids other
  return match position?, other? with
    | some position, some other => position < other
    | _, _ => true

/-- A compiler: a document, a plan and settings, the formatter, the order of the document's
definitions once it is known, the failures of the last compilation by module, and the directory
that relative module paths start from. -/
structure Compiler where
  document : Document
  plan : Plan := {}
  settings : Settings := {}
  formatting : Formatting := { formatter := .plain }
  order? : Option (List OrderEntry) := none
  failures : Table Failure := []
  workingDir : List String := []

namespace Compiler

/-- The compiler for a document, with the formatter that the settings ask for unless one is
given. -/
def new (workingDir : List String) (document : Document) (plan : Plan) (settings : Settings)
    (formatter : Option Formatter) (shell : Shell) : Compiler where
  document := document
  plan := plan
  settings := settings
  formatting := { formatter := formatter.getD (.ofSettings settings.format), shell }
  workingDir := workingDir

/-- The order of the document's definitions. Once known, it is kept. -/
def order : Action Compiler (List OrderEntry) := do
  let compiler ← get
  match compiler.order? with
  | some order => return order
  | none =>
    let order ← compiler.document.schemas.order
    set { compiler with order? := some order }
    return order

/-- The order of the document's definitions, if the plan's method depends on it. -/
def orderForMethod : Action Compiler (List OrderEntry) := do
  if (← get).plan.method = .bundled then order else return []

/-- Which definitions are declared before which under a method, given their order. Only a bundle
has an order of declarations. -/
def isBefore (method : Method) (order : List OrderEntry) (value other : Json) :
    Except Failure Bool :=
  if method = .bundled then standsBefore (order.map (·.id)) value other else .ok true

/-- The plan with the modules that are derived from the document. -/
def resolvedPlan : Action Compiler Plan := do
  let order ← orderForMethod
  let compiler ← get
  compiler.plan.resolve (Table.keys compiler.document.schemas) order

/-- The generator for the modules of a resolved plan. -/
def generator (plan : Plan) : Action Compiler Generator := do
  let order ← orderForMethod
  let compiler ← get
  Generator.ofPlan compiler.workingDir compiler.document.schemas plan
    fun id => isBefore compiler.plan.method order (.str id)

/-- The header of generated modules. -/
def header (compiler : Compiler) : String :=
  "Generated from " ++ compiler.document.title ++ " version " ++ compiler.document.version

/-- The formatting of a compiler as a state of its own. -/
def withFormatting {α : Type} (action : Action Formatting α) : Action Compiler α :=
  action.within (·.formatting) fun formatting compiler => { compiler with formatting }

/-- Formats code. Code that is rejected is logged. -/
def format (code : String) : Action Compiler String := do
  let compiler ← get
  try withFormatting (Formatting.format code compiler.settings.format)
  catch failure =>
    if failure.kind = .formatter then
      Action.record .debug
        ("Code rejected by " ++ compiler.formatting.formatter.name ++ ":\n" ++ code)
    throw failure

/-- Notes the failure of a module. -/
def fail (path : String) (failure : Failure) : Action Compiler Unit :=
  modify fun compiler =>
    { compiler with failures := Table.insert path failure compiler.failures }

/-- How the failure of a module is logged. -/
def failureText (path : String) (failure : Failure) : String :=
  let cause := match failure.cause? with
    | some cause => " (caused by " ++ cause.inspected ++ ")"
    | none => ""
  "Unable to generate module " ++ path ++ ": " ++ failure.shown ++ cause

/-- The text of one module. -/
def compileModule (generator : Generator) (header : Option String) (path : String) :
    Action Compiler String := do
  let module ← generator.generate path
  format (module.render header)

/-- Compiles modules one after the other; the failure of a module is logged and noted. -/
def compileEach (generator : Generator) (header : Option String) :
    List String → Action Compiler (Table String)
  | [] => return []
  | path :: rest => do
    Action.record .info ("Generating module: " ++ path)
    match ← (compileModule generator header path).attempt with
    | .ok text => return (path, text) :: (← compileEach generator header rest)
    | .error failure =>
      Action.record .error (failureText path failure)
      fail path failure
      compileEach generator header rest

/-- The path of the module that exports what all others export. -/
def barrelPath : String := "./index.ts"

/-- Compilation that goes on after a failure. -/
def compileModules : Action Compiler (Table String) := do
  let plan ← resolvedPlan
  let generator ← generator plan
  let compiler ← get
  let header := if compiler.settings.output.addComment.isTruthy then some compiler.header else none
  let paths := Table.keys generator.modules
  let outputs ← compileEach generator header paths
  if plan.method = .oneToOne && plan.barrel.isTruthy then
    Action.record .info ("Generating barrel file: " ++ barrelPath)
    return Table.insert barrelPath (ModuleText.renderBarrel paths) outputs
  else return outputs

/-- The modules of a bundle, none of which may fail. -/
def bundleModules (generator : Generator) : List String → Action Compiler (List GeneratedModule)
  | [] => return []
  | path :: rest => do
    Action.record .info ("Generating module: " ++ path)
    match ← (Action.ofLogged (generator.generate path)).attempt with
    | .ok module => return module :: (← bundleModules generator rest)
    | .error failure => throw (.ungenerated path failure)

/-- The text of a bundle: the sections of all modules, under a mark for each definition that is
missing. What the modules import from each other is part of the bundle. -/
def bundleText (header : String) (modules : List GeneratedModule) : String :=
  let missing := (modules.flatMap (·.imports)).filter fun item => item.kind = .missing
  ModuleText.render (some header) (Text.unique (missing.map Import.render))
    (modules.flatMap GeneratedModule.sectionTexts)

/-- Compilation into one module. -/
def compileBundle : Action Compiler (Table String) := do
  let plan ← try resolvedPlan
    catch failure =>
      throw (if failure.kind = .dependencyAnalysis then .unknownOrder failure else failure)
  let generator ← generator plan
  let modules ← bundleModules generator (Table.keys generator.modules)
  let path := modulePath plan.bundleName.display
  let code := bundleText (← get).header modules
  try return [(path, ← format code)]
  catch failure =>
    throw (if failure.kind = .formatter then .unformatted path failure else failure)

/-- Compiles the document: the text of every module by its path. -/
def compile : Action Compiler (Table String) := do
  let document := (← get).document
  Action.record .info
    ("Generating schemas from document: " ++ document.title ++ " " ++ document.version)
  modify fun compiler => { compiler with failures := [] }
  if (← get).plan.method = .bundled then compileBundle else compileModules

end Compiler

end SchemaPress
