import SchemaPress.Code.Generate
import SchemaPress.Module.Import
import SchemaPress.Module.Path
import SchemaPress.Module.Section
import SchemaPress.Plan.Locator
import SchemaPress.Schema.Fields
import SchemaPress.Schema.Parse

/-!
Generation of modules. Every directive of a module becomes a section, and the definitions that the
sections refer to become imports from the modules that define them.
-/

namespace SchemaPress

/-- A generated module. -/
structure GeneratedModule where
  imports : List Import
  sections : List Section

namespace GeneratedModule

/-- The texts of the sections. -/
def sectionTexts (module : GeneratedModule) : List String :=
  module.sections.map Section.render

/-- The text of the exports. -/
def exports (module : GeneratedModule) : String :=
  Text.join "\n\n" module.sectionTexts

/-- The text of the module. -/
def render (module : GeneratedModule) (header : Option String) : String :=
  ModuleText.render header (module.imports.map Import.render) module.sectionTexts

end GeneratedModule

/-- What modules are generated from: the definitions, the modules of a plan with its overrides and
locators, which definition is declared before which, and the working directory. -/
structure Generator where
  table : Definitions
  overrides : PlanOverrides
  modules : Table (List Directive)
  locators : Locators
  isBefore : String → Json → Except Failure Bool
  workingDir : List String

namespace Generator

/-- The generator for the modules of a plan. -/
def ofPlan (workingDir : List String) (table : Definitions) (plan : Plan)
    (isBefore : String → Json → Except Failure Bool) : Except Failure Generator := do
  let locators ← plan.locators
  return {
    table, locators, isBefore, workingDir
    overrides := plan.overrides
    modules := ← plan.allModules }

/-- What generating the code of a definition depends on. -/
def contextFor (generator : Generator) (target : Json) : Except Failure Context := do
  return {
    table := generator.table
    overrides := ← generator.overrides.get
    isBefore := fun id => generator.isBefore id target }

/-- The schema of the document with an id. -/
def schemaOf (generator : Generator) (source : Json) : Except Failure Schema :=
  match source.text?.bind (Table.get? generator.table) with
  | some schema => .ok schema
  | none => .error (.missingSource source)

/-- Code from a schema as the exports of a definition. -/
def exportOf (directive : Directive) (declaration : Declaration) (result : Generated) :
    Except Failure Export := do
  match directive.target with
  | .str id =>
    return {
      id, declaration
      source := directive.source
      code := result.code
      comments := ← result.docs.comments }
  | _ => .error (.mismatch .type)

/-- The exports of a definition, with the ids they refer to. The schema is looked for once the
record of its generation is made. -/
def generateExport (generator : Generator) (path : String) (directive : Directive)
    (declaration : Declaration) (schema : Except Failure Schema) :
    Logged (Section × List String) := do
  Logged.record .debug ("Generating definition " ++ directive.target.display ++ " in " ++ path)
  let context ← generator.contextFor directive.target
  let schema ← schema
  let result ← schema.generate context
  let item ← exportOf directive declaration result
  return (.definition item, result.refs)

/-- The section of a directive, with the ids it refers to. -/
def generateSection (generator : Generator) (path : String) (directive : Directive) :
    Logged (Section × List String) :=
  match directive with
  | .literal _ code => do return (.literal (← code.asText), [])
  | .inline id schema declaration =>
    generator.generateExport path directive declaration
      (Schema.ofJson ("#/custom/" ++ id.display) schema)
  | .generate _ _ declaration fields =>
    generator.generateExport path directive declaration do
      let schema ← generator.schemaOf directive.source
      if fields.isNull then return schema else schema.curate (FieldGroup.ofJson fields)

/-- The sections of directives, with the ids they refer to. -/
def generateSections (generator : Generator) (path : String) :
    List Directive → Logged (List Section × List String)
  | [] => return ([], [])
  | directive :: rest => do
    let (first, firstRefs) ← generator.generateSection path directive
    let (sections, refs) ← generator.generateSections path rest
    return (first :: sections, Text.unique (firstRefs ++ refs))

/-- The import of a definition into a module. -/
def importOf (generator : Generator) (path ref : String) : Except Failure Import := do
  match generator.locators.find? (.str ref) with
  | none => return { path := "", name := ref, kind := .missing }
  | some locator =>
    return {
      path := ← ModulePath.relative generator.workingDir path locator.path
      name := Name.identifier (← locator.directive.target.asSubject)
      kind := if locator.isRuntime then .runtime else .schema }

/-- The imports of a module for the ids that it refers to, given the directives whose definitions
are part of it. -/
def importsFor (generator : Generator) (path : String) (directives : List Directive)
    (refs : List String) : Except Failure (List Import) := do
  let foreign := refs.filter fun ref =>
    !directives.any fun directive => directive.source.same (.str ref)
  return Import.arrange (Text.unique (← foreign.mapM (generator.importOf path)))

/-- Generates the module with a path. -/
def generate (generator : Generator) (path : String) : Logged GeneratedModule := do
  match Table.get? generator.modules path with
  | none => throw (.missingModule path)
  | some directives =>
    let (sections, refs) ← generator.generateSections path directives
    return { sections, imports := ← generator.importsFor path directives refs }

end Generator

end SchemaPress
