import SchemaPress.Dependency.Cycle
import SchemaPress.Dependency.Shape
import SchemaPress.Dependency.Tree
import SchemaPress.Files.Write
import SchemaPress.Module.Generate
import SchemaPress.Plan.Resolve

/-!
Operations on values that nobody has checked. Each takes JSON values where the operation that it
stands for takes texts, lists or ids, and says what happens when a value is something else: it
fails as the first use of the value does, or the value is shown as messages show it.
-/

namespace SchemaPress.Unchecked

/-- The segments of a pointer. -/
def decodePointer (pointer : Json) : Except Failure (List String) := do
  Pointer.decode (← pointer.asText)

/-- The pointer whose segments a value runs through. -/
def encodePointer (segments : Json) : Except Failure String := do
  return Pointer.encode (← (← segments.elements).mapM Json.asText)

/-- The reference to a definition. -/
def reference (id : Json) : Except Failure String := do
  return Reference.ofId (← id.asText)

/-- The identifier of a definition. -/
def identifier (id : Json) : Except Failure String := do
  return Name.identifier (← id.asSubject)

/-- A property name as a key of an object literal. -/
def propertyKey (name : Json) : Except Failure String := do
  return Name.propertyKey (← name.asSubject)

/-- A pipeline of the stages that a value runs through. The only stage of a list is the pipeline,
whatever it is, and an object has no first stage. -/
def pipeline (stages : Json) : Except Failure Json := do
  if !stages.isTruthy then throw .emptyPipeline
  match stages with
  | .arr [stage] => return stage
  | .obj [_] => throw (.mismatch .key)
  | _ => return .str (← Code.pipelineOf (← (← stages.elements).mapM Json.asSubject))

/-- What the values that a value runs through run through, each once. -/
def combined (groups : Json) : Except Failure (List Json) := do
  let members ← (← groups.elements).mapM Json.elements
  (Json.arr members.flatten).asKeySet

/-- Documentation from an object that has no other entries. -/
def docs : Json → Except Failure Docs
  | .obj entries =>
    if entries.all fun entry => ["title", "description", "deprecated", "format"].contains entry.1
    then .ok {
      title := (Table.get? entries "title").getD (.str "")
      description := (Table.get? entries "description").getD (.str "")
      deprecated := (Json.optional entries "deprecated").isTruthy
      format := Json.optional entries "format" }
    else .error (.mismatch .type)
  | _ => .error (.mismatch .type)

/-- The schema that a value describes at a path. A path that does not count as given names no
place in messages. -/
def schema (path value : Json) : Except Failure Schema := do
  match ← Schema.ofJson path.display value with
  | .unsupported info construct =>
    return .unsupported (if path.isTruthy then info else { info with path := "" }) construct
  | schema => return schema

/-- The id of a definition to look up; other values that can be keys are ids that no table has. -/
def definitionId : Json → Except Failure String
  | .str id => .ok id
  | value => do throw (.missingSchema (← value.asKey).display)

/-- The dependency tree of a definition. -/
def tree (table : Definitions) (root : Json) : Except Failure Tree := do
  table.tree (← definitionId root)

/-- Whether a definition describes an object. -/
def isObjectShaped (table : Definitions) (root : Json) : Except Failure Bool := do
  table.isObjectShaped (← definitionId root)

/-- A name for a value that is a key: equal keys have one name, and names of texts start with a
dot, as no other does. -/
def keyName (key : Json) : String :=
  match key with
  | .str text => "." ++ text
  | _ => (key.integral?.map integerText).getD key.inspect

/-- The text that a name stands for. -/
def textOfName (name : String) : Except Failure String :=
  match name.toList with
  | '.' :: text => .ok (String.ofList text)
  | _ => .error (.mismatch .operation)

/-- An id and its relatives as a value lists them, the id as its name. -/
def relatives (pair : Json) : Except Failure (String × List Json) := do
  match ← pair.elements with
  | [id, targets] => return (keyName (← id.asKey), ← targets.elements)
  | _ => throw (.mismatch .value)

/-- The ids on cycles of the adjacency that a value lists, which have to be texts. -/
def cyclicIds (pairs : Json) : Except Failure (List String) := do
  let pairs ← (← pairs.elements).mapM relatives
  let adjacency ← (Table.ofEntries pairs).mapM fun (name, targets) => do
    return (name, (← targets.mapM Json.asKey).map keyName)
  (Adjacency.cyclicIds adjacency).mapM textOfName

/-- The path of a module as seen from the directory of another. -/
def relativePath (workingDir : List String) (importer imported : Json) :
    Except Failure String := do
  let importer ← importer.asSubject
  if !imported.isTruthy then throw (.mismatch .value)
  ModulePath.relative workingDir importer (← imported.asSubject)

/-- The path of the module of a definition. -/
def modulePath (id : Json) : String :=
  SchemaPress.modulePath id.display

/-- Generates the module with a path. -/
def generate (generator : Generator) (path : Json) : Logged GeneratedModule := do
  match path with
  | .str path => generator.generate path
  | _ => throw (.missingModule (← path.asKey).display)

/-- An import whose path and name may be of any kind. -/
structure Import where
  path : Json
  name : Json
  kind : ImportKind

/-- The import that a value lists: its path, its name and its kind. -/
def Import.ofJson (value : Json) : Except Failure Import := do
  match ← value.elements with
  | [path, name, kind] => return { path, name, kind := ← ImportKind.ofName (kind.text?.getD "") }
  | _ => throw (.mismatch .value)

/-- The line of an import. -/
def Import.render (item : Import) : String :=
  SchemaPress.Import.render
    { path := item.path.display, name := item.name.display, kind := item.kind }

/-- The imports that a value lists, with those of support modules first. -/
def imports (value : Json) : Except Failure (List Import) := do
  return runtimeFirst Import.kind (← (← value.elements).mapM Import.ofJson)

/-- The header of a module, if it counts as given. -/
def header? (header : Json) : Option String :=
  if header.isTruthy then some header.display else none

/-- The text of a module. Imports that do not count as given are none. -/
def moduleText (header imports sections : Json) : Except Failure String := do
  let imports ← if imports.isTruthy then imports.elements else pure []
  let sections ← sections.elements
  return ModuleText.render (header? header) (imports.map Json.display) (sections.map Json.display)

/-- The text of a module that exports what other modules export. -/
def barrelText (paths : Json) : Except Failure String := do
  return ModuleText.renderBarrel ((← paths.elements).map Json.display)

/-- Writes a content to a place. What is no text is noticed once there is a file to fill, which is
then removed; a direct write notices it before it opens the file. -/
def write (isAtomic : Bool) (place : Place) : Json → Action FileTree Unit
  | .str content => Writer.of isAtomic place content
  | _ => do
    FileTree.makeDirectories place.dropLast.reverse
    if isAtomic then
      let temporary ← Writer.createTemporary place
      modify (FileTree.erase temporary)
    throw (.mismatch .type)

/-- The writer that fails on files whose name contains a text; what is no text is in no name. -/
def writerFailingOn : Json → Writer
  | .str piece => Writer.failingOn piece
  | _ => fun _ _ => throw (.mismatch .type)

end SchemaPress.Unchecked
