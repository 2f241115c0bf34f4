import SchemaPress.Json.Access

/-!
Directives: what a module of the generated code defines. A directive gives code, a schema of its
own, or names a schema of the document. Its values are kept as given; an entry that is null counts
as absent.
-/

namespace SchemaPress

/-- How a definition is declared: whether it may be used before its declaration, and the types
that it stands for, if they are stated. -/
structure Declaration where
  lazy : Json := .bool false
  type : Json := .null
  encoded : Json := .null

/-- A directive for one definition. -/
inductive Directive where
  /-- Code that is written by hand. -/
  | literal (id code : Json)
  /-- A definition from a schema given in place. -/
  | inline (id schema : Json) (declaration : Declaration)
  /-- A definition from a schema of the document, possibly under another id and with its fields
  curated. -/
  | generate (id source : Json) (declaration : Declaration) (fields : Json)

namespace Directive

/-- The id that the definition is exported under. -/
def target : Directive → Json
  | .literal id _ => id
  | .inline id _ _ => id
  | .generate id _ _ _ => id

/-- The id of the schema that the definition is made from. -/
def source : Directive → Json
  | .generate id source _ _ =>
    match source with
    | .str source => .str source
    | _ => id
  | .literal id _ => id
  | .inline id _ _ => id

/-- The name of a kind of directive. -/
def action : Directive → String
  | .literal _ _ => "custom-code"
  | .inline _ _ _ => "custom-schema"
  | .generate _ _ _ _ => "generate-schema"

/-- How the entries of a directive declare its definition. -/
def declarationOf (entries : Table Json) : Declaration where
  lazy := (entries.get? "lazy").getD (.bool false)
  type := Json.optional entries "type_declaration"
  encoded := Json.optional entries "type_declaration_encoded"

/-- The directive that a value describes. -/
def ofJson (value : Json) : Except Failure Directive := do
  let entries ← value.asEntries
  match (entries.get? "action").getD (.str "generate-schema") with
  | .str "custom-code" =>
    return .literal (← Json.required entries "schema_id") (← Json.required entries "code")
  | .str "custom-schema" =>
    return .inline (← Json.required entries "schema_id") (← Json.required entries "schema")
      (declarationOf entries)
  | .str "generate-schema" =>
    return .generate (← Json.required entries "schema_id")
      (Json.optional entries "source_schema_id") (declarationOf entries)
      (Json.optional entries "fields")
  | action => .error (.unknownAction action)

/-- An entry, unless its value is null. -/
def given (key : String) (value : Json) : Table Json :=
  if value.isNull then [] else [(key, value)]

/-- The entries for the stated types of a declaration. -/
def typeEntries (declaration : Declaration) : Table Json :=
  given "type_declaration" declaration.type ++
    given "type_declaration_encoded" declaration.encoded

/-- The value that describes a directive. -/
def toJson (directive : Directive) : Json :=
  let head : Table Json := [("action", .str directive.action), ("schema_id", directive.target)]
  .obj (head ++ match directive with
    | .literal _ code => [("code", code)]
    | .inline _ schema declaration =>
      [("schema", schema), ("lazy", declaration.lazy)] ++ typeEntries declaration
    | .generate _ source declaration fields =>
      [("lazy", declaration.lazy)] ++ given "source_schema_id" source ++ given "fields" fields ++
        typeEntries declaration)

end Directive

end SchemaPress
