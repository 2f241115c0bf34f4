import SchemaPress.Code.Comments
import SchemaPress.Code.Name

/-!
Generated code for schemas as a tree, and its text. Every form of code has a constructor, so what
the text contains can be read off the tree.
-/

namespace SchemaPress

/-- Whether a field has to be present. A field that need not may have a default and may admit
null. -/
inductive Presence where
  | required
  | optional (nullable : Bool) (default? : Option Json)

/-- A field of a structure: its name, the heading of the group it opens, its comments, and its
type. -/
structure Field (α : Type) where
  name : String
  heading : Option String
  comments : Comments
  presence : Presence
  type : α

/-- An item of a list with comments. -/
structure Commented (α : Type) where
  comments : Comments
  item : α

mutual

/-- Code of a schema. -/
inductive Expr where
  /-- Code that is taken as it is. -/
  | verbatim (code : String)
  /-- A base schema with filters after it. -/
  | filtered (base : String) (filters : List String)
  /-- One of some constants. -/
  | constants (values : List Json)
  /-- Another definition, used now or only when it is needed. -/
  | reference (id : String) (deferred : Bool)
  /-- A list of items, with filters on the list. -/
  | array (items : Expr) (filters : List String)
  /-- An object with arbitrary keys whose values have one type. -/
  | record (value : Expr)
  /-- An object with fields, and possibly a type for further values. -/
  | struct (fields : List (Field Expr)) (further : Option Expr)
  /-- An object with the fields of several objects. -/
  | merged (parts : List Part)
  /-- A schema extended by others. -/
  | extended (members : List (Commented Expr))
  /-- Any of several schemas. -/
  | union (members : List (Commented Expr))

/-- A part of a merged object: the fields of another definition, or fields of its own. -/
inductive Part where
  | spread (comments : Comments) (source : Expr)
  | fields (comments : Comments) (fields : List (Field Expr))

end

/-- The texts that are not empty, on lines of their own. -/
def Text.joinLines (entries : List String) : String :=
  Text.join "\n" (entries.filter fun entry => !entry.isEmpty)

/-- A base schema with filters after it. -/
def Code.pipeline (base : String) (filters : List String) : String :=
  if filters.isEmpty then base else "pipe(" ++ Text.join ", " (base :: filters) ++ ")"

/-- A pipeline of stages, of which there has to be one. -/
def Code.pipelineOf : List String → Except Failure String
  | [] => .error .emptyPipeline
  | base :: filters => .ok (pipeline base filters)

/-- A reference to a definition by its identifier. -/
def Code.reference (identifier : String) (deferred : Bool) : String :=
  if deferred then
    "S.suspend((): S.Schema<_" ++ identifier ++ ", _" ++ identifier ++ "Encoded> => " ++
      identifier ++ ")"
  else identifier

/-- A default as the body of a function; a list or an object needs brackets. -/
def Code.default (value : Json) : String :=
  match value with
  | .arr _ | .obj _ => "(" ++ value.literal ++ ")"
  | _ => value.literal

/-- The type of a field by its presence. -/
def Presence.render (type : String) : Presence → String
  | .required => type
  | .optional nullable default? =>
    let options := match default? with
      | none => ""
      | some value => ", \x7b default: () => " ++ Code.default value ++ " \x7d"
    "S.optional(" ++ (if nullable then "S.NullOr(" ++ type ++ ")" else type) ++ options ++ ")"

/-- The lines of a field, given the text of its type. A heading is shown if it is a comment, and a
field that opens a group stands apart from the field before it. -/
def Field.line {α : Type} (field : Field α) (type : String) (isFirst : Bool) : String :=
  let heading := match field.heading with
    | some heading => if Text.startsWith heading "//" then heading else ""
    | none => ""
  let block := if field.comments.block.isEmpty then "" else "\n" ++ field.comments.block
  let line := Text.trim (heading ++ block ++ "\n" ++ Name.propertyKey field.name ++ ": " ++
    field.presence.render type ++ ", " ++ field.comments.inline)
  if !isFirst && field.heading.isSome then "\n\n" ++ line else line

/-- A member of a list of schemas with its comments. -/
def Comments.around (comments : Comments) (code : String) : String :=
  Text.trim (comments.block ++ "\n" ++ code ++ ", " ++ comments.inline)

/-- Filters on a list. -/
def Code.methodFilters (filters : List String) : String :=
  if filters.isEmpty then "" else ".pipe(" ++ Text.join ", " filters ++ ")"

mutual

/-- The text of code. -/
def Expr.render : Expr → String
  | .verbatim code => code
  | .filtered base filters => Code.pipeline base filters
  | .constants values =>
    "S.Literal(\n" ++ Text.join "\n" (values.map fun value => value.literal ++ ",") ++ "\n)"
  | .reference id deferred => Code.reference (Name.identifier id) deferred
  | .array items filters => "S.Array(" ++ items.render ++ ")" ++ Code.methodFilters filters
  | .record value => "S.Record(S.String, " ++ value.render ++ ")"
  | .struct fields none =>
    match fields with
    | [] => "S.Struct(\x7b\x7d)"
    | fields => "S.Struct(\x7b\n" ++ Text.join "\n" (renderFields true fields) ++ "\n\x7d)"
  | .struct fields (some further) =>
    "S.Struct(\x7b\n" ++ Text.join "\n" (renderFields true fields) ++
      "\n\x7d, \x7b key: S.String, value: " ++ further.render ++ " \x7d)"
  | .merged parts => "S.Struct(\x7b\n" ++ Text.joinLines (renderParts parts) ++ "\n\x7d)"
  | .extended members => "pipe(\n" ++ Text.joinLines (renderExtensions true members) ++ "\n)"
  | .union members => "S.Union(\n" ++ Text.joinLines (renderMembers members) ++ "\n)"

/-- The lines of fields. -/
def renderFields (isFirst : Bool) : List (Field Expr) → List String
  | [] => []
  | ⟨name, heading, comments, presence, type⟩ :: rest =>
    Field.line ⟨name, heading, comments, presence, ()⟩ type.render isFirst ::
      renderFields false rest

/-- The entries of a merged object. -/
def renderParts : List Part → List String
  | [] => []
  | part :: rest => part.render :: renderParts rest

/-- An entry of a merged object. -/
def Part.render : Part → String
  | .spread comments source =>
    Text.joinLines [comments.block, comments.inline, "..." ++ source.render ++ ".fields,"]
  | .fields comments fields =>
    Text.joinLines [comments.block, comments.inline, Text.join "\n" (renderFields true fields)]

/-- The entries of an extension: the first member, and the others that extend it. -/
def renderExtensions (isFirst : Bool) : List (Commented Expr) → List String
  | [] => []
  | ⟨comments, item⟩ :: rest =>
    comments.around (if isFirst then item.render else "S.extend(" ++ item.render ++ ")") ::
      renderExtensions false rest

/-- The entries of a union. -/
def renderMembers : List (Commented Expr) → List String
  | [] => []
  | ⟨comments, item⟩ :: rest => comments.around item.render :: renderMembers rest

end

end SchemaPress
