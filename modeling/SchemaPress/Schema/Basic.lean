import SchemaPress.Json.Access
import SchemaPress.Pointer

/-!
Schemas of an OpenAPI document. A schema is a reference, an array, an object, a scalar, a
combination of schemas, or something that cannot be expressed; every schema carries what it says
about itself and where it stands in the document.
-/

namespace SchemaPress

/-- What a schema says about itself. Title and description are kept as given; a default that is
given may be null. -/
structure Info where
  path : String
  title : Json := .null
  description : Json := .null
  deprecated : Bool := false
  default? : Option Json := none
  extensions : Table Json := []

/-- The scalar types. -/
inductive ScalarKind where
  | null
  | string
  | number
  | integer
  | boolean
  deriving DecidableEq, Repr

/-- The name of a scalar type. -/
def ScalarKind.name : ScalarKind → String
  | .null => "null"
  | .string => "string"
  | .number => "number"
  | .integer => "integer"
  | .boolean => "boolean"

/-- The scalar type of a name. -/
def ScalarKind.ofName? (name : String) : Option ScalarKind :=
  [ScalarKind.null, .string, .number, .integer, .boolean].find? fun kind => kind.name = name

/-- The ways to combine schemas. -/
inductive Combinator where
  | allOf
  | oneOf
  | anyOf
  deriving DecidableEq, Repr

/-- The key under which a combination lists its members. -/
def Combinator.key : Combinator → String
  | .allOf => "allOf"
  | .oneOf => "oneOf"
  | .anyOf => "anyOf"

/-- The limits of a numeric scalar. -/
inductive Limit where
  | minimum
  | maximum
  | exclusiveMinimum
  | exclusiveMaximum
  deriving DecidableEq, Repr

/-- The name of a limit. -/
def Limit.name : Limit → String
  | .minimum => "minimum"
  | .maximum => "maximum"
  | .exclusiveMinimum => "exclusive_minimum"
  | .exclusiveMaximum => "exclusive_maximum"

/-- A scalar type with its constraints. A limit is an integer or a double. -/
structure Scalar where
  kind : ScalarKind
  enum : Option (List Json) := none
  format : Json := .null
  pattern : Option String := none
  minLength : Option Int := none
  maxLength : Option Int := none
  limits : Limit → Option Json := fun _ => none

mutual

/-- A schema. An object lists the names it requires, and the headings of the properties that open
a group. -/
inductive Schema where
  | reference (info : Info) (ref : Json)
  | array (info : Info) (items : Schema) (minItems maxItems : Option Int)
  | object (info : Info) (properties : List (String × Schema)) (required : List Json)
      (additional : Additional) (headings : Table String)
  | scalar (info : Info) (scalar : Scalar)
  | combined (info : Info) (combinator : Combinator) (members : List Schema)
  | unsupported (info : Info) (construct : String)

/-- What an object says about properties it does not name. -/
inductive Additional where
  | unstated
  | allowed (allowed : Bool)
  | typed (schema : Schema)

end

/-- The definitions of a document, in order. -/
abbrev Definitions := Table Schema

/-- The documentation that generated code shows. -/
structure Docs where
  title : Json := .str ""
  description : Json := .str ""
  deprecated : Bool := false
  format : Json := .null

namespace Schema

/-- What a schema says about itself. -/
def info : Schema → Info
  | .reference info _ => info
  | .array info _ _ _ => info
  | .object info _ _ _ _ => info
  | .scalar info _ => info
  | .combined info _ _ => info
  | .unsupported info _ => info

/-- The documentation of a schema; a title or description that is not given is empty. -/
def docs (schema : Schema) : Docs where
  title := schema.info.title.orElse (.str "")
  description := schema.info.description.orElse (.str "")
  deprecated := schema.info.deprecated
  format := match schema with
    | .scalar _ s => s.format
    | _ => .null

/-- The id of the definition that the value of a reference names. -/
def target (ref : Json) : Except Failure String := do
  Reference.toId (← ref.asText)

end Schema

end SchemaPress
