import SchemaPress.Schema.Basic

/-!
Schemas from JSON. A value that says nothing expressible becomes an unsupported schema, so that
the failure surfaces where the schema is used; only values that cannot be taken apart fail here.
-/

namespace SchemaPress.Schema

/-- What a schema object says about itself. -/
def infoOf (path : String) (entries : Table Json) : Info where
  path := path
  title := Json.optional entries "title"
  description := Json.optional entries "description"
  deprecated := (Json.optional entries "deprecated").isTruthy
  default? := entries.get? "default"
  extensions := entries.filter fun entry => Text.startsWith entry.1 "x-"

/-- The type that a schema object states. -/
inductive TypeName where
  | missing
  | mixed (types : List Json)
  | array
  | object
  | scalar (kind : ScalarKind)
  | unknown (type : Json)

/-- The type that a single type value names. -/
def TypeName.ofValue : Json → TypeName
  | .null => .missing
  | .str name =>
    if name = "array" then .array
    else if name = "object" then .object
    else match ScalarKind.ofName? name with
      | some kind => .scalar kind
      | none => .unknown (.str name)
  | other => .unknown other

/-- The type that a schema object states; a list of one type is that type. -/
def TypeName.ofEntries (entries : Table Json) : TypeName :=
  match Json.optional entries "type" with
  | .arr [type] => .ofValue type
  | .arr types => .mixed types
  | type => .ofValue type

/-- The first combinator whose key has a value other than null. -/
def combinatorOf (entries : Table Json) : Option Combinator :=
  [Combinator.allOf, .oneOf, .anyOf].find? fun combinator =>
    !(Json.optional entries combinator.key).isNull

/-- A constraint that is an integer. -/
def integer? : Json → Option Int
  | .int n => some n
  | _ => none

/-- A constraint that is a number. -/
def number? : Json → Option Json
  | .int n => some (.int n)
  | .double x => some (.double x)
  | _ => none

/-- The key of a limit. -/
def limitKey : Limit → String
  | .minimum => "minimum"
  | .maximum => "maximum"
  | .exclusiveMinimum => "exclusiveMinimum"
  | .exclusiveMaximum => "exclusiveMaximum"

/-- The scalar that a schema object describes. Constraints of a wrong type are dropped. -/
def scalarOf (kind : ScalarKind) (entries : Table Json) : Scalar where
  kind := kind
  enum := match Json.optional entries "enum" with
    | .arr values => some values
    | _ => none
  format := Json.optional entries "format"
  pattern := (Json.optional entries "pattern").text?
  minLength := integer? (Json.optional entries "minLength")
  maxLength := integer? (Json.optional entries "maxLength")
  limits := fun limit => number? (Json.optional entries (limitKey limit))

/-- A value that is no schema object. -/
def nonObject (path : String) (value : Json) : Schema :=
  .unsupported { path } ("non-object schema " ++ value.inspect)

/-- The path of a member of a combination. -/
def memberPath (path : String) (combinator : Combinator) (index : Nat) : String :=
  path ++ "/" ++ combinator.key ++ "/" ++ integerText index

/-- Members that are texts, hence no schema objects. -/
def textMembers (path : String) (combinator : Combinator) (texts : List String) : List Schema :=
  texts.mapIdx fun index s => nonObject (memberPath path combinator index) (.str s)

/-- The names that an object requires. -/
def requiredOf (entries : Table Json) : Except Failure (List Json) :=
  let required := Json.optional entries "required"
  if required.isTruthy then required.asKeySet else .ok []

/-- What a value that is no schema object says about other properties. -/
def untyped : Json → Additional
  | .bool allowed => .allowed allowed
  | _ => .unstated

mutual

/-- The schema that a value describes. -/
def ofJson (path : String) : Json → Except Failure Schema
  | .obj entries =>
    let info := infoOf path entries
    match Table.get? entries "$ref" with
    | some ref => .ok (.reference info ref)
    | none =>
      match combinatorOf entries with
      | some combinator => do
        return .combined info combinator (← membersOf path combinator entries)
      | none =>
        match TypeName.ofEntries entries with
        | .mixed types =>
          .ok (.unsupported info ("MixedSchemaObject (type: " ++ (Json.arr types).inspect ++ ")"))
        | .missing => .ok (.unsupported info "missing 'type' in schema")
        | .array => arrayOf path info (Json.optional entries) entries
        | .object => do
          let properties ← propertiesOf path entries
          let additional ← additionalOf path entries
          return .object info properties (← requiredOf entries) additional []
        | .scalar kind => .ok (.scalar info (scalarOf kind entries))
        | .unknown type => .ok (.unsupported info ("type \"" ++ type.display ++ "\""))
  | value => .ok (nonObject path value)

/-- The array schema with the item schema of an entry list. -/
def arrayOf (path : String) (info : Info) (constraint : String → Json) :
    List (String × Json) → Except Failure Schema
  | [] => .ok (.unsupported info "array schema without 'items'")
  | (key, value) :: rest =>
    if key = "items" then do
      return .array info (← ofJson (path ++ "/items") value)
        (integer? (constraint "minItems")) (integer? (constraint "maxItems"))
    else arrayOf path info constraint rest

/-- The members of a combination, from its entry in an entry list. -/
def membersOf (path : String) (combinator : Combinator) :
    List (String × Json) → Except Failure (List Schema)
  | [] => .ok []
  | (key, value) :: rest =>
    if key = combinator.key then members path combinator value
    else membersOf path combinator rest

/-- The members that a value lists. -/
def members (path : String) (combinator : Combinator) : Json → Except Failure (List Schema)
  | .arr items => membersFrom path combinator 0 items
  | .str s => .ok (textMembers path combinator (s.toList.map String.singleton))
  | .obj entries => .ok (textMembers path combinator (Table.keys entries))
  | _ => .error (.mismatch .type)

/-- The members of a list, counted from an index. -/
def membersFrom (path : String) (combinator : Combinator) (index : Nat) :
    List Json → Except Failure (List Schema)
  | [] => .ok []
  | item :: rest => do
    let member ← ofJson (memberPath path combinator index) item
    return member :: (← membersFrom path combinator (index + 1) rest)

/-- The properties of an object, from its entry in an entry list. -/
def propertiesOf (path : String) :
    List (String × Json) → Except Failure (List (String × Schema))
  | [] => .ok []
  | (key, value) :: rest =>
    if key = "properties" then properties path value else propertiesOf path rest

/-- The properties that a value lists. Only an object can list any. -/
def properties (path : String) : Json → Except Failure (List (String × Schema))
  | .obj entries => propertyList path entries
  | value => if value.isTruthy then .error (.mismatch .operation) else .ok []

/-- The properties in an entry list. -/
def propertyList (path : String) :
    List (String × Json) → Except Failure (List (String × Schema))
  | [] => .ok []
  | (name, value) :: rest => do
    let property ← ofJson (path ++ "/properties/" ++ name) value
    return (name, property) :: (← propertyList path rest)

/-- What an object says about other properties, from its entry in an entry list. -/
def additionalOf (path : String) : List (String × Json) → Except Failure Additional
  | [] => .ok .unstated
  | (key, value) :: rest =>
    if key = "additionalProperties" then
      if value.isObject then do
        return .typed (← ofJson (path ++ "/additionalProperties") value)
      else .ok (untyped value)
    else additionalOf path rest

end

end SchemaPress.Schema

namespace SchemaPress.Definitions

/-- The definitions that the schemas of a document describe. -/
def ofEntries : List (String × Json) → Except Failure Definitions
  | [] => .ok []
  | (id, value) :: rest => do
    let schema ← Schema.ofJson (Reference.ofId id) value
    return (id, schema) :: (← ofEntries rest)

end SchemaPress.Definitions
