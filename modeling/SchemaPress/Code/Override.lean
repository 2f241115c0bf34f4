import SchemaPress.Schema.Basic

/-!
Overrides of code generation. A set of overrides may replace the code of objects and scalars; one
that is silent about a schema leaves the usual code in place.
-/

namespace SchemaPress

/-- How a field that need not be present is represented: as it is, or admitting null. -/
inductive OptionalField where
  | plain
  | nullish
  deriving DecidableEq, Repr

/-- The name of a representation of optional fields. -/
def OptionalField.name : OptionalField → String
  | .plain => "plain"
  | .nullish => "nullish"

/-- The representation that a value names. -/
def OptionalField.ofJson (value : Json) : Except Failure OptionalField :=
  match [OptionalField.plain, .nullish].find? fun form => value.text? = some form.name with
  | some form => .ok form
  | none => .error (.mismatch .value)

/-- Code that replaces the usual one, with the definitions it refers to, its documentation and the
names of the constraints that it takes care of. -/
structure Override where
  code : String
  refs : List String := []
  docs : Docs := {}
  consumed : List String := []

/-- A choice of code for a schema: none to keep the usual code. -/
abbrev Choice := Schema → Except Failure (Option Override)

/-- The choice that keeps the usual code. -/
def Choice.usual : Choice := fun _ => .ok none

/-- Overrides: choices for whole objects and scalars and for scalars by type, and how optional
fields are represented. -/
structure Overrides where
  schema : Choice := Choice.usual
  string : Choice := Choice.usual
  number : Choice := Choice.usual
  boolean : Choice := Choice.usual
  null : Choice := Choice.usual
  optionalField : OptionalField := .plain

/-- Overrides that cannot be used: every object and every scalar fails. -/
def Overrides.unusable : Overrides where
  schema := fun _ => .error (.mismatch .operation)

/-- What a rule does with a schema: it gives code, or refuses with a message. -/
inductive Verdict where
  | replace (override : Override)
  | refuse (message : String) (cause : Option String)

/-- A rule of overriding: conditions on a schema, and what to do if all of them hold. -/
structure Rule where
  conditions : Table Json
  verdict : Verdict

namespace Rule

/-- What a condition on a scalar looks at, null if the scalar says nothing about it. -/
def scalarAspect (scalar : Scalar) (name : String) : Json :=
  match name with
  | "node" => .str "primitive"
  | "kind" => .str scalar.kind.name
  | "format" => scalar.format
  | "pattern" => (scalar.pattern.map Json.str).getD .null
  | "min_length" => (scalar.minLength.map Json.int).getD .null
  | "max_length" => (scalar.maxLength.map Json.int).getD .null
  | _ =>
    (([Limit.minimum, .maximum, .exclusiveMinimum, .exclusiveMaximum].find? fun limit =>
      limit.name = name).bind scalar.limits).getD .null

/-- What a condition looks at: the kind of a schema or something it says, null if it says
nothing. -/
def aspect (schema : Schema) (name : String) : Json :=
  match name with
  | "title" => schema.info.title
  | "description" => schema.info.description
  | "deprecated" => .bool schema.info.deprecated
  | "source_path" => .str schema.info.path
  | _ => match schema with
    | .scalar _ scalar => scalarAspect scalar name
    | .object _ _ _ _ _ => if name = "node" then .str "object" else .null
    | _ => .null

/-- Whether all conditions of a rule hold. -/
def applies (rule : Rule) (schema : Schema) : Bool :=
  rule.conditions.all fun (name, value) => (aspect schema name).same value

/-- The choice that follows the first rule that applies. -/
def choice (rules : List Rule) : Choice := fun schema =>
  match rules.find? (·.applies schema) with
  | none => .ok none
  | some rule =>
    match rule.verdict with
    | .replace override => .ok (some override)
    | .refuse message cause => .error (.refused message (cause.map .noted))

end Rule

end SchemaPress
