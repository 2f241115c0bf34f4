import SchemaPress.Code.Expr
import SchemaPress.Code.Override
import SchemaPress.Dependency.Shape
import SchemaPress.Log

/-!
Generation of code from schemas. Code is built from the inside out, together with the ids of the
definitions it refers to and the documentation of the schema.
-/

namespace SchemaPress

/-- Generated code, the definitions it refers to and its documentation. -/
structure Generated where
  code : Expr
  refs : List String := []
  docs : Docs := {}

/-- What generation depends on besides the schema: the definitions, the overrides, and which
definitions are declared before the one whose code is generated, which may be unknown. -/
structure Context where
  table : Definitions
  overrides : Overrides := {}
  isBefore : String → Except Failure Bool := fun _ => .ok true

namespace Generated

/-- Code that replaces the usual one. -/
def ofOverride (override : Override) : Generated :=
  ⟨.verbatim override.code, override.refs, override.docs⟩

/-- The ids that several pieces of code refer to. -/
def combineRefs (results : List Generated) : List String :=
  Text.unique (results.flatMap (·.refs))

/-- Pieces of code with their comments. -/
def commented (results : List Generated) : Except Failure (List (Commented Expr)) :=
  results.mapM fun result => do return ⟨← result.docs.comments, result.code⟩

end Generated

namespace Scalar

/-- The base schema of a format, if the format is known; a list or an object is no format. -/
def baseOf (known : Table String) (usual : String) (format : Json) : Except Failure String := do
  let format ← (format.orElse (.str "")).asKey
  return (format.text?.bind (Table.get? known)).getD usual

/-- The base schemas of text formats. -/
def stringFormats : Table String :=
  [("uuid", "S.UUID"), ("date-time", "S.Date")]

/-- The base schemas of number formats. -/
def numberFormats : Table String :=
  [("date-time", "S.DateFromNumber.pipe(S.validDate())")]

/-- The filters of a text. -/
def stringFilters (scalar : Scalar) : List String :=
  (if scalar.format.text? = some "email" then ["S.pattern(/.+@.+/)"] else []) ++
  (match scalar.pattern with
    | some pattern => ["S.pattern(new RegExp(" ++ (Json.str pattern).literal ++ "))"]
    | none => []) ++
  (match scalar.minLength with
    | some n => ["S.minLength(" ++ integerText n ++ ")"]
    | none => []) ++
  (match scalar.maxLength with
    | some n => ["S.maxLength(" ++ integerText n ++ ")"]
    | none => [])

/-- The filter of a limit. -/
def limitFilter : Limit → String
  | .minimum => "S.greaterThanOrEqualTo"
  | .maximum => "S.lessThanOrEqualTo"
  | .exclusiveMinimum => "S.greaterThan"
  | .exclusiveMaximum => "S.lessThan"

/-- The filters of the limits that no override takes care of. -/
def limitFilters (scalar : Scalar) (consumed : List String) : List String :=
  [Limit.minimum, .maximum, .exclusiveMinimum, .exclusiveMaximum].filterMap fun limit =>
    if consumed.contains limit.name then none
    else (scalar.limits limit).map fun value => limitFilter limit ++ "(" ++ value.literal ++ ")"

/-- Whether a value is a text. -/
def isText : Json → Bool
  | .str _ => true
  | _ => false

/-- Whether a value is a number. -/
def isNumber : Json → Bool
  | .int _ | .double _ => true
  | _ => false

/-- Code for one of some values, all of which have to be of one type. -/
def constants (expected : String) (isExpected : Json → Bool) (values : List Json) :
    Except Failure Expr :=
  if values.all isExpected then .ok (.constants values) else .error (.mixedEnum expected values)

/-- Code for null or a boolean, with the ids it refers to. -/
def generateFixed (usual : String) (choice : Option Override) : Expr × List String :=
  match choice with
  | none => (.verbatim usual, [])
  | some override => (.verbatim override.code, override.refs)

/-- Code for a text, with the ids it refers to. -/
def generateString (choice : Choice) (schema : Schema) (scalar : Scalar) :
    Except Failure (Expr × List String) := do
  match scalar.enum with
  | some values => return (← constants "string" isText values, [])
  | none =>
    let base ← baseOf stringFormats "S.String" scalar.format
    match ← choice schema with
    | none => return (.filtered base scalar.stringFilters, [])
    | some override => return (.verbatim override.code, Text.unique override.refs)

/-- Code for a number, with the ids it refers to. Limits are kept under an override that does not
take care of them. -/
def generateNumber (choice : Choice) (schema : Schema) (scalar : Scalar) :
    Except Failure (Expr × List String) := do
  match scalar.enum with
  | some values => return (← constants "number" isNumber values, [])
  | none =>
    let base ← baseOf numberFormats "S.Number" scalar.format
    match ← choice schema with
    | none =>
      let integral := if scalar.kind = .integer then ["S.int()"] else []
      return (.filtered base (integral ++ scalar.limitFilters []), [])
    | some override =>
      return (.filtered override.code (scalar.limitFilters override.consumed),
        Text.unique override.refs)

/-- Code for a scalar, with the ids it refers to. -/
def generate (overrides : Overrides) (schema : Schema) (scalar : Scalar) :
    Except Failure (Expr × List String) := do
  match scalar.kind with
  | .null => return generateFixed "S.Null" (← overrides.null schema)
  | .string => generateString overrides.string schema scalar
  | .number | .integer => generateNumber overrides.number schema scalar
  | .boolean =>
    if scalar.enum.isSome then throw .booleanEnum
    return generateFixed "S.Boolean" (← overrides.boolean schema)

end Scalar

namespace Schema

/-- Whether a member of an `allOf` has fields to merge. -/
def isMergeable (table : Definitions) : Schema → Except Failure Bool
  | .reference _ ref => do table.isObjectShaped (← target ref)
  | .object _ _ _ _ _ => .ok true
  | _ => .ok false

/-- Whether all members of an `allOf` have fields to merge. All are asked, so that a failure in
any of them shows. -/
def areMergeable (table : Definitions) (members : List Schema) : Except Failure Bool := do
  return (← members.mapM (isMergeable table)).all id

/-- Whether an object says nothing about its properties. -/
def isVacuous : Schema → Bool
  | .object _ [] _ .unstated _ | .object _ [] _ (.allowed false) _ => true
  | _ => false

/-- Whether a field has to be present, and otherwise its form. -/
def presence (form : OptionalField) (required : List Json) (name : String) (schema : Schema) :
    Presence :=
  if required.any (Json.same (.str name)) then .required
  else .optional (form = .nullish) schema.info.default?

/-- The filters of a list. -/
def lengthFilters (minItems maxItems : Option Int) : List String :=
  (match minItems with
    | some n => ["S.minItems(" ++ integerText n ++ ")"]
    | none => []) ++
  (match maxItems with
    | some n => ["S.maxItems(" ++ integerText n ++ ")"]
    | none => [])

end Schema

/-- The override of an object or scalar as a whole, which is logged. -/
def Context.overriding (context : Context) (schema : Schema) : Logged (Option Generated) := do
  match ← context.overrides.schema schema with
  | none => return none
  | some override =>
    Logged.record .debug ("Schema hook override at " ++ schema.info.path)
    return some (.ofOverride override)

mutual

/-- The code of a schema. In an `allOf`, members that say nothing are left out; objects are merged
into one, and members of other kinds extend the first member. -/
def Schema.generate (context : Context) : Schema → Logged Generated
  | .reference _ ref => do
    let id ← Schema.target ref
    let before ← context.isBefore id
    return { code := .reference id (!before), refs := [id] }
  | .array info items minItems maxItems => do
    let result ← items.generate context
    return {
      code := .array result.code (Schema.lengthFilters minItems maxItems)
      refs := result.refs
      docs := (Schema.array info items minItems maxItems).docs }
  | .scalar info s => do
    match ← context.overriding (.scalar info s) with
    | some result => return result
    | none =>
      let (code, refs) ← s.generate context.overrides (.scalar info s)
      return { code, refs, docs := (Schema.scalar info s).docs }
  | .object info properties required additional headings => do
    let schema := Schema.object info properties required additional headings
    match ← context.overriding schema with
    | some result => return result
    | none =>
      match properties with
      | [] =>
        let (code, refs) ← additional.generateAlone context
        return { code, refs, docs := schema.docs }
      | properties =>
        let (further, furtherRefs) ← additional.generateFurther context
        let (fields, refs) ← generateFields context required headings properties
        return {
          code := .struct fields further
          refs := Text.unique (furtherRefs ++ refs)
          docs := schema.docs }
  | .combined _ .allOf [member] => member.generate context
  | .combined info .allOf members => do
    let mergeable ← Schema.areMergeable context.table members
    let results ← generateTelling context members
    let docs := (Schema.combined info .allOf members).docs
    match results with
    | [] => return { code := .struct [] none, docs }
    | [result] => return result
    | results =>
      let code ← if mergeable then do
          pure (Expr.merged (← generateParts context results members))
        else do
          pure (Expr.extended (← Generated.commented results))
      return { code, refs := Generated.combineRefs results, docs }
  | .combined info combinator members => do
    let results ← generateMembers context members
    match results with
    | [] => throw (.emptyUnion combinator.key)
    | [result] => return result
    | results =>
      return {
        code := .union (← Generated.commented results)
        refs := Generated.combineRefs results
        docs := (Schema.combined info combinator members).docs }
  | .unsupported info construct => throw (.inexpressible construct info.path)

/-- The code of every member. -/
def generateMembers (context : Context) : List Schema → Logged (List Generated)
  | [] => return []
  | member :: rest => do
    let result ← member.generate context
    return result :: (← generateMembers context rest)

/-- The code of every member that says something. -/
def generateTelling (context : Context) : List Schema → Logged (List Generated)
  | [] => return []
  | member :: rest =>
    if member.isVacuous then generateTelling context rest
    else do
      let result ← member.generate context
      return result :: (← generateTelling context rest)

/-- The parts of a merged object, given the code of every member that says something: references
are spread, and the fields of objects are listed. -/
def generateParts (context : Context) : List Generated → List Schema → Logged (List Part)
  | results, member :: rest =>
    if member.isVacuous then generateParts context results rest
    else match results with
      | [] => return []
      | result :: results => do
        let part : Comments → Part ← match member with
          | .object _ properties required _ headings => do
            let (fields, _) ← generateFields context required headings properties
            pure fun comments => .fields comments fields
          | _ => pure fun comments => .spread comments result.code
        let comments ← result.docs.comments
        return part comments :: (← generateParts context results rest)
  | _, [] => return []

/-- The fields of an object, with the ids they refer to. -/
def generateFields (context : Context) (required : List Json) (headings : Table String) :
    List (String × Schema) → Logged (List (Field Expr) × List String)
  | [] => return ([], [])
  | (name, schema) :: rest => do
    let result ← schema.generate context
    let comments ← result.docs.comments
    let field : Field Expr := {
      name, comments
      heading := headings.get? name
      presence := schema.presence context.overrides.optionalField required name
      type := result.code }
    let (fields, refs) ← generateFields context required headings rest
    return (field :: fields, Text.unique (result.refs ++ refs))

/-- The code of an object without properties, with the ids it refers to. -/
def Additional.generateAlone (context : Context) : Additional → Logged (Expr × List String)
  | .unstated => return (.struct [] none, [])
  | .allowed true => return (.verbatim "S.Record(S.String, S.Unknown)", [])
  | .allowed false => return (.verbatim "S.Record(S.Never, S.Never)", [])
  | .typed schema => do
    let result ← schema.generate context
    return (.record result.code, result.refs)

/-- The code for further values of an object with properties, with the ids it refers to. Whether
values of any type are allowed has no counterpart in code. -/
def Additional.generateFurther (context : Context) :
    Additional → Logged (Option Expr × List String)
  | .unstated | .allowed _ => return (none, [])
  | .typed schema => do
    let result ← schema.generate context
    return (some result.code, result.refs)

end

end SchemaPress
