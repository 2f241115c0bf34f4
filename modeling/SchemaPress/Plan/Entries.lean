import SchemaPress.Plan.Basic

/-!
Plans as objects. The entries of an object are set one after the other, and the first that cannot
be set counts; a value that is set as it is may still fail where the plan is used. Entries that mean
nothing to a plan are ignored.
-/

namespace SchemaPress.Plan

/-- The overrides that an object describes: only the form of optional fields can be stated. -/
def overridesOf (entries : Table Json) : Except Failure PlanOverrides := do
  let form ← match Table.get? entries "optional_field_representation" with
    | none => pure OptionalField.plain
    | some form => OptionalField.ofJson form
  return .known { optionalField := form }

/-- The overrides once a value is set: an object describes them, and another value replaces those
there are. -/
def setOverrides (old : PlanOverrides) : Json → Except Failure PlanOverrides
  | .obj entries => overridesOf entries
  | _ => .ok <| match old with
    | .absent => .absent
    | _ => .unusable

/-- Modules once a value is set: an object lists them, and another value replaces those there
are. -/
def setModules (old : Modules) : Json → Except Failure Modules
  | .obj entries => Modules.ofEntries entries
  | value => .ok <| match old with
    | .absent => .absent
    | _ => .raw value

/-- The plan that has nothing but the entries of an object, which it keeps as they are. -/
def verbatim (entries : Table Json) : Plan where
  method := ((Table.get? entries "method").bind fun value => (Method.ofJson value).toOption).getD
    .oneToOne
  bundleName := (Table.get? entries "bundle_name").getD (.str "bundle")
  barrel := (Table.get? entries "generate_barrel_file").getD (.bool false)
  overrides := if Table.has entries "hooks" then .unusable else .absent
  runtime := ((Table.get? entries "runtime").map Modules.raw).getD .absent
  modules := ((Table.get? entries "modules").map Modules.raw).getD .absent
  taken := entries.filter fun entry => entry.1 = methodName || ownNames.contains entry.1

/-- Sets a name that is none of a plan's settings. Its type cannot be set, an object can take the
place of all its entries, and names that mean nothing to it are ignored. -/
def setOwn (plan : Plan) (name : String) (value : Json) : Except Failure Plan :=
  match name with
  | "__class__" => .error (.mismatch .type)
  | "__weakref__" => .error (.mismatch .operation)
  | "__dict__" => match value with
    | .obj entries => .ok (verbatim entries)
    | _ => .error (.mismatch .type)
  | _ => .ok <|
    if ownNames.contains name then { plan with taken := Table.insert name value plan.taken }
    else plan

/-- Sets one entry of a plan. -/
def setEntry (plan : Plan) (key : String) (value : Json) : Except Failure Plan := do
  match key with
  | "method" =>
    let taken := plan.taken.filter fun entry => entry.1 ≠ methodName
    return { plan with method := ← Method.ofJson value, taken }
  | "bundle_name" => return { plan with bundleName := value }
  | "generate_barrel_file" => return { plan with barrel := value }
  | "hooks" => return { plan with overrides := ← setOverrides plan.overrides value }
  | "runtime" => return { plan with runtime := ← setModules plan.runtime value }
  | "modules" => return { plan with modules := ← setModules plan.modules value }
  | _ => plan.setOwn key value

/-- The plan that a value describes. -/
def ofJson (value : Json) : Except Failure Plan := do
  (← value.asEntries).foldlM (fun plan entry => setEntry plan entry.1 entry.2) {}

/-- The value that describes a plan. -/
def toJson (plan : Plan) : Except Failure Json := do
  if plan.isTaken descriptionName then throw (.mismatch .type)
  if plan.isTaken methodName then throw (.mismatch .operation)
  let form ← plan.overrides.optionalField
  return .obj [
    ("method", .str plan.method.name),
    ("bundle_name", plan.bundleName),
    ("generate_barrel_file", plan.barrel),
    ("hooks", .obj [("optional_field_representation", .str form.name)]),
    ("runtime", ← plan.runtime.toJson),
    ("modules", ← plan.modules.toJson)]

end SchemaPress.Plan
