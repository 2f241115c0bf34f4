import SchemaPress.Code.Override
import SchemaPress.Plan.Modules

/-!
Plans: which modules to generate and what goes into each of them. The modules of a plan are its
support modules, which come first, and its schema modules.
-/

namespace SchemaPress

/-- How modules are derived from the definitions: one for each, one for all, or only those that
the plan names. -/
inductive Method where
  | oneToOne
  | bundled
  | custom
  deriving DecidableEq, Repr

/-- The name of a method. -/
def Method.name : Method → String
  | .oneToOne => "one-to-one"
  | .bundled => "bundled"
  | .custom => "custom"

/-- The method that a value names. -/
def Method.ofJson (value : Json) : Except Failure Method :=
  match [Method.oneToOne, .bundled, .custom].find? fun method =>
      value.text? = some method.name with
  | some method => .ok method
  | none => .error (.mismatch .value)

/-- The overrides of a plan: known, replaced by a value that has none, or absent. -/
inductive PlanOverrides where
  | known (overrides : Overrides)
  | unusable
  | absent

/-- The overrides to generate with. -/
def PlanOverrides.get : PlanOverrides → Except Failure Overrides
  | .known overrides => .ok overrides
  | .unusable => .ok .unusable
  | .absent => .error (.mismatch .operation)

/-- The form of optional fields that overrides state. A value that took their place has none. -/
def PlanOverrides.optionalField : PlanOverrides → Except Failure OptionalField
  | .known overrides => .ok overrides.optionalField
  | .unusable | .absent => .error (.mismatch .operation)

/-- A plan. Without overrides of its own it has the usual ones. Values under names that the plan
needs for itself are `taken` as they are. -/
structure Plan where
  method : Method := .oneToOne
  bundleName : Json := .str "bundle"
  barrel : Json := .bool false
  overrides : PlanOverrides := .known {}
  runtime : Modules := .table []
  modules : Modules := .table []
  taken : Table Json := []

namespace Plan

/-- The name of what lists all modules of a plan. -/
def listingName : String := "all_modules"

/-- The name of what describes a plan. -/
def descriptionName : String := "to_dict"

/-- The name of what says which settings a resolved plan keeps. -/
def settingsName : String := "__dataclass_fields__"

/-- The name of the method; it is taken by a method that was set as it is. -/
def methodName : String := "method"

/-- The names that a plan needs for itself, beside its settings. -/
def ownNames : List String :=
  [listingName, descriptionName, settingsName]

/-- Whether a name that a plan needs for itself is taken. -/
def isTaken (plan : Plan) (name : String) : Bool :=
  Table.has plan.taken name

/-- What a plan lists: its support modules and its schema modules. -/
def listings (plan : Plan) : Except Failure (Listing × Listing) := do
  if plan.isTaken listingName then throw (.mismatch .type)
  return (← plan.runtime.listing, ← plan.modules.listing)

/-- All modules of a plan, support modules first. A schema module takes the place of a support
module with the same path. -/
def allModules (plan : Plan) : Except Failure (Table (List Directive)) := do
  let (runtime, modules) ← plan.listings
  (Table.update runtime modules).mapM fun (path, directives?) =>
    match directives? with
    | some directives => .ok (path, directives)
    | none => .error (.mismatch .operation)

end Plan

end SchemaPress
