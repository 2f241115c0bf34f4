import SchemaPress.Dependency.Order
import SchemaPress.Plan.Basic

/-!
Resolution of a plan for a document: the modules that the plan's method derives from the
definitions.
-/

namespace SchemaPress

/-- The path of the module of a definition. -/
def modulePath (id : String) : String :=
  "./" ++ id ++ ".ts"

namespace Plan

/-- The directive for a definition among directives. -/
def findGenerate? (id : String) (directives : List Directive) : Option Directive :=
  directives.find? fun
    | .generate target _ _ _ => target.same (.str id)
    | _ => false

/-- A directive, declared lazy or not. -/
def setLazy (lazy : Bool) : Directive → Directive
  | .generate id source declaration fields =>
    .generate id source { declaration with lazy := .bool lazy } fields
  | directive => directive

/-- The directive for a definition that a bundle contains: the plan's own one, if its module has
one, declared lazy if the definition lies on a cycle. -/
def bundledDirective (modules : Table (List Directive)) (entry : OrderEntry) : Directive :=
  let own := (Table.get? modules (modulePath entry.id)).bind (findGenerate? entry.id)
  setLazy entry.circular (own.getD (.generate (.str entry.id) .null {} .null))

/-- The modules for definitions in order, given the plan's own modules. -/
def bundledTable (modules : Table (List Directive)) (order : List OrderEntry) :
    Table (List Directive) :=
  order.map fun entry => (modulePath entry.id, [bundledDirective modules entry])

/-- Whether an object has something under the path of one of some definitions. -/
def hasModuleOf (entries : Table Json) (order : List OrderEntry) : Bool :=
  order.any fun entry => !(Json.optional entries (modulePath entry.id)).isNull

/-- The modules of a bundle, one for each definition in order. -/
def bundledModules (modules : Modules) (order : List OrderEntry) : Except Failure Modules :=
  match modules, order with
  | _, [] => .ok (.table [])
  | .table modules, order => .ok (.table (bundledTable modules order))
  | .raw (.obj entries), order =>
    if hasModuleOf entries order then .error (.mismatch .operation)
    else .ok (.table (bundledTable [] order))
  | _, _ => .error (.mismatch .operation)

/-- The modules for definitions, one for each. -/
def derivedModules (ids : List String) : Table (List Directive) :=
  ids.map fun id => (modulePath id, [.generate (.str id) .null {} .null])

/-- The plan with other modules. It has the settings that the plan says it keeps, which are all or
none. -/
def withModules (plan : Plan) (modules : Modules) : Except Failure Plan :=
  match Table.get? plan.taken settingsName, plan.overrides, plan.runtime with
  | some (.obj []), _, _ => .ok { modules }
  | some _, _, _ | none, .absent, _ | none, _, .absent => .error (.mismatch .operation)
  | none, _, _ =>
    .ok { plan with modules, taken := plan.taken.filter fun entry => entry.1 = methodName }

/-- The plan with its modules resolved, given the ids of the document and their order, which only
a bundle needs. Modules of the plan take precedence over derived ones. -/
def resolve (plan : Plan) (ids : List String) (order : List OrderEntry) :
    Except Failure Plan := do
  plan.withModules (← match plan.method with
    | .oneToOne => plan.modules.overlaid (derivedModules ids)
    | .bundled => bundledModules plan.modules order
    | .custom => plan.modules.overlaid [])

end Plan

end SchemaPress
