import SchemaPress.Plan.Basic

/-!
Locators: where the definition made from a schema is to be found. The first directive for a schema
counts.
-/

namespace SchemaPress

/-- A place in a plan: the path of a module, the directive, and whether it is a support module. -/
structure Locator where
  path : String
  directive : Directive
  isRuntime : Bool

/-- Locators by the id of the schema. -/
abbrev Locators := List (Json × Locator)

namespace Locators

/-- The locator for a schema. -/
def find? (locators : Locators) (source : Json) : Option Locator :=
  (List.find? (fun entry => entry.1.same source) locators).map Prod.snd

/-- Adds a place for a schema that has none. -/
def add (locators : Locators) (source : Json) (locator : Locator) : Except Failure Locators := do
  let source ← source.asKey
  return if (find? locators source).isSome then locators else locators ++ [(source, locator)]

/-- Adds the places of the directives of modules; `isRuntime` tells support modules by path. What
is no module has no directives. -/
def addModules (isRuntime : String → Bool) (locators : Locators) (listing : Listing) :
    Except Failure Locators :=
  listing.foldlM (fun locators (path, directives?) =>
    match directives? with
    | none => .error (.mismatch .operation)
    | some directives => directives.foldlM (fun locators directive =>
        add locators directive.source ⟨path, directive, isRuntime path⟩) locators) locators

end Locators

/-- The locators of a plan. -/
def Plan.locators (plan : Plan) : Except Failure Locators := do
  let (runtime, modules) ← plan.listings
  let isRuntime := fun path => Table.has runtime path && !Table.has modules path
  let locators ← Locators.addModules isRuntime [] (Table.update runtime modules)
  match plan.modules with
  | .unreadable _ => throw (.mismatch .operation)
  | _ => return locators

end SchemaPress
