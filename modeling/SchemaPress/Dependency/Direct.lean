import SchemaPress.Schema.Basic
import SchemaPress.Text.Pieces

/-!
Direct dependencies: the definitions that a schema refers to without following a reference. The
dependents of a definition are the definitions that refer to it directly.
-/

namespace SchemaPress

mutual

/-- The ids that a schema refers to, in order of first occurrence: properties come before what an
object says about other properties. -/
def Schema.dependencies : Schema → Except Failure (List String)
  | .reference _ ref => do return [← Schema.target ref]
  | .scalar _ _ => .ok []
  | .array _ items _ _ => do return Text.unique (← items.dependencies)
  | .object _ properties _ additional _ => do
    let named ← propertyDependencies properties
    let others ← additional.dependencies
    return Text.unique (named ++ others)
  | .combined _ _ members => do return Text.unique (← memberDependencies members)
  | .unsupported info construct => .error (.unsupportedSchema construct (some info.path))

/-- The ids that the schema of other properties refers to. -/
def Additional.dependencies : Additional → Except Failure (List String)
  | .typed schema => schema.dependencies
  | .unstated | .allowed _ => .ok []

/-- The ids that properties refer to, one property after the other. -/
def propertyDependencies : List (String × Schema) → Except Failure (List String)
  | [] => .ok []
  | (_, schema) :: rest => do
    let here ← schema.dependencies
    return here ++ (← propertyDependencies rest)

/-- The ids that members refer to, one member after the other. -/
def memberDependencies : List Schema → Except Failure (List String)
  | [] => .ok []
  | schema :: rest => do
    let here ← schema.dependencies
    return here ++ (← memberDependencies rest)

end

/-- Which definitions stand in a relation to a definition, in order. -/
abbrev Adjacency := Table (List String)

namespace Adjacency

/-- The definitions related to one. -/
def of (adjacency : Adjacency) (id : String) : List String :=
  (Table.get? adjacency id).getD []

/-- Relates one more definition to a definition, unless it already is. -/
def relate (id other : String) : Adjacency → Adjacency
  | [] => [(id, [other])]
  | (key, others) :: rest =>
    if key = id then (key, if others.contains other then others else others ++ [other]) :: rest
    else (key, others) :: relate id other rest

end Adjacency

namespace Definitions

/-- The direct dependencies of every definition. -/
def dependencies : Definitions → Except Failure Adjacency
  | [] => .ok []
  | (id, schema) :: rest => do
    let here ← schema.dependencies
    return (id, here) :: (← dependencies rest)

/-- Adds the definitions of a table to the dependents of what they refer to. -/
def addDependents (dependents : Adjacency) : Definitions → Except Failure Adjacency
  | [] => .ok dependents
  | (id, schema) :: rest =>
    match schema.dependencies with
    | .error cause => .error (.unknownDependents id cause)
    | .ok targets =>
      addDependents (targets.foldl (fun result target => result.relate target id) dependents) rest

/-- The direct dependents of every definition that something refers to. -/
def dependents (table : Definitions) : Except Failure Adjacency :=
  addDependents [] table

end Definitions

end SchemaPress
