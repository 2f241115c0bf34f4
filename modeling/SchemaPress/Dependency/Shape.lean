import SchemaPress.Dependency.Reach

/-!
Object shape: whether a definition describes an object. An `allOf` does if all of its members do,
a reference if the definition it names does; unions, arrays and scalars never do. A chain of
references that comes back to itself has no answer.
-/

namespace SchemaPress

mutual

/-- Whether a schema describes an object, given the answer for each reference. All members of an
`allOf` are asked, so that a failure in any of them shows. -/
def Schema.isObjectShaped (follow : Json → String → Except Failure Bool) :
    Schema → Except Failure Bool
  | .reference _ ref => do follow ref (← Schema.target ref)
  | .combined _ .allOf members => areObjectShaped follow members
  | .combined _ .oneOf _ | .combined _ .anyOf _ => .ok false
  | .object _ _ _ _ _ => .ok true
  | .array _ _ _ _ | .scalar _ _ => .ok false
  | .unsupported _ construct => .error (.unsupportedSchema construct none)

/-- Whether all of the schemas describe objects. -/
def areObjectShaped (follow : Json → String → Except Failure Bool) :
    List Schema → Except Failure Bool
  | [] => .ok true
  | schema :: rest => do
    let here ← schema.isObjectShaped follow
    let later ← areObjectShaped follow rest
    return here && later

end

namespace Definitions

/-- Whether a schema that is reached along a path of ids describes an object. -/
def shape (table : Definitions) (path : List String) (schema : Schema) : Except Failure Bool :=
  schema.isObjectShaped fun ref id =>
    if _ : id ∈ path then .error (.circularShape ref.display)
    else match _ : Table.get? table id with
      | none => .error (.missingSchema id)
      | some definition => shape table (id :: path) definition
termination_by unvisited table path
decreasing_by apply unvisited_lt <;> assumption

/-- Whether a definition describes an object. -/
def isObjectShaped (table : Definitions) (root : String) : Except Failure Bool :=
  match Table.get? table root with
  | none => .error (.missingSchema root)
  | some schema => shape table [root] schema

end Definitions

end SchemaPress
