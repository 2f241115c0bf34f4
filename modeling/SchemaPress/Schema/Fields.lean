import SchemaPress.Schema.Basic
import SchemaPress.Text.Blank
import SchemaPress.Text.Pieces

/-!
Curation of the fields of an object. Field groups name the properties to keep and their order; the
first field of a group carries the name of the group as its heading.
-/

namespace SchemaPress

/-- A group of fields under a name. -/
structure FieldGroup where
  name : String
  fields : List String
  deriving DecidableEq, Repr

namespace FieldGroup

/-- The names in a list whose items stand between commas; blanks after a comma do not count. -/
def splitNames (list : String) : List String :=
  match list.toList.splitOn ',' with
  | [] => []
  | first :: rest =>
    String.ofList first :: rest.map fun piece => String.ofList (piece.dropWhile Text.isBlank)

/-- The names that an element of a group lists. -/
def namesOf (element : Json) : Except Failure (List String) := do
  return splitNames (← element.asSubject)

/-- The fields that a value lists. -/
def fieldsOf (value : Json) : Except Failure (List String) := do
  return (← (← value.elements).mapM namesOf).flatten

/-- The groups that a value describes, by name. -/
def ofJson (value : Json) : Except Failure (List FieldGroup) := do
  (← value.asEntries).mapM fun (name, fields) => do return ⟨name, ← fieldsOf fields⟩

/-- The fields of groups, each once, in order of first mention. -/
def ordering (groups : List FieldGroup) : List String :=
  Text.unique (groups.flatMap (·.fields))

/-- The headings that groups give to their first fields. -/
def headings (groups : List FieldGroup) : Table String :=
  Table.ofEntries (groups.filterMap fun group => group.fields.head?.map fun first =>
    (first, group.name))

/-- The properties that groups name, in their order. -/
def select (groups : List FieldGroup) (properties : List (String × Schema)) :
    List (String × Schema) :=
  (ordering groups).filterMap fun name =>
    (Table.get? properties name).map fun schema => (name, schema)

end FieldGroup

mutual

/-- A schema with its fields curated. In a combination every member is curated; other schemas than
objects cannot be. The groups are looked at only where there are properties. -/
def Schema.curate (groups : Except Failure (List FieldGroup)) : Schema → Except Failure Schema
  | .combined info combinator members => do
    return .combined info combinator (← curateMembers groups members)
  | .object info [] required additional headings =>
    .ok (.object info [] required additional headings)
  | .object info properties required additional _ => do
    let groups ← groups
    let kept := FieldGroup.select groups properties
    let headings := (FieldGroup.headings groups).filter fun entry => Table.has kept entry.1
    return .object info kept required additional headings
  | _ => .error .notObjectSchema

/-- The members of a combination with their fields curated. -/
def curateMembers (groups : Except Failure (List FieldGroup)) :
    List Schema → Except Failure (List Schema)
  | [] => .ok []
  | member :: rest => do
    let curated ← member.curate groups
    return curated :: (← curateMembers groups rest)

end

end SchemaPress
