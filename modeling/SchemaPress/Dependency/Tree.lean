import SchemaPress.Dependency.Reach

/-!
The dependency tree of a definition. The same definition may be expanded on several branches; one
that repeats along a path from the root is not expanded again.
-/

namespace SchemaPress

/-- What a dependency tree has under an id: a mark that the id repeats along the path, or the
trees of the definition's own dependencies. -/
inductive Branch where
  | recurse
  | expanded (children : List (String × Branch))

/-- A dependency tree: the dependencies of a definition, each with what is under it. -/
abbrev Tree := Table Branch

mutual

/-- The tree of a schema, given what is under each id that it refers to. -/
def Schema.tree (follow : String → Except Failure Branch) : Schema → Except Failure Tree
  | .reference _ ref => do
    let id ← Schema.target ref
    return [(id, ← follow id)]
  | .scalar _ _ => .ok []
  | .array _ items _ _ => items.tree follow
  | .object _ properties _ additional _ => do
    let named ← propertyTree follow properties
    return Table.update named (← additional.tree follow)
  | .combined _ _ members => memberTree follow members
  | .unsupported info construct => .error (.unsupportedSchema construct (some info.path))

/-- The tree of the schema of other properties. -/
def Additional.tree (follow : String → Except Failure Branch) : Additional → Except Failure Tree
  | .typed schema => schema.tree follow
  | .unstated | .allowed _ => .ok []

/-- The trees of properties, put together. -/
def propertyTree (follow : String → Except Failure Branch) :
    List (String × Schema) → Except Failure Tree
  | [] => .ok []
  | (_, schema) :: rest => do
    let here ← schema.tree follow
    return Table.update here (← propertyTree follow rest)

/-- The trees of members, put together. -/
def memberTree (follow : String → Except Failure Branch) : List Schema → Except Failure Tree
  | [] => .ok []
  | schema :: rest => do
    let here ← schema.tree follow
    return Table.update here (← memberTree follow rest)

end

namespace Definitions

/-- The tree of a schema that is reached along a path of ids. -/
def expand (table : Definitions) (path : List String) (schema : Schema) : Except Failure Tree :=
  schema.tree fun id =>
    if _ : id ∈ path then .ok .recurse
    else match _ : Table.get? table id with
      | none => .error (.missingSchema id)
      | some definition => do return .expanded (← expand table (id :: path) definition)
termination_by unvisited table path
decreasing_by apply unvisited_lt <;> assumption

/-- The dependency tree of a definition. -/
def tree (table : Definitions) (root : String) : Except Failure Tree :=
  match Table.get? table root with
  | none => .error (.missingSchema root)
  | some schema => do return [(root, .expanded (← expand table [root] schema))]

end Definitions

/-- A character of an outline: everything but printable ASCII is escaped by its UTF-16 units. -/
def outlineChar (c : Char) : List Char :=
  let n := c.toNat
  let unit (n : Nat) : List Char := '\\' :: 'u' :: Text.hexadecimal 4 n
  if 0x20 ≤ n ∧ n ≤ 0x7E then Json.literalChar c
  else if n < 0x20 then Json.literalChar c
  else if n < 0x10000 then unit n
  else unit (0xD800 + (n - 0x10000) / 0x400) ++ unit (0xDC00 + (n - 0x10000) % 0x400)

/-- A text of an outline. -/
def outlineText (s : String) : String :=
  String.ofList ('"' :: s.toList.flatMap outlineChar ++ ['"'])

mutual

/-- What is under an id, written as JSON with two blanks of indent a level. -/
def Branch.outline (indent : String) : Branch → String
  | .recurse => "\"recurse\""
  | .expanded children => treeOutline indent children

/-- A tree written as JSON with two blanks of indent a level. -/
def treeOutline (indent : String) : List (String × Branch) → String
  | [] => "\x7b\x7d"
  | (id, branch) :: rest =>
    let inner := indent ++ "  "
    "\x7b\n" ++ inner ++ outlineText id ++ ": " ++ branch.outline inner ++
      furtherOutline inner rest ++ "\n" ++ indent ++ "\x7d"

/-- The entries of a tree after the first. -/
def furtherOutline (indent : String) : List (String × Branch) → String
  | [] => ""
  | (id, branch) :: rest =>
    ",\n" ++ indent ++ outlineText id ++ ": " ++ branch.outline indent ++
      furtherOutline indent rest

end

end SchemaPress
