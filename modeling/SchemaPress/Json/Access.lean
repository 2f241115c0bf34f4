import SchemaPress.Failure

/-!
Using a value as if it had a certain type. Values come from documents and specifications that
nobody has checked, so each use says what happens when the type is another.
-/

namespace SchemaPress.Json

/-- The value as a text. -/
def asText : Json → Except Failure String
  | .str s => .ok s
  | _ => .error (.mismatch .operation)

/-- The value as a text that is searched or taken apart. -/
def asSubject : Json → Except Failure String
  | .str s => .ok s
  | _ => .error (.mismatch .type)

/-- The entries of the value as an object. -/
def asEntries : Json → Except Failure (Table Json)
  | .obj entries => .ok entries
  | _ => .error (.mismatch .operation)

/-- The elements that the value runs through: the items of a list, the characters of a text, the
keys of an object. -/
def elements : Json → Except Failure (List Json)
  | .arr items => .ok items
  | .str s => .ok (s.toList.map fun c => .str (String.singleton c))
  | .obj entries => .ok ((Table.keys entries).map .str)
  | _ => .error (.mismatch .type)

/-- Whether the value can be a key; lists and objects cannot. -/
def isKey : Json → Bool
  | .arr _ | .obj _ => false
  | _ => true

/-- The value as a key. -/
def asKey (value : Json) : Except Failure Json :=
  if value.isKey then .ok value else .error (.mismatch .type)

/-- The value of a required key. -/
def required (entries : Table Json) (key : String) : Except Failure Json :=
  match entries.get? key with
  | some value => .ok value
  | none => .error (.mismatch .key)

/-- The value of a key, null if it is absent. -/
def optional (entries : Table Json) (key : String) : Json :=
  (entries.get? key).getD .null

/-- Adds a value to a list of keys unless an equal one is in it. -/
def addKey (keys : List Json) (value : Json) : List Json :=
  if keys.any (same value) then keys else keys ++ [value]

/-- The set of keys that the value's elements make up, in order of first occurrence. -/
def asKeySet (value : Json) : Except Failure (List Json) := do
  let elements ← value.elements
  let keys ← elements.mapM asKey
  return keys.foldl addKey []

end SchemaPress.Json
