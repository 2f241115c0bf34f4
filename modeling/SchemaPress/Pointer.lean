import SchemaPress.Failure

/-!
JSON pointers and references to definitions. A pointer is a list of segments, each after a slash;
inside a segment `~0` stands for a tilde and `~1` for a slash. A reference names one definition of
the document and nothing inside it.
-/

namespace SchemaPress

namespace Pointer

/-- A segment with its escapes resolved. -/
def unescape : List Char → List Char
  | '~' :: '1' :: rest => '/' :: unescape rest
  | '~' :: '0' :: rest => '~' :: unescape rest
  | c :: rest => c :: unescape rest
  | [] => []

/-- A character of a segment, escaped. -/
def escapeChar (c : Char) : List Char :=
  if c = '~' then ['~', '0'] else if c = '/' then ['~', '1'] else [c]

/-- A segment with its tildes and slashes escaped. -/
def escape (segment : List Char) : List Char :=
  segment.flatMap escapeChar

/-- The segments of a pointer; the empty pointer has none. -/
def decode (pointer : String) : Except Failure (List String) :=
  match pointer.toList with
  | [] => .ok []
  | '/' :: rest => .ok ((rest.splitOn '/').map fun segment => String.ofList (unescape segment))
  | _ => .error (.invalidPointer pointer)

/-- The pointer with the given segments. -/
def encode (segments : List String) : String :=
  String.ofList (segments.flatMap fun segment => '/' :: escape segment.toList)

end Pointer

namespace Reference

/-- Where a document keeps its definitions. -/
def definitionsPath : List String := ["components", "schemas"]

/-- The reference to a definition. -/
def ofId (id : String) : String :=
  "#" ++ Pointer.encode (definitionsPath ++ [id])

/-- The id of the definition that a reference names. -/
def toId (ref : String) : Except Failure String :=
  match ref.toList with
  | '#' :: '/' :: rest => do
    match ← Pointer.decode (String.ofList ('/' :: rest)) with
    | first :: second :: id :: nested =>
      if [first, second] ≠ definitionsPath || id.isEmpty then .error (.unsupportedReference ref)
      else if nested.isEmpty then .ok id
      else .error (.nestedReference ref)
    | _ => .error (.unsupportedReference ref)
  | _ => .error (.unsupportedReference ref)

end Reference

end SchemaPress
