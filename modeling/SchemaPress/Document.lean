import SchemaPress.Json.Reader
import SchemaPress.Log
import SchemaPress.Schema.Parse
import SchemaPress.Text.Blank

/-!
OpenAPI documents: a title, a version and the definitions. Only documents of version 3.1 are read.
-/

namespace SchemaPress

/-- A document with its definitions. -/
structure Document where
  title : String
  version : String
  schemas : Definitions

namespace Document

/-- The version that a document must state, up to what follows it. -/
def supportedVersion : String := "3.1"

/-- Whether a stated version is supported. -/
def isSupported : Json → Bool
  | .str version => Text.startsWith (Text.trim version) supportedVersion
  | _ => false

/-- The value of a key of an optional object: absent if the object is not given. -/
def within (value : Json) (key : String) : Except Failure (Option Json) := do
  if value.isTruthy then return Table.get? (← value.asEntries) key else return none

/-- A piece of information as a text; it is empty if it is absent. -/
def described (info : Json) (key : String) : Except Failure String := do
  return ((← within info key).map Json.display).getD ""

/-- The raw schemas of a document. -/
def schemasOf (entries : Table Json) : Except Failure (Table Json) := do
  let schemas := ((← within (Json.optional entries "components") "schemas").getD .null)
  match schemas with
  | .obj schemas => .ok schemas
  | other => if other.isTruthy then .error .schemasNotObject else .ok []

/-- The document that a value describes. -/
def ofJson : Json → Except Failure Document
  | .obj entries =>
    match Table.get? entries "openapi" with
    | none => .error .notOpenApi
    | some version =>
      if isSupported version then do
        let schemas ← schemasOf entries
        let info := Json.optional entries "info"
        let title ← described info "title"
        let version ← described info "version"
        return { title, version, schemas := ← Definitions.ofEntries schemas }
      else .error (.unsupportedVersion version)
  | _ => .error .notOpenApi

/-- The document that the text of a file describes. -/
def ofText (path text : String) : Logged Document := do
  match Json.read text with
  | .error .malformed => throw (.malformedDocument path)
  | .error .longInteger => throw (.mismatch .value)
  | .ok value =>
    let document ← ofJson value
    Logged.record .debug
      ("Loaded " ++ integerText document.schemas.length ++ " schemas from " ++ path)
    return document

/-- The document in a file, given the file's bytes if there is such a file. -/
def load (path : String) (content : Option ByteArray) : Logged Document :=
  match content with
  | none => throw (.file .missing)
  | some bytes =>
    match String.fromUTF8? bytes with
    | none => throw .malformedEncoding
    | some text => ofText path text

end Document

end SchemaPress
