import SchemaPress.Text.Pieces

/-!
Names in generated code. A definition id becomes an identifier, and a property name becomes a key
of an object literal. A name that reads as an identifier is kept; one final line feed does not
keep it from doing so.
-/

namespace SchemaPress.Name

/-- The characters that an identifier can start with. -/
def isStart (c : Char) : Bool :=
  c.isAlpha || c = '$' || c = '_'

/-- The characters of an identifier. -/
def isPart (c : Char) : Bool :=
  c.isAlphanum || c = '$' || c = '_'

/-- Whether a text is an identifier. -/
def isIdentifier : List Char → Bool
  | [] => false
  | c :: rest => isStart c && rest.all isPart

/-- Whether a text is an identifier, up to one final line feed. -/
def readsAsIdentifier (cs : List Char) : Bool :=
  isIdentifier cs || (cs.getLast? = some '\n' && isIdentifier cs.dropLast)

/-- The identifier of a definition id: what an identifier cannot hold is left out, and an
underscore goes before a leading digit. -/
def identifier (id : String) : String :=
  let cs := id.toList
  if readsAsIdentifier cs then id
  else
    let kept := cs.filter isPart
    match kept with
    | [] => ""
    | c :: _ => String.ofList (if c.isDigit then '_' :: kept else kept)

/-- A property name as a key of an object literal: itself if it reads as an identifier, and in
single quotes otherwise. -/
def propertyKey (name : String) : String :=
  let cs := name.toList
  if readsAsIdentifier cs then name
  else String.ofList ('\'' :: cs.flatMap (fun c => if c = '\'' then ['\\', c] else [c]) ++ ['\''])

end SchemaPress.Name
