import SchemaPress.Json.Display

/-!
Values as source literals: compact JSON text in which a double that is an integer is written as
that integer, and only quotes, backslashes and control characters are escaped.

Integers are written in full, so that every value has a literal. The limit on the digits of integers
that reading may have does not hold for writing here: a literal with more digits than that is not a
fault, though it cannot be read back under the limit.
-/

namespace SchemaPress.Json

/-- A character inside a string literal. -/
def literalChar (c : Char) : List Char :=
  if c = '"' then ['\\', '"']
  else if c = '\\' then ['\\', '\\']
  else if c = '\n' then ['\\', 'n']
  else if c = '\r' then ['\\', 'r']
  else if c = '\t' then ['\\', 't']
  else if c = '\x08' then ['\\', 'b']
  else if c = '\x0c' then ['\\', 'f']
  else if c.toNat < 0x20 then '\\' :: 'u' :: Text.hexadecimal 4 c.toNat
  else [c]

/-- A text as a string literal. -/
def literalText (s : String) : String :=
  String.ofList ('"' :: s.toList.flatMap literalChar ++ ['"'])

/-- A double as a literal. -/
def literalDouble (x : Double) : String :=
  match x.toInt?, x with
  | some n, _ => integerText n
  | none, .nan => "NaN"
  | none, .infinite negative => if negative then "-Infinity" else "Infinity"
  | none, _ => x.text

mutual

/-- The literal of a value. -/
def literal : Json → String
  | .null => "null"
  | .bool b => if b then "true" else "false"
  | .int n => integerText n
  | .double x => literalDouble x
  | .str s => literalText s
  | .arr items => "[" ++ Text.join "," (literalItems items) ++ "]"
  | .obj entries => "\x7b" ++ Text.join "," (literalEntries entries) ++ "\x7d"

/-- The literals of the items of a list. -/
def literalItems : List Json → List String
  | [] => []
  | item :: rest => literal item :: literalItems rest

/-- The literals of the entries of an object. -/
def literalEntries : List (String × Json) → List String
  | [] => []
  | (key, value) :: rest => (literalText key ++ ":" ++ literal value) :: literalEntries rest

end

end SchemaPress.Json
