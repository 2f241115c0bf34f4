import SchemaPress.Json.Basic
import SchemaPress.Double.Print
import SchemaPress.Text.Pieces
import SchemaPress.Text.Quoted

/-!
Values in messages. `inspect` is unambiguous: texts are quoted. `display` shows a text as it is
and everything else as `inspect` does.
-/

namespace SchemaPress

/-- The decimal digits of an integer, with its sign. -/
def integerText (n : Int) : String :=
  let digits := String.ofList (Nat.toDigits 10 n.natAbs)
  if n < 0 then "-" ++ digits else digits

namespace Json

mutual

/-- A value as messages show it inside another value. -/
def inspect : Json → String
  | .null => "None"
  | .bool b => if b then "True" else "False"
  | .int n => integerText n
  | .double x => x.text
  | .str s => Text.quoted s
  | .arr items => "[" ++ Text.join ", " (inspectItems items) ++ "]"
  | .obj entries => "\x7b" ++ Text.join ", " (inspectEntries entries) ++ "\x7d"

/-- The items of a list as messages show them. -/
def inspectItems : List Json → List String
  | [] => []
  | item :: rest => inspect item :: inspectItems rest

/-- The entries of an object as messages show them. -/
def inspectEntries : List (String × Json) → List String
  | [] => []
  | (key, value) :: rest => (Text.quoted key ++ ": " ++ inspect value) :: inspectEntries rest

end

/-- A value as messages show it on its own. -/
def display : Json → String
  | .str s => s
  | value => value.inspect

end Json

end SchemaPress
