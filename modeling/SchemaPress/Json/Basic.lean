import SchemaPress.Double.Basic
import SchemaPress.Table

/-!
JSON values. The entries of an object keep their order, and integers of any size are apart from
doubles: `1` and `1.0` are different values, which `same` identifies.
-/

namespace SchemaPress

/-- A JSON value. -/
inductive Json where
  | null
  | bool (value : Bool)
  | int (value : Int)
  | double (value : Double)
  | str (value : String)
  | arr (items : List Json)
  | obj (entries : List (String × Json))
  deriving Repr, Inhabited

namespace Json

/-- Whether the value counts as given: null, false, zero and everything empty do not. -/
def isTruthy : Json → Bool
  | .null => false
  | .bool b => b
  | .int n => n != 0
  | .double x => !x.isZero
  | .str s => !s.isEmpty
  | .arr items => !items.isEmpty
  | .obj entries => !entries.isEmpty

/-- The value, or another one if it does not count as given. -/
def orElse (value other : Json) : Json :=
  if value.isTruthy then value else other

/-- Whether the value is null. -/
def isNull : Json → Bool
  | .null => true
  | _ => false

/-- Whether the value is an object. -/
def isObject : Json → Bool
  | .obj _ => true
  | _ => false

/-- The value of a key, if the value is an object that has it. -/
def field? : Json → String → Option Json
  | .obj entries, key => Table.get? entries key
  | _, _ => none

/-- The text of a string value. -/
def text? : Json → Option String
  | .str s => some s
  | _ => none

/-- The number of a numeric value as an integer, booleans counting as zero and one. -/
def integral? : Json → Option Int
  | .bool b => some (if b then 1 else 0)
  | .int n => some n
  | .double x => x.toInt?
  | _ => none

/-- Whether two doubles that are no integers are equal. There is one NaN, which is equal to
itself. -/
private def sameFraction : Json → Json → Bool
  | .double x, .double y => x == y
  | _, _ => false

mutual

/-- Whether two values are equal when numbers are compared by value, so that `1`, `1.0` and `true`
are, and objects by their keys, in whatever order. -/
def same : Json → Json → Bool
  | .null, .null => true
  | .str s, .str t => s == t
  | .arr xs, .arr ys => sameItems xs ys
  | .obj xs, .obj ys => xs.length == ys.length && sameEntries xs ys
  | x, y =>
    match x.integral?, y.integral? with
    | some m, some n => m == n
    | none, none => sameFraction x y
    | _, _ => false

/-- `same`, item by item. -/
def sameItems : List Json → List Json → Bool
  | [], [] => true
  | x :: xs, y :: ys => same x y && sameItems xs ys
  | _, _ => false

/-- `same` for each of some entries and the entry of others with the same key. -/
def sameEntries : List (String × Json) → List (String × Json) → Bool
  | [], _ => true
  | (key, x) :: xs, ys =>
    (match Table.get? ys key with
      | some y => same x y
      | none => false) && sameEntries xs ys

end

end Json

end SchemaPress
