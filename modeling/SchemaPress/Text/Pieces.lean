/-!
Cutting texts into pieces and looking for one text in another.
-/

namespace SchemaPress.Text

/-- The pieces of a text between the occurrences of a character. -/
def splitOn (separator : Char) (s : String) : List String :=
  (s.toList.splitOn separator).map String.ofList

/-- The pieces joined with a separator between them. -/
def join (separator : String) (pieces : List String) : String :=
  separator.intercalate pieces

/-- Whether the first list of characters stands somewhere in the second. -/
def occursIn (piece : List Char) : List Char → Bool
  | [] => piece.isEmpty
  | c :: rest => piece.isPrefixOf (c :: rest) || occursIn piece rest

/-- Whether a text stands somewhere in another. -/
def contains (s piece : String) : Bool :=
  occursIn piece.toList s.toList

/-- Whether a text begins with another. -/
def startsWith (s start : String) : Bool :=
  start.toList.isPrefixOf s.toList

/-- The first occurrences of a list's members, in order. -/
def unique {α : Type} [BEq α] (items : List α) : List α :=
  items.eraseDups

end SchemaPress.Text
