/-!
Blank characters. Trimming removes the blanks at the two ends of a text and nothing else;
`isBlank` is the class that trimming and the separators of field lists share.
-/

namespace SchemaPress.Text

/-- The blank characters: the ASCII blanks with the four ASCII separators, the next-line
character, and the space, line and paragraph separators of Unicode. -/
def isBlank (c : Char) : Bool :=
  let n := c.toNat
  (9 ≤ n && n ≤ 13) || (28 ≤ n && n ≤ 32) || n == 0x85 || n == 0xA0 || n == 0x1680 ||
    (0x2000 ≤ n && n ≤ 0x200A) || n == 0x2028 || n == 0x2029 || n == 0x202F || n == 0x205F ||
    n == 0x3000

/-- Drops the blanks at the end of a character list. -/
def dropBlanksRight (cs : List Char) : List Char :=
  (cs.reverse.dropWhile isBlank).reverse

/-- A text without the blanks at its end. -/
def trimRight (s : String) : String :=
  String.ofList (dropBlanksRight s.toList)

/-- A text without the blanks at its two ends. -/
def trim (s : String) : String :=
  String.ofList (dropBlanksRight (s.toList.dropWhile isBlank))

end SchemaPress.Text
