import SchemaPress.Schema.Basic
import SchemaPress.Text.Blank
import SchemaPress.Text.Pieces

/-!
Documentation as comments of generated code: the description becomes a block comment, the title a
line comment.
-/

namespace SchemaPress

/-- The comments of a piece of code; an empty text stands for none. -/
structure Comments where
  block : String := ""
  inline : String := ""
  deriving DecidableEq, Repr

/-- The text of a block comment: a description, and a mark if what it describes is deprecated. -/
def Comments.blockText (description : String) (deprecated : Bool) : String :=
  let lines := [Text.trim description, if deprecated then "@deprecated" else ""]
  Text.trim (Text.join "\n" (lines.filter fun line => !line.isEmpty))

/-- The text of a line comment: a title on one line. -/
def Comments.inlineText (title : String) : String :=
  Text.trim (Text.join " " (Text.splitOn '\n' title))

/-- The comments for documentation with the given texts. -/
def Comments.ofTexts (title description : String) (deprecated : Bool) : Comments :=
  let block := blockText description deprecated
  let inline := inlineText title
  { block := if block.isEmpty then "" else "/** " ++ block ++ " */"
    inline := if inline.isEmpty then "" else "// " ++ inline }

/-- The comments for documentation; its description and title have to be texts. -/
def Docs.comments (docs : Docs) : Except Failure Comments := do
  let description ← docs.description.asText
  let title ← docs.title.asText
  return Comments.ofTexts title description docs.deprecated

end SchemaPress
