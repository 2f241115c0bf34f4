import SchemaPress.Code.Expr
import SchemaPress.Plan.Directive

/-!
Sections of generated modules and the text of a module. A section is code written by hand or the
exports of one definition.
-/

namespace SchemaPress

/-- The exports of a definition: its id, the id of the schema it is made from, its code, its
comments and how it is declared. -/
structure Export where
  id : String
  source : Json
  code : Expr
  comments : Comments
  declaration : Declaration

namespace Export

/-- The name of the exported constant. -/
def identifier (item : Export) : String :=
  Name.identifier item.id

/-- The local types that deferred references to the definition are annotated with. They are needed
if it is declared lazy, and present if its type is stated. -/
def localTypes? (item : Export) : Option (String × String) :=
  let declaration := item.declaration
  if declaration.lazy.isTruthy || !declaration.type.isNull then
    some ((declaration.type.orElse (.str "any")).display,
      (declaration.encoded.orElse (.str "any")).display)
  else none

/-- The lines of the exports. -/
def lines (item : Export) : List String :=
  let identifier := item.identifier
  let declaration := item.declaration
  let inline := if item.comments.inline.isEmpty then "" else " " ++ item.comments.inline
  ["/* " ++ identifier ++ " */"] ++
  (if item.comments.block.isEmpty then [] else [item.comments.block]) ++
  (if item.source.same (.str item.id) then []
    else ["// Generated from OpenAPI `" ++ item.source.display ++ "` schema"]) ++
  (match item.localTypes? with
    | none => []
    | some (type, encoded) =>
      ["type _" ++ identifier ++ " = " ++ type ++ ";",
        "type _" ++ identifier ++ "Encoded = " ++ encoded ++ ";"]) ++
  ["export const " ++ identifier ++ " = " ++ item.code.render ++
      ".annotations(\x7b identifier: " ++ (Json.str item.id).literal ++ " \x7d);" ++ inline,
    "export type " ++ identifier ++ " = " ++
      (declaration.type.orElse (.str ("S.Schema.Type<typeof " ++ identifier ++ ">"))).display ++
      ";",
    "export type " ++ identifier ++ "Encoded = " ++
      (declaration.encoded.orElse
        (.str ("S.Schema.Encoded<typeof " ++ identifier ++ ">"))).display ++ ";"]

/-- The text of the exports. -/
def render (item : Export) : String :=
  Text.join "\n" item.lines

end Export

/-- A section of a module. -/
inductive Section where
  | literal (code : String)
  | definition (item : Export)

/-- The text of a section. -/
def Section.render : Section → String
  | .literal code => Text.trim code
  | .definition item => item.render

namespace ModuleText

/-- The lines that every module starts with. -/
def preamble : String :=
  "import \x7b pipe, Option \x7d from 'effect';\n" ++
    "import \x7b Schema as S \x7d from '@effect/schema';\n"

/-- The text of a module: a comment as its header, import lines and sections, apart from each
other. -/
def render (header : Option String) (imports sections : List String) : String :=
  let header := match header with
    | some header => if header.isEmpty then "" else "/* " ++ header ++ " */\n\n"
    | none => ""
  let imports :=
    if imports.isEmpty then "" else "\n" ++ String.join (imports.map fun line => line ++ "\n")
  let sections := String.join (sections.map fun text => "\n" ++ text ++ "\n")
  Text.trimRight (header ++ preamble ++ imports ++ sections) ++ "\n"

/-- The text of a module that exports what other modules export. -/
def renderBarrel (paths : List String) : String :=
  Text.trimRight (String.join (paths.map fun path => "export * from '" ++ path ++ "';\n")) ++ "\n"

end ModuleText

end SchemaPress
