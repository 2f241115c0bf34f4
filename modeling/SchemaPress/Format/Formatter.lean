import SchemaPress.Action
import SchemaPress.Format.Process
import SchemaPress.Settings
import SchemaPress.Text.Blank

/-!
Formatters of generated code. The external formatter is probed once; if it cannot be run, code is
left as it is. Its command is handed over as the settings have it; only the warning that it cannot
be run needs words that are texts.
-/

namespace SchemaPress

/-- A formatter: one that leaves code as it is, the external one, for which it is remembered
whether it can be run, or a function. -/
inductive Formatter where
  | plain
  | prettier (settings : FormatSettings) (available? : Option Bool)
  | custom (name : String) (format : String → Except Failure String)

namespace Formatter

/-- The name of a formatter. -/
def name : Formatter → String
  | .plain => "none"
  | .prettier _ _ => "prettier"
  | .custom name _ => name

/-- The formatter that settings ask for. -/
def ofSettings (settings : FormatSettings) : Formatter :=
  if settings.enabled.isTruthy then .prettier settings none else .plain

/-- A formatter that puts code between two texts, and rejects code in which a text occurs. -/
def affixing (name before after : String) (rejected : Option String) (failure : Failure) :
    Formatter :=
  .custom name fun code =>
    if rejected.any (Text.contains code) then .error failure else .ok (before ++ code ++ after)

end Formatter

/-- A formatter with the processes it runs. -/
structure Formatting where
  formatter : Formatter
  shell : Shell := {}

namespace Formatting

/-- Starts a process. -/
def start (call : Call) : Action Formatting Outcome :=
  modifyGet fun formatting =>
    let (outcome, shell) := formatting.shell.start call
    (outcome, { formatting with shell })

/-- Whether a probe that ended in some way shows that the formatter can be run. A program that may
not be run shows nothing. -/
def probed : Outcome → Except Failure Bool
  | .exited code _ _ => .ok (code = 0)
  | .missing | .timedOut => .ok false
  | .denied => .error (.file .denied)

/-- The command of settings as one text. -/
def commandText (command : List Json) : Except Failure String := do
  let words ← command.mapM fun word => match word with
    | .str word => Except.ok word
    | _ => .error (.mismatch .type)
  return Text.join " " words

/-- Finds out whether the external formatter can be run. -/
def probe (settings : FormatSettings) : Action Formatting Bool := do
  let command ← settings.command.elements
  let outcome ← start ⟨command ++ [.str "--version"], none⟩
  let available ← probed outcome
  modify fun formatting => { formatting with formatter := .prettier settings (some available) }
  unless available do
    let text ← commandText command
    Action.record .warning
      ("Prettier is not available (" ++ text ++ "), output will not be formatted")
  return available

/-- Whether the formatter can be run. -/
def isAvailable : Action Formatting Bool := do
  match (← get).formatter with
  | .prettier _ (some available) => return available
  | .prettier settings none => probe settings
  | .plain | .custom _ _ => return true

/-- The command that formats code. -/
def commandFor (settings : FormatSettings) : Except Failure (List Json) := do
  let command ← settings.command.elements
  return command ++
    [.str "--stdin-filepath", .str "generated.ts",
      .str "--print-width", .str settings.printWidth.display,
      .str "--trailing-comma", settings.trailingComma] ++
    (if settings.singleQuote.isTruthy then [.str "--single-quote"] else []) ++
    (if settings.semi.isTruthy then [] else [.str "--no-semi"])

/-- The text that a formatting process yields. -/
def formatted : Outcome → Except Failure String
  | .exited 0 output _ => .ok output
  | .exited _ _ problems =>
    .error (.rejected ("Unable to format code: " ++ Text.trim problems) none)
  | .missing => .error (.file .missing)
  | .denied => .error (.file .denied)
  | .timedOut => .error (.rejected "Unable to run prettier" (some .timedOut))

/-- Formats code. -/
def format (code : String) (settings : FormatSettings) : Action Formatting String := do
  match (← get).formatter with
  | .plain => return code
  | .custom _ run => run code
  | .prettier _ _ =>
    if ← isAvailable then
      let command ← commandFor settings
      formatted (← start ⟨command, some code⟩)
    else return code

end Formatting

end SchemaPress
