import SchemaPress.Json.Access

/-!
Settings of a compilation: how code is formatted and how files are written. Values are kept as
given and fail where they are used.
-/

namespace SchemaPress

/-- Settings of the formatter. -/
structure FormatSettings where
  enabled : Json := .bool false
  command : Json := .arr [.str "npx", .str "--no-install", .str "prettier"]
  printWidth : Json := .int 100
  singleQuote : Json := .bool true
  trailingComma : Json := .str "all"
  semi : Json := .bool true

namespace FormatSettings

/-- Sets one entry; there are no other entries than the known ones. -/
def setEntry (settings : FormatSettings) (key : String) (value : Json) :
    Except Failure FormatSettings :=
  match key with
  | "enabled" => .ok { settings with enabled := value }
  | "command" => .ok { settings with command := value }
  | "print_width" => .ok { settings with printWidth := value }
  | "single_quote" => .ok { settings with singleQuote := value }
  | "trailing_comma" => .ok { settings with trailingComma := value }
  | "semi" => .ok { settings with semi := value }
  | _ => .error (.mismatch .type)

/-- The settings with the given entries. -/
def ofEntries (entries : Table Json) : Except Failure FormatSettings :=
  entries.foldlM (fun settings entry => setEntry settings entry.1 entry.2) {}

/-- The value that describes settings. -/
def toJson (settings : FormatSettings) : Except Failure Json := do
  return .obj [
    ("enabled", settings.enabled),
    ("command", .arr (← settings.command.elements)),
    ("print_width", settings.printWidth),
    ("single_quote", settings.singleQuote),
    ("trailing_comma", settings.trailingComma),
    ("semi", settings.semi)]

end FormatSettings

/-- Settings of the output: whether files are replaced in one step, and whether modules start with
a comment that names the document. -/
structure OutputSettings where
  atomicWrite : Json := .bool true
  addComment : Json := .bool false

/-- The settings with the given entries; others are ignored. -/
def OutputSettings.ofEntries (entries : Table Json) : OutputSettings where
  atomicWrite := (entries.get? "atomic_write").getD (.bool true)
  addComment := (entries.get? "add_generation_comment").getD (.bool false)

/-- The value that describes settings. -/
def OutputSettings.toJson (settings : OutputSettings) : Json :=
  .obj [("atomic_write", settings.atomicWrite), ("add_generation_comment", settings.addComment)]

/-- Settings of a compilation. -/
structure Settings where
  format : FormatSettings := {}
  output : OutputSettings := {}

namespace Settings

/-- Sets one entry; unknown entries and entries that are no objects are ignored. -/
def setEntry (settings : Settings) (key : String) (value : Json) : Except Failure Settings := do
  match key, value with
  | "formatter", .obj entries =>
    return { settings with format := ← FormatSettings.ofEntries entries }
  | "output", .obj entries => return { settings with output := .ofEntries entries }
  | _, _ => return settings

/-- The settings that a value describes. -/
def ofJson (value : Json) : Except Failure Settings := do
  (← value.asEntries).foldlM (fun settings entry => setEntry settings entry.1 entry.2) {}

/-- The value that describes settings. -/
def toJson (settings : Settings) : Except Failure Json := do
  return .obj [("formatter", ← settings.format.toJson), ("output", settings.output.toJson)]

end Settings

end SchemaPress
