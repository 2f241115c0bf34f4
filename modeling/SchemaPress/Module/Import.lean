import SchemaPress.Failure

/-!
Imports of generated modules. Support modules are imported first, and a definition that no module
provides is marked as missing.
-/

namespace SchemaPress

/-- What an import brings in. -/
inductive ImportKind where
  | runtime
  | schema
  | missing
  deriving DecidableEq, Repr

/-- The name of a kind of import. -/
def ImportKind.name : ImportKind → String
  | .runtime => "runtime"
  | .schema => "schema"
  | .missing => "missing"

/-- The kind of import that a name stands for. -/
def ImportKind.ofName (name : String) : Except Failure ImportKind :=
  match [ImportKind.runtime, .schema, .missing].find? fun kind => kind.name = name with
  | some kind => .ok kind
  | none => .error (.mismatch .value)

/-- Items with those first that are imports of support modules, in the order given otherwise. -/
def runtimeFirst {α : Type} (kind : α → ImportKind) (items : List α) : List α :=
  items.filter (fun item => kind item = .runtime) ++
    items.filter fun item => kind item ≠ .runtime

/-- One import: the path of a module as the importing module sees it, and a name. -/
structure Import where
  path : String
  name : String
  kind : ImportKind
  deriving DecidableEq, Repr

namespace Import

/-- The line of an import. -/
def render (item : Import) : String :=
  match item.kind with
  | .missing => "// MISSING " ++ item.name
  | _ => "import \x7b " ++ item.name ++ " \x7d from '" ++ item.path ++ "';"

/-- Imports with those of support modules first, in the order given otherwise. -/
def arrange (imports : List Import) : List Import :=
  runtimeFirst Import.kind imports

end Import

end SchemaPress
