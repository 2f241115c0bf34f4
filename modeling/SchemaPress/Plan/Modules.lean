import SchemaPress.Plan.Directive

/-!
Modules as a plan lists them, by path and with their directives. A plan may list something else
than modules, which is kept and fails where it is used.
-/

namespace SchemaPress

/-- What stands under paths: the directives of a module, or something that is none. -/
abbrev Listing := Table (Option (List Directive))

/-- Modules by path, with the directives of each. A plan may give something else: a value that is
no table is kept and fails where it is used; a listing in which not everything is a module fails
where directives are asked for, at its end at the latest; and modules may be absent altogether. -/
inductive Modules where
  | table (entries : Table (List Directive))
  | raw (value : Json)
  | unreadable (listing : Listing)
  | absent

namespace Modules

/-- The directives of a module. -/
def directivesOf (module : Json) : Except Failure (List Directive) := do
  let definitions := (Table.get? (← module.asEntries) "definitions").getD (.arr [])
  (← definitions.elements).mapM Directive.ofJson

/-- The modules that an object lists. -/
def ofEntries (entries : Table Json) : Except Failure Modules := do
  return .table (← entries.mapM fun (path, module) => do return (path, ← directivesOf module))

/-- The value that describes modules. -/
def toJson : Modules → Except Failure Json
  | .table entries => .ok <| .obj <| entries.map fun (path, directives) =>
      (path, .obj [("definitions", .arr (directives.map Directive.toJson))])
  | .raw (.obj []) => .ok (.obj [])
  | .raw _ | .unreadable _ | .absent => .error (.mismatch .operation)

/-- What stands under the paths of modules. -/
def listing : Modules → Except Failure Listing
  | .table entries => .ok (Table.mapValues some entries)
  | .raw (.obj entries) => .ok (Table.mapValues (fun _ => none) entries)
  | .raw _ => .error (.mismatch .type)
  | .unreadable listing => .ok listing
  | .absent => .error (.mismatch .operation)

/-- The key of an item of a list, which has to be one of two parts. -/
def pairKey (item : Json) : Except Failure Json := do
  match ← item.elements with
  | [key, _] => key.asKey
  | _ => .error (.mismatch .value)

/-- The keys under which a value lists something: those of an object, or of a list of pairs. -/
def listedKeys : Json → Except Failure (List Json)
  | .obj entries => .ok ((Table.keys entries).map .str)
  | value => do (← value.elements).mapM pairKey

/-- Modules that are laid over others. What a value lists can be, but it is no modules. -/
def overlaid (below : Table (List Directive)) : Modules → Except Failure Modules
  | .table entries => .ok (.table (Table.update below entries))
  | .raw value => do
    let keys ← listedKeys value
    let listing := (keys.filterMap Json.text?).map fun path => (path, none)
    return if keys.isEmpty then .table below
      else .unreadable (Table.update (Table.mapValues some below) listing)
  | .unreadable listing => .ok (.unreadable listing)
  | .absent => .error (.mismatch .operation)

end Modules

end SchemaPress
