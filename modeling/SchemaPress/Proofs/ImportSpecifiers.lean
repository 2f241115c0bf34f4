import SchemaPress.Proofs.LexicalPlaces
import SchemaPress.Proofs.Locality
import SchemaPress.Proofs.RelativePaths

/-! The specifiers of imports. With one module for each definition, a module imports another by the
relative path to it. Whether the specifier can be told from the name of a package is a matter of the
two ids: without slashes in them, it can be unless the imported id begins with a dot. -/

namespace SchemaPress

open ModulePath

namespace ModulePath

variable {id ref : String}

theorem components_modulePath (plain : '/' ∉ id.toList) :
    components (modulePath id) = [".", id ++ ".ts"] := by
  have whole : modulePath id = "." ++ "/" ++ (id ++ ".ts") := by
    simp [modulePath, String.append_assoc]
  rw [whole, components_slash, components_single (by decide), components_single]
  · rfl
  · simp [plain]

/-- The modules of ids without slashes lie right in the working directory, so the file name of one
decides whether it is masked from another. -/
theorem masked_modulePath (workingDir : List String) (plain : '/' ∉ id.toList)
    (plain' : '/' ∉ ref.toList) :
    Masked (directoryOf workingDir (modulePath id)) (placeOf workingDir (modulePath ref)) ↔
      Text.startsWith (ref ++ ".ts") "." = true := by
  have fromHere : directoryOf workingDir (modulePath id) = workingDir := by
    rw [directoryOf, isAbsolute, modulePath_relative, components_modulePath plain]
    simp [resolve, normalize, enter]
  have toHere : placeOf workingDir (modulePath ref) = workingDir ++ [ref ++ ".ts"] := by
    rw [placeOf, isAbsolute, modulePath_relative, components_modulePath plain']
    have notDots : ref ++ ".ts" ≠ ".." := file_ne ref (by decide)
    have notDot : ref ++ ".ts" ≠ "." := file_ne ref (by decide)
    simp [resolve, normalize, enter, notDot, notDots]
  rw [fromHere, toHere]
  constructor
  · rintro (same | ⟨name, isDirectory⟩ | ⟨name, rest, isPlace, dot⟩)
    · simp at same
    · simp at isDirectory
    · obtain ⟨rfl, rfl⟩ := List.cons.inj (List.append_cancel_left isPlace)
      exact dot
  · exact fun dot => .dotted _ [] rfl dot

end ModulePath

theorem Import.render_of_present {item : Import} (present : item.kind ≠ .missing) :
    item.render = "import \x7b " ++ item.name ++ " \x7d from '" ++ item.path ++ "';" := by
  obtain ⟨path, name, kind⟩ := item
  cases kind with
  | missing => exact absurd rfl present
  | runtime | schema => rfl

namespace Generator

variable {workingDir : List String} {table : Definitions} {path ref : String}

/-- What a module imports is the identifier of a definition, from the module of that definition. -/
theorem importOf_ofDefinitions {item : Import}
    (imported : (ofDefinitions workingDir table).importOf path ref = .ok item)
    (present : item.kind ≠ .missing) :
    ref ∈ Table.keys table ∧ item.name = Name.identifier ref ∧
      relative workingDir path (modulePath ref) = .ok item.path := by
  have ids := OrderEntry.ids_unflagged (Table.keys table)
  by_cases defined : ref ∈ Table.keys table
  · rw [← ids] at defined
    obtain ⟨place, isPlace, isItem⟩ := importOf_of_mem path defined
    cases imported.symm.trans isItem
    exact ⟨ids ▸ defined, rfl, isPlace⟩
  · rw [← ids] at defined
    cases imported.symm.trans (importOf_of_not_mem path defined)
    exact absurd rfl present

theorem path_ofDefinitions {directives : List Directive}
    (listed : Table.get? (ofDefinitions workingDir table).modules path = some directives) :
    ∃ id ∈ Table.keys table, path = modulePath id := by
  have inside := Table.mem_keys_of_mem (Table.mem_of_get? listed)
  have paths : Table.keys (ofDefinitions workingDir table).modules = _ :=
    Plan.keys_bundledTable [] ((Table.keys table).map .unflagged)
  rw [paths, OrderEntry.ids_unflagged] at inside
  obtain ⟨id, defined, isPath⟩ := List.mem_map.mp inside
  exact ⟨id, defined, isPath.symm⟩

end Generator

namespace Compiler

variable {workingDir : List String} {document : Document} {settings : Settings}
  {formatter : Option Formatter} {shell : Shell} {bundleName barrel : Json}

/-- When imports are relative. With one module for each definition, an import that is not just a
mark names a definition of the document by a specifier. The specifier is relative exactly if the
place of that definition's module is not masked from the directory of the importing one; for ids
without slashes this is to say that the imported file name does not begin with a dot. -/
theorem specifiers_relative_iff (distinct : (Table.keys document.schemas).Nodup)
    (names : ∀ name ∈ workingDir, IsName name)
    (basis : (new workingDir document (.plain .oneToOne bundleName barrel) settings formatter
      shell).Basis)
    {path : String} {module : GeneratedModule}
    (made : (basis.generator.generate path).result = .ok module)
    {item : Import} (imported : item ∈ module.imports) (present : item.kind ≠ .missing) :
    ∃ id ∈ Table.keys document.schemas, ∃ ref ∈ Table.keys document.schemas,
      path = modulePath id ∧
      item.render = "import \x7b " ++ Name.identifier ref ++ " \x7d from '" ++ item.path ++ "';" ∧
      (IsRelative item.path ↔ ¬ Masked (directoryOf workingDir (modulePath id))
        (placeOf workingDir (modulePath ref))) ∧
      ('/' ∉ id.toList → '/' ∉ ref.toList →
        (IsRelative item.path ↔ ¬ Text.startsWith (ref ++ ".ts") "." = true)) := by
  rw [basis.generator_plain distinct] at made
  obtain ⟨_, _, listed, _, imports⟩ := Generator.generate_eq_ok.mp made
  obtain ⟨id, defined, rfl⟩ := Generator.path_ofDefinitions listed
  obtain ⟨ref, _, _, isImport⟩ := (Generator.importsFor_ok imports).2 item imported
  obtain ⟨defined', isName, isWay⟩ := Generator.importOf_ofDefinitions isImport present
  have shown := isRelative_iff names isWay
  refine ⟨id, defined, ref, defined', rfl, ?_, shown, fun plain plain' => ?_⟩
  · rw [Import.render_of_present present, isName]
  · rw [shown, masked_modulePath workingDir plain plain']

/-- A document with a definition below a directory and one whose name begins with a dot. -/
def hiddenDocument : Document :=
  ⟨"Hidden", "1", [("A", Definitions.linking ["b/C", ".hidden"]),
    ("b/C", Definitions.linking ["A"]), (".hidden", Definitions.linking [])]⟩

/-- A compiler that makes a module for each definition and runs below the top. -/
abbrev servedBy (document : Document) : Compiler :=
  new ["srv"] document (.plain .oneToOne (.str "bundle") (.bool false)) {} none {}

theorem hidden_module :
    ∃ (basis : (servedBy hiddenDocument).Basis) (module : GeneratedModule),
      (basis.generator.generate "./A.ts").result = .ok module ∧
      module.imports = [⟨"./b/C.ts", "bC", .schema⟩, ⟨".hidden.ts", "hidden", .schema⟩] := by
  have anywhere : ∀ document, (Table.keys document.schemas).Nodup →
      ∃ basis : (servedBy document).Basis,
        basis.generator = .ofDefinitions ["srv"] document.schemas := by
    intro document distinct
    obtain ⟨basis⟩ : Nonempty (servedBy document).Basis :=
      exists_basis (Plan.usable_plain _ _ _)
    exact ⟨basis, basis.generator_plain distinct⟩
  obtain ⟨basis, isGenerator⟩ := anywhere hiddenDocument (by decide)
  have seen : ((Generator.ofDefinitions ["srv"] hiddenDocument.schemas).generate
      "./A.ts").result.toOption.map GeneratedModule.imports =
      some [⟨"./b/C.ts", "bC", .schema⟩, ⟨".hidden.ts", "hidden", .schema⟩] := by
    decide +kernel
  obtain ⟨module, made, isImports⟩ := Option.map_eq_some_iff.mp seen
  exact ⟨basis, module, isGenerator ▸ eq_ok_of_toOption made, isImports⟩

theorem specifiers_relative_iff_hidden :
    ∃ (basis : (servedBy hiddenDocument).Basis) (module : GeneratedModule),
      (basis.generator.generate "./A.ts").result = .ok module ∧
      module.imports = [⟨"./b/C.ts", "bC", .schema⟩, ⟨".hidden.ts", "hidden", .schema⟩] ∧
      ∀ item ∈ module.imports, ∃ ref ∈ ["A", "b/C", ".hidden"],
        item.render = "import \x7b " ++ Name.identifier ref ++ " \x7d from '" ++ item.path ++ "';" ∧
        (IsRelative item.path ↔
          ¬ Masked (directoryOf ["srv"] "./A.ts") (placeOf ["srv"] (modulePath ref))) := by
  have named : ∀ name ∈ ["srv"], IsName name :=
    List.forall_mem_singleton.mpr ⟨by decide, by decide, by decide, by decide⟩
  have anywhere : ∀ document, (Table.keys document.schemas).Nodup →
      ∀ (basis : (servedBy document).Basis) (module : GeneratedModule),
      (basis.generator.generate "./A.ts").result = .ok module → ∀ item ∈ module.imports,
      item.kind ≠ .missing → ∃ ref ∈ Table.keys document.schemas,
        item.render = "import \x7b " ++ Name.identifier ref ++ " \x7d from '" ++ item.path ++ "';" ∧
        (IsRelative item.path ↔
          ¬ Masked (directoryOf ["srv"] "./A.ts") (placeOf ["srv"] (modulePath ref))) := by
    intro document distinct basis module made item imported present
    obtain ⟨id, _, ref, defined, isPath, line, shown, _⟩ :=
      specifiers_relative_iff distinct named basis made imported present
    rw [← isPath] at shown
    exact ⟨ref, defined, line, shown⟩
  obtain ⟨basis, module, made, isImports⟩ := hidden_module
  refine ⟨basis, module, made, isImports, fun item imported => ?_⟩
  have present : item.kind ≠ .missing := by
    rw [isImports] at imported
    rcases List.mem_pair.mp imported with rfl | rfl <;> decide
  exact anywhere hiddenDocument (by decide) basis module made item imported present

/-- The module of an id that begins with a dot is imported by the bare name of its file. -/
theorem dotted_module_imported_as_package :
    ∃ (basis : (servedBy hiddenDocument).Basis) (module : GeneratedModule),
      (basis.generator.generate "./A.ts").result = .ok module ∧
      ⟨".hidden.ts", "hidden", .schema⟩ ∈ module.imports ∧
      Import.render ⟨".hidden.ts", "hidden", .schema⟩ =
        "import \x7b hidden \x7d from '.hidden.ts';" ∧
      ¬ IsRelative ".hidden.ts" := by
  obtain ⟨basis, module, made, isImports⟩ := hidden_module
  refine ⟨basis, module, made, ?_, by decide +kernel, by decide +kernel⟩
  rw [isImports]
  exact List.mem_cons_of_mem _ List.mem_cons_self

end Compiler

end SchemaPress
