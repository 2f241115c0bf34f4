import SchemaPress.Proofs.Strategies

/-! The text of a bundle whose plan says nothing but how modules are derived: a header, a mark for
each id that is referred to and not defined, and a section for each definition. Marks stand in the
order in which generation meets the ids, which is not the order of the references in the code: what
an object says about other properties is met before its properties and stands behind them. -/

namespace SchemaPress

/-- The ids that the schema of a definition mentions, as generation meets them. -/
def Definitions.mentionsOf (table : Definitions) (id : String) : List String :=
  ((Table.get? table id).map Schema.mentions).getD []

/-- The ids that definitions mention in some order and that are not defined, each at its first
mention. -/
def Definitions.missingAlong (table : Definitions) (ids : List String) : List String :=
  Text.unique ((ids.flatMap table.mentionsOf).filter fun ref => ref ∉ Table.keys table)

/-- What definitions mention they depend on, once their dependencies are known. -/
theorem Definitions.mem_mentionsOf {table : Definitions} {order : List OrderEntry}
    {id ref : String} (distinct : (Table.keys table).Nodup) (ordered : table.order = .ok order) :
    ref ∈ table.mentionsOf id ↔ table.DependsOn id ref := by
  obtain ⟨_, computed, _⟩ := order_eq_ok ordered
  constructor
  · intro mentioned
    rw [mentionsOf] at mentioned
    cases found : Table.get? table id with
    | none =>
      rw [found] at mentioned
      cases mentioned
    | some schema =>
      rw [found] at mentioned
      have held := Table.mem_of_get? found
      obtain ⟨targets, known⟩ := dependencies_of_addDependents computed held
      exact ⟨schema, targets, held, known, (schema.mem_dependencies targets known ref).mpr mentioned⟩
  · rintro ⟨schema, targets, held, known, refers⟩
    rw [mentionsOf, Table.get?_of_mem distinct held]
    exact (schema.mem_dependencies targets known ref).mp refers

/-- Along an order of the definitions, exactly those ids are missing that some definition depends on
and that are not defined. -/
theorem Definitions.mem_missingAlong {table : Definitions} {order : List OrderEntry} {ref : String}
    (distinct : (Table.keys table).Nodup) (ordered : table.order = .ok order) :
    ref ∈ table.missingAlong (order.map OrderEntry.id) ↔
      ref ∉ Table.keys table ∧ ∃ id, table.DependsOn id ref := by
  have members := (order_ids ordered).2
  rw [missingAlong, Text.mem_unique, List.mem_filter, List.mem_flatMap, decide_eq_true_eq, and_comm]
  refine and_congr_right fun _ => ?_
  constructor
  · rintro ⟨id, _, mentioned⟩
    exact ⟨id, (mem_mentionsOf distinct ordered).mp mentioned⟩
  · rintro ⟨id, depends⟩
    exact ⟨id, (members id).mpr depends.defined, (mem_mentionsOf distinct ordered).mpr depends⟩

/-- The line that marks an id as missing. -/
def missingMark (ref : String) : String :=
  "// MISSING " ++ ref

theorem missingMark_injective : Function.Injective missingMark := by
  intro first second same
  simpa [missingMark, ← String.toList_inj] using same

namespace Compiler

variable {workingDir : List String} {document : Document} {settings : Settings}
  {formatter : Option Formatter} {shell : Shell} {bundleName barrel : Json}

/-- In the module of a definition, the marks are for what the definition mentions and what is not
defined. -/
theorem Bundle.missing_of_entry
    (bundle : (new workingDir document (.plain .bundled bundleName barrel) settings formatter
      shell).Bundle)
    {entry : OrderEntry} {module : GeneratedModule} (member : entry ∈ bundle.order)
    (inside : (modulePath entry.id, module) ∈ bundle.modules) :
    (module.imports.filter fun item => item.kind = .missing) =
      (Text.unique ((document.schemas.mentionsOf entry.id).filter
        fun ref => ref ∉ Table.keys document.schemas)).map .missing := by
  obtain ⟨orderDistinct, members⟩ := Definitions.order_ids bundle.ordered
  have generated := bundle.generated _ inside
  rw [bundle.generator_plain, Generator.generate_ofOrder (standsBefore_order bundle.order)
    orderDistinct member] at generated
  obtain ⟨schema, result, comments, found, generated, _, _, imported⟩ := generated
  obtain ⟨imports, isImports, marked⟩ := Generator.importsFor_ofOrder member
    (modulePath entry.id) (Text.unique result.refs)
  have refs : result.refs = Text.unique schema.mentions :=
    (schema.generate_refers ⟨rfl, rfl, rfl, rfl, rfl⟩ result generated).1
  have mentioned : document.schemas.mentionsOf entry.id = schema.mentions := by
    rw [Definitions.mentionsOf, found]
    rfl
  cases isImports.symm.trans imported
  have undefined : (fun ref => decide (ref ∉ bundle.order.map OrderEntry.id)) =
      fun ref => decide (ref ∉ Table.keys document.schemas) :=
    funext fun ref => decide_eq_decide.mpr (not_congr (members ref))
  rw [marked, refs, mentioned, undefined, Text.unique_unique, ← Text.unique_filter,
    Text.unique_unique]

/-- A bundle marks what is missing along the order of its definitions, each id once. -/
theorem Bundle.marks_plain
    (bundle : (new workingDir document (.plain .bundled bundleName barrel) settings formatter
      shell).Bundle) :
    bundle.marks =
      (document.schemas.missingAlong (bundle.order.map OrderEntry.id)).map missingMark := by
  let undefined : String → List String := fun id =>
    (document.schemas.mentionsOf id).filter fun ref => ref ∉ Table.keys document.schemas
  have imports : ((bundle.modules.flatMap fun entry => entry.2.imports).filter
      fun item => item.kind = .missing) =
        bundle.order.flatMap fun entry => (Text.unique (undefined entry.id)).map .missing := by
    rw [List.filter_flatMap]
    refine Table.flatMap_of_keys
      (fun module => module.imports.filter fun item => item.kind = .missing)
      (bundle.paths_plain.1.trans List.map_map) ?_
    exact fun entry member module inside => bundle.missing_of_entry member inside
  have once : ∀ entry ∈ bundle.order,
      Text.unique (((Text.unique (undefined entry.id)).map Import.missing).map Import.render) =
        Text.unique ((undefined entry.id).map missingMark) := by
    intro entry _
    have marks : Import.render ∘ Import.missing = missingMark := rfl
    rw [List.map_map, marks, Text.unique_map missingMark_injective,
      Text.unique_map missingMark_injective, Text.unique_unique]
  calc
    bundle.marks = Text.unique (bundle.order.flatMap fun entry =>
        ((Text.unique (undefined entry.id)).map Import.missing).map Import.render) := by
      rw [Bundle.marks, imports, List.map_flatMap]
    _ = Text.unique (bundle.order.flatMap fun entry => (undefined entry.id).map missingMark) :=
      Text.unique_flatMap_congr once
    _ = (document.schemas.missingAlong (bundle.order.map OrderEntry.id)).map missingMark := by
      rw [← List.map_flatMap, Text.unique_map missingMark_injective, Definitions.missingAlong,
        List.filter_flatMap, List.flatMap_map]

/-- A bundle loses and duplicates nothing. If its plan says nothing but how modules are derived and
it is not formatted, its text is the header, a mark for each id that is referred to and not defined,
and the exports of each definition, in the order of the definitions. Each mark stands once, and they
follow the first mentions along the definitions in their order; nothing is imported. -/
theorem bundle_lists_definitions_and_missing {outputs : Table String}
    (distinct : (Table.keys document.schemas).Nodup)
    (unformatted : settings.format.enabled.isTruthy = false)
    (compiled : (compile.run (new workingDir document (.plain .bundled bundleName barrel) settings
      none shell)).1.result = .ok outputs) :
    ∃ (bundle : (new workingDir document (.plain .bundled bundleName barrel) settings none
        shell).Bundle) (missing : List String) (exports : List Export),
      outputs = [(modulePath bundleName.display, ModuleText.render
        (some ("Generated from " ++ document.title ++ " version " ++ document.version))
        (missing.map missingMark) (exports.map Export.render))] ∧
      List.Forall₂ bundle.Exports bundle.order exports ∧
      (exports.map Export.id).Perm (Table.keys document.schemas) ∧
      missing.Nodup ∧
      (∀ ref, ref ∈ missing ↔
        ref ∉ Table.keys document.schemas ∧ ∃ id, document.schemas.DependsOn id ref) ∧
      missing = document.schemas.missingAlong (exports.map Export.id) := by
  obtain ⟨bundle, prints⟩ := compile_bundle new_remembers rfl compiled
  obtain ⟨exports, isSections, exported⟩ := bundle.exports_of_entries rfl (List.Subset.refl _)
    (List.Subset.refl _) bundle.paths_plain.1
  have isIds := bundle.ids_of_exports exported
  obtain ⟨orderDistinct, members⟩ := Definitions.order_ids bundle.ordered
  have texts : bundle.sections.map Section.render = exports.map Export.render := by
    rw [Bundle.sections, isSections, List.map_map]
    rfl
  rw [bundle.prints_plain (new_unformatted unformatted), bundle.marks_plain, texts] at prints
  have named : bundle.plan.bundleName = bundleName := by
    have planned := (Plan.resolve_plain_bundled bundleName barrel _ _).symm.trans bundle.resolved
    rw [← Except.ok.inj planned]
    rfl
  rw [named] at prints
  refine ⟨bundle, _, exports, prints, exported, ?_, Text.unique_nodup _, fun ref => ?_, ?_⟩
  · rw [isIds]
    exact (List.perm_ext_iff_of_nodup orderDistinct distinct).mpr members
  · exact Definitions.mem_missingAlong distinct bundle.ordered
  · rw [isIds]

/-- A document with definitions that come out in another order than they are given in, and that
refer several times to ids that are not defined. -/
def scatteredDocument : Document :=
  ⟨"T", "1", [("A", Definitions.linking ["B", "X"]), ("B", Definitions.linking ["Y", "X"]),
    ("C", Definitions.linking ["X", "Z", "Y", "B"])]⟩

theorem bundle_lists_definitions_and_missing_scattered :
    ∃ outputs, (compile.run (plainly .bundled scatteredDocument)).1.result = .ok outputs ∧
      ∃ (missing : List String) (exports : List Export),
        outputs = [(modulePath "bundle", ModuleText.render (some "Generated from T version 1")
          (missing.map missingMark) (exports.map Export.render))] ∧
        exports.map Export.id = ["B", "C", "A"] ∧ missing = ["Y", "X", "Z"] := by
  obtain ⟨outputs, compiled⟩ :
      ∃ outputs, (compile.run (plainly .bundled scatteredDocument)).1.result = .ok outputs :=
    exists_of_isOk (by decide +kernel)
  obtain ⟨bundle, missing, exports, isOutputs, exported, _, _, _, isMissing⟩ :=
    bundle_lists_definitions_and_missing (by decide) rfl compiled
  have ordered : scatteredDocument.schemas.order =
      .ok [⟨"B", false⟩, ⟨"C", false⟩, ⟨"A", false⟩] :=
    eq_ok_of_toOption (by decide +kernel)
  have isIds : exports.map Export.id = ["B", "C", "A"] := by
    rw [bundle.ids_of_exports exported, Except.ok.inj (bundle.ordered.symm.trans ordered)]
    rfl
  have listed : scatteredDocument.schemas.missingAlong ["B", "C", "A"] = ["Y", "X", "Z"] := by
    decide +kernel
  exact ⟨outputs, compiled, missing, exports, isOutputs, isIds, by rw [isMissing, isIds, listed]⟩

/-- A definition that refers to one id in a property and to another in what it says about other
properties. -/
def outlyingDocument : Document :=
  let info : Info := ⟨"", .null, .null, false, none, []⟩
  let link := fun id => Schema.reference info (.str (Reference.ofId id))
  ⟨"T", "1", [("A", .object info [("x", link "X")] [.str "x"] (.typed (link "Y")) [])]⟩

/-- Marks need not stand in the order of the references in the code: here the sections refer to `X`
and then to `Y`, and the marks are for `Y` and then for `X`. -/
theorem marks_differ_from_references :
    ∃ outputs, (compile.run (plainly .bundled outlyingDocument)).1.result = .ok outputs ∧
      ∃ bundle : (plainly .bundled outlyingDocument).Bundle, bundle.Prints outputs ∧
        bundle.sections.flatMap Section.references = [("X", false), ("Y", false)] ∧
        bundle.marks = [missingMark "Y", missingMark "X"] := by
  obtain ⟨outputs, compiled⟩ :
      ∃ outputs, (compile.run (plainly .bundled outlyingDocument)).1.result = .ok outputs :=
    exists_of_isOk (by decide +kernel)
  obtain ⟨bundle, prints⟩ := compile_bundle new_remembers rfl compiled
  have ordered : outlyingDocument.schemas.order = .ok [⟨"A", false⟩] :=
    eq_ok_of_toOption (by decide +kernel)
  have isOrder : bundle.order = [⟨"A", false⟩] :=
    Except.ok.inj (bundle.ordered.symm.trans ordered)
  refine ⟨outputs, compiled, bundle, prints,
    bundle.read_sections (List.flatMap Section.references) (by decide +kernel), ?_⟩
  have listed : outlyingDocument.schemas.missingAlong ["A"] = ["Y", "X"] := by
    decide +kernel
  have marks := bundle.marks_plain
  rw [isOrder] at marks
  exact marks.trans (congrArg (List.map missingMark) listed)

end Compiler

end SchemaPress
