import Mathlib.Data.List.Nodup
import SchemaPress.Proofs.Deferral
import SchemaPress.Proofs.ModuleNames

/-! Plans that say nothing but how modules are derived. Their generator has one module for each
definition, in some order, and the module of a definition is generated if and only if the schema of
the definition has code. -/

namespace SchemaPress

/-- A plan without overrides and without modules of its own. -/
def Plan.plain (method : Method) (bundleName barrel : Json) : Plan :=
  { method, bundleName, barrel }

/-- A definition that is not flagged. -/
def OrderEntry.unflagged (id : String) : OrderEntry :=
  ⟨id, false⟩

@[simp]
theorem OrderEntry.ids_unflagged (ids : List String) :
    (ids.map unflagged).map OrderEntry.id = ids := by
  simp [unflagged, Function.comp_def]

/-- Where the definition of an entry is to be found in a plan that has a module for it. -/
def Locator.ofEntry (entry : OrderEntry) : Locator :=
  ⟨modulePath entry.id, Plan.bundledDirective [] entry, false⟩

/-- The generator that has one module for each definition, in order. -/
def Generator.ofOrder (workingDir : List String) (table : Definitions) (entries : List OrderEntry)
    (isBefore : String → Json → Except Failure Bool) : Generator where
  table := table
  overrides := .known {}
  modules := Plan.bundledTable [] entries
  locators := entries.map fun entry => (.str entry.id, .ofEntry entry)
  isBefore := isBefore
  workingDir := workingDir

/-- Putting imports of support modules first leaves the order of marks as it is. -/
theorem Import.filter_arrange (imports : List Import) :
    ((arrange imports).filter fun item => item.kind = .missing) =
      imports.filter fun item => item.kind = .missing := by
  have never : imports.filter (fun item => decide (item.kind = .missing) &&
      decide (item.kind = .runtime)) = [] := by
    rw [List.filter_eq_nil_iff]
    intro item _
    cases item.kind <;> decide
  have always : imports.filter (fun item => decide (item.kind = .missing) &&
      decide (item.kind ≠ .runtime)) = imports.filter fun item => item.kind = .missing := by
    refine List.filter_congr fun item _ => ?_
    cases item.kind <;> decide
  rw [arrange, runtimeFirst, List.filter_append, List.filter_filter, List.filter_filter, never,
    always, List.nil_append]

variable {workingDir : List String} {table : Definitions} {entries : List OrderEntry}
  {isBefore : String → Json → Except Failure Bool} {entry : OrderEntry} {ref : String}

namespace Plan

variable (bundleName barrel : Json)

theorem resolve_plain_bundled (ids : List String) (order : List OrderEntry) :
    (plain .bundled bundleName barrel).resolve ids order =
      .ok { plain .bundled bundleName barrel with modules := .table (bundledTable [] order) } := by
  cases order <;> rfl

theorem resolve_plain_oneToOne (ids : List String) (order : List OrderEntry) :
    (plain .oneToOne bundleName barrel).resolve ids order =
      .ok { plain .oneToOne bundleName barrel with
        modules := .table (bundledTable [] (ids.map .unflagged)) } := by
  have derived : derivedModules ids = bundledTable [] (ids.map .unflagged) := by
    rw [derivedModules, bundledTable, List.map_map]
    rfl
  rw [← derived]
  rfl

theorem update_bundledTable (distinct : (entries.map OrderEntry.id).Nodup) :
    Table.update [] (Table.mapValues some (bundledTable [] entries)) =
      Table.mapValues some (bundledTable [] entries) := by
  refine Table.update_of_disjoint ?_ fun _ _ => List.not_mem_nil
  rw [Table.keys_mapValues, keys_bundledTable]
  exact List.Nodup.map modulePath_injective distinct

end Plan

theorem Locators.find?_ofEntries (entries : List OrderEntry) (ref : String) :
    find? (entries.map fun entry => (.str entry.id, .ofEntry entry)) (.str ref) =
      (entries.find? fun entry => entry.id = ref).map .ofEntry := by
  rw [find?, List.find?_map, Option.map_map]
  rfl

theorem Plan.bundledDirective_source (entry : OrderEntry) :
    (bundledDirective [] entry).source = .str entry.id :=
  rfl

theorem Locators.add_of_none {locators : Locators} {id : String} {locator : Locator}
    (none : find? locators (.str id) = none) :
    add locators (.str id) locator = .ok (locators ++ [(.str id, locator)]) := by
  show Except.ok _ = _
  rw [none]
  rfl

theorem Locators.addModules_bundledTable {isRuntime : String → Bool} {before : List OrderEntry}
    (distinct : ((before ++ entries).map OrderEntry.id).Nodup)
    (never : ∀ path, isRuntime path = false) :
    addModules isRuntime (before.map fun entry => (.str entry.id, .ofEntry entry))
      (Table.mapValues some (Plan.bundledTable [] entries)) =
        .ok ((before ++ entries).map fun entry => (.str entry.id, .ofEntry entry)) := by
  induction entries generalizing before with
  | nil =>
    rw [List.append_nil]
    rfl
  | cons entry rest ih =>
    have split : before ++ entry :: rest = before ++ [entry] ++ rest := by simp
    have fresh : before.find? (fun other => other.id = entry.id) = none := by
      rw [List.find?_eq_none]
      intro other inside same
      rw [List.map_append, List.nodup_append] at distinct
      exact distinct.2.2 _ (List.mem_map_of_mem inside) _ (List.mem_map_of_mem List.mem_cons_self)
        (of_decide_eq_true same)
    have absent : find? (before.map fun entry => (.str entry.id, .ofEntry entry)) (.str entry.id) =
        none := by
      rw [find?_ofEntries, fresh]
      rfl
    rw [split] at distinct ⊢
    rw [← ih distinct, List.map_append]
    show List.foldlM _ _ [Plan.bundledDirective [] entry] >>= _ = _
    rw [List.foldlM_cons, Plan.bundledDirective_source, never, add_of_none absent]
    rfl

namespace Plan

variable {method : Method} {bundleName barrel : Json}

theorem locators_plain (distinct : (entries.map OrderEntry.id).Nodup) :
    locators { plain method bundleName barrel with modules := .table (bundledTable [] entries) } =
      .ok (entries.map fun entry => (.str entry.id, .ofEntry entry)) := by
  show Locators.addModules _ _ (Table.update [] _) >>= _ = _
  rw [update_bundledTable distinct]
  have distinct : (([] ++ entries).map OrderEntry.id).Nodup := distinct
  exact except_bind_eq_ok.mpr
    ⟨_, Locators.addModules_bundledTable distinct fun _ => rfl, rfl⟩

theorem allModules_plain (distinct : (entries.map OrderEntry.id).Nodup) :
    allModules { plain method bundleName barrel with modules := .table (bundledTable [] entries) } =
      .ok (bundledTable [] entries) := by
  show (Table.update [] _).mapM _ = _
  rw [update_bundledTable distinct, mapM_eq_ok, Table.mapValues, List.forall₂_map_left_iff,
    List.forall₂_same]
  exact fun _ _ => rfl

end Plan

namespace Generator

theorem ofPlan_plain {method : Method} {bundleName barrel : Json}
    (distinct : (entries.map OrderEntry.id).Nodup) :
    ofPlan workingDir table
      { Plan.plain method bundleName barrel with modules := .table (Plan.bundledTable [] entries) }
      isBefore = .ok (ofOrder workingDir table entries isBefore) := by
  rw [ofPlan, Plan.locators_plain distinct, Plan.allModules_plain distinct]
  rfl

theorem directives_ofOrder (distinct : (entries.map OrderEntry.id).Nodup)
    (member : entry ∈ entries) :
    Table.get? (ofOrder workingDir table entries isBefore).modules (modulePath entry.id) =
      some [Plan.bundledDirective [] entry] := by
  refine Table.get?_of_mem ?_ (List.mem_map_of_mem member)
  show (Table.keys (Plan.bundledTable [] entries)).Nodup
  rw [Plan.keys_bundledTable]
  exact List.Nodup.map modulePath_injective distinct

theorem relative_modulePath (workingDir : List String) (importer id : String) :
    ∃ path, ModulePath.relative workingDir importer (modulePath id) = .ok path := by
  have named : (modulePath id).isEmpty = false := by
    simp [modulePath]
  rw [ModulePath.relative, named]
  exact ⟨_, rfl⟩

theorem importOf_of_mem (path : String) (defined : ref ∈ entries.map OrderEntry.id) :
    ∃ place, ModulePath.relative workingDir path (modulePath ref) = .ok place ∧
      (ofOrder workingDir table entries isBefore).importOf path ref =
        .ok ⟨place, Name.identifier ref, .schema⟩ := by
  obtain ⟨found, isFound⟩ : ∃ found, entries.find? (fun entry => entry.id = ref) = some found := by
    obtain ⟨entry, inside, rfl⟩ := List.mem_map.mp defined
    exact Option.isSome_iff_exists.mp (List.find?_isSome.mpr ⟨entry, inside, by simp⟩)
  obtain rfl : found.id = ref := by simpa using List.find?_some isFound
  have located : (ofOrder workingDir table entries isBefore).locators.find? (.str found.id) =
      some (.ofEntry found) := by
    show Locators.find? (entries.map _) _ = _
    rw [Locators.find?_ofEntries, isFound]
    rfl
  obtain ⟨place, isPlace⟩ := relative_modulePath workingDir path found.id
  refine ⟨place, isPlace, ?_⟩
  rw [importOf, located]
  exact except_bind_eq_ok.mpr ⟨place, isPlace, rfl⟩

theorem importOf_of_not_mem (path : String) (undefined : ref ∉ entries.map OrderEntry.id) :
    (ofOrder workingDir table entries isBefore).importOf path ref = .ok (.missing ref) := by
  have absent : entries.find? (fun entry => entry.id = ref) = none := by
    rw [List.find?_eq_none]
    intro entry inside same
    exact undefined (List.mem_map.mpr ⟨entry, inside, of_decide_eq_true same⟩)
  have located : (ofOrder workingDir table entries isBefore).locators.find? (.str ref) = none := by
    show Locators.find? (entries.map _) _ = _
    rw [Locators.find?_ofEntries, absent]
    rfl
  rw [importOf, located]
  rfl

/-- The imports of the module of a definition can always be worked out, and mark as missing what is
referred to and not defined. -/
theorem importsFor_ofOrder (member : entry ∈ entries) (path : String) (refs : List String) :
    ∃ imports, (ofOrder workingDir table entries isBefore).importsFor path
        [Plan.bundledDirective [] entry] refs = .ok imports ∧
      (imports.filter fun item => item.kind = .missing) =
        (Text.unique (refs.filter fun ref => ref ∉ entries.map OrderEntry.id)).map .missing := by
  let ids := entries.map OrderEntry.id
  have each : ∀ ref, ∃ item, (ofOrder workingDir table entries isBefore).importOf path ref =
      .ok item ∧ (item.kind = .missing ↔ ref ∉ ids) ∧ (ref ∉ ids → item = .missing ref) := by
    intro ref
    by_cases defined : ref ∈ ids
    · obtain ⟨_, _, isItem⟩ := importOf_of_mem path defined
      exact ⟨_, isItem, by simp [defined], fun undefined => absurd defined undefined⟩
    · exact ⟨_, importOf_of_not_mem path defined, by simp [Import.missing, defined], fun _ => rfl⟩
  choose importIn isImport isMissing missing using each
  let foreign := refs.filter fun ref =>
    !List.any [Plan.bundledDirective [] entry] fun directive => directive.source.same (.str ref)
  have mapped : foreign.mapM ((ofOrder workingDir table entries isBefore).importOf path) =
      .ok (foreign.map importIn) := by
    rw [mapM_eq_ok, List.forall₂_map_right_iff, List.forall₂_same]
    exact fun ref _ => isImport ref
  refine ⟨Import.arrange (Text.unique (foreign.map importIn)),
    except_bind_eq_ok.mpr ⟨_, mapped, rfl⟩, ?_⟩
  have kept : foreign.filter (fun ref => decide ((importIn ref).kind = .missing)) =
      refs.filter fun ref => ref ∉ ids := by
    rw [List.filter_filter]
    refine List.filter_congr fun ref _ => ?_
    by_cases defined : ref ∈ ids
    · simp [isMissing, defined]
    · have other : entry.id ≠ ref := fun same => defined (same ▸ List.mem_map_of_mem member)
      simp [isMissing, defined, Plan.bundledDirective_source, Json.same, other]
  have marked : (refs.filter fun ref => ref ∉ ids).map importIn =
      (refs.filter fun ref => ref ∉ ids).map .missing :=
    List.map_congr_left fun ref inside => missing ref (by simpa using List.of_mem_filter inside)
  rw [Import.filter_arrange, ← Text.unique_filter, List.filter_map,
    ← Text.unique_map Import.missing_injective, ← marked, ← kept]
  rfl

theorem generateSections_single {generator : Generator} {path : String} {directive : Directive}
    {sections : List Section} {refs : List String} :
    (generator.generateSections path [directive]).result = .ok (sections, refs) ↔
      ∃ part found, (generator.generateSection path directive).result = .ok (part, found) ∧
        sections = [part] ∧ refs = Text.unique found := by
  constructor
  · intro made
    obtain ⟨⟨part, found⟩, here, made⟩ := Logged.bind_eq_ok.mp made
    cases made
    exact ⟨part, found, here, rfl, by rw [List.append_nil]⟩
  · rintro ⟨part, found, here, rfl, rfl⟩
    refine Logged.bind_eq_ok.mpr ⟨_, here, ?_⟩
    show Except.ok _ = _
    rw [List.append_nil]

theorem schemaOf_eq_ok {generator : Generator} {id : String} {schema : Schema} :
    generator.schemaOf (.str id) = .ok schema ↔ Table.get? generator.table id = some schema := by
  have read : (Json.str id).text?.bind (Table.get? generator.table) =
      Table.get? generator.table id := rfl
  rw [schemaOf, read]
  cases Table.get? generator.table id <;> simp

/-- The exports of a definition in a plain plan. -/
def exportsOf (entry : OrderEntry) (code : Expr) (comments : Comments) : Export :=
  ⟨entry.id, .str entry.id, code, comments, { lazy := .bool entry.circular }⟩

/-- The module of a definition has one section, with the code of the definition's schema as it is
seen from the definition. -/
theorem generate_ofOrder {late : String → String → Bool} {module : GeneratedModule}
    (sees : ∀ target id, isBefore target (.str id) = .ok (!late id target))
    (distinct : (entries.map OrderEntry.id).Nodup) (member : entry ∈ entries) :
    ((ofOrder workingDir table entries isBefore).generate (modulePath entry.id)).result =
        .ok module ↔
      ∃ schema result comments, Table.get? table entry.id = some schema ∧
        (schema.generate (({ table } : Context).orderedBy (late entry.id))).result = .ok result ∧
        result.docs.comments = .ok comments ∧
        module.sections = [.definition (exportsOf entry result.code comments)] ∧
        (ofOrder workingDir table entries isBefore).importsFor (modulePath entry.id)
          [Plan.bundledDirective [] entry] (Text.unique result.refs) = .ok module.imports := by
  have seen : (ofOrder workingDir table entries isBefore).contextFor (.str entry.id) =
      .ok (({ table } : Context).orderedBy (late entry.id)) := by
    have before : (fun target => isBefore target (.str entry.id)) =
        fun target => .ok (!late entry.id target) := funext fun target => sees target entry.id
    show Except.ok (Context.mk table {} fun target => isBefore target (.str entry.id)) = _
    rw [before]
    rfl
  rw [generate_eq_ok]
  constructor
  · rintro ⟨directives, refs, found, parts, imported⟩
    rw [directives_ofOrder distinct member] at found
    cases found
    obtain ⟨part, found, made, isSections, rfl⟩ := generateSections_single.mp parts
    obtain ⟨id, context, schema, result, comments, isTarget, isContext, looked, generated,
      isComments, rfl, rfl⟩ := generateExport_eq_ok.mp made
    cases isTarget
    cases seen.symm.trans isContext
    obtain ⟨own, isOwn, looked⟩ := except_bind_eq_ok.mp looked
    cases looked
    exact ⟨schema, result, comments, schemaOf_eq_ok.mp isOwn, generated, isComments, isSections,
      imported⟩
  · rintro ⟨schema, result, comments, found, generated, isComments, isSections, imported⟩
    refine ⟨_, _, directives_ofOrder distinct member, ?_, imported⟩
    refine generateSections_single.mpr ⟨_, _, ?_, isSections, rfl⟩
    refine generateExport_eq_ok.mpr ⟨entry.id, _, schema, result, comments, rfl, seen, ?_,
      generated, isComments, rfl, rfl⟩
    exact except_bind_eq_ok.mpr ⟨schema, schemaOf_eq_ok.mpr found, rfl⟩

end Generator

/-- A definition has code: its schema does, and its documentation can be written as comments. -/
def Definitions.HasCode (table : Definitions) (id : String) : Prop :=
  ∃ schema result comments, Table.get? table id = some schema ∧
    (schema.generate { table }).result = .ok result ∧ result.docs.comments = .ok comments

/-- The module of a definition is generated if and only if the definition has code, whichever order
of declarations it is generated under. -/
theorem Generator.exists_generate_ofOrder {late : String → String → Bool}
    (sees : ∀ target id, isBefore target (.str id) = .ok (!late id target))
    (distinct : (entries.map OrderEntry.id).Nodup) (member : entry ∈ entries) :
    (∃ module, ((ofOrder workingDir table entries isBefore).generate (modulePath entry.id)).result =
      .ok module) ↔ table.HasCode entry.id := by
  -- A schema has code under one order if it does under another.
  have defers : ∀ schema : Schema,
      (schema.generate (({ table } : Context).orderedBy (late entry.id))).result =
        Generated.defer (late entry.id) <$> (schema.generate { table }).result :=
    fun schema => (schema.generate_defers : schema.Defers { table } (late entry.id) fun _ => false)
  constructor
  · rintro ⟨module, made⟩
    obtain ⟨schema, result, comments, found, generated, isComments, _⟩ :=
      (generate_ofOrder sees distinct member).mp made
    rw [defers] at generated
    obtain ⟨plain, isPlain, rfl⟩ := except_map_eq_ok.mp generated
    exact ⟨schema, plain, comments, found, isPlain, isComments⟩
  · rintro ⟨schema, plain, comments, found, generated, isComments⟩
    have deferred := (defers schema).trans (except_map_eq_ok.mpr ⟨plain, generated, rfl⟩)
    obtain ⟨imports, imported, _⟩ := importsFor_ofOrder member (modulePath entry.id)
      (Text.unique plain.refs)
    exact ⟨⟨imports, _⟩, (generate_ofOrder sees distinct member).mpr
      ⟨schema, _, comments, found, deferred, isComments, rfl, imported⟩⟩

end SchemaPress
