import SchemaPress.Proofs.ModuleNames
import SchemaPress.Proofs.OrderSearch

/-! The imports of a module. A module imports what its sections refer to and it does not define
itself: each from the first place, among the directives of all modules, that is made from the schema
of the id, or as a mark if there is no such place. Imports of support modules come first, and
otherwise imports stand in the order in which they are first referred to. -/

namespace SchemaPress

/-- What a module imports for an id, given the places of all directives in order: a mark if none of
them is made from the schema of the id, and otherwise the name that the first of them exports, from
its module as the importing module sees it. -/
inductive Import.Supplied (workingDir : List String) (places : List Locator) (path ref : String) :
    Import → Prop where
  | missing (nowhere : ∀ place ∈ places, place.directive.source ≠ .str ref) :
      Supplied workingDir places path ref (.missing ref)
  | located {before after : List Locator} {place : Locator} {way target : String}
      (isPlaces : places = before ++ place :: after)
      (unlike : ∀ earlier ∈ before, earlier.directive.source ≠ .str ref)
      (isSource : place.directive.source = .str ref)
      (isTarget : place.directive.target = .str target)
      (isWay : ModulePath.relative workingDir path place.path = .ok way) :
      Supplied workingDir places path ref
        ⟨way, Name.identifier target, if place.isRuntime then .runtime else .schema⟩

/-- The ids that a module refers to and that none of its directives is made from, in order of first
reference. -/
def foreignIds (directives : List Directive) (refs : List String) : List String :=
  (Text.unique refs).filter fun ref =>
    !directives.any fun directive => directive.source.same (.str ref)

/-- One import is referred to before another: at some id that is imported as the one, no id has been
imported as the other. -/
def Import.ReferredFirst (imports : String → Import → Prop) (refs : List String)
    (first second : Import) : Prop :=
  ∃ before ref after, refs = before ++ ref :: after ∧ imports ref first ∧
    ∀ earlier ∈ before, ¬ imports earlier second

theorem mem_foreignIds {directives : List Directive} {refs : List String} {ref : String} :
    ref ∈ foreignIds directives refs ↔
      ref ∈ refs ∧ ∀ directive ∈ directives, directive.source ≠ .str ref := by
  rw [foreignIds, Generator.mem_foreign, Text.mem_unique]

theorem Json.asSubject_eq_ok {value : Json} {text : String} :
    value.asSubject = .ok text ↔ value = .str text := by
  cases value <;> simp [asSubject]

section Places

variable {places : List Locator} {place : Locator} {ref : String}

theorem find?_source_eq_none :
    places.find? (fun place => place.directive.source.same (.str ref)) = none ↔
      ∀ place ∈ places, place.directive.source ≠ .str ref := by
  simp [List.find?_eq_none, Json.same_str_iff]

theorem find?_source_eq_some :
    places.find? (fun place => place.directive.source.same (.str ref)) = some place ↔
      place.directive.source = .str ref ∧ ∃ before after, places = before ++ place :: after ∧
        ∀ earlier ∈ before, earlier.directive.source ≠ .str ref := by
  simp [List.find?_eq_some_iff_append, Json.same_str_iff, ← Bool.not_eq_true]

/-- The places of modules are those of their directives. -/
theorem mem_placesOf {runtime modules : Listing} {all : Table (List Directive)}
    (laid : Table.mapValues some all = Table.update runtime modules)
    (inside : place ∈ Locators.placesOf runtime modules) :
    ∃ directives, (place.path, directives) ∈ all ∧ place.directive ∈ directives := by
  rw [Locators.placesOf, ← laid] at inside
  obtain ⟨entry, listed, inside⟩ := List.mem_flatMap.mp inside
  obtain ⟨⟨path, directives⟩, isEntry, rfl⟩ := List.mem_map.mp listed
  obtain ⟨directive, held, rfl⟩ := List.mem_map.mp inside
  exact ⟨directives, isEntry, held⟩

end Places

/-- The import of an id is a mark if and only if no place is made from its schema. -/
theorem Import.Supplied.missing_iff {workingDir : List String} {places : List Locator}
    {path ref : String} {item : Import} (supplied : item.Supplied workingDir places path ref) :
    item.kind = .missing ↔ ∀ place ∈ places, place.directive.source ≠ .str ref := by
  cases supplied with
  | missing nowhere => exact iff_of_true rfl nowhere
  | @located before after place _ _ isPlaces _ isSource =>
    refine iff_of_false ?_ fun nowhere => ?_
    · show (if place.isRuntime then ImportKind.runtime else .schema) ≠ .missing
      by_cases runtime : place.isRuntime = true <;> simp [runtime]
    · apply nowhere place _ isSource
      simp [isPlaces]

section Arranged

variable {imports : List Import} {ordered : Import → Import → Prop}

/-- Support modules come first, and otherwise the order is kept. -/
theorem Import.arrange_pairwise (each : imports.Pairwise ordered) :
    (arrange imports).Pairwise fun first second =>
      (second.kind = .runtime → first.kind = .runtime) ∧
      ((first.kind = .runtime ↔ second.kind = .runtime) → ordered first second) := by
  have ofSupport : ∀ item ∈ imports.filter (fun item => item.kind = .runtime),
      item.kind = .runtime := by simp
  have ofOthers : ∀ item ∈ imports.filter (fun item => item.kind ≠ .runtime),
      item.kind ≠ .runtime := by simp
  rw [arrange, runtimeFirst, List.pairwise_append]
  refine ⟨?_, ?_, ?_⟩
  · apply (each.filter _).imp_of_mem
    intro first second isFirst _ before
    exact ⟨fun _ => ofSupport first isFirst, fun _ => before⟩
  · apply (each.filter _).imp_of_mem
    intro first second _ isSecond before
    exact ⟨fun runtime => absurd runtime (ofOthers second isSecond), fun _ => before⟩
  · intro first isFirst second isSecond
    have isRuntime := ofSupport first isFirst
    exact ⟨fun _ => isRuntime, fun same => absurd (same.mp isRuntime) (ofOthers second isSecond)⟩

theorem Import.arrange_nodup (distinct : imports.Nodup) : (arrange imports).Nodup := by
  refine (arrange_pairwise distinct).imp ?_
  rintro first _ ⟨_, different⟩ rfl
  exact different Iff.rfl rfl

end Arranged

/-- What occurs first among imports is referred to first. -/
theorem Import.referredFirst_of_split {imports : String → Import → Prop}
    {refs : List String} {items before after : List Import} {first second : Import}
    (functional : ∀ ref item other, imports ref item → imports ref other → item = other)
    (each : List.Forall₂ imports refs items) (isItems : items = before ++ first :: after)
    (unseen : second ∉ before) : ReferredFirst imports refs first second := by
  subst isItems
  have earlier := List.forall₂_take_append refs before (first :: after) each
  obtain ⟨ref, later, here, _, isLater⟩ :=
    List.forall₂_cons_right_iff.mp (List.forall₂_drop_append refs before (first :: after) each)
  refine ⟨refs.take before.length, ref, later, ?_, here, fun other inside imported => ?_⟩
  · rw [← isLater, List.take_append_drop]
  · obtain ⟨item, isItem, same⟩ := exists_of_mem_right earlier.flip other inside
    exact unseen (functional other item second same imported ▸ isItem)

namespace Generator

variable {generator : Generator} {workingDir : List String} {table : Definitions} {plan : Plan}
  {isBefore : String → Json → Except Failure Bool} {path ref : String} {places : List Locator}
  {item : Import}

/-- A generator that locates schemas at the first of some places imports what is supplied there. -/
theorem importOf_eq_ok
    (located : generator.locators.find? (.str ref) =
      places.find? fun place => place.directive.source.same (.str ref)) :
    generator.importOf path ref = .ok item ↔
      item.Supplied generator.workingDir places path ref := by
  unfold importOf
  rw [located]
  constructor
  · intro made
    split at made
    · rename_i none
      cases made
      exact .missing (find?_source_eq_none.mp none)
    · rename_i place found
      obtain ⟨isSource, before, after, isPlaces, unlike⟩ := find?_source_eq_some.mp found
      obtain ⟨way, isWay, made⟩ := except_bind_eq_ok.mp made
      obtain ⟨target, isTarget, made⟩ := except_bind_eq_ok.mp made
      cases made
      exact .located isPlaces unlike isSource (Json.asSubject_eq_ok.mp isTarget) isWay
  · intro supplied
    cases supplied with
    | missing nowhere =>
      rw [find?_source_eq_none.mpr nowhere]
      rfl
    | located isPlaces unlike isSource isTarget isWay =>
      rw [find?_source_eq_some.mpr ⟨isSource, _, _, isPlaces, unlike⟩]
      refine except_bind_eq_ok.mpr ⟨_, isWay, ?_⟩
      exact except_bind_eq_ok.mpr ⟨_, Json.asSubject_eq_ok.mpr isTarget, rfl⟩

theorem workingDir_of_ofPlan (prepared : ofPlan workingDir table plan isBefore = .ok generator) :
    generator.workingDir = workingDir := by
  obtain ⟨_, _, prepared⟩ := except_bind_eq_ok.mp prepared
  obtain ⟨_, _, prepared⟩ := except_bind_eq_ok.mp prepared
  rw [← Except.ok.inj prepared]

/-- The imports of a module are those of the ids that it refers to and does not define, without
repetition: support modules first, and otherwise in the order of first reference. -/
theorem importsFor_arranged {directives : List Directive} {refs : List String}
    {imports : List Import} {supplied : String → Import → Prop}
    (isSupplied : ∀ ref item, generator.importOf path ref = .ok item ↔ supplied ref item)
    (made : generator.importsFor path directives (Text.unique refs) = .ok imports) :
    imports.Nodup ∧
    (∀ ref ∈ foreignIds directives refs, ∃ item ∈ imports,
      ∀ other, supplied ref other ↔ other = item) ∧
    (∀ item ∈ imports, ∃ ref ∈ foreignIds directives refs, supplied ref item) ∧
    imports.Pairwise fun first second =>
      (second.kind = .runtime → first.kind = .runtime) ∧
      ((first.kind = .runtime ↔ second.kind = .runtime) →
        Import.ReferredFirst supplied (foreignIds directives refs) first second) := by
  have functional : ∀ ref item other, supplied ref item → supplied ref other → item = other := by
    intro ref item other first second
    exact Except.ok.inj (((isSupplied ref item).mpr first).symm.trans
      ((isSupplied ref other).mpr second))
  obtain ⟨items, mapped, made⟩ := except_bind_eq_ok.mp made
  obtain rfl := Except.ok.inj made
  have each : List.Forall₂ supplied (foreignIds directives refs) items :=
    (mapM_eq_ok.mp mapped).imp fun ref item => (isSupplied ref item).mp
  refine ⟨Import.arrange_nodup (Text.unique_nodup items), ?_, ?_, ?_⟩
  · intro ref inside
    obtain ⟨item, isItem, here⟩ := exists_of_mem_right each.flip ref inside
    refine ⟨item, Import.mem_arrange.mpr (Text.mem_unique.mpr isItem), fun other => ⟨?_, ?_⟩⟩
    · exact fun again => functional ref other item again here
    · rintro rfl
      exact here
  · intro item isItem
    exact exists_of_mem_right each item (Text.mem_unique.mp (Import.mem_arrange.mp isItem))
  · refine Import.arrange_pairwise ((Text.unique_pairwise items).imp ?_)
    rintro first second ⟨before, after, isItems, unseen⟩
    exact Import.referredFirst_of_split functional each isItems unseen

/-- No place for an id that is foreign to a module is in the module itself. -/
theorem place_elsewhere {runtime modules : Listing} {directives : List Directive}
    {refs : List String} {place : Locator}
    (laid : Table.mapValues some generator.modules = Table.update runtime modules)
    (distinct : (Table.keys generator.modules).Nodup)
    (found : Table.get? generator.modules path = some directives)
    (foreign : ref ∈ foreignIds directives refs)
    (isPlace : place ∈ Locators.placesOf runtime modules)
    (isSource : place.directive.source = .str ref) : place.path ≠ path := by
  rintro rfl
  obtain ⟨own, listed, inside⟩ := mem_placesOf laid isPlace
  have same : own = directives :=
    Option.some.inj ((Table.get?_of_mem distinct listed).symm.trans found)
  exact (mem_foreignIds.mp foreign).2 place.directive (same ▸ inside) isSource

/-- The import block of a module. The modules of a plan are its support modules with the other
modules laid over them. The directives of a module refer to ids, of which those count that none of
these directives is made from. The imports are free of repetitions, one for each such id and no
others. The import of an id is a mark if and only if no directive of any module is made from its
schema; otherwise it names what the first such directive exports, from the module of that directive,
which is never the importing module. Support modules come first, and otherwise imports stand in the
order of first reference. -/
theorem imports_of_foreign_references {module : GeneratedModule}
    (prepared : ofPlan workingDir table plan isBefore = .ok generator)
    (made : (generator.generate path).result = .ok module) :
    ∃ runtime modules directives parts,
      plan.runtime.listing = .ok runtime ∧ plan.modules.listing = .ok modules ∧
      Table.mapValues some generator.modules = Table.update runtime modules ∧
      Table.get? generator.modules path = some directives ∧
      List.Forall₂ (fun directive part =>
        (generator.generateSection path directive).result = .ok part) directives parts ∧
      module.sections = parts.map Prod.fst ∧
      let places := Locators.placesOf runtime modules
      let refs := foreignIds directives (parts.flatMap Prod.snd)
      module.imports.Nodup ∧
      (∀ ref ∈ refs, ∃ item ∈ module.imports,
        (∀ other, other.Supplied workingDir places path ref ↔ other = item) ∧
        (item.kind = .missing ↔ ∀ place ∈ places, place.directive.source ≠ .str ref) ∧
        ((Table.keys generator.modules).Nodup →
          ∀ place ∈ places, place.directive.source = .str ref → place.path ≠ path)) ∧
      (∀ item ∈ module.imports, ∃ ref ∈ refs, item.Supplied workingDir places path ref) ∧
      module.imports.Pairwise fun first second =>
        (second.kind = .runtime → first.kind = .runtime) ∧
        ((first.kind = .runtime ↔ second.kind = .runtime) →
          Import.ReferredFirst (fun ref item => item.Supplied workingDir places path ref) refs
            first second) := by
  obtain ⟨runtime, modules, isRuntime, isModules, laid, located⟩ := find?_placesOf prepared
  obtain ⟨directives, refs, found, generated, imported⟩ := generate_eq_ok.mp made
  obtain ⟨parts, each, isSections, rfl⟩ := generateSections_parts generated
  have isSupplied : ∀ ref item, generator.importOf path ref = .ok item ↔
      item.Supplied workingDir (Locators.placesOf runtime modules) path ref := by
    intro ref item
    rw [importOf_eq_ok (located ref), workingDir_of_ofPlan prepared]
  obtain ⟨distinct, all, only, ordered⟩ := importsFor_arranged isSupplied imported
  refine ⟨runtime, modules, directives, parts, isRuntime, isModules, laid, found, each, isSections,
    distinct, fun ref inside => ?_, only, ordered⟩
  obtain ⟨item, isItem, isImport⟩ := all ref inside
  refine ⟨item, isItem, isImport, ((isImport item).mpr rfl).missing_iff, ?_⟩
  exact fun paths place isPlace isSource =>
    place_elsewhere laid paths found inside isPlace isSource

/-- A plan in which modules overlap: two are made from one schema, and a support module gives way to
a module with its path, which renames what it exports. -/
def overlappingPlan : Plan where
  method := .custom
  runtime := .table [("./tags.ts", [.literal (.str "Old") (.str "")]),
    ("./names.ts", [.literal (.str "Name") (.str "")])]
  modules := .table [("./User.ts", [.generate (.str "User") .null {} .null]),
    ("./tags.ts", [.generate (.str "Label") (.str "Tag") {} .null]),
    ("./Address.ts", [.generate (.str "Address") .null {} .null]),
    ("./Second.ts", [.generate (.str "Second") (.str "Address") {} .null])]

theorem overlapping_module :
    ∃ generator module,
      ofPlan [] [("User", Definitions.linking ["Address", "Name", "Ghost", "Tag", "User"])]
        overlappingPlan (fun _ _ => .ok true) = .ok generator ∧
      (generator.generate "./User.ts").result = .ok module ∧
      module.imports = [⟨"./names.ts", "Name", .runtime⟩, ⟨"./Address.ts", "Address", .schema⟩,
        .missing "Ghost", ⟨"./tags.ts", "Label", .schema⟩] := by
  have seen : (do
      let generator ← (ofPlan [] [("User",
        Definitions.linking ["Address", "Name", "Ghost", "Tag", "User"])]
        overlappingPlan fun _ _ => .ok true).toOption
      let module ← (generator.generate "./User.ts").result.toOption
      return module.imports : Option _) =
      some [⟨"./names.ts", "Name", .runtime⟩, ⟨"./Address.ts", "Address", .schema⟩,
        .missing "Ghost", ⟨"./tags.ts", "Label", .schema⟩] := by
    decide +kernel
  obtain ⟨generator, prepared, seen⟩ := Option.bind_eq_some_iff.mp seen
  obtain ⟨module, made, seen⟩ := Option.bind_eq_some_iff.mp seen
  exact ⟨generator, module, eq_ok_of_toOption prepared, eq_ok_of_toOption made,
    Option.some.inj seen⟩

theorem imports_of_foreign_references_overlapping :
    ∃ generator module,
      ofPlan [] [("User", Definitions.linking ["Address", "Name", "Ghost", "Tag", "User"])]
        overlappingPlan (fun _ _ => .ok true) = .ok generator ∧
      (generator.generate "./User.ts").result = .ok module ∧
      module.imports = [⟨"./names.ts", "Name", .runtime⟩, ⟨"./Address.ts", "Address", .schema⟩,
        .missing "Ghost", ⟨"./tags.ts", "Label", .schema⟩] ∧
      module.imports.Nodup ∧
      module.imports.Pairwise fun first second =>
        second.kind = .runtime → first.kind = .runtime := by
  obtain ⟨generator, module, prepared, made, isImports⟩ := overlapping_module
  obtain ⟨_, _, _, _, _, _, _, _, _, _, distinct, _, _, ordered⟩ :=
    imports_of_foreign_references prepared made
  exact ⟨generator, module, prepared, made, isImports, distinct, ordered.imp And.left⟩

end Generator

end SchemaPress
