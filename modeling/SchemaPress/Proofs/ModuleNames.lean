import SchemaPress.Proofs.GeneratedSections
import SchemaPress.Proofs.Mentions
import SchemaPress.Proofs.ResolvedPlans

/-! The names that generated modules bind. A module refers to a definition by the id of its schema,
and binds it by the id that a directive exports it under; what is not exported by the module itself
is imported from the first directive for the schema. The two names are the same unless a directive
renames the definition, and a module that refers to a renamed definition does not bind the name it
refers to. -/

namespace SchemaPress

/-- The name that a directive exports. -/
def Directive.identifier? (directive : Directive) : Option String :=
  directive.target.text?.map Name.identifier

theorem Json.same_str_iff {value : Json} {text : String} :
    value.same (.str text) = true ↔ value = .str text := by
  refine ⟨Json.eq_str_of_same, ?_⟩
  rintro rfl
  simp [Json.same]

theorem Json.asKey_eq_ok {value key : Json} (isKey : value.asKey = .ok key) : key = value := by
  unfold Json.asKey at isKey
  split at isKey
  · exact (Except.ok.inj isKey).symm
  · cases isKey

namespace Locators

variable {locators result : Locators} {isRuntime : String → Bool}

/-- The places of the directives that are listed, in order. -/
def places (isRuntime : String → Bool) (listing : Listing) : List Locator :=
  listing.flatMap fun entry => (entry.2.getD []).map fun directive =>
    ⟨entry.1, directive, isRuntime entry.1⟩

/-- The places of the directives of support modules, with other modules laid over them. A module
that is listed as both is no support module. -/
def placesOf (runtime modules : Listing) : List Locator :=
  places (fun path => Table.has runtime path && !Table.has modules path)
    (Table.update runtime modules)

theorem find?_append (locators : Locators) (key source : Json) (locator : Locator) :
    find? (locators ++ [(key, locator)]) source = (find? locators source).or
      (if key.same source then some locator else none) := by
  rw [find?, find?, List.find?_append, Option.map_or, List.find?_singleton]
  split <;> rfl

/-- A place counts for a schema only if there was none before. -/
theorem find?_add {source : Json} {locator : Locator}
    (added : add locators source locator = .ok result) (ref : String) :
    find? result (.str ref) = (find? locators (.str ref)).or
      (if source.same (.str ref) then some locator else none) := by
  obtain ⟨key, isKey, set⟩ := except_bind_eq_ok.mp added
  obtain rfl := Json.asKey_eq_ok isKey
  have isResult := Except.ok.inj set
  by_cases present : (find? locators key).isSome = true
  · rw [if_pos present] at isResult
    subst isResult
    split
    · rename_i same
      rw [Json.eq_str_of_same same] at present
      rw [Option.or_of_isSome present]
    · rw [Option.or_none]
  · rw [if_neg present] at isResult
    rw [← isResult, find?_append]

theorem find?_addDirectives {path : String} {directives : List Directive}
    (added : directives.foldlM (fun locators directive =>
      add locators directive.source ⟨path, directive, isRuntime path⟩) locators = .ok result)
    (ref : String) :
    find? result (.str ref) = (find? locators (.str ref)).or
      ((directives.map fun directive => (⟨path, directive, isRuntime path⟩ : Locator)).find?
        fun place => place.directive.source.same (.str ref)) := by
  induction directives generalizing locators with
  | nil =>
    cases added
    rw [List.map_nil, List.find?_nil, Option.or_none]
  | cons directive rest ih =>
    rw [List.foldlM_cons] at added
    obtain ⟨between, here, later⟩ := except_bind_eq_ok.mp added
    rw [ih later, find?_add here, List.map_cons, List.find?_cons, Option.or_assoc]
    congr 1
    split <;> simp_all

/-- The first directive for a schema counts. -/
theorem find?_addModules {listing : Listing}
    (added : addModules isRuntime locators listing = .ok result) (ref : String) :
    find? result (.str ref) = (find? locators (.str ref)).or
      ((places isRuntime listing).find? fun place => place.directive.source.same (.str ref)) := by
  induction listing generalizing locators with
  | nil =>
    cases added
    rw [places, List.flatMap_nil, List.find?_nil, Option.or_none]
  | cons entry rest ih =>
    obtain ⟨path, directives?⟩ := entry
    rw [addModules, List.foldlM_cons] at added
    obtain ⟨between, here, later⟩ := except_bind_eq_ok.mp added
    cases directives? with
    | none => cases here
    | some directives =>
      have split : places isRuntime ((path, some directives) :: rest) =
          directives.map (fun directive => ⟨path, directive, isRuntime path⟩) ++
            places isRuntime rest := List.flatMap_cons
      rw [ih later, find?_addDirectives here, Option.or_assoc, split, List.find?_append]

end Locators

/-- The mark for a definition that no module provides. -/
def Import.missing (ref : String) : Import :=
  ⟨"", ref, .missing⟩

theorem Import.missing_injective : Function.Injective missing :=
  fun _ _ same => congrArg Import.name same

theorem Import.mem_arrange {item : Import} {imports : List Import} :
    item ∈ arrange imports ↔ item ∈ imports := by
  rw [arrange, runtimeFirst, List.mem_append, List.mem_filter, List.mem_filter]
  by_cases runtime : item.kind = .runtime <;> simp [runtime]

section Suppliers

variable {modules : Table (List Directive)} {directives : List Directive} {path ref : String}
  {supplier : Directive}

/-- The directives that supply a module with what is made from a schema: its own, or else the first
one in any module. -/
def suppliers (modules : Table (List Directive)) (directives : List Directive) (ref : String) :
    List Directive :=
  let own := directives.filter fun directive => directive.source.same (.str ref)
  if own.isEmpty then ((modules.flatMap Prod.snd).find? fun directive =>
    directive.source.same (.str ref)).toList
  else own

theorem suppliers_of_own (own : ∃ directive ∈ directives, directive.source = .str ref) :
    suppliers modules directives ref =
      directives.filter fun directive => directive.source.same (.str ref) := by
  obtain ⟨directive, inside, isSource⟩ := own
  have held : directive ∈ directives.filter fun directive => directive.source.same (.str ref) :=
    List.mem_filter.mpr ⟨inside, Json.same_str_iff.mpr isSource⟩
  rw [suppliers, if_neg]
  rw [List.isEmpty_iff]
  exact List.ne_nil_of_mem held

theorem suppliers_of_foreign (foreign : ∀ directive ∈ directives, directive.source ≠ .str ref) :
    suppliers modules directives ref = ((modules.flatMap Prod.snd).find? fun directive =>
      directive.source.same (.str ref)).toList := by
  have none : (directives.filter fun directive => directive.source.same (.str ref)) = [] := by
    rw [List.filter_eq_nil_iff]
    exact fun directive inside same => foreign directive inside (Json.same_str_iff.mp same)
  rw [suppliers, none]
  rfl

/-- What supplies a module with a schema is made from that schema. -/
theorem source_of_supplier (supplies : supplier ∈ suppliers modules directives ref) :
    supplier.source = .str ref := by
  by_cases own : ∃ directive ∈ directives, directive.source = .str ref
  · rw [suppliers_of_own own] at supplies
    have same := List.of_mem_filter supplies
    exact Json.same_str_iff.mp same
  · rw [suppliers_of_foreign fun directive inside isSource => own ⟨directive, inside, isSource⟩,
      Option.mem_toList] at supplies
    have same := List.find?_some supplies
    exact Json.same_str_iff.mp same

/-- What supplies a module is a directive of some module. -/
theorem listed_of_supplier (listed : (path, directives) ∈ modules)
    (supplies : supplier ∈ suppliers modules directives ref) :
    ∃ entry ∈ modules, supplier ∈ entry.2 := by
  by_cases own : ∃ directive ∈ directives, directive.source = .str ref
  · rw [suppliers_of_own own] at supplies
    exact ⟨_, listed, List.mem_of_mem_filter supplies⟩
  · rw [suppliers_of_foreign fun directive inside isSource => own ⟨directive, inside, isSource⟩,
      Option.mem_toList] at supplies
    exact List.mem_flatMap.mp (List.mem_of_find?_eq_some supplies)

end Suppliers

/-- The names that a module binds: those that its directives export, and those that it imports. -/
def boundNames (directives : List Directive) (imports : List Import) : List String :=
  directives.filterMap Directive.identifier? ++
    (imports.filter fun item => item.kind ≠ .missing).map Import.name

namespace Generator

variable {generator : Generator} {workingDir : List String} {table : Definitions} {plan : Plan}
  {isBefore : String → Json → Except Failure Bool} {path ref : String}

/-- The generator for a plan has the modules that the plan lists, and locates a schema at the first
place in them with a directive for it. -/
theorem find?_placesOf (prepared : ofPlan workingDir table plan isBefore = .ok generator) :
    ∃ runtime modules, plan.runtime.listing = .ok runtime ∧ plan.modules.listing = .ok modules ∧
      Table.mapValues some generator.modules = Table.update runtime modules ∧
      ∀ ref, generator.locators.find? (.str ref) = (Locators.placesOf runtime modules).find?
        fun place => place.directive.source.same (.str ref) := by
  obtain ⟨locators, located, prepared⟩ := except_bind_eq_ok.mp prepared
  obtain ⟨all, listed, isGenerator⟩ := except_bind_eq_ok.mp prepared
  obtain rfl := Except.ok.inj isGenerator
  obtain ⟨runtime, modules, isRuntime, isModules, laid⟩ := Plan.allModules_ok listed
  obtain ⟨⟨_, _⟩, isListings, located⟩ := except_bind_eq_ok.mp located
  obtain ⟨sameRuntime, sameModules⟩ := Plan.listings_ok isListings
  cases isRuntime.symm.trans sameRuntime
  cases isModules.symm.trans sameModules
  obtain ⟨found, added, located⟩ := except_bind_eq_ok.mp located
  have isFound : found = locators := by
    split at located
    · cases located
    · exact Except.ok.inj located
  subst isFound
  refine ⟨runtime, modules, isRuntime, isModules, laid, fun ref => ?_⟩
  rw [Locators.find?_addModules added]
  rfl

/-- The directives at the places of all modules are those of the modules, in order. -/
theorem directives_placesOf {runtime modules : Listing} {all : Table (List Directive)}
    (laid : Table.mapValues some all = Table.update runtime modules) :
    (Locators.placesOf runtime modules).map Locator.directive = all.flatMap Prod.snd := by
  simp [Locators.placesOf, ← laid, Locators.places, Table.mapValues, List.map_flatMap,
    List.flatMap_map, Function.comp_def]

/-- The generator for a plan locates a schema at the first directive for it. -/
theorem find?_locators (prepared : ofPlan workingDir table plan isBefore = .ok generator)
    (ref : String) :
    (generator.locators.find? (.str ref)).map Locator.directive =
      (generator.modules.flatMap Prod.snd).find? fun directive =>
        directive.source.same (.str ref) := by
  obtain ⟨runtime, modules, _, _, laid, located⟩ := find?_placesOf prepared
  rw [located, ← directives_placesOf laid, List.find?_map]
  rfl

/-- What is imported for an id: a mark if no directive is made from its schema, and else the name
that the first such directive exports. -/
theorem importOf_ok {item : Import}
    (prepared : ofPlan workingDir table plan isBefore = .ok generator)
    (made : generator.importOf path ref = .ok item) :
    ((generator.modules.flatMap Prod.snd).find? (fun directive => directive.source.same (.str ref)) =
      none ∧ item = .missing ref) ∨
    ∃ supplier, (generator.modules.flatMap Prod.snd).find?
        (fun directive => directive.source.same (.str ref)) = some supplier ∧
      supplier.identifier? = some item.name ∧ item.kind ≠ .missing := by
  rw [← find?_locators prepared]
  unfold importOf at made
  cases located : generator.locators.find? (.str ref) with
  | none =>
    rw [located] at made
    cases made
    exact .inl ⟨rfl, rfl⟩
  | some locator =>
    rw [located] at made
    obtain ⟨place, _, made⟩ := except_bind_eq_ok.mp made
    obtain ⟨target, isTarget, made⟩ := except_bind_eq_ok.mp made
    cases made
    refine .inr ⟨locator.directive, rfl, ?_, ?_⟩
    · unfold Json.asSubject at isTarget
      split at isTarget
      · rename_i target isText
        cases isTarget
        rw [Directive.identifier?, isText]
        rfl
      · cases isTarget
    · show (if locator.isRuntime then ImportKind.runtime else .schema) ≠ .missing
      split <;> exact nofun

theorem mem_foreign {directives : List Directive} {refs : List String} :
    ref ∈ refs.filter (fun ref => !directives.any fun directive => directive.source.same (.str ref)) ↔
      ref ∈ refs ∧ ∀ directive ∈ directives, directive.source ≠ .str ref := by
  simp [List.mem_filter, Json.same_str_iff]

/-- A module has an import for each id that it refers to and does not define, and no others. -/
theorem importsFor_ok {directives : List Directive} {refs : List String} {imports : List Import}
    (made : generator.importsFor path directives refs = .ok imports) :
    (∀ ref ∈ refs, (∀ directive ∈ directives, directive.source ≠ .str ref) →
      ∃ item ∈ imports, generator.importOf path ref = .ok item) ∧
    ∀ item ∈ imports, ∃ ref ∈ refs, (∀ directive ∈ directives, directive.source ≠ .str ref) ∧
      generator.importOf path ref = .ok item := by
  obtain ⟨items, mapped, made⟩ := except_bind_eq_ok.mp made
  cases made
  have each := mapM_eq_ok.mp mapped
  constructor
  · intro ref inside foreign
    obtain ⟨item, isItem, imported⟩ :=
      exists_of_mem_right each.flip ref (mem_foreign.mpr ⟨inside, foreign⟩)
    exact ⟨item, Import.mem_arrange.mpr (Text.mem_unique.mpr isItem), imported⟩
  · intro item isItem
    obtain ⟨ref, inside, imported⟩ :=
      exists_of_mem_right each item (Text.mem_unique.mp (Import.mem_arrange.mp isItem))
    obtain ⟨inside, foreign⟩ := mem_foreign.mp inside
    exact ⟨ref, inside, foreign, imported⟩

/-- A directive that has a section and is made from a schema with a text as its id exports a name. -/
theorem identifier_of_section {directive : Directive} {part : Section} {refs : List String}
    (made : (generator.generateSection path directive).result = .ok (part, refs))
    (isSource : directive.source = .str ref) : ∃ name, directive.identifier? = some name := by
  have isText : ∃ target, directive.target = .str target := by
    unfold generateSection at made
    split at made
    · exact ⟨ref, isSource⟩
    all_goals
      obtain ⟨target, _, _, _, _, isTarget, _⟩ := generateExport_eq_ok.mp made
      exact ⟨target, isTarget⟩
  obtain ⟨target, isTarget⟩ := isText
  rw [Directive.identifier?, isTarget]
  exact ⟨_, rfl⟩

/-- Without overrides, what the code of a section refers to is among the ids that are noted for
it. -/
theorem generateSection_refs {overrides : Overrides} {directive : Directive} {part : Section}
    {refs : List String} (known : generator.overrides = .known overrides)
    (silent : overrides.Silent)
    (made : (generator.generateSection path directive).result = .ok (part, refs)) :
    ∀ found ∈ part.references, found.1 ∈ refs := by
  have exported : ∀ {declaration : Declaration} {schema : Except Failure Schema},
      (generator.generateExport path directive declaration schema).result = .ok (part, refs) →
      ∀ found ∈ part.references, found.1 ∈ refs := by
    intro declaration schema made found inside
    obtain ⟨_, context, own, result, _, _, seen, _, generated, _, rfl, rfl⟩ :=
      generateExport_eq_ok.mp made
    have silent : context.overrides.Silent := by
      rw [contextFor, known] at seen
      cases seen
      exact silent
    obtain ⟨isRefs, targets, isTargets⟩ := own.generate_refers silent result generated
    have depends := (own.generate_traceable result generated found inside).2 targets isTargets
    rw [isRefs, Text.mem_unique]
    exact (own.mem_dependencies targets isTargets found.1).mp depends
  unfold generateSection at made
  split at made
  · obtain ⟨_, _, made⟩ := Logged.bind_eq_ok.mp made
    cases made
    exact nofun
  · exact exported made
  · exact exported made

theorem generateSections_refs {overrides : Overrides} {directives : List Directive}
    {sections : List Section} {refs : List String} (known : generator.overrides = .known overrides)
    (silent : overrides.Silent)
    (made : (generator.generateSections path directives).result = .ok (sections, refs)) :
    ∀ part ∈ sections, ∀ found ∈ part.references, found.1 ∈ refs := by
  induction directives generalizing sections refs with
  | nil =>
    cases made
    exact nofun
  | cons directive rest ih =>
    obtain ⟨⟨first, firstRefs⟩, here, made⟩ := Logged.bind_eq_ok.mp made
    obtain ⟨⟨others, otherRefs⟩, later, made⟩ := Logged.bind_eq_ok.mp made
    cases made
    intro part inside found refers
    rw [Text.mem_unique, List.mem_append]
    rcases List.mem_cons.mp inside with rfl | inside
    · exact .inl (generateSection_refs known silent here found refers)
    · exact .inr (ih later part inside found refers)

section Bindings

variable {directives : List Directive} {sections : List Section} {refs : List String}
  {imports : List Import}

/-- A module binds the name under which it is supplied with a schema. -/
theorem supplier_bound (prepared : ofPlan workingDir table plan isBefore = .ok generator)
    (parts : (generator.generateSections path directives).result = .ok (sections, refs))
    (imported : generator.importsFor path directives refs = .ok imports) (refers : ref ∈ refs)
    {supplier : Directive} (supplies : supplier ∈ suppliers generator.modules directives ref) :
    ∃ name ∈ boundNames directives imports, supplier.identifier? = some name := by
  have isSource := source_of_supplier supplies
  by_cases own : ∃ directive ∈ directives, directive.source = .str ref
  · rw [suppliers_of_own own] at supplies
    have inside := List.mem_of_mem_filter supplies
    obtain ⟨part, _, _, made⟩ := exists_of_mem_right (generateSections_ok parts).flip supplier inside
    obtain ⟨name, isName⟩ := identifier_of_section made isSource
    exact ⟨name, List.mem_append_left _ (List.mem_filterMap.mpr ⟨supplier, inside, isName⟩), isName⟩
  · have foreign : ∀ directive ∈ directives, directive.source ≠ .str ref :=
      fun directive inside isSource => own ⟨directive, inside, isSource⟩
    rw [suppliers_of_foreign foreign, Option.mem_toList] at supplies
    obtain ⟨item, isItem, made⟩ := (importsFor_ok imported).1 ref refers foreign
    rcases importOf_ok prepared made with ⟨none, _⟩ | ⟨first, found, isName, kind⟩
    · cases none.symm.trans supplies
    · cases found.symm.trans supplies
      refine ⟨item.name, List.mem_append_right _ (List.mem_map_of_mem ?_), isName⟩
      exact List.mem_filter.mpr ⟨isItem, decide_eq_true kind⟩

/-- A module marks exactly those ids as missing for which no directive is made from their schema. -/
theorem missing_iff (prepared : ofPlan workingDir table plan isBefore = .ok generator)
    (imported : generator.importsFor path directives refs = .ok imports) (refers : ref ∈ refs) :
    .missing ref ∈ imports ↔ suppliers generator.modules directives ref = [] := by
  constructor
  · intro marked
    obtain ⟨other, _, foreign, made⟩ := (importsFor_ok imported).2 _ marked
    rcases importOf_ok prepared made with ⟨none, same⟩ | ⟨_, _, _, kind⟩
    · obtain rfl := Import.missing_injective same
      rw [suppliers_of_foreign foreign, none]
      rfl
    · exact absurd rfl kind
  · intro none
    have foreign : ∀ directive ∈ directives, directive.source ≠ .str ref := by
      intro directive inside isSource
      rw [suppliers_of_own ⟨directive, inside, isSource⟩, List.filter_eq_nil_iff] at none
      exact none directive inside (Json.same_str_iff.mpr isSource)
    rw [suppliers_of_foreign foreign, Option.toList_eq_nil_iff] at none
    obtain ⟨item, isItem, made⟩ := (importsFor_ok imported).1 ref refers foreign
    rcases importOf_ok prepared made with ⟨_, rfl⟩ | ⟨_, found, _⟩
    · exact isItem
    · cases none.symm.trans found

/-- A module binds the names that its directives export, those under which it is supplied with what
it refers to, and no others. -/
theorem mem_boundNames (prepared : ofPlan workingDir table plan isBefore = .ok generator)
    (parts : (generator.generateSections path directives).result = .ok (sections, refs))
    (imported : generator.importsFor path directives refs = .ok imports) {name : String} :
    name ∈ boundNames directives imports ↔
      (∃ directive ∈ directives, directive.identifier? = some name) ∨
      ∃ ref ∈ refs, ∃ supplier ∈ suppliers generator.modules directives ref,
        supplier.identifier? = some name := by
  constructor
  · intro bound
    rcases List.mem_append.mp bound with own | brought
    · exact .inl (List.mem_filterMap.mp own)
    · obtain ⟨item, isItem, rfl⟩ := List.mem_map.mp brought
      obtain ⟨isItem, kind⟩ := List.mem_filter.mp isItem
      obtain ⟨ref, refers, foreign, made⟩ := (importsFor_ok imported).2 item isItem
      rcases importOf_ok prepared made with ⟨_, rfl⟩ | ⟨supplier, found, isName, _⟩
      · exact absurd rfl (of_decide_eq_true kind)
      · refine .inr ⟨ref, refers, supplier, ?_, isName⟩
        rw [suppliers_of_foreign foreign, found]
        exact List.mem_cons_self
  · rintro (⟨directive, inside, isName⟩ | ⟨ref, refers, supplier, supplies, isName⟩)
    · exact List.mem_append_left _ (List.mem_filterMap.mpr ⟨directive, inside, isName⟩)
    · obtain ⟨other, bound, isOther⟩ := supplier_bound prepared parts imported refers supplies
      cases isName.symm.trans isOther
      exact bound

end Bindings

/-- What a module refers to is bound under the name of what supplies it. In a module that is
generated without overrides, the code refers to ids that are noted, and each of these is marked as
missing if no directive is made from its schema, and is bound otherwise, under the name that its
suppliers export. Nothing else is bound but what the directives of the module export. Hence the name
by which the code refers to an id is bound if no directive renames it; if directives do, it is bound
only if something else that the module exports or refers to has that name. -/
theorem references_bound_under_supplier_names {overrides : Overrides} {module : GeneratedModule}
    (prepared : ofPlan workingDir table plan isBefore = .ok generator)
    (known : plan.overrides = .known overrides) (silent : overrides.Silent)
    (made : (generator.generate path).result = .ok module) :
    ∃ directives refs, Table.get? generator.modules path = some directives ∧
      (generator.generateSections path directives).result = .ok (module.sections, refs) ∧
      (∀ part ∈ module.sections, ∀ found ∈ part.references, found.1 ∈ refs) ∧
      (∀ ref ∈ refs,
        (.missing ref ∈ module.imports ↔ suppliers generator.modules directives ref = []) ∧
        (∀ supplier ∈ suppliers generator.modules directives ref, supplier.source = .str ref ∧
          ∃ name ∈ boundNames directives module.imports, supplier.identifier? = some name) ∧
        (.missing ref ∉ module.imports →
          (∀ entry ∈ generator.modules, ∀ directive ∈ entry.2,
            directive.source = .str ref → directive.target = .str ref) →
          Name.identifier ref ∈ boundNames directives module.imports)) ∧
      ∀ name, name ∈ boundNames directives module.imports ↔
        (∃ directive ∈ directives, directive.identifier? = some name) ∨
        ∃ ref ∈ refs, ∃ supplier ∈ suppliers generator.modules directives ref,
          supplier.identifier? = some name := by
  obtain ⟨directives, refs, found, parts, imported⟩ := generate_eq_ok.mp made
  have isKnown : generator.overrides = .known overrides := by
    obtain ⟨_, _, set⟩ := except_bind_eq_ok.mp prepared
    obtain ⟨_, _, set⟩ := except_bind_eq_ok.mp set
    rw [← Except.ok.inj set]
    exact known
  refine ⟨directives, refs, found, parts, generateSections_refs isKnown silent parts,
    fun ref refers => ?_, fun name => mem_boundNames prepared parts imported⟩
  have marked := missing_iff prepared imported refers
  have bound : ∀ supplier ∈ suppliers generator.modules directives ref,
      ∃ name ∈ boundNames directives module.imports, supplier.identifier? = some name :=
    fun supplier supplies => supplier_bound prepared parts imported refers supplies
  refine ⟨marked, fun supplier supplies => ⟨source_of_supplier supplies, bound supplier supplies⟩,
    fun present kept => ?_⟩
  obtain ⟨supplier, supplies⟩ := List.exists_mem_of_ne_nil _ fun none => present (marked.mpr none)
  obtain ⟨entry, listed, inside⟩ := listed_of_supplier (Table.mem_of_get? found) supplies
  have isTarget := kept entry listed supplier inside (source_of_supplier supplies)
  obtain ⟨name, isBound, isName⟩ := bound supplier supplies
  rw [Directive.identifier?, isTarget] at isName
  cases isName
  exact isBound

/-- A definition that refers to itself. -/
def befriended : Definitions :=
  let info : Info := ⟨"", .null, .null, false, none, []⟩
  [("User", .object info [("friend", .reference info (.str (Reference.ofId "User")))]
    [.str "friend"] .unstated [])]

/-- A plan that exports the definition under its own id and, from another module, under a second
id. -/
def renamingPlan : Plan where
  method := .custom
  modules := .table [("./User.ts", [.generate (.str "User") .null {} .null]),
    ("./PublicUser.ts", [.generate (.str "PublicUser") (.str "User") {} .null])]

theorem renaming_module :
    ∃ generator directives module,
      ofPlan [] befriended renamingPlan (fun _ _ => .ok true) = .ok generator ∧
      Table.get? generator.modules "./PublicUser.ts" = some directives ∧
      (generator.generate "./PublicUser.ts").result = .ok module ∧
      module.sections.flatMap Section.references = [("User", false)] ∧ module.imports = [] ∧
      boundNames directives module.imports = ["PublicUser"] := by
  have seen : (do
      let generator ← (ofPlan [] befriended renamingPlan fun _ _ => .ok true).toOption
      let directives ← Table.get? generator.modules "./PublicUser.ts"
      let module ← (generator.generate "./PublicUser.ts").result.toOption
      return (module.sections.flatMap Section.references, module.imports,
        boundNames directives module.imports) : Option _) =
      some ([("User", false)], [], ["PublicUser"]) := by
    decide +kernel
  obtain ⟨generator, prepared, seen⟩ := Option.bind_eq_some_iff.mp seen
  obtain ⟨directives, found, seen⟩ := Option.bind_eq_some_iff.mp seen
  obtain ⟨module, made, seen⟩ := Option.bind_eq_some_iff.mp seen
  obtain ⟨references, isImports, names⟩ := by simpa using Option.some.inj seen
  exact ⟨generator, directives, module, eq_ok_of_toOption prepared, found, eq_ok_of_toOption made,
    references, isImports, names⟩

theorem references_bound_under_supplier_names_renaming :
    ∃ generator module,
      ofPlan [] befriended renamingPlan (fun _ _ => .ok true) = .ok generator ∧
      (generator.generate "./PublicUser.ts").result = .ok module ∧
      ∃ directives, suppliers generator.modules directives "User" ≠ [] ∧
        ∀ supplier ∈ suppliers generator.modules directives "User",
          supplier.source = .str "User" ∧
            ∃ name ∈ boundNames directives module.imports, supplier.identifier? = some name := by
  obtain ⟨generator, _, module, prepared, _, made, references, isImports, _⟩ := renaming_module
  obtain ⟨directives, refs, _, _, noted, bound, _⟩ :=
    references_bound_under_supplier_names prepared rfl ⟨rfl, rfl, rfl, rfl, rfl⟩ made
  have refers : "User" ∈ refs := by
    have inside : ("User", false) ∈ module.sections.flatMap Section.references := by
      rw [references]
      exact List.mem_cons_self
    obtain ⟨part, isPart, inside⟩ := List.mem_flatMap.mp inside
    exact noted part isPart _ inside
  obtain ⟨marked, supplied, _⟩ := bound "User" refers
  refine ⟨generator, module, prepared, made, directives, fun none => ?_, supplied⟩
  have mark := marked.mpr none
  rw [isImports] at mark
  cases mark

/-- A module that exports a definition under a second id and refers to it does not bind the name that
it refers to, and does not mark it as missing. -/
theorem renamed_definition_unbound :
    ∃ generator directives module,
      ofPlan [] befriended renamingPlan (fun _ _ => .ok true) = .ok generator ∧
      Table.get? generator.modules "./PublicUser.ts" = some directives ∧
      (generator.generate "./PublicUser.ts").result = .ok module ∧
      ("User", false) ∈ module.sections.flatMap Section.references ∧
      .missing "User" ∉ module.imports ∧
      Name.identifier "User" ∉ boundNames directives module.imports := by
  obtain ⟨generator, directives, module, prepared, found, made, references, isImports, names⟩ :=
    renaming_module
  refine ⟨generator, directives, module, prepared, found, made, ?_, ?_, ?_⟩
  · rw [references]
    exact List.mem_cons_self
  · rw [isImports]
    exact List.not_mem_nil
  · rw [names]
    decide +kernel

end Generator

end SchemaPress
