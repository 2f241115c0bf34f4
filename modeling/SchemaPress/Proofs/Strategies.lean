import SchemaPress.Proofs.BundleOrder
import SchemaPress.Proofs.PlainPlans
import SchemaPress.Proofs.SeparateModules

/-! The two ways to compile a whole document, in one bundle or with a module for each definition,
under plans that say nothing else. They need the same of a document, and differ in the text of
definitions on cycles only: the order of declarations decides which references are deferred, and it
puts first what a definition off all cycles refers to. -/

namespace SchemaPress

/-- In an order, a definition does not stand before another, although both are in it. -/
def isLate (order : List OrderEntry) (id target : String) : Bool :=
  let ids := order.map OrderEntry.id
  !decide (target ∈ ids → id ∈ ids → ids.idxOf target < ids.idxOf id)

theorem standsBefore_order (order : List OrderEntry) (target id : String) :
    standsBefore (order.map OrderEntry.id) (.str target) (.str id) =
      .ok (!isLate order id target) := by
  rw [standsBefore_str, isLate, Bool.not_not]

/-- Without an order, nothing is late. -/
theorem isLate_nil (id target : String) : isLate [] id target = false := by
  simp [isLate]

theorem nothing_late (target id : String) :
    (.ok true : Except Failure Bool) = .ok (!isLate [] id target) := by
  rw [isLate_nil]
  rfl

/-- What a definition off all cycles depends on is not late for it. -/
theorem isLate_eq_false {table : Definitions} {order : List OrderEntry} {id target : String}
    (ordered : table.order = .ok order) (straight : ¬ table.Reaches id id)
    (depends : table.DependsOn id target) : isLate order id target = false := by
  rw [isLate, Bool.not_eq_false', decide_eq_true_eq]
  intro known _
  have defined := ((Definitions.order_ids ordered).2 target).mp known
  exact Definitions.order_before ordered depends defined
    fun back => straight (.head depends back)

namespace Compiler

variable {workingDir : List String} {document : Document} {settings : Settings}
  {formatter : Option Formatter} {shell : Shell} {bundleName barrel : Json}

theorem new_unformatted {plan : Plan} (unformatted : settings.format.enabled.isTruthy = false) :
    (new workingDir document plan settings none shell).formatting.formatter = .plain := by
  show Formatter.ofSettings settings.format = .plain
  rw [Formatter.ofSettings, unformatted]
  rfl

theorem Bundle.generator_plain
    (bundle : (new workingDir document (.plain .bundled bundleName barrel) settings formatter
      shell).Bundle) :
    bundle.generator = .ofOrder workingDir document.schemas bundle.order
      fun id => standsBefore (bundle.order.map OrderEntry.id) (.str id) := by
  have planned := (Plan.resolve_plain_bundled bundleName barrel _ _).symm.trans bundle.resolved
  have prepared := bundle.prepared
  rw [← Except.ok.inj planned,
    Generator.ofPlan_plain (Definitions.order_ids bundle.ordered).1] at prepared
  exact (Except.ok.inj prepared).symm

theorem Bundle.paths_plain
    (bundle : (new workingDir document (.plain .bundled bundleName barrel) settings formatter
      shell).Bundle) :
    Table.keys bundle.modules = (bundle.order.map OrderEntry.id).map modulePath ∧
      (Table.keys bundle.modules).Nodup := by
  have paths : Table.keys bundle.modules = (bundle.order.map OrderEntry.id).map modulePath := by
    rw [bundle.paths, bundle.generator_plain]
    exact Plan.keys_bundledTable [] bundle.order
  refine ⟨paths, ?_⟩
  rw [paths]
  exact List.Nodup.map modulePath_injective (Definitions.order_ids bundle.ordered).1

theorem unflagged_distinct (distinct : (Table.keys document.schemas).Nodup) :
    (((Table.keys document.schemas).map OrderEntry.unflagged).map OrderEntry.id).Nodup := by
  rw [OrderEntry.ids_unflagged]
  exact distinct

theorem Separate.generator_plain (distinct : (Table.keys document.schemas).Nodup)
    (separate : (new workingDir document (.plain .oneToOne bundleName barrel) settings formatter
      shell).Separate) :
    separate.generator = .ofOrder workingDir document.schemas
      ((Table.keys document.schemas).map .unflagged) fun _ _ => .ok true := by
  have planned := (Plan.resolve_plain_oneToOne bundleName barrel _ _).symm.trans separate.resolved
  have prepared := separate.prepared
  rw [← Except.ok.inj planned] at prepared
  exact Except.ok.inj (prepared.symm.trans (Generator.ofPlan_plain (unflagged_distinct distinct)))

theorem Separate.paths_plain (distinct : (Table.keys document.schemas).Nodup)
    (separate : (new workingDir document (.plain .oneToOne bundleName barrel) settings formatter
      shell).Separate) :
    Table.keys separate.modules = (Table.keys document.schemas).map modulePath ∧
      (Table.keys separate.modules).Nodup := by
  have paths : Table.keys separate.modules = (Table.keys document.schemas).map modulePath := by
    rw [separate.paths, separate.generator_plain distinct]
    show Table.keys (Plan.bundledTable [] _) = _
    rw [Plan.keys_bundledTable, OrderEntry.ids_unflagged]
  refine ⟨paths, ?_⟩
  rw [paths]
  exact List.Nodup.map modulePath_injective distinct

/-- A bundle that is not formatted compiles if and only if every definition has code. -/
theorem bundle_compiles_iff (distinct : (Table.keys document.schemas).Nodup)
    (unformatted : settings.format.enabled.isTruthy = false) :
    (∃ outputs, (compile.run (new workingDir document (.plain .bundled bundleName barrel) settings
      none shell)).1.result = .ok outputs) ↔
      ∀ id ∈ Table.keys document.schemas, document.schemas.HasCode id := by
  constructor
  · rintro ⟨outputs, compiled⟩ id defined
    obtain ⟨bundle, _⟩ := compile_bundle new_remembers rfl compiled
    obtain ⟨distinct, members⟩ := Definitions.order_ids bundle.ordered
    obtain ⟨entry, member, rfl⟩ := List.mem_map.mp ((members id).mpr defined)
    obtain ⟨module, inside⟩ := bundle.module_of_entry rfl member
    have generated := bundle.generated _ inside
    rw [bundle.generator_plain] at generated
    exact (Generator.exists_generate_ofOrder (standsBefore_order bundle.order) distinct
      member).mp ⟨module, generated⟩
  · intro each
    have known : ∀ entry ∈ document.schemas, ∃ targets, entry.2.dependencies = .ok targets := by
      rintro ⟨id, schema⟩ inside
      obtain ⟨own, result, _, found, generated, _⟩ := each id (Table.mem_keys_of_mem inside)
      rw [Table.get?_of_mem distinct inside] at found
      cases found
      exact (schema.generate_refers ⟨rfl, rfl, rfl, rfl, rfl⟩ result generated).2
    obtain ⟨order, ordered⟩ := Definitions.order_ok known
    obtain ⟨orderDistinct, members⟩ := Definitions.order_ids ordered
    have made : ∀ path ∈ Table.keys (Plan.bundledTable [] order), ∃ module,
        ((Generator.ofOrder workingDir document.schemas order
          fun id => standsBefore (order.map OrderEntry.id) (.str id)).generate path).result =
            .ok module := by
      intro path listed
      obtain ⟨entry, member, rfl⟩ := Plan.entry_of_path listed
      refine (Generator.exists_generate_ofOrder (standsBefore_order order) orderDistinct
        member).mpr (each entry.id ?_)
      exact (members entry.id).mp (List.mem_map_of_mem member)
    obtain ⟨modules, paths, generated⟩ := Table.exists_of_keys made
    let bundle : (new workingDir document (.plain .bundled bundleName barrel) settings none
        shell).Bundle :=
      ⟨order, _, _, modules, ordered, Plan.resolve_plain_bundled bundleName barrel _ _,
        Generator.ofPlan_plain orderDistinct, paths, generated⟩
    exact ⟨_, (compile_eq_ok_iff new_remembers rfl).mpr
      ⟨bundle, (bundle.prints_plain (new_unformatted unformatted)).mpr rfl⟩⟩

theorem Separate.module_of_definition (distinct : (Table.keys document.schemas).Nodup)
    (separate : (new workingDir document (.plain .oneToOne bundleName barrel) settings formatter
      shell).Separate) {id : String} (defined : id ∈ Table.keys document.schemas) :
    ∃ module, (modulePath id, module) ∈ separate.modules := by
  have listed : modulePath id ∈ Table.keys separate.modules := by
    rw [(separate.paths_plain distinct).1]
    exact List.mem_map_of_mem defined
  obtain ⟨⟨_, module⟩, inside, rfl⟩ := List.mem_map.mp listed
  exact ⟨module, inside⟩

/-- Compiling a module for each definition, without formatting, always succeeds, and notes no failure
if and only if every definition has code. -/
theorem separate_complete_iff (distinct : (Table.keys document.schemas).Nodup)
    (unformatted : settings.format.enabled.isTruthy = false) :
    (∃ outputs, (compile.run (new workingDir document (.plain .oneToOne bundleName barrel) settings
      none shell)).1.result = .ok outputs) ∧
      ((compile.run (new workingDir document (.plain .oneToOne bundleName barrel) settings
        none shell)).2.failures = [] ↔
        ∀ id ∈ Table.keys document.schemas, document.schemas.HasCode id) := by
  have entriesDistinct := unflagged_distinct distinct
  have plain : (new workingDir document (.plain .oneToOne bundleName barrel) settings none
      shell).formatting.formatter = .plain := new_unformatted unformatted
  have separate : (new workingDir document (.plain .oneToOne bundleName barrel) settings none
      shell).plan.method ≠ .bundled := (nofun : Method.oneToOne ≠ .bundled)
  obtain ⟨⟨outputs, compiled⟩, complete⟩ := compile_unformatted separate plain
    (Plan.resolve_plain_oneToOne bundleName barrel _ _) (Generator.ofPlan_plain entriesDistinct)
  refine ⟨⟨outputs, compiled⟩, ?_, fun each => complete ?_⟩
  · intro none id defined
    obtain ⟨separate, _⟩ := compile_separate separate compiled none
    obtain ⟨module, inside⟩ := separate.module_of_definition distinct defined
    have generated := separate.generated _ inside
    rw [separate.generator_plain distinct] at generated
    exact (Generator.exists_generate_ofOrder nothing_late entriesDistinct
      (List.mem_map_of_mem defined)).mp ⟨module, generated⟩
  · intro path listed
    obtain ⟨entry, member, rfl⟩ := Plan.entry_of_path listed
    obtain ⟨id, defined, rfl⟩ := List.mem_map.mp member
    exact (Generator.exists_generate_ofOrder nothing_late entriesDistinct member).mpr
      (each id defined)

/-- The strategies agree on which documents compile, each of which defines an id once. Under plans
that say nothing else, and without formatting, a bundle compiles if and only if compiling a module
for each definition, which always comes to its end, notes no failure. -/
theorem strategies_agree_on_success (distinct : (Table.keys document.schemas).Nodup)
    (unformatted : settings.format.enabled.isTruthy = false) :
    (∃ outputs, (compile.run (new workingDir document (.plain .oneToOne bundleName barrel) settings
      none shell)).1.result = .ok outputs) ∧
      ((∃ outputs, (compile.run (new workingDir document (.plain .bundled bundleName barrel) settings
        none shell)).1.result = .ok outputs) ↔
        (compile.run (new workingDir document (.plain .oneToOne bundleName barrel) settings
          none shell)).2.failures = []) := by
  obtain ⟨ends, complete⟩ := separate_complete_iff distinct unformatted
  exact ⟨ends, (bundle_compiles_iff distinct unformatted).trans complete.symm⟩

/-- The compiler for a document with a plain plan and nothing else set. -/
abbrev plainly (method : Method) (document : Document) : Compiler :=
  new [] document (.plain method (.str "bundle") (.bool false)) {} none {}

/-- A document with a definition that has no code. -/
def faultyDocument : Document :=
  ⟨"Faulty", "1", [("A", Definitions.linking ["B"]),
    ("B", .unsupported ⟨"", .null, .null, false, none, []⟩ "not")]⟩

theorem entwined_complete : (compile.run (plainly .oneToOne entwinedDocument)).2.failures = [] :=
  List.isEmpty_iff.mp (by decide +kernel)

theorem strategies_agree_on_success_entwined :
    (∃ outputs, (compile.run (plainly .bundled entwinedDocument)).1.result = .ok outputs) ∧
      (compile.run (plainly .oneToOne entwinedDocument)).2.failures = [] ∧
      (¬ ∃ outputs, (compile.run (plainly .bundled faultyDocument)).1.result = .ok outputs) ∧
      (compile.run (plainly .oneToOne faultyDocument)).2.failures ≠ [] := by
  have failed : (compile.run (plainly .oneToOne faultyDocument)).2.failures ≠ [] :=
    fun none => absurd (List.isEmpty_iff.mpr none) (by decide +kernel)
  have agree : ∀ document : Document, (Table.keys document.schemas).Nodup →
      ((∃ outputs, (compile.run (plainly .bundled document)).1.result = .ok outputs) ↔
        (compile.run (plainly .oneToOne document)).2.failures = []) :=
    fun _ distinct => (strategies_agree_on_success distinct rfl).2
  exact ⟨(agree entwinedDocument (by decide)).mpr entwined_complete, entwined_complete,
    fun compiles => failed ((agree faultyDocument (by decide)).mp compiles), failed⟩

/-- The texts of the sections in the module of a definition. -/
def sectionTextsOf (modules : Table GeneratedModule) (id : String) : List String :=
  ((Table.get? modules (modulePath id)).map GeneratedModule.sectionTexts).getD []

theorem sectionTextsOf_of_mem {modules : Table GeneratedModule} {id : String}
    {module : GeneratedModule} (distinct : (Table.keys modules).Nodup)
    (inside : (modulePath id, module) ∈ modules) :
    sectionTextsOf modules id = module.sectionTexts := by
  rw [sectionTextsOf, Table.get?_of_mem distinct inside]
  rfl

/-- Code that is generated for a definition off all cycles is the same under the order of the
definitions as without an order. -/
theorem generate_straight {order : List OrderEntry} {id : String} {schema : Schema}
    {result plain : Generated} (ordered : document.schemas.order = .ok order)
    (straight : ¬ document.schemas.Reaches id id) (held : (id, schema) ∈ document.schemas)
    (generated : (schema.generate
      (({ table := document.schemas } : Context).orderedBy (isLate order id))).result = .ok result)
    (isPlain : (schema.generate
      (({ table := document.schemas } : Context).orderedBy (isLate [] id))).result = .ok plain) :
    result = plain := by
  have defers : schema.Defers { table := document.schemas } (isLate order id) (isLate [] id) :=
    schema.generate_defers
  have deferred : result = plain.defer (isLate order id) := by
    rw [Schema.Defers, generated, isPlain] at defers
    exact Except.ok.inj defers
  have fits : Fitting (isLate order id) plain.code.references := by
    intro found member
    obtain ⟨seen, depends⟩ := schema.generate_traceable plain isPlain found member
    obtain ⟨_, computed, _⟩ := Definitions.order_eq_ok ordered
    obtain ⟨targets, known⟩ := Definitions.dependencies_of_addDependents computed held
    have depends : document.schemas.DependsOn id found.1 :=
      ⟨schema, targets, held, known, depends targets known⟩
    have bare : isLate [] id found.1 = found.2 := Bool.not_inj_iff.mp (Except.ok.inj seen)
    rw [← bare, isLate_nil, isLate_eq_false ordered straight depends]
  rw [deferred, Generated.defer, plain.code.defer_of_fitting fits]

/-- The section of a definition off all cycles has the same text in a bundle and in a module of its
own. -/
theorem section_texts_agree (distinct : (Table.keys document.schemas).Nodup)
    (bundle : (new workingDir document (.plain .bundled bundleName barrel) settings formatter
      shell).Bundle)
    (separate : (new workingDir document (.plain .oneToOne bundleName barrel) settings formatter
      shell).Separate)
    {entry : OrderEntry} (member : entry ∈ bundle.order) (straight : entry.circular = false) :
    ∃ text, sectionTextsOf bundle.modules entry.id = [text] ∧
      sectionTextsOf separate.modules entry.id = [text] := by
  obtain ⟨orderDistinct, members⟩ := Definitions.order_ids bundle.ordered
  have defined : entry.id ∈ Table.keys document.schemas :=
    (members entry.id).mp (List.mem_map_of_mem member)
  have acyclic : ¬ document.schemas.Reaches entry.id entry.id := by
    intro cycle
    have flagged := (Definitions.order_circular bundle.ordered member).mpr cycle
    rw [straight] at flagged
    cases flagged
  obtain ⟨module, inside⟩ := bundle.module_of_entry rfl member
  obtain ⟨other, insideOther⟩ := separate.module_of_definition distinct defined
  have texts := sectionTextsOf_of_mem bundle.paths_plain.2 inside
  have textsOther := sectionTextsOf_of_mem (separate.paths_plain distinct).2 insideOther
  have generated := bundle.generated _ inside
  rw [bundle.generator_plain, Generator.generate_ofOrder (standsBefore_order bundle.order)
    orderDistinct member] at generated
  obtain ⟨schema, result, comments, found, generated, isComments, isSections, _⟩ := generated
  have generatedOther := separate.generated _ insideOther
  rw [separate.generator_plain distinct] at generatedOther
  obtain ⟨_, plain, _, foundOther, isPlain, isCommentsOther, isSectionsOther, _⟩ :=
    (Generator.generate_ofOrder nothing_late (unflagged_distinct distinct)
      (List.mem_map_of_mem defined)).mp generatedOther
  cases found.symm.trans foundOther
  obtain rfl := generate_straight bundle.ordered acyclic (Table.mem_of_get? found) generated isPlain
  cases isComments.symm.trans isCommentsOther
  rw [texts, textsOther, GeneratedModule.sectionTexts, GeneratedModule.sectionTexts, isSections,
    isSectionsOther]
  obtain ⟨id, circular⟩ := entry
  cases straight
  exact ⟨_, rfl, rfl⟩

/-- The section texts of a bundle are those of its modules, in the order of the definitions. -/
theorem Bundle.texts_plain
    (bundle : (new workingDir document (.plain .bundled bundleName barrel) settings formatter
      shell).Bundle) :
    bundle.sections.map Section.render =
      (bundle.order.map OrderEntry.id).flatMap (sectionTextsOf bundle.modules) := by
  obtain ⟨paths, distinct⟩ := bundle.paths_plain
  rw [Bundle.sections, List.map_flatMap]
  exact Table.flatMap_of_keys GeneratedModule.sectionTexts paths
    fun id _ module inside => (sectionTextsOf_of_mem distinct inside).symm

/-- The strategies agree on the text of every definition off all cycles. If both ways to compile a
document succeed, the bundle has the section of each definition in their order, and the section of a
definition that is not flagged is the same text as in the module of the definition. Hence, if no
definition depends on itself, the sections of the bundle are those of the modules. -/
theorem strategies_agree_off_cycles {bundled separated : Table String}
    (distinct : (Table.keys document.schemas).Nodup)
    (compiledBundle : (compile.run (new workingDir document (.plain .bundled bundleName barrel)
      settings formatter shell)).1.result = .ok bundled)
    (compiled : (compile.run (new workingDir document (.plain .oneToOne bundleName barrel)
      settings formatter shell)).1.result = .ok separated)
    (complete : (compile.run (new workingDir document (.plain .oneToOne bundleName barrel)
      settings formatter shell)).2.failures = []) :
    ∃ (bundle : (new workingDir document (.plain .bundled bundleName barrel) settings formatter
        shell).Bundle)
      (separate : (new workingDir document (.plain .oneToOne bundleName barrel) settings formatter
        shell).Separate),
      bundle.Prints bundled ∧ separate.Prints separated ∧
      bundle.sections.map Section.render =
        (bundle.order.map OrderEntry.id).flatMap (sectionTextsOf bundle.modules) ∧
      (∀ entry ∈ bundle.order, entry.circular = false →
        ∃ text, sectionTextsOf bundle.modules entry.id = [text] ∧
          sectionTextsOf separate.modules entry.id = [text]) ∧
      ((∀ id, ¬ document.schemas.Reaches id id) →
        bundle.sections.map Section.render =
          (bundle.order.map OrderEntry.id).flatMap (sectionTextsOf separate.modules)) := by
  obtain ⟨bundle, prints⟩ := compile_bundle new_remembers rfl compiledBundle
  obtain ⟨separate, printsOther⟩ :=
    compile_separate (nofun : Method.oneToOne ≠ .bundled) compiled complete
  have agree := fun entry (member : entry ∈ bundle.order) =>
    section_texts_agree distinct bundle separate member
  refine ⟨bundle, separate, prints, printsOther, bundle.texts_plain, agree, fun acyclic => ?_⟩
  rw [bundle.texts_plain]
  refine List.flatMap_congr fun id inside => ?_
  obtain ⟨entry, member, rfl⟩ := List.mem_map.mp inside
  have straight : entry.circular = false := by
    rw [← Bool.not_eq_true, Definitions.order_circular bundle.ordered member]
    exact acyclic entry.id
  obtain ⟨text, texts, textsOther⟩ := agree entry member straight
  rw [texts, textsOther]

theorem strategies_agree_off_cycles_entwined :
    ∃ (bundled separated : Table String)
      (bundle : (plainly .bundled entwinedDocument).Bundle)
      (separate : (plainly .oneToOne entwinedDocument).Separate),
      bundle.Prints bundled ∧ separate.Prints separated ∧
        ⟨"A", false⟩ ∈ bundle.order ∧ Definitions.entwined.DependsOn "A" "B" ∧
        Definitions.entwined.Reaches "B" "B" ∧
        ∃ text, sectionTextsOf bundle.modules "A" = [text] ∧
          sectionTextsOf separate.modules "A" = [text] := by
  obtain ⟨bundled, compiledBundle⟩ :
      ∃ outputs, (compile.run (plainly .bundled entwinedDocument)).1.result = .ok outputs :=
    exists_of_isOk (by decide +kernel)
  obtain ⟨separated, compiled⟩ :
      ∃ outputs, (compile.run (plainly .oneToOne entwinedDocument)).1.result = .ok outputs :=
    exists_of_isOk (by decide +kernel)
  have anywhere : ∀ document : Document, (Table.keys document.schemas).Nodup →
      (compile.run (plainly .bundled document)).1.result = .ok bundled →
      (compile.run (plainly .oneToOne document)).1.result = .ok separated →
      (compile.run (plainly .oneToOne document)).2.failures = [] →
      ∃ (bundle : (plainly .bundled document).Bundle)
        (separate : (plainly .oneToOne document).Separate),
        bundle.Prints bundled ∧ separate.Prints separated ∧
        ∀ entry ∈ bundle.order, entry.circular = false →
          ∃ text, sectionTextsOf bundle.modules entry.id = [text] ∧
            sectionTextsOf separate.modules entry.id = [text] := by
    intro document distinct compiledBundle compiled complete
    obtain ⟨bundle, separate, prints, printsOther, _, agree, _⟩ :=
      strategies_agree_off_cycles distinct compiledBundle compiled complete
    exact ⟨bundle, separate, prints, printsOther, agree⟩
  obtain ⟨bundle, separate, prints, printsOther, agree⟩ :=
    anywhere entwinedDocument (by decide) compiledBundle compiled entwined_complete
  have ordered : bundle.order = [⟨"D", false⟩, ⟨"B", true⟩, ⟨"C", true⟩, ⟨"A", false⟩] :=
    Except.ok.inj (bundle.ordered.symm.trans Definitions.entwined_order)
  have last : ⟨"A", false⟩ ∈ bundle.order := by simp [ordered]
  have flagged : ⟨"B", true⟩ ∈ bundle.order := by simp [ordered]
  refine ⟨bundled, separated, bundle, separate, prints, printsOther, last, ?_, ?_,
    agree ⟨"A", false⟩ last rfl⟩
  · exact ⟨Definitions.linking ["B", "X"], ["B", "X"], by simp [Definitions.entwined],
      eq_ok_of_toOption (by decide +kernel), by decide⟩
  · exact (Definitions.order_circular bundle.ordered flagged).mp rfl

end Compiler

end SchemaPress
