import Mathlib.Data.List.Nodup
import SchemaPress.Compile
import SchemaPress.Proofs.GeneratedSections
import SchemaPress.Proofs.OrderSearch
import SchemaPress.Proofs.ResolvedPlans

/-! Bundles. What compiling a bundle prints is the text of modules that are made without a state:
support modules first, and after them a module with one section for every definition, in the order
of the definitions. -/

namespace SchemaPress

theorem standsBefore_str (ids : List String) (first second : String) :
    standsBefore ids (.str first) (.str second) =
      .ok (decide (first ∈ ids → second ∈ ids → ids.idxOf first < ids.idxOf second)) := by
  have position : ∀ id, positionIn ids (.str id) = .ok (ids.idxOf? id) := fun _ => rfl
  unfold standsBefore
  rw [position, position]
  show Except.ok _ = _
  cases here : ids.idxOf? first with
  | none => simp [List.idxOf?_eq_none_iff.mp here]
  | some start =>
    cases there : ids.idxOf? second with
    | none => simp [List.idxOf?_eq_none_iff.mp there]
    | some other =>
      have isFirst : first ∈ ids := List.isSome_idxOf?.mp (by rw [here]; rfl)
      have isSecond : second ∈ ids := List.isSome_idxOf?.mp (by rw [there]; rfl)
      simp [List.idxOf_eq_getD_idxOf?, here, there, isFirst, isSecond]

/-- The plain formatter leaves code as it is. -/
theorem Formatting.format_plain {formatting after : Formatting} {code text : String}
    {settings : FormatSettings} (plain : formatting.formatter = .plain) :
    (format code settings).Yields formatting text after ↔ code = text ∧ formatting = after := by
  constructor
  · intro done
    obtain ⟨_, _, read, done⟩ := Action.yields_bind.mp done
    obtain ⟨rfl, rfl⟩ := Action.yields_get.mp read
    rw [plain] at done
    exact Action.yields_pure.mp done
  · intro done
    refine Action.yields_bind.mpr ⟨_, _, Action.yields_get.mpr ⟨rfl, rfl⟩, ?_⟩
    rw [plain]
    exact Action.yields_pure.mpr done

namespace Compiler

variable {compiler after : Compiler} {plan : Plan} {generator : Generator}

/-- What a bundle is made from: the order of the definitions, the plan that has their modules in
that order, and all modules of that plan by path, as they are generated. -/
structure Bundle (compiler : Compiler) where
  order : List OrderEntry
  plan : Plan
  generator : Generator
  modules : Table GeneratedModule
  ordered : compiler.document.schemas.order = .ok order
  resolved : compiler.plan.resolve (Table.keys compiler.document.schemas) order = .ok plan
  prepared : Generator.ofPlan compiler.workingDir compiler.document.schemas plan
    (fun id => standsBefore (order.map OrderEntry.id) (.str id)) = .ok generator
  paths : Table.keys modules = Table.keys generator.modules
  generated : ∀ entry ∈ modules, (generator.generate entry.1).result = .ok entry.2

/-- The sections of a bundle, in the order of its text. -/
def Bundle.sections (bundle : compiler.Bundle) : List Section :=
  bundle.modules.flatMap fun entry => entry.2.sections

/-- What stands in the module of a definition. -/
def Bundle.SectionOf (bundle : compiler.Bundle) (id : String) (item : Export) : Prop :=
  ∃ module, (modulePath id, module) ∈ bundle.modules ∧ .definition item ∈ module.sections

theorem Bundle.SectionOf.mem_sections {bundle : compiler.Bundle} {id : String} {item : Export}
    (own : bundle.SectionOf id item) : .definition item ∈ bundle.sections := by
  obtain ⟨module, inside, part⟩ := own
  exact List.mem_flatMap.mpr ⟨_, inside, part⟩

/-- The marks for what is missing in a bundle. -/
def Bundle.marks (bundle : compiler.Bundle) : List String :=
  let imports := bundle.modules.flatMap fun entry => entry.2.imports
  Text.unique ((imports.filter fun item => item.kind = .missing).map Import.render)

/-- An output is the text of a bundle, as the compiler formats it. -/
def Bundle.Prints (bundle : compiler.Bundle) (outputs : Table String) : Prop :=
  ∃ text formatting,
    (Formatting.format
      (ModuleText.render (some compiler.header) bundle.marks (bundle.sections.map Section.render))
      compiler.settings.format).Yields compiler.formatting text formatting ∧
    outputs = [(modulePath bundle.plan.bundleName.display, text)]

theorem Bundle.prints_plain {outputs : Table String} (bundle : compiler.Bundle)
    (plain : compiler.formatting.formatter = .plain) :
    bundle.Prints outputs ↔ outputs = [(modulePath bundle.plan.bundleName.display,
      ModuleText.render (some compiler.header) bundle.marks
        (bundle.sections.map Section.render))] := by
  constructor
  · rintro ⟨text, formatting, formatted, rfl⟩
    rw [((Formatting.format_plain plain).mp formatted).1]
  · rintro rfl
    exact ⟨_, _, (Formatting.format_plain plain).mpr ⟨rfl, rfl⟩, rfl⟩

theorem Bundle.each_generated (bundle : compiler.Bundle) :
    List.Forall₂ (fun path module => (bundle.generator.generate path).result = .ok module)
      (Table.keys bundle.generator.modules) (Table.values bundle.modules) :=
  Table.forall₂_iff.mpr ⟨bundle.modules, bundle.paths, rfl, bundle.generated⟩

/-- If a compiler remembers an order, it is the order of its document. -/
def Remembers (compiler : Compiler) : Prop :=
  ∀ order, compiler.order? = some order → compiler.document.schemas.order = .ok order

theorem new_remembers {workingDir : List String} {document : Document} {plan : Plan}
    {settings : Settings} {formatter : Option Formatter} {shell : Shell} :
    (new workingDir document plan settings formatter shell).Remembers :=
  fun _ known => nomatch known

theorem remembers_order {order : List OrderEntry}
    (ordered : compiler.document.schemas.order = .ok order) :
    Remembers { compiler with order? := some order } := by
  rintro _ ⟨⟩
  exact ordered

/-- The order that a compiler yields is that of its document, which it remembers from then on. -/
theorem order_yields {entries : List OrderEntry} (remembers : compiler.Remembers) :
    order.Yields compiler entries after ↔
      compiler.document.schemas.order = .ok entries ∧
        after = { compiler with order? := some entries } := by
  constructor
  · intro done
    obtain ⟨_, _, read, done⟩ := Action.yields_bind.mp done
    obtain ⟨rfl, rfl⟩ := Action.yields_get.mp read
    split at done
    · rename_i known isKnown
      obtain ⟨rfl, rfl⟩ := Action.yields_pure.mp done
      exact ⟨remembers known isKnown, by rw [← isKnown]⟩
    · obtain ⟨found, _, sought, done⟩ := Action.yields_bind.mp done
      obtain ⟨computed, rfl⟩ := Action.yields_lift.mp sought
      obtain ⟨_, _, stored, done⟩ := Action.yields_bind.mp done
      obtain rfl := Action.yields_set.mp stored
      obtain ⟨rfl, rfl⟩ := Action.yields_pure.mp done
      exact ⟨computed, rfl⟩
  · rintro ⟨computed, rfl⟩
    refine Action.yields_bind.mpr ⟨_, _, Action.yields_get.mpr ⟨rfl, rfl⟩, ?_⟩
    split
    · rename_i known isKnown
      have same : known = entries :=
        Except.ok.inj ((remembers known isKnown).symm.trans computed)
      exact Action.yields_pure.mpr ⟨same, by rw [← same, ← isKnown]⟩
    · refine Action.yields_bind.mpr ⟨_, _, Action.yields_lift.mpr ⟨computed, rfl⟩, ?_⟩
      refine Action.yields_bind.mpr ⟨(), _, Action.yields_set.mpr rfl, ?_⟩
      exact Action.yields_pure.mpr ⟨rfl, rfl⟩

theorem orderForMethod_bundled (bundled : compiler.plan.method = .bundled)
    {entries : List OrderEntry} :
    orderForMethod.Yields compiler entries after ↔ order.Yields compiler entries after := by
  constructor
  · intro done
    obtain ⟨_, _, read, done⟩ := Action.yields_bind.mp done
    obtain ⟨rfl, rfl⟩ := Action.yields_get.mp read
    rwa [if_pos bundled] at done
  · intro done
    refine Action.yields_bind.mpr ⟨_, _, Action.yields_get.mpr ⟨rfl, rfl⟩, ?_⟩
    rwa [if_pos bundled]

/-- A plan is resolved for the order that its method asks for. -/
theorem resolvedPlan_yields :
    resolvedPlan.Yields compiler plan after ↔
      ∃ order, orderForMethod.Yields compiler order after ∧
        after.plan.resolve (Table.keys after.document.schemas) order = .ok plan := by
  constructor
  · intro done
    obtain ⟨order, _, found, done⟩ := Action.yields_bind.mp done
    obtain ⟨_, _, read, done⟩ := Action.yields_bind.mp done
    obtain ⟨rfl, rfl⟩ := Action.yields_get.mp read
    obtain ⟨resolved, rfl⟩ := Action.yields_lift.mp done
    exact ⟨order, found, resolved⟩
  · rintro ⟨order, found, resolved⟩
    refine Action.yields_bind.mpr ⟨_, _, found, ?_⟩
    refine Action.yields_bind.mpr ⟨_, _, Action.yields_get.mpr ⟨rfl, rfl⟩, ?_⟩
    exact Action.yields_lift.mpr ⟨resolved, rfl⟩

/-- A generator tells by the order that the method asks for which definition is declared before
which. -/
theorem generator_yields {made : Generator} :
    (Compiler.generator plan).Yields compiler made after ↔
      ∃ order, orderForMethod.Yields compiler order after ∧
        Generator.ofPlan after.workingDir after.document.schemas plan
          (fun id => isBefore after.plan.method order (.str id)) = .ok made := by
  constructor
  · intro done
    obtain ⟨order, _, found, done⟩ := Action.yields_bind.mp done
    obtain ⟨_, _, read, done⟩ := Action.yields_bind.mp done
    obtain ⟨rfl, rfl⟩ := Action.yields_get.mp read
    obtain ⟨prepared, rfl⟩ := Action.yields_lift.mp done
    exact ⟨order, found, prepared⟩
  · rintro ⟨order, found, prepared⟩
    refine Action.yields_bind.mpr ⟨_, _, found, ?_⟩
    refine Action.yields_bind.mpr ⟨_, _, Action.yields_get.mpr ⟨rfl, rfl⟩, ?_⟩
    exact Action.yields_lift.mpr ⟨prepared, rfl⟩

theorem resolvedPlan_bundled (remembers : compiler.Remembers)
    (bundled : compiler.plan.method = .bundled) :
    resolvedPlan.Yields compiler plan after ↔
      ∃ order, compiler.document.schemas.order = .ok order ∧
        compiler.plan.resolve (Table.keys compiler.document.schemas) order = .ok plan ∧
        after = { compiler with order? := some order } := by
  rw [resolvedPlan_yields]
  simp only [orderForMethod_bundled bundled, order_yields remembers]
  constructor
  · rintro ⟨order, ⟨ordered, rfl⟩, resolved⟩
    exact ⟨order, ordered, resolved, rfl⟩
  · rintro ⟨order, ordered, resolved, rfl⟩
    exact ⟨order, ⟨ordered, rfl⟩, resolved⟩

theorem generator_bundled {entries : List OrderEntry} {made : Generator}
    (known : compiler.order? = some entries) (remembers : compiler.Remembers)
    (bundled : compiler.plan.method = .bundled) :
    (Compiler.generator plan).Yields compiler made after ↔
      Generator.ofPlan compiler.workingDir compiler.document.schemas plan
        (fun id => standsBefore (entries.map OrderEntry.id) (.str id)) = .ok made ∧
        after = compiler := by
  have byOrder : (fun id => isBefore compiler.plan.method entries (.str id)) =
      fun id => standsBefore (entries.map OrderEntry.id) (.str id) := by
    funext id other
    rw [isBefore, if_pos bundled]
  have kept : { compiler with order? := some entries } = compiler := by rw [← known]
  rw [generator_yields]
  simp only [orderForMethod_bundled bundled, order_yields remembers]
  constructor
  · rintro ⟨order, ⟨ordered, rfl⟩, prepared⟩
    obtain rfl : entries = order := Except.ok.inj ((remembers entries known).symm.trans ordered)
    exact ⟨byOrder ▸ prepared, kept⟩
  · rintro ⟨prepared, rfl⟩
    exact ⟨entries, ⟨remembers entries known, kept.symm⟩, byOrder ▸ prepared⟩

/-- The modules of a bundle are yielded if and only if each of them is generated. -/
theorem bundleModules_yields {paths : List String} {modules : List GeneratedModule} :
    (bundleModules generator paths).Yields compiler modules after ↔
      List.Forall₂ (fun path module => (generator.generate path).result = .ok module)
        paths modules ∧ after = compiler := by
  induction paths generalizing compiler modules after with
  | nil =>
    constructor
    · intro done
      obtain ⟨rfl, rfl⟩ := Action.yields_pure.mp done
      exact ⟨.nil, rfl⟩
    · rintro ⟨⟨⟩, rfl⟩
      exact Action.yields_pure.mpr ⟨rfl, rfl⟩
  | cons path rest ih =>
    constructor
    · intro done
      obtain ⟨_, _, noted, done⟩ := Action.yields_bind.mp done
      obtain rfl := Action.yields_record.mp noted
      obtain ⟨result, _, attempted, done⟩ := Action.yields_bind.mp done
      obtain ⟨made, rfl⟩ := Action.yields_attempt.mp attempted
      split at done
      · obtain ⟨others, _, later, ended⟩ := Action.yields_bind.mp done
        obtain ⟨each, rfl⟩ := ih.mp later
        obtain ⟨rfl, rfl⟩ := Action.yields_pure.mp ended
        exact ⟨.cons made each, rfl⟩
      · exact absurd done Action.not_yields_throw
    · rintro ⟨each, rfl⟩
      obtain ⟨module, others, made, later, rfl⟩ := List.forall₂_cons_left_iff.mp each
      refine Action.yields_bind.mpr ⟨(), _, Action.yields_record.mpr rfl, ?_⟩
      refine Action.yields_bind.mpr ⟨_, _, Action.yields_attempt.mpr ⟨made, rfl⟩, ?_⟩
      refine Action.yields_bind.mpr ⟨_, _, ih.mpr ⟨later, rfl⟩, ?_⟩
      exact Action.yields_pure.mpr ⟨rfl, rfl⟩

/-- Formatting changes nothing but the state of the formatter. -/
theorem format_yields {code text : String} :
    (format code).Yields compiler text after ↔
      ∃ formatting, (Formatting.format code compiler.settings.format).Yields compiler.formatting
        text formatting ∧ { compiler with formatting } = after := by
  have fails : ∀ (failure : Failure) (state : Compiler), ¬ (do
      if failure.kind = .formatter then
        Action.record .debug
          ("Code rejected by " ++ compiler.formatting.formatter.name ++ ":\n" ++ code)
      throw failure : Action Compiler String).Yields state text after := by
    intro failure state done
    split at done
    · obtain ⟨_, _, _, done⟩ := Action.yields_bind.mp done
      exact Action.not_yields_throw done
    · exact Action.not_yields_throw done
  constructor
  · intro done
    obtain ⟨_, _, read, done⟩ := Action.yields_bind.mp done
    obtain ⟨rfl, rfl⟩ := Action.yields_get.mp read
    exact Action.yields_within.mp ((Action.yields_recover fails).mp done)
  · intro formatted
    refine Action.yields_bind.mpr ⟨_, _, Action.yields_get.mpr ⟨rfl, rfl⟩, ?_⟩
    exact (Action.yields_recover fails).mpr (Action.yields_within.mpr formatted)

/-- Formatting fails as the formatter does; that code was rejected is only logged. -/
theorem format_fails {code : String} {failure : Failure} :
    (format code).Fails compiler failure after ↔
      ∃ formatting, (Formatting.format code compiler.settings.format).Fails compiler.formatting
        failure formatting ∧ { compiler with formatting } = after := by
  have thrown : ∀ (original : Failure) (state : Compiler), (do
      if original.kind = .formatter then
        Action.record .debug
          ("Code rejected by " ++ compiler.formatting.formatter.name ++ ":\n" ++ code)
      throw original : Action Compiler String).Fails state failure after ↔
        original = failure ∧ state = after := by
    intro original state
    split
    · constructor
      · intro failed
        rcases Action.fails_bind.mp failed with noted | ⟨_, _, noted, failed⟩
        · exact absurd noted Action.not_fails_record
        · obtain rfl := Action.yields_record.mp noted
          exact Action.fails_throw.mp failed
      · intro same
        exact Action.fails_bind.mpr
          (.inr ⟨(), _, Action.yields_record.mpr rfl, Action.fails_throw.mpr same⟩)
    · exact Action.fails_throw
  constructor
  · intro failed
    rcases Action.fails_bind.mp failed with read | ⟨_, _, read, failed⟩
    · exact absurd read Action.not_fails_get
    · obtain ⟨rfl, rfl⟩ := Action.yields_get.mp read
      obtain ⟨original, between, inner, handled⟩ := Action.fails_recover.mp failed
      obtain ⟨rfl, rfl⟩ := (thrown original between).mp handled
      exact Action.fails_within.mp inner
  · intro failed
    refine Action.fails_bind.mpr (.inr ⟨_, _, Action.yields_get.mpr ⟨rfl, rfl⟩, ?_⟩)
    exact Action.fails_recover.mpr
      ⟨failure, after, Action.fails_within.mpr failed, (thrown failure after).mpr ⟨rfl, rfl⟩⟩

theorem bundleText_values (header : String) (modules : Table GeneratedModule) :
    bundleText header (Table.values modules) = ModuleText.render (some header)
      (Text.unique (((modules.flatMap fun entry => entry.2.imports).filter fun item =>
        item.kind = .missing).map Import.render))
      ((modules.flatMap fun entry => entry.2.sections).map Section.render) := by
  have sections : GeneratedModule.sectionTexts = fun module => module.sections.map Section.render :=
    rfl
  simp only [bundleText, Table.values, List.flatMap_map, List.map_flatMap, sections]

/-- What is compiled to a bundle is the text of one. -/
theorem bundle_of_yields {outputs : Table String} (remembers : compiler.Remembers)
    (bundled : compiler.plan.method = .bundled)
    (done : compileBundle.Yields compiler outputs after) :
    ∃ bundle : compiler.Bundle, bundle.Prints outputs := by
  obtain ⟨plan, _, planned, done⟩ := Action.yields_bind.mp done
  have planned := (Action.yields_recover fun _ _ => Action.not_yields_throw).mp planned
  obtain ⟨order, ordered, resolved, rfl⟩ := (resolvedPlan_bundled remembers bundled).mp planned
  obtain ⟨generator, _, set, done⟩ := Action.yields_bind.mp done
  obtain ⟨prepared, rfl⟩ := (generator_bundled rfl (remembers_order ordered) bundled).mp set
  obtain ⟨_, _, made, done⟩ := Action.yields_bind.mp done
  obtain ⟨each, rfl⟩ := bundleModules_yields.mp made
  obtain ⟨modules, paths, rfl, generated⟩ := Table.forall₂_iff.mp each
  obtain ⟨_, _, read, done⟩ := Action.yields_bind.mp done
  obtain ⟨rfl, rfl⟩ := Action.yields_get.mp read
  -- The early return passes on what was formatted; the other way to end is a failure.
  obtain ⟨ended, _, tried, done⟩ := Action.yields_bind.mp done
  have tried := (Action.yields_recover fun _ _ => Action.not_yields_throw_bind).mp tried
  obtain ⟨text, _, formatted, tried⟩ := Action.yields_bind.mp tried
  obtain ⟨formatting, formatted, _⟩ := format_yields.mp formatted
  obtain ⟨rfl, _⟩ := Action.yields_pure.mp tried
  obtain ⟨rfl, _⟩ := Action.yields_pure.mp done
  rw [bundleText_values] at formatted
  exact ⟨⟨order, plan, generator, modules, ordered, resolved, prepared, paths, generated⟩, text,
    formatting, formatted, rfl⟩

/-- The text of a bundle before it is formatted. -/
def Bundle.code (bundle : compiler.Bundle) : String :=
  ModuleText.render (some compiler.header) bundle.marks (bundle.sections.map Section.render)

/-- Once all modules of a bundle are generated, what is left is to format its text. -/
theorem Bundle.compiles (bundle : compiler.Bundle) {text : String} {formatting : Formatting}
    (formatted : (Formatting.format bundle.code compiler.settings.format).Yields
      compiler.formatting text formatting) (remembers : compiler.Remembers)
    (bundled : compiler.plan.method = .bundled) :
    compileBundle.Yields compiler [(modulePath bundle.plan.bundleName.display, text)]
      { compiler with order? := some bundle.order, formatting } := by
  have planned := (resolvedPlan_bundled remembers bundled).mpr
    ⟨_, bundle.ordered, bundle.resolved, rfl⟩
  have set := (generator_bundled rfl (remembers_order bundle.ordered) bundled).mpr
    ⟨bundle.prepared, rfl⟩
  rw [Bundle.code, Bundle.marks, Bundle.sections, ← bundleText_values] at formatted
  refine Action.yields_bind.mpr ⟨_, _,
    (Action.yields_recover fun _ _ => Action.not_yields_throw).mpr planned, ?_⟩
  refine Action.yields_bind.mpr ⟨_, _, set, ?_⟩
  refine Action.yields_bind.mpr ⟨_, _, bundleModules_yields.mpr ⟨bundle.each_generated, rfl⟩, ?_⟩
  refine Action.yields_bind.mpr ⟨_, _, Action.yields_get.mpr ⟨rfl, rfl⟩, ?_⟩
  have printed : (format (bundleText compiler.header (Table.values bundle.modules))).Yields
      { compiler with order? := some bundle.order } text
      { compiler with order? := some bundle.order, formatting } :=
    format_yields.mpr ⟨formatting, formatted, rfl⟩
  refine Action.yields_bind.mpr ⟨_, _, (Action.yields_recover fun _ _ =>
    Action.not_yields_throw_bind).mpr
      (Action.yields_bind.mpr ⟨_, _, printed, Action.yields_pure.mpr ⟨rfl, rfl⟩⟩), ?_⟩
  exact Action.yields_pure.mpr ⟨rfl, rfl⟩

/-- The text of a bundle is compiled, with the order of the definitions remembered. -/
theorem Bundle.yields {outputs : Table String} (bundle : compiler.Bundle)
    (prints : bundle.Prints outputs) (remembers : compiler.Remembers)
    (bundled : compiler.plan.method = .bundled) :
    ∃ after, compileBundle.Yields compiler outputs after := by
  obtain ⟨text, formatting, formatted, rfl⟩ := prints
  exact ⟨_, bundle.compiles formatted remembers bundled⟩

/-- Compiling starts with the failures cleared. -/
theorem compile_yields {outputs : Table String} :
    compile.Yields compiler outputs after ↔
      (if compiler.plan.method = .bundled then compileBundle else compileModules).Yields
        { compiler with failures := [] } outputs after := by
  constructor
  · intro done
    obtain ⟨_, _, read, done⟩ := Action.yields_bind.mp done
    obtain ⟨rfl, rfl⟩ := Action.yields_get.mp read
    obtain ⟨_, _, noted, done⟩ := Action.yields_bind.mp done
    obtain rfl := Action.yields_record.mp noted
    obtain ⟨_, _, cleared, done⟩ := Action.yields_bind.mp done
    have cleared := Action.yields_modify.mp cleared
    obtain ⟨_, _, read, done⟩ := Action.yields_bind.mp done
    obtain ⟨rfl, rfl⟩ := Action.yields_get.mp read
    subst cleared
    exact done
  · intro done
    refine Action.yields_bind.mpr ⟨_, _, Action.yields_get.mpr ⟨rfl, rfl⟩, ?_⟩
    refine Action.yields_bind.mpr ⟨(), _, Action.yields_record.mpr rfl, ?_⟩
    refine Action.yields_bind.mpr ⟨(), _, Action.yields_modify.mpr rfl, ?_⟩
    exact Action.yields_bind.mpr ⟨_, _, Action.yields_get.mpr ⟨rfl, rfl⟩, done⟩

/-- Compiling a bundle succeeds if and only if there is a bundle whose text can be formatted, and
gives that text. -/
theorem compile_eq_ok_iff {outputs : Table String} (remembers : compiler.Remembers)
    (bundled : compiler.plan.method = .bundled) :
    (compile.run compiler).1.result = .ok outputs ↔
      ∃ bundle : compiler.Bundle, bundle.Prints outputs := by
  have remembers : Remembers { compiler with failures := [] } := remembers
  -- The failures have no part in what a bundle is.
  constructor
  · intro compiled
    have done := compile_yields.mp ⟨compiled, rfl⟩
    rw [if_pos bundled] at done
    obtain ⟨bundle, prints⟩ := bundle_of_yields remembers bundled done
    exact ⟨⟨bundle.order, bundle.plan, bundle.generator, bundle.modules, bundle.ordered,
      bundle.resolved, bundle.prepared, bundle.paths, bundle.generated⟩, prints⟩
  · rintro ⟨bundle, prints⟩
    let cleared : { compiler with failures := [] }.Bundle :=
      ⟨bundle.order, bundle.plan, bundle.generator, bundle.modules, bundle.ordered,
        bundle.resolved, bundle.prepared, bundle.paths, bundle.generated⟩
    obtain ⟨after, done⟩ := cleared.yields prints remembers bundled
    have compiled : compile.Yields compiler outputs after :=
      compile_yields.mpr (by rwa [if_pos bundled])
    exact compiled.1

/-- Compiling a bundle, if it succeeds, gives the text of a bundle. -/
theorem compile_bundle {outputs : Table String} (remembers : compiler.Remembers)
    (bundled : compiler.plan.method = .bundled)
    (compiled : (compile.run compiler).1.result = .ok outputs) :
    ∃ bundle : compiler.Bundle, bundle.Prints outputs :=
  (compile_eq_ok_iff remembers bundled).mp compiled

/-- The sections of the bundle of a document, worked out without a state. -/
def bundledSections (compiler : Compiler) : Except Failure (List Section) := do
  let order ← compiler.document.schemas.order
  let plan ← compiler.plan.resolve (Table.keys compiler.document.schemas) order
  let generator ← Generator.ofPlan compiler.workingDir compiler.document.schemas plan
    fun id => standsBefore (order.map OrderEntry.id) (.str id)
  let modules ← (Table.keys generator.modules).mapM fun path => (generator.generate path).result
  return modules.flatMap GeneratedModule.sections

namespace Bundle

variable (bundle : compiler.Bundle)

/-- A compiler has no two bundles with different sections. -/
theorem sections_determined : compiler.bundledSections = .ok bundle.sections := by
  have mapped : (Table.keys bundle.generator.modules).mapM
      (fun path => (bundle.generator.generate path).result) =
      .ok (Table.values bundle.modules) := mapM_eq_ok.mpr bundle.each_generated
  refine except_bind_eq_ok.mpr ⟨_, bundle.ordered, ?_⟩
  refine except_bind_eq_ok.mpr ⟨_, bundle.resolved, ?_⟩
  refine except_bind_eq_ok.mpr ⟨_, bundle.prepared, ?_⟩
  refine except_bind_eq_ok.mpr ⟨_, mapped, ?_⟩
  rw [Table.values, List.flatMap_map]
  rfl

/-- What is read off the sections of a bundle can be computed from the compiler. -/
theorem read_sections {α : Type} (read : List Section → α) {value : α}
    (computed : compiler.bundledSections.toOption.map read = some value) :
    read bundle.sections = value := by
  rw [bundle.sections_determined] at computed
  exact Option.some.inj computed

theorem generator_parts : bundle.plan.allModules = .ok bundle.generator.modules ∧
    bundle.generator.table = compiler.document.schemas ∧
    bundle.generator.isBefore =
      fun id => standsBefore (bundle.order.map OrderEntry.id) (.str id) := by
  obtain ⟨locators, _, made⟩ := except_bind_eq_ok.mp bundle.prepared
  obtain ⟨modules, listed, made⟩ := except_bind_eq_ok.mp made
  rw [← Except.ok.inj made]
  exact ⟨listed, rfl, rfl⟩

/-- The modules of a bundle are the support modules, with the modules of the definitions laid over
them. -/
theorem listed_modules (bundled : compiler.plan.method = .bundled) :
    ∃ runtime given, bundle.plan.runtime.listing = .ok runtime ∧
      (bundle.plan.runtime = compiler.plan.runtime ∨ bundle.plan.runtime = .table []) ∧
      (compiler.plan.modules = .table [] → given = []) ∧
      Table.mapValues some bundle.generator.modules =
        Table.update runtime (Table.mapValues some (Plan.bundledTable given bundle.order)) := by
  obtain ⟨given, isModules, none, kept⟩ := Plan.resolve_bundled bundled bundle.resolved
  obtain ⟨runtime, modules, isRuntime, listed, laid⟩ :=
    Plan.allModules_ok bundle.generator_parts.1
  rw [isModules] at listed
  cases listed
  exact ⟨runtime, given, isRuntime, kept, none, laid⟩

theorem paths_distinct (given : Table (List Directive)) :
    (Table.keys (Table.mapValues some (Plan.bundledTable given bundle.order))).Nodup := by
  rw [Table.keys_mapValues, Plan.keys_bundledTable]
  exact List.Nodup.map modulePath_injective (Definitions.order_ids bundle.ordered).1

/-- Under the path of each definition stands its own directive, also if a support module has that
path. -/
theorem directives_of_entry (bundled : compiler.plan.method = .bundled) :
    ∃ given, (compiler.plan.modules = .table [] → given = []) ∧
      ∀ entry ∈ bundle.order, Table.get? bundle.generator.modules (modulePath entry.id) =
        some [Plan.bundledDirective given entry] := by
  obtain ⟨runtime, given, _, _, none, laid⟩ := bundle.listed_modules bundled
  refine ⟨given, none, fun entry member => ?_⟩
  have set : (modulePath entry.id, some [Plan.bundledDirective given entry]) ∈
      Table.mapValues some (Plan.bundledTable given bundle.order) :=
    List.mem_map_of_mem (List.mem_map_of_mem member)
  have found := Table.get?_update_of_mem runtime (bundle.paths_distinct given) set
  rw [← laid, Table.get?_mapValues] at found
  simpa using found

/-- If no support module has the path of a definition, the support modules come first, and the
modules of the definitions come last, in their order. -/
theorem paths_of_support (bundled : compiler.plan.method = .bundled)
    (apart : ∀ id ∈ Table.keys compiler.document.schemas,
      ¬ compiler.plan.runtime.Lists (modulePath id)) :
    ∃ runtime, bundle.plan.runtime.listing = .ok runtime ∧
      (bundle.plan.runtime = compiler.plan.runtime ∨ bundle.plan.runtime = .table []) ∧
      Table.keys bundle.modules =
        Table.keys runtime ++ (bundle.order.map OrderEntry.id).map modulePath := by
  obtain ⟨runtime, given, isRuntime, kept, _, laid⟩ := bundle.listed_modules bundled
  have disjoint : ∀ path ∈ Table.keys (Table.mapValues some
      (Plan.bundledTable given bundle.order)), path ∉ Table.keys runtime := by
    intro path own listed
    rw [Table.keys_mapValues, Plan.keys_bundledTable] at own
    obtain ⟨id, isId, rfl⟩ := List.mem_map.mp own
    rcases kept with same | dropped
    · refine apart id (((Definitions.order_ids bundle.ordered).2 id).mp isId) ?_
      exact ⟨runtime, same ▸ isRuntime, listed⟩
    -- A plan that gave up its support modules lists no path for them.
    · rw [dropped] at isRuntime
      cases isRuntime
      cases listed
  rw [Table.update_of_disjoint (bundle.paths_distinct given) disjoint] at laid
  refine ⟨runtime, isRuntime, kept, ?_⟩
  calc
    Table.keys bundle.modules = Table.keys (Table.mapValues some bundle.generator.modules) := by
      rw [bundle.paths, Table.keys_mapValues]
    _ = Table.keys runtime ++
        Table.keys (Table.mapValues some (Plan.bundledTable given bundle.order)) := by
      rw [laid]
      exact List.map_append
    _ = Table.keys runtime ++ (bundle.order.map OrderEntry.id).map modulePath := by
      rw [Table.keys_mapValues, Plan.keys_bundledTable]

theorem module_of_entry (bundled : compiler.plan.method = .bundled) {entry : OrderEntry}
    (member : entry ∈ bundle.order) : ∃ module, (modulePath entry.id, module) ∈ bundle.modules := by
  obtain ⟨given, _, found⟩ := bundle.directives_of_entry bundled
  have listed := Table.mem_keys_of_mem (Table.mem_of_get? (found entry member))
  rw [← bundle.paths] at listed
  obtain ⟨⟨path, module⟩, inside, rfl⟩ := List.mem_map.mp listed
  exact ⟨module, inside⟩

/-- The exports of a definition: they have its id and are lazy if it lies on a cycle. If the plan
has no modules of its own, they are made from the definition's schema, and no types are stated. -/
structure Exports (entry : OrderEntry) (item : Export) : Prop where
  id : item.id = entry.id
  isLazy : item.declaration.lazy = .bool entry.circular
  made : compiler.plan.modules = .table [] → ∃ schema,
    Table.get? compiler.document.schemas entry.id = some schema ∧
      bundle.generator.Codes item schema
  untyped : compiler.plan.modules = .table [] →
    item.declaration.type = .null ∧ item.declaration.encoded = .null

/-- The module of a definition has one section, with the exports of the definition. -/
theorem sections_of_entry (bundled : compiler.plan.method = .bundled) {entry : OrderEntry}
    {module : GeneratedModule} (member : entry ∈ bundle.order)
    (inside : (modulePath entry.id, module) ∈ bundle.modules) :
    ∃ item, module.sections = [.definition item] ∧ bundle.Exports entry item := by
  obtain ⟨given, none, found⟩ := bundle.directives_of_entry bundled
  obtain ⟨source, declaration, fields, isDirective, isLazy⟩ :=
    Plan.bundledDirective_generate given entry
  have found := found entry member
  rw [isDirective] at found
  obtain ⟨item, schema, isSections, isId, rfl, codes, own⟩ :=
    Generator.generate_single found (bundle.generated _ inside)
  rw [bundle.generator_parts.2.1] at own
  -- Without modules of its own, the plan has nothing to say about the definition.
  have plain : compiler.plan.modules = .table [] →
      source = .null ∧ fields = .null ∧ item.declaration = { lazy := .bool entry.circular } := by
    intro unlisted
    rw [none unlisted] at isDirective
    injection isDirective with _ isSource isDeclaration isFields
    exact ⟨isSource.symm, isFields.symm, isDeclaration.symm⟩
  refine ⟨item, isSections, isId, isLazy, fun unlisted => ?_, fun unlisted => ?_⟩
  · obtain ⟨noSource, noFields, _⟩ := plain unlisted
    exact ⟨schema, own noSource noFields, codes⟩
  · rw [(plain unlisted).2.2]
    exact ⟨rfl, rfl⟩

theorem exists_section (bundled : compiler.plan.method = .bundled) {entry : OrderEntry}
    (member : entry ∈ bundle.order) : ∃ item, bundle.SectionOf entry.id item := by
  obtain ⟨module, inside⟩ := bundle.module_of_entry bundled member
  obtain ⟨item, isSections, _⟩ := bundle.sections_of_entry bundled member inside
  exact ⟨item, module, inside, isSections ▸ List.mem_cons_self⟩

theorem exports_of_section (bundled : compiler.plan.method = .bundled) {entry : OrderEntry}
    {item : Export} (member : entry ∈ bundle.order) (own : bundle.SectionOf entry.id item) :
    bundle.Exports entry item := by
  obtain ⟨module, inside, part⟩ := own
  obtain ⟨_, isSections, exported⟩ := bundle.sections_of_entry bundled member inside
  rw [isSections, List.mem_singleton] at part
  cases part
  exact exported

/-- Every reference in a section of a bundle is bare exactly if its target stands before the exports
of the section in the order. -/
theorem reference_seen {entry : String × GeneratedModule} {item : Export} {target : String}
    {deferred : Bool} (inside : entry ∈ bundle.modules)
    (part : .definition item ∈ entry.2.sections)
    (member : (target, deferred) ∈ item.code.references) :
    standsBefore (bundle.order.map OrderEntry.id) (.str target) (.str item.id) =
      .ok (!deferred) := by
  obtain ⟨schema, codes⟩ := Generator.generate_definition (bundle.generated entry inside) part
  have seen := (codes.traced member).1
  rw [bundle.generator_parts.2.2] at seen
  exact seen

end Bundle

end Compiler

end SchemaPress
