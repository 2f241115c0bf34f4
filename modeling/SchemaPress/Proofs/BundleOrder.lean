import SchemaPress.Proofs.Bundles
import SchemaPress.Proofs.CodeTexts

/-! Declarations and uses in a bundle. A bare reference needs its target declared before it, and a
deferred one needs the local types of its target. Whether a reference is deferred is decided by
positions in the order of definitions, whether local types are declared by the cycles between them,
and where a section stands by the modules of the plan; the three agree. All of it is stated about
the texts that references are rendered as. -/

namespace SchemaPress

/-- The references in a section, each as its target and its text, with the id that the section is
exported under. -/
def Section.citations : Section → List (String × List (String × String))
  | .literal _ => []
  | .definition item => [(item.id, item.code.citations)]

theorem Section.citations_of_exports (exports : List Export) :
    (exports.map Section.definition).flatMap citations =
      exports.map fun item => (item.id, item.code.citations) := by
  rw [List.flatMap_map]
  exact List.map_eq_flatMap.symm

namespace Export

variable {item : Export} {target text : String}

/-- The code of exports stands in their text. -/
theorem code_within (item : Export) : Text.Within item.code.render item.render := by
  refine Text.Within.trans ?_
    (Text.within_join "\n" (List.mem_append_right _ List.mem_cons_self))
  exact (((((Text.Within.refl _).after _).before _).before _).before _).before _

/-- A reference stands in the code of exports, bare or suspended. -/
theorem citation_shown (cited : (target, text) ∈ item.code.citations) :
    Text.Within text item.code.render ∧
      (text = Name.identifier target ∨ text = Name.suspended target) :=
  ⟨Expr.citation_within cited, (Expr.mem_citations.mp cited).imp And.left And.left⟩

end Export

/-- What is cited in sections is shown by exports among them. -/
theorem Section.shown_of_citations {parts : List Section} {id target text : String}
    {own : List (String × String)} (listed : (id, own) ∈ parts.flatMap citations)
    (cited : (target, text) ∈ own) :
    ∃ item, .definition item ∈ parts ∧ item.id = id ∧ Text.Within text item.render := by
  obtain ⟨part, inside, listed⟩ := List.mem_flatMap.mp listed
  cases part with
  | literal => cases listed
  | definition item =>
    cases List.mem_singleton.mp listed
    exact ⟨item, inside, rfl, (Expr.citation_within cited).trans item.code_within⟩

/-- The references that lead from one definition to another by way of their exports, each as its
target and its text. -/
inductive Route (exports : List Export) : String → List (String × String) → String → Prop where
  | stay (id : String) : Route exports id [] id
  | follow {item : Export} {target text last : String} {rest : List (String × String)}
      (inside : item ∈ exports) (cited : (target, text) ∈ item.code.citations)
      (onward : Route exports target rest last) :
      Route exports item.id ((target, text) :: rest) last

namespace Route

variable {exports : List Export} {id last : String} {steps : List (String × String)}

theorem of_cited {target text : String} {cited : List (String × String)}
    (listed : (id, cited) ∈ exports.map fun item => (item.id, item.code.citations))
    (inside : (target, text) ∈ cited) (onward : Route exports target steps last) :
    Route exports id ((target, text) :: steps) last := by
  obtain ⟨item, isExport, same⟩ := List.mem_map.mp listed
  cases same
  exact .follow isExport inside onward

theorem exported (route : Route exports id steps last) (known : last ∈ exports.map Export.id) :
    id ∈ exports.map Export.id := by
  cases route with
  | stay => exact known
  | follow inside => exact List.mem_map_of_mem inside

/-- If the targets of bare references come first, a route leads to what is before, unless it has a
suspended reference. -/
theorem suspends_or_descends {position : String → Nat}
    (before : ∀ item ∈ exports, ∀ target ∈ exports.map Export.id,
      (target, Name.identifier target) ∈ item.code.citations → position target < position item.id)
    (route : Route exports id steps last) (known : last ∈ exports.map Export.id) :
    (∃ step ∈ steps, step.2 = Name.suspended step.1) ∨
      steps = [] ∨ position last < position id := by
  induction route with
  | stay => exact .inr (.inl rfl)
  | @follow item target text last rest inside cited onward ih =>
    rcases Expr.mem_citations.mp cited with ⟨rfl, _⟩ | ⟨isSuspended, _⟩
    · have here := before item inside target (onward.exported known) cited
      rcases ih known with ⟨step, later, isSuspended⟩ | rfl | descends
      · exact .inl ⟨step, List.mem_cons_of_mem _ later, isSuspended⟩
      · cases onward
        exact .inr (.inr here)
      · exact .inr (.inr (Nat.lt_trans descends here))
    · exact .inl ⟨_, List.mem_cons_self, isSuspended⟩

end Route

namespace Compiler

variable {compiler : Compiler} {workingDir : List String} {document : Document} {plan : Plan}
  {settings : Settings} {formatter : Option Formatter} {shell : Shell} {outputs : Table String}

namespace Bundle

variable (bundle : compiler.Bundle)

theorem exports_of_entries (bundled : compiler.plan.method = .bundled)
    {entries : List OrderEntry} {modules : Table GeneratedModule}
    (listed : entries ⊆ bundle.order) (inside : modules ⊆ bundle.modules)
    (paths : Table.keys modules = (entries.map OrderEntry.id).map modulePath) :
    ∃ exports : List Export,
      (modules.flatMap fun entry => entry.2.sections) = exports.map .definition ∧
        List.Forall₂ bundle.Exports entries exports := by
  induction entries generalizing modules with
  | nil =>
    obtain rfl : modules = [] := List.map_eq_nil_iff.mp paths
    exact ⟨[], rfl, .nil⟩
  | cons entry entries ih =>
    obtain ⟨⟨path, module⟩, modules, rfl, rfl, later⟩ := List.map_eq_cons_iff.mp paths
    obtain ⟨exports, others, exported⟩ := ih (List.subset_of_cons_subset listed)
      (List.subset_of_cons_subset inside) later
    obtain ⟨item, isSections, here⟩ := bundle.sections_of_entry bundled
      (listed List.mem_cons_self) (inside List.mem_cons_self)
    refine ⟨item :: exports, ?_, .cons here exported⟩
    rw [List.flatMap_cons, others, isSections]
    rfl

theorem ids_of_exports {entries : List OrderEntry} {exports : List Export}
    (exported : List.Forall₂ bundle.Exports entries exports) :
    exports.map Export.id = entries.map OrderEntry.id := by
  induction exported with
  | nil => rfl
  | cons here _ ih => rw [List.map_cons, List.map_cons, ih, here.id]

/-- If no support module has the path of a definition, a bundle ends with the sections of the
definitions, in their order. -/
theorem sections_of_order (bundled : compiler.plan.method = .bundled)
    (apart : ∀ id ∈ Table.keys compiler.document.schemas,
      ¬ compiler.plan.runtime.Lists (modulePath id)) :
    ∃ (support : List Section) (exports : List Export),
      bundle.sections = support ++ exports.map .definition ∧
        exports.map Export.id = bundle.order.map OrderEntry.id := by
  obtain ⟨_, _, _, paths⟩ := bundle.paths_of_support bundled apart
  obtain ⟨before, own, split, _, paths⟩ := List.map_eq_append_iff.mp paths
  have inside : own ⊆ bundle.modules := split ▸ List.subset_append_right before own
  obtain ⟨exports, isOwn, exported⟩ :=
    bundle.exports_of_entries bundled (List.Subset.refl _) inside paths
  refine ⟨before.flatMap fun entry => entry.2.sections, exports, ?_,
    bundle.ids_of_exports exported⟩
  rw [sections, split, List.flatMap_append, isOwn]

/-- In a section of a bundle, a bare reference to a definition shows that the definition stands
before the exports of the section in the order. -/
theorem before_of_bare {item : Export} {target : String} (part : .definition item ∈ bundle.sections)
    (bare : (target, false) ∈ item.code.references)
    (known : target ∈ bundle.order.map OrderEntry.id)
    (defined : item.id ∈ bundle.order.map OrderEntry.id) :
    (bundle.order.map OrderEntry.id).idxOf target <
      (bundle.order.map OrderEntry.id).idxOf item.id := by
  obtain ⟨entry, inside, part⟩ := List.mem_flatMap.mp part
  have seen := bundle.reference_seen inside part bare
  rw [standsBefore_str, Except.ok.injEq, Bool.not_false, decide_eq_true_eq] at seen
  exact seen known defined

/-- In a section of a bundle, a deferred reference is one between two definitions, and its target
does not stand before the exports of the section in the order. -/
theorem not_before_of_deferred {item : Export} {target : String}
    (part : .definition item ∈ bundle.sections)
    (deferred : (target, true) ∈ item.code.references) :
    target ∈ bundle.order.map OrderEntry.id ∧ item.id ∈ bundle.order.map OrderEntry.id ∧
      ¬ (bundle.order.map OrderEntry.id).idxOf target <
        (bundle.order.map OrderEntry.id).idxOf item.id := by
  obtain ⟨entry, inside, part⟩ := List.mem_flatMap.mp part
  have seen := bundle.reference_seen inside part deferred
  rw [standsBefore_str, Except.ok.injEq, Bool.not_true, decide_eq_false_iff_not] at seen
  grind

/-- A reference to a definition is suspended exactly if the section that holds it is exported under
the id of a definition, and the target does not stand before that definition. -/
theorem suspended_iff {item : Export} {target text : String}
    (part : .definition item ∈ bundle.sections)
    (known : target ∈ bundle.order.map OrderEntry.id)
    (cited : (target, text) ∈ item.code.citations) :
    text = Name.suspended target ↔ item.id ∈ bundle.order.map OrderEntry.id ∧
      ¬ (bundle.order.map OrderEntry.id).idxOf target <
        (bundle.order.map OrderEntry.id).idxOf item.id := by
  rcases Expr.mem_citations.mp cited with ⟨rfl, bare⟩ | ⟨rfl, deferred⟩
  · refine iff_of_false (Name.suspended_ne_identifier target).symm ?_
    rintro ⟨defined, late⟩
    exact late (bundle.before_of_bare part bare known defined)
  · exact iff_of_true rfl (bundle.not_before_of_deferred part deferred).2

end Bundle

/-- A bundle never uses a definition before its declaration. If compiling succeeds, and no support
module has the path of a definition, each definition has one section after those of the support
modules. A reference in it is rendered as the bare identifier of its target or as the text that
suspends the target; it is bare exactly if its target, a definition, has its section before. Hence a
definition suspends a reference to itself, and every cycle of references has a suspended one. -/
theorem bare_references_follow_declarations (bundled : plan.method = .bundled)
    (apart : ∀ id ∈ Table.keys document.schemas, ¬ plan.runtime.Lists (modulePath id))
    (compiled : (compile.run (new workingDir document plan settings formatter shell)).1.result =
      .ok outputs) :
    ∃ (bundle : (new workingDir document plan settings formatter shell).Bundle)
      (support : List Section) (exports : List Export),
      bundle.Prints outputs ∧ bundle.sections = support ++ exports.map .definition ∧
        (exports.map Export.id).Nodup ∧
        (∀ id, id ∈ exports.map Export.id ↔ id ∈ Table.keys document.schemas) ∧
        (∀ item ∈ exports, Text.Within item.code.render item.render ∧
          ∀ target text, (target, text) ∈ item.code.citations →
            Text.Within text item.code.render ∧
              (text = Name.identifier target ∨ text = Name.suspended target)) ∧
        (∀ item ∈ exports, ∀ target ∈ Table.keys document.schemas, ∀ text,
          (target, text) ∈ item.code.citations →
            (text = Name.identifier target ↔
              (exports.map Export.id).idxOf target < (exports.map Export.id).idxOf item.id)) ∧
        (∀ item ∈ exports, ∀ text, (item.id, text) ∈ item.code.citations →
          text = Name.suspended item.id) ∧
        ∀ id steps, Route exports id steps id → steps ≠ [] →
          ∃ step ∈ steps, step.2 = Name.suspended step.1 := by
  obtain ⟨bundle, prints⟩ := compile_bundle new_remembers bundled compiled
  obtain ⟨support, exports, isSections, isIds⟩ := bundle.sections_of_order bundled apart
  obtain ⟨distinct, members⟩ := Definitions.order_ids bundle.ordered
  rw [← isIds] at distinct members
  have bare_iff : ∀ item ∈ exports, ∀ target ∈ exports.map Export.id, ∀ text,
      (target, text) ∈ item.code.citations → (text = Name.identifier target ↔
        (exports.map Export.id).idxOf target < (exports.map Export.id).idxOf item.id) := by
    intro item inside target known text cited
    have part : .definition item ∈ bundle.sections :=
      isSections ▸ List.mem_append_right support (List.mem_map_of_mem inside)
    have decided := bundle.suspended_iff part (isIds ▸ known) cited
    rw [← isIds, and_iff_right (List.mem_map_of_mem inside)] at decided
    rw [Expr.bare_iff_not_suspended cited, not_iff_comm]
    exact decided.symm
  refine ⟨bundle, support, exports, prints, isSections, distinct, members, ?_, ?_, ?_, ?_⟩
  · exact fun item _ => ⟨item.code_within, fun _ _ => Export.citation_shown⟩
  · exact fun item inside target known =>
      bare_iff item inside target ((members target).mpr known)
  · intro item inside text cited
    by_contra unsuspended
    have bare := (Expr.bare_iff_not_suspended cited).mpr unsuspended
    exact Nat.lt_irrefl _
      ((bare_iff item inside item.id (List.mem_map_of_mem inside) text cited).mp bare)
  · intro id steps cycle moves
    have before : ∀ item ∈ exports, ∀ target ∈ exports.map Export.id,
        (target, Name.identifier target) ∈ item.code.citations →
          (exports.map Export.id).idxOf target < (exports.map Export.id).idxOf item.id :=
      fun item inside target known cited => (bare_iff item inside target known _ cited).mp rfl
    have known : id ∈ exports.map Export.id := by
      cases cycle with
      | stay => exact absurd rfl moves
      | follow inside => exact List.mem_map_of_mem inside
    rcases cycle.suspends_or_descends before known with suspended | rfl | descends
    · exact suspended
    · exact absurd rfl moves
    · exact absurd descends (Nat.lt_irrefl _)

/-- A document with entwined definitions. -/
def entwinedDocument : Document :=
  ⟨"Entwined", "1", Definitions.entwined⟩

/-- A plan for a bundle with a support module. -/
def supportedPlan : Plan where
  method := .bundled
  runtime := .table [("./support.ts", [.literal (.str "Id") (.str "const id = 1;")])]

/-- The compiler for the entwined definitions. -/
abbrev entwining : Compiler :=
  new [] entwinedDocument supportedPlan {} none {}

theorem entwining_compiles : ∃ outputs, (compile.run entwining).1.result = .ok outputs :=
  exists_of_isOk (by decide +kernel)

theorem entwining_citations (bundle : entwining.Bundle) :
    bundle.sections.flatMap Section.citations =
      [("D", []), ("B", [("C", "S.suspend((): S.Schema<_C, _CEncoded> => C)")]),
        ("C", [("B", "B"), ("D", "D")]), ("A", [("B", "B"), ("X", "X")])] :=
  bundle.read_sections (List.flatMap Section.citations) (by decide +kernel)

theorem bare_references_follow_declarations_entwined :
    ∃ outputs, (compile.run entwining).1.result = .ok outputs ∧
      ∃ (bundle : entwining.Bundle) (support : List Section) (exports : List Export),
        bundle.Prints outputs ∧ bundle.sections = support ++ exports.map .definition ∧
          (exports.map fun item => (item.id, item.code.citations)) =
            [("D", []), ("B", [("C", "S.suspend((): S.Schema<_C, _CEncoded> => C)")]),
              ("C", [("B", "B"), ("D", "D")]), ("A", [("B", "B"), ("X", "X")])] ∧
          (exports.map Export.id).idxOf "B" < (exports.map Export.id).idxOf "C" ∧
          Route exports "B" [("C", "S.suspend((): S.Schema<_C, _CEncoded> => C)"), ("B", "B")] "B" ∧
          ∀ steps, Route exports "B" steps "B" → steps ≠ [] →
            ∃ step ∈ steps, step.2 = Name.suspended step.1 := by
  obtain ⟨outputs, compiled⟩ := entwining_compiles
  have apart : ∀ id ∈ Table.keys entwinedDocument.schemas,
      ¬ supportedPlan.runtime.Lists (modulePath id) := by
    rintro id defined ⟨listing, isListing, listed⟩
    cases isListing
    exact absurd listed ((by decide : ∀ id ∈ ["A", "B", "C", "D"],
      modulePath id ∉ ["./support.ts"]) id defined)
  obtain ⟨bundle, support, exports, prints, isSections, distinct, members, _, bare_iff, _,
    cycles⟩ := bare_references_follow_declarations rfl apart compiled
  -- There are four sections with exports, so none of them is in front of the definitions.
  have size : exports.length = 4 := by
    have same := (List.perm_ext_iff_of_nodup distinct (by decide)).mpr members
    exact (List.length_map _).symm.trans same.length_eq
  have cited := entwining_citations bundle
  rw [isSections, List.flatMap_append, Section.citations_of_exports] at cited
  obtain ⟨_, isCited⟩ := List.append_inj' (cited.trans (List.nil_append _).symm)
    (by rw [List.length_map, size]; rfl)
  have onB : ("B", [("C", "S.suspend((): S.Schema<_C, _CEncoded> => C)")]) ∈
      exports.map fun item => (item.id, item.code.citations) := by
    simp [isCited]
  have onC : ("C", [("B", "B"), ("D", "D")]) ∈
      exports.map fun item => (item.id, item.code.citations) := by
    simp [isCited]
  refine ⟨outputs, compiled, bundle, support, exports, prints, isSections, isCited, ?_,
    .of_cited onB List.mem_cons_self (.of_cited onC List.mem_cons_self (.stay "B")), cycles "B"⟩
  obtain ⟨item, inside, same⟩ := List.mem_map.mp onC
  obtain ⟨isC, fromC⟩ := Prod.mk.inj same
  have bare : ("B", "B") ∈ item.code.citations := fromC ▸ List.mem_cons_self
  have before := (bare_iff item inside "B" (by decide) "B" bare).mp (by decide)
  rwa [isC] at before

/-- The lines of exports that are declared lazy, without types that are stated, declare the local
types that deferred references are annotated with. -/
theorem local_types_of_lazy {item : Export} (isLazy : item.declaration.lazy = .bool true)
    (noType : item.declaration.type = .null) (noEncoded : item.declaration.encoded = .null) :
    "type _" ++ item.identifier ++ " = any;" ∈ item.lines ∧
      "type _" ++ item.identifier ++ "Encoded = any;" ∈ item.lines := by
  have types : item.localTypes? = some ("any", "any") := by
    rw [Export.localTypes?, isLazy, noType, noEncoded]
    rfl
  simp [Export.lines, types, String.append_assoc]

namespace Bundle

variable (bundle : compiler.Bundle)

/-- If a plan has no modules of its own, what a definition refers to in its section it depends
on. -/
theorem depends_of_reference (bundled : compiler.plan.method = .bundled)
    (unlisted : compiler.plan.modules = .table []) {entry : OrderEntry} {item : Export}
    {found : String × Bool} (member : entry ∈ bundle.order) (own : bundle.SectionOf entry.id item)
    (refers : found ∈ item.code.references) :
    compiler.document.schemas.DependsOn entry.id found.1 := by
  obtain ⟨schema, found, codes⟩ := (bundle.exports_of_section bundled member own).made unlisted
  have held := Table.mem_of_get? found
  obtain ⟨_, computed, _⟩ := Definitions.order_eq_ok bundle.ordered
  obtain ⟨targets, known⟩ := Definitions.dependencies_of_addDependents computed held
  exact ⟨schema, targets, held, known, (codes.traced refers).2 targets known⟩

/-- A deferred reference in the section of a definition closes a cycle: its target depends on the
definition. -/
theorem reaches_of_deferred (bundled : compiler.plan.method = .bundled)
    (unlisted : compiler.plan.modules = .table []) {entry : OrderEntry} {item : Export}
    {target : String} (member : entry ∈ bundle.order) (own : bundle.SectionOf entry.id item)
    (deferred : (target, true) ∈ item.code.references) :
    target ∈ Table.keys compiler.document.schemas ∧
      compiler.document.schemas.Reaches target entry.id ∧
      compiler.document.schemas.Reaches target target := by
  have depends := bundle.depends_of_reference bundled unlisted member own deferred
  have exported := bundle.exports_of_section bundled member own
  obtain ⟨known, _, late⟩ := bundle.not_before_of_deferred own.mem_sections deferred
  rw [exported.id] at late
  have defined := ((Definitions.order_ids bundle.ordered).2 target).mp known
  -- Were there no way back, the order would have the target first, and the reference were bare.
  have back : compiler.document.schemas.Reaches target entry.id := by
    by_contra acyclic
    exact late (Definitions.order_before bundle.ordered depends defined acyclic)
  exact ⟨defined, back, back.tail depends⟩

end Bundle

/-- References are deferred on cycles only, and the types they are annotated with are declared. If a
plan has no modules of its own, a suspended reference in the section of a definition has a target
that depends on the definition; the target is flagged in the order, and its section declares both
local types that the text of the reference names. If no definition depends on itself, suspended
references can only stand in sections of support modules that are exported under the id of a
definition. -/
theorem deferral_only_on_cycles (bundled : plan.method = .bundled)
    (unlisted : plan.modules = .table [])
    (compiled : (compile.run (new workingDir document plan settings formatter shell)).1.result =
      .ok outputs) :
    ∃ bundle : (new workingDir document plan settings formatter shell).Bundle,
      bundle.Prints outputs ∧
      (∀ id ∈ Table.keys document.schemas, ∃ item, bundle.SectionOf id item ∧ item.id = id) ∧
      (∀ item, .definition item ∈ bundle.sections → Text.Within item.code.render item.render ∧
        ∀ target text, (target, text) ∈ item.code.citations →
          Text.Within text item.code.render ∧
            (text = Name.identifier target ∨ text = Name.suspended target)) ∧
      (∀ id ∈ Table.keys document.schemas, ∀ item, bundle.SectionOf id item →
        ∀ target, (target, Name.suspended target) ∈ item.code.citations →
          document.schemas.Reaches target id ∧ ⟨target, true⟩ ∈ bundle.order ∧
          ∀ own, bundle.SectionOf target own → own.id = target ∧
            own.identifier = Name.identifier target ∧
            "type _" ++ Name.identifier target ++ " = any;" ∈ own.lines ∧
            "type _" ++ Name.identifier target ++ "Encoded = any;" ∈ own.lines) ∧
      ((∀ id, ¬ document.schemas.Reaches id id) →
        ∀ entry ∈ bundle.modules, ∀ item, .definition item ∈ entry.2.sections →
          ∀ target, (target, Name.suspended target) ∈ item.code.citations →
            item.id ∈ Table.keys document.schemas ∧
            ∀ id ∈ Table.keys document.schemas, entry.1 ≠ modulePath id) := by
  obtain ⟨bundle, prints⟩ := compile_bundle new_remembers bundled compiled
  have members := (Definitions.order_ids bundle.ordered).2
  have listed : ∀ id ∈ Table.keys document.schemas, ∃ entry ∈ bundle.order, entry.id = id :=
    fun id defined => List.mem_map.mp ((members id).mpr defined)
  refine ⟨bundle, prints, ?_, ?_, ?_, ?_⟩
  · intro id defined
    obtain ⟨entry, member, rfl⟩ := listed id defined
    obtain ⟨item, own⟩ := bundle.exists_section bundled member
    exact ⟨item, own, (bundle.exports_of_section bundled member own).id⟩
  · exact fun item _ => ⟨item.code_within, fun _ _ => Export.citation_shown⟩
  · intro id defined item own target suspended
    obtain ⟨entry, member, rfl⟩ := listed id defined
    obtain ⟨isTarget, back, cycle⟩ := bundle.reaches_of_deferred bundled unlisted member own
      (Expr.suspended_mem_citations.mp suspended)
    obtain ⟨⟨target, circular⟩, flagged, rfl⟩ := listed target isTarget
    obtain rfl : circular = true := (Definitions.order_circular bundle.ordered flagged).mpr cycle
    refine ⟨back, flagged, fun other own => ?_⟩
    have exported := bundle.exports_of_section bundled flagged own
    have named : other.identifier = Name.identifier target :=
      congrArg Name.identifier exported.id
    obtain ⟨noType, noEncoded⟩ := exported.untyped unlisted
    have types := local_types_of_lazy exported.isLazy noType noEncoded
    rw [named] at types
    exact ⟨exported.id, named, types⟩
  · intro acyclic entry inside item part target suspended
    have deferred := Expr.suspended_mem_citations.mp suspended
    have anywhere : .definition item ∈ bundle.sections := List.mem_flatMap.mpr ⟨_, inside, part⟩
    obtain ⟨_, defined, _⟩ := bundle.not_before_of_deferred anywhere deferred
    refine ⟨(members item.id).mp defined, ?_⟩
    rintro id isId isPath
    obtain ⟨place, member, rfl⟩ := listed id isId
    have own : bundle.SectionOf place.id item := ⟨entry.2, isPath ▸ inside, part⟩
    exact acyclic target (bundle.reaches_of_deferred bundled unlisted member own deferred).2.2

theorem deferral_only_on_cycles_entwined :
    ∃ outputs, (compile.run entwining).1.result = .ok outputs ∧
      ∃ bundle : entwining.Bundle, bundle.Prints outputs ∧
        ∃ item own, bundle.SectionOf "B" item ∧ bundle.SectionOf "C" own ∧
          ("C", "S.suspend((): S.Schema<_C, _CEncoded> => C)") ∈ item.code.citations ∧
          Text.Within "S.suspend((): S.Schema<_C, _CEncoded> => C)" item.code.render ∧
          Definitions.entwined.Reaches "C" "B" ∧ ⟨"C", true⟩ ∈ bundle.order ∧
          own.identifier = "C" ∧ "type _C = any;" ∈ own.lines ∧
          "type _CEncoded = any;" ∈ own.lines := by
  obtain ⟨outputs, compiled⟩ := entwining_compiles
  obtain ⟨bundle, prints, sections, shown, deferral, _⟩ :=
    deferral_only_on_cycles rfl rfl compiled
  have defined : "B" ∈ Table.keys entwinedDocument.schemas := by decide
  obtain ⟨item, isSection, isB⟩ := sections "B" defined
  obtain ⟨own, isOwn, _⟩ := sections "C" (by decide)
  have part := isSection.mem_sections
  have cited : ("C", "S.suspend((): S.Schema<_C, _CEncoded> => C)") ∈ item.code.citations := by
    have listed : (item.id, item.code.citations) ∈ bundle.sections.flatMap Section.citations :=
      List.mem_flatMap.mpr ⟨_, part, List.mem_singleton_self _⟩
    rw [entwining_citations, isB] at listed
    have isCited : item.code.citations =
        [("C", "S.suspend((): S.Schema<_C, _CEncoded> => C)")] := by
      simpa using listed
    simp [isCited]
  obtain ⟨back, flagged, types⟩ := deferral "B" defined item isSection "C" cited
  obtain ⟨_, named, type, encoded⟩ := types own isOwn
  exact ⟨outputs, compiled, bundle, prints, item, own, isSection, isOwn, cited,
    ((shown item part).2 _ _ cited).1, back, flagged, named, type, encoded⟩

/-- A document with two definitions that refer to nothing. -/
def looseDocument : Document :=
  ⟨"T", "1", [("A", Definitions.linking []), ("B", Definitions.linking [])]⟩

/-- A plan for a bundle with a support module that exports a reference to one definition under the
id of another. -/
def shadowingPlan : Plan where
  method := .bundled
  runtime := .table
    [("./rt.ts", [.inline (.str "B") (.obj [("$ref", .str "#/components/schemas/A")]) {}])]

/-- The compiler for the two definitions. -/
abbrev shadowing : Compiler :=
  new [] looseDocument shadowingPlan {} none {}

/-- A support module may defer a reference although nothing depends on anything, if it exports it
under an id that comes first in the order. The target is not flagged then. -/
theorem support_section_defers_without_cycle :
    shadowingPlan.method = .bundled ∧ shadowingPlan.modules = .table [] ∧
      (∀ id target, ¬ looseDocument.schemas.DependsOn id target) ∧
      looseDocument.schemas.order = .ok [⟨"B", false⟩, ⟨"A", false⟩] ∧
      ∃ outputs, (compile.run shadowing).1.result = .ok outputs ∧
        ∃ bundle : shadowing.Bundle, bundle.Prints outputs ∧
          bundle.sections.flatMap Section.citations =
            [("B", [("A", "S.suspend((): S.Schema<_A, _AEncoded> => A)")]), ("B", []), ("A", [])] ∧
          ∃ item, .definition item ∈ bundle.sections ∧ item.id = "B" ∧
            Text.Within "S.suspend((): S.Schema<_A, _AEncoded> => A)" item.render := by
  have independent : ∀ id target, ¬ looseDocument.schemas.DependsOn id target := by
    rintro id target ⟨schema, targets, member, known, refers⟩
    obtain rfl : schema = Definitions.linking [] := by
      rcases List.mem_cons.mp member with here | later
      · exact (Prod.mk.inj here).2
      · exact (Prod.mk.inj (List.mem_singleton.mp later)).2
    rw [Definitions.linking_nil_dependencies] at known
    cases known
    cases refers
  have ordered : looseDocument.schemas.order = .ok [⟨"B", false⟩, ⟨"A", false⟩] :=
    eq_ok_of_toOption (by decide +kernel)
  obtain ⟨outputs, compiled⟩ : ∃ outputs, (compile.run shadowing).1.result = .ok outputs :=
    exists_of_isOk (by decide +kernel)
  obtain ⟨bundle, prints⟩ := compile_bundle new_remembers rfl compiled
  have cited : bundle.sections.flatMap Section.citations =
      [("B", [("A", "S.suspend((): S.Schema<_A, _AEncoded> => A)")]), ("B", []), ("A", [])] :=
    bundle.read_sections (List.flatMap Section.citations) (by decide +kernel)
  have shown := Section.shown_of_citations (cited ▸ List.mem_cons_self) List.mem_cons_self
  exact ⟨rfl, rfl, independent, ordered, outputs, compiled, bundle, prints, cited, shown⟩

end Compiler

end SchemaPress
