import SchemaPress.Proofs.BundleOrder

/-! Support modules in a bundle. Their sections come first, before anything of the document is
declared, but what they defer is not decided by where they stand: it is decided by the id that a
section is exported under, as for every other section. An id that the document does not define has
no position, and everything counts as declared before it. -/

namespace SchemaPress.Compiler

variable {workingDir : List String} {document : Document} {plan : Plan} {settings : Settings}
  {formatter : Option Formatter} {shell : Shell} {outputs : Table String}

namespace Bundle

variable {compiler : Compiler} (bundle : compiler.Bundle)

/-- If no support module has the path of a definition, the modules of a bundle are the support
modules, followed by the modules of the definitions in their order. -/
theorem modules_of_support (bundled : compiler.plan.method = .bundled)
    (apart : ∀ id ∈ Table.keys compiler.document.schemas,
      ¬ compiler.plan.runtime.Lists (modulePath id)) :
    ∃ support own : Table GeneratedModule, bundle.modules = support ++ own ∧
      (∀ path ∈ Table.keys support, compiler.plan.runtime.Lists path) ∧
      Table.keys own = (bundle.order.map OrderEntry.id).map modulePath := by
  obtain ⟨runtime, isRuntime, kept, paths⟩ := bundle.paths_of_support bundled apart
  obtain ⟨support, own, isModules, isSupport, isOwn⟩ := List.map_eq_append_iff.mp paths
  refine ⟨support, own, isModules, fun path listed => ?_, isOwn⟩
  have listed : path ∈ Table.keys runtime := isSupport ▸ listed
  rcases kept with same | dropped
  · exact ⟨runtime, same ▸ isRuntime, listed⟩
  · rw [dropped] at isRuntime
    cases isRuntime
    cases listed

end Bundle

/-- In a bundle the support modules come before the modules of the definitions, which are in the
order of the definitions. Nevertheless, a reference from a support section to a definition is
suspended exactly if the section is exported under the id of a definition that the target does not
precede; a section that is exported under another id refers to definitions barely. -/
theorem support_references_by_exported_id (bundled : plan.method = .bundled)
    (apart : ∀ id ∈ Table.keys document.schemas, ¬ plan.runtime.Lists (modulePath id))
    (compiled : (compile.run (new workingDir document plan settings formatter shell)).1.result =
      .ok outputs) :
    ∃ (bundle : (new workingDir document plan settings formatter shell).Bundle)
      (support own : Table GeneratedModule) (exports : List Export),
      bundle.Prints outputs ∧ bundle.modules = support ++ own ∧
        (∀ path ∈ Table.keys support, plan.runtime.Lists path) ∧
        (own.flatMap fun entry => entry.2.sections) = exports.map .definition ∧
        exports.map Export.id = bundle.order.map OrderEntry.id ∧
        (exports.map Export.id).Nodup ∧
        (∀ id, id ∈ exports.map Export.id ↔ id ∈ Table.keys document.schemas) ∧
        ∀ entry ∈ support, ∀ item, .definition item ∈ entry.2.sections →
          Text.Within item.code.render item.render ∧
          ∀ target text, (target, text) ∈ item.code.citations →
            Text.Within text item.code.render ∧
            (text = Name.identifier target ∨ text = Name.suspended target) ∧
            (target ∈ Table.keys document.schemas →
              (text = Name.suspended target ↔ item.id ∈ Table.keys document.schemas ∧
                ¬ (exports.map Export.id).idxOf target <
                  (exports.map Export.id).idxOf item.id)) := by
  obtain ⟨bundle, prints⟩ := compile_bundle new_remembers bundled compiled
  obtain ⟨support, own, isModules, listed, isOwn⟩ := bundle.modules_of_support bundled apart
  have inside : own ⊆ bundle.modules := isModules ▸ List.subset_append_right support own
  obtain ⟨exports, isExports, exported⟩ :=
    bundle.exports_of_entries bundled (List.Subset.refl _) inside isOwn
  obtain ⟨distinct, members⟩ := Definitions.order_ids bundle.ordered
  have isIds := bundle.ids_of_exports exported
  rw [← isIds] at distinct members
  refine ⟨bundle, support, own, exports, prints, isModules, listed, isExports, isIds, distinct,
    members, fun entry isSupport item part => ⟨item.code_within, fun target text cited => ?_⟩⟩
  obtain ⟨within, forms⟩ := Export.citation_shown cited
  refine ⟨within, forms, fun defined => ?_⟩
  have part : .definition item ∈ bundle.sections :=
    List.mem_flatMap.mpr ⟨entry, isModules ▸ List.mem_append_left own isSupport, part⟩
  have decided := bundle.suspended_iff part (isIds ▸ (members target).mpr defined) cited
  rw [← isIds] at decided
  exact decided.trans (and_congr_left' (members item.id))

/-- A plan for a bundle with one support module, which refers to one definition under several
ids. -/
def referringPlan (ids : List String) : Plan where
  method := .bundled
  runtime := .table [("./rt.ts", ids.map fun id =>
    .inline (.str id) (.obj [("$ref", .str "#/components/schemas/A")]) {})]

theorem referringPlan_apart (ids : List String) :
    ∀ id ∈ Table.keys looseDocument.schemas,
      ¬ (referringPlan ids).runtime.Lists (modulePath id) := by
  rintro id defined ⟨listing, isListing, listed⟩
  cases isListing
  exact absurd listed ((by decide : ∀ id ∈ ["A", "B"], modulePath id ∉ ["./rt.ts"]) id defined)

/-- The compiler for the two definitions with such a support module. -/
abbrev referring (ids : List String) : Compiler :=
  new [] looseDocument (referringPlan ids) {} none {}

theorem support_references_by_exported_id_referring :
    ∃ outputs, (compile.run (referring ["Extra", "B"])).1.result = .ok outputs ∧
      ∃ (bundle : (referring ["Extra", "B"]).Bundle) (support own : Table GeneratedModule),
        bundle.Prints outputs ∧ bundle.modules = support ++ own ∧
          bundle.sections.flatMap Section.citations =
            [("Extra", [("A", "A")]), ("B", [("A", "S.suspend((): S.Schema<_A, _AEncoded> => A)")]),
              ("B", []), ("A", [])] ∧
          ∀ entry ∈ support, ∀ item, .definition item ∈ entry.2.sections →
            (("A", "S.suspend((): S.Schema<_A, _AEncoded> => A)") ∈ item.code.citations →
              item.id ∈ ["A", "B"]) ∧
            ∀ text, item.id = "Extra" → ("A", text) ∈ item.code.citations → text = "A" := by
  obtain ⟨outputs, compiled⟩ :
      ∃ outputs, (compile.run (referring ["Extra", "B"])).1.result = .ok outputs :=
    exists_of_isOk (by decide +kernel)
  obtain ⟨bundle, support, own, _, prints, isModules, _, _, _, _, _, decided⟩ :=
    support_references_by_exported_id rfl (referringPlan_apart _) compiled
  have defined : "A" ∈ Table.keys looseDocument.schemas := by decide
  refine ⟨outputs, compiled, bundle, support, own, prints, isModules,
    bundle.read_sections (List.flatMap Section.citations) (by decide +kernel),
    fun entry inside item part => ⟨fun cited => ?_, fun text isExtra cited => ?_⟩⟩
  · obtain ⟨_, _, suspended_iff⟩ := (decided entry inside item part).2 _ _ cited
    exact ((suspended_iff defined).mp rfl).1
  · obtain ⟨_, forms, suspended_iff⟩ := (decided entry inside item part).2 _ _ cited
    refine forms.resolve_right fun suspended => ?_
    have known := ((suspended_iff defined).mp suspended).1
    rw [isExtra] at known
    exact absurd known (by decide)

/-- A support section that is exported under an id of its own refers barely to a definition,
although that is declared only after it. -/
theorem support_section_refers_barely :
    (referringPlan ["Extra"]).method = .bundled ∧
      (¬ (referringPlan ["Extra"]).runtime.Lists (modulePath "A") ∧
        ¬ (referringPlan ["Extra"]).runtime.Lists (modulePath "B")) ∧
      Table.keys looseDocument.schemas = ["A", "B"] ∧
      ∃ outputs, (compile.run (referring ["Extra"])).1.result = .ok outputs ∧
        ∃ bundle : (referring ["Extra"]).Bundle, bundle.Prints outputs ∧
          bundle.sections.flatMap Section.citations =
            [("Extra", [("A", "A")]), ("B", []), ("A", [])] := by
  obtain ⟨outputs, compiled⟩ :
      ∃ outputs, (compile.run (referring ["Extra"])).1.result = .ok outputs :=
    exists_of_isOk (by decide +kernel)
  obtain ⟨bundle, prints⟩ := compile_bundle new_remembers rfl compiled
  have apart := referringPlan_apart ["Extra"]
  exact ⟨rfl, ⟨apart "A" (by decide), apart "B" (by decide)⟩, rfl, outputs, compiled, bundle,
    prints, bundle.read_sections (List.flatMap Section.citations) (by decide +kernel)⟩

end SchemaPress.Compiler
