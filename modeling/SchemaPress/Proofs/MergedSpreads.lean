import SchemaPress.Proofs.CodeSpreads
import SchemaPress.Proofs.Strategies

/-! The spreads in a bundle. Only a bare reference has fields to spread, and a reference is bare if
its target stands before the definition whose section it is in. So all spreads of a bundle have
fields exactly if every definition stands behind those that it merges; on a cycle it may not. -/

namespace SchemaPress

/-- What is spread in a section. -/
def Section.spreads : Section → List Expr
  | .literal _ => []
  | .definition item => item.code.spreads

/-- A definition merges another one. -/
def Definitions.Merges (table : Definitions) (id target : String) : Prop :=
  ∃ schema, Table.get? table id = some schema ∧ schema.Merges table target

namespace Compiler

variable {workingDir : List String} {document : Document} {settings : Settings}
  {formatter : Option Formatter} {shell : Shell} {bundleName barrel : Json}

theorem Bundle.depends_of_merges {compiler : Compiler} (bundle : compiler.Bundle)
    {id target : String} (merges : compiler.document.schemas.Merges id target) :
    compiler.document.schemas.DependsOn id target := by
  obtain ⟨schema, found, merges⟩ := merges
  have held := Table.mem_of_get? found
  obtain ⟨_, computed, _⟩ := Definitions.order_eq_ok bundle.ordered
  obtain ⟨targets, known⟩ := Definitions.dependencies_of_addDependents computed held
  exact ⟨schema, targets, held, known,
    (schema.mem_dependencies targets known target).mpr merges.mentioned⟩

/-- What is spread in the section of a definition are the references to what it merges, deferred
unless their targets stand before it. -/
theorem Bundle.mem_spreads_iff
    (bundle : (new workingDir document (.plain .bundled bundleName barrel) settings formatter
      shell).Bundle) {entry : OrderEntry} {item : Export} {source : Expr}
    (member : entry ∈ bundle.order) (exported : bundle.Exports entry item) :
    source ∈ item.code.spreads ↔ ∃ target, document.schemas.Merges item.id target ∧
      source = .reference target (decide ¬ (bundle.order.map OrderEntry.id).idxOf target <
        (bundle.order.map OrderEntry.id).idxOf item.id) := by
  obtain ⟨schema, found, context, result, seen, generated, isCode⟩ := exported.made rfl
  rw [bundle.generator_plain] at seen
  obtain rfl := Except.ok.inj seen
  have members := (Definitions.order_ids bundle.ordered).2
  have defined : item.id ∈ bundle.order.map OrderEntry.id :=
    exported.id ▸ List.mem_map_of_mem member
  rw [← exported.id] at found
  rw [isCode, schema.mem_spreads_iff ⟨rfl, rfl, rfl, rfl, rfl⟩ generated]
  have early : ∀ target, schema.Merges document.schemas target → ∀ deferred,
      standsBefore (bundle.order.map OrderEntry.id) (.str target) (.str item.id) =
        .ok (!deferred) ↔
      deferred = decide ¬ (bundle.order.map OrderEntry.id).idxOf target <
        (bundle.order.map OrderEntry.id).idxOf item.id := by
    intro target merges deferred
    have known := (members target).mpr merges.defined
    rw [standsBefore_str, Except.ok.injEq]
    cases deferred <;> simp [known, defined]
  constructor
  · rintro ⟨target, deferred, merges, seen, rfl⟩
    rw [(early target merges deferred).mp seen]
    exact ⟨target, ⟨schema, found, merges⟩, rfl⟩
  · rintro ⟨target, ⟨other, isOther, merges⟩, rfl⟩
    obtain rfl := Option.some.inj (found.symm.trans isOther)
    exact ⟨target, _, merges, (early target merges _).mpr rfl, rfl⟩

/-- When merged objects spread bare references only. What is spread in a section, at any depth, are
the references to the definitions that are merged somewhere in its definition. All of these are
defined; one is bare if it stands before the definition, and deferred if it does not, in which case
it depends on the definition. So every spread is the bare identifier of its target exactly if every
definition stands behind those that it merges. -/
theorem merged_spreads_bare_iff {outputs : Table String}
    (compiled : (compile.run (new workingDir document (.plain .bundled bundleName barrel) settings
      formatter shell)).1.result = .ok outputs) :
    ∃ (bundle : (new workingDir document (.plain .bundled bundleName barrel) settings formatter
        shell).Bundle) (exports : List Export),
      bundle.Prints outputs ∧ bundle.sections = exports.map .definition ∧
      exports.map Export.id = bundle.order.map OrderEntry.id ∧
      (∀ id, id ∈ exports.map Export.id ↔ id ∈ Table.keys document.schemas) ∧
      (∀ item ∈ exports, ∀ source, source ∈ item.code.spreads ↔
        ∃ target, document.schemas.Merges item.id target ∧ source = .reference target
          (decide ¬ (exports.map Export.id).idxOf target <
            (exports.map Export.id).idxOf item.id)) ∧
      (∀ id target, document.schemas.Merges id target → target ∈ Table.keys document.schemas ∧
        ((exports.map Export.id).idxOf target < (exports.map Export.id).idxOf id ∨
          document.schemas.Reaches target id)) ∧
      ((∀ item ∈ exports, ∀ target deferred, .reference target deferred ∈ item.code.spreads →
        (Expr.reference target deferred).render = Name.identifier target) ↔
        ∀ id target, document.schemas.Merges id target →
          (exports.map Export.id).idxOf target < (exports.map Export.id).idxOf id) := by
  obtain ⟨bundle, prints⟩ := compile_bundle new_remembers rfl compiled
  obtain ⟨exports, isSections, exported⟩ := bundle.exports_of_entries rfl (List.Subset.refl _)
    (List.Subset.refl _) bundle.paths_plain.1
  have isIds := bundle.ids_of_exports exported
  have members := (Definitions.order_ids bundle.ordered).2
  have spreads : ∀ item ∈ exports, ∀ source, source ∈ item.code.spreads ↔
      ∃ target, document.schemas.Merges item.id target ∧ source = .reference target
        (decide ¬ (exports.map Export.id).idxOf target <
          (exports.map Export.id).idxOf item.id) := by
    intro item inside source
    obtain ⟨entry, member, exported⟩ := exists_of_mem_right exported item inside
    rw [isIds]
    exact bundle.mem_spreads_iff member exported
  rw [← isIds] at members
  refine ⟨bundle, exports, prints, isSections, isIds, members, spreads, ?_, ?_, ?_⟩
  · rintro id target ⟨schema, found, merges⟩
    refine ⟨merges.defined, ?_⟩
    by_cases back : document.schemas.Reaches target id
    · exact .inr back
    · rw [isIds]
      exact .inl (Definitions.order_before bundle.ordered
        (bundle.depends_of_merges ⟨schema, found, merges⟩) merges.defined back)
  · rintro bare id target ⟨schema, found, merges⟩
    have defined := Table.mem_keys_of_mem (Table.mem_of_get? found)
    obtain ⟨item, inside, rfl⟩ := List.mem_map.mp ((members id).mpr defined)
    have spread := (spreads item inside _).mpr ⟨target, ⟨schema, found, merges⟩, rfl⟩
    simpa using render_reference_iff.mp (bare item inside _ _ spread)
  · intro ordered item inside target deferred spread
    obtain ⟨other, merges, isSpread⟩ := (spreads item inside _).mp spread
    injection isSpread with isTarget isDeferred
    subst isTarget
    rw [render_reference_iff, isDeferred]
    simpa using ordered item.id target merges

/-- Two definitions on a cycle, of which the first merges the second. -/
def mergingDefinitions : Definitions :=
  let info : Info := ⟨"", .null, .null, false, none, []⟩
  [("A", .combined info .allOf [.reference info (.str (Reference.ofId "B")),
      .object info [("x", .scalar info { kind := .string })] [] .unstated []]),
    ("B", Definitions.linking ["A"])]

/-- The compiler for definitions. -/
abbrev merging (schemas : Definitions) : Compiler :=
  plainly .bundled ⟨"Merging", "1", schemas⟩

theorem merged_spreads_bare_iff_behind :
    ∃ outputs, (compile.run (merging mergingDefinitions.reverse)).1.result = .ok outputs ∧
      ∃ (bundle : (merging mergingDefinitions.reverse).Bundle) (exports : List Export),
        bundle.Prints outputs ∧ bundle.sections = exports.map .definition ∧
        exports.map Export.id = ["B", "A"] ∧
        ∃ item ∈ exports, item.id = "A" ∧ .reference "B" false ∈ item.code.spreads := by
  obtain ⟨outputs, compiled⟩ :
      ∃ outputs, (compile.run (merging mergingDefinitions.reverse)).1.result = .ok outputs :=
    exists_of_isOk (by decide +kernel)
  obtain ⟨bundle, exports, prints, isSections, isIds, _, spreads, _⟩ :=
    merged_spreads_bare_iff compiled
  have ordered : Definitions.order mergingDefinitions.reverse =
      .ok [⟨"B", true⟩, ⟨"A", true⟩] := eq_ok_of_toOption (by decide +kernel)
  have isIds : exports.map Export.id = ["B", "A"] := by
    rw [isIds, Except.ok.inj (bundle.ordered.symm.trans ordered)]
    rfl
  obtain ⟨item, inside, isId⟩ : ∃ item ∈ exports, item.id = "A" :=
    List.mem_map.mp (isIds ▸ by decide)
  refine ⟨outputs, compiled, bundle, exports, prints, isSections, isIds, item, inside, isId,
    (spreads item inside _).mpr ⟨"B", ?_, ?_⟩⟩
  · rw [isId]
    refine ⟨_, rfl, .here ⟨by decide, eq_ok_of_toOption (by decide +kernel)⟩ List.mem_cons_self ?_⟩
    exact eq_ok_of_toOption (by decide +kernel)
  · rw [isIds, isId]
    rfl

/-- A merged object may spread a deferred reference, which has no fields. -/
theorem deferred_reference_spread :
    ∃ outputs, (compile.run (merging mergingDefinitions)).1.result = .ok outputs ∧
      ∃ bundle : (merging mergingDefinitions).Bundle, bundle.Prints outputs ∧
        bundle.sections.map (fun part => part.spreads.map Expr.render) =
          [["S.suspend((): S.Schema<_B, _BEncoded> => B)"], []] := by
  obtain ⟨outputs, compiled⟩ :
      ∃ outputs, (compile.run (merging mergingDefinitions)).1.result = .ok outputs :=
    exists_of_isOk (by decide +kernel)
  obtain ⟨bundle, prints⟩ := compile_bundle new_remembers rfl compiled
  exact ⟨outputs, compiled, bundle, prints,
    bundle.read_sections (List.map fun part => part.spreads.map Expr.render) (by decide +kernel)⟩

end Compiler

end SchemaPress
