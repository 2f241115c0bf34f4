import SchemaPress.Module.Generate
import SchemaPress.Proofs.CodeReferences

/-! The sections of generated modules. A module has one section for each of its directives, and the
code in a section is that of one schema, with references as they are seen from the id that the
section is exported under. -/

namespace SchemaPress

/-- The references in a section, each with whether it is deferred. -/
def Section.references : Section → List (String × Bool)
  | .literal _ => []
  | .definition item => item.code.references

namespace Generator

variable {generator : Generator} {path : String} {directive : Directive}
  {declaration : Declaration} {item : Export}

/-- The code of exports is the code of a schema, with references as they are seen from the id of the
exports. -/
def Codes (generator : Generator) (item : Export) (schema : Schema) : Prop :=
  ∃ context result, generator.contextFor (.str item.id) = .ok context ∧
    (schema.generate context).result = .ok result ∧ item.code = result.code

/-- A reference in exports is bare exactly if its target is declared before them. -/
theorem Codes.traced {schema : Schema} {found : String × Bool} (codes : generator.Codes item schema)
    (member : found ∈ item.code.references) :
    generator.isBefore found.1 (.str item.id) = .ok (!found.2) ∧
      ∀ targets, schema.dependencies = .ok targets → found.1 ∈ targets := by
  obtain ⟨context, result, seen, generated, isCode⟩ := codes
  rw [isCode] at member
  have traced := schema.generate_traceable result generated found member
  obtain ⟨overrides, _, seen⟩ := except_bind_eq_ok.mp seen
  cases seen
  exact traced

/-- A directive has exports if and only if it is exported under a text, its schema is found and has
code, and the documentation of the schema can be written as comments. -/
theorem generateExport_eq_ok {schema : Except Failure Schema} {part : Section}
    {refs : List String} :
    (generator.generateExport path directive declaration schema).result = .ok (part, refs) ↔
      ∃ id context found result comments, directive.target = .str id ∧
        generator.contextFor (.str id) = .ok context ∧ schema = .ok found ∧
        (found.generate context).result = .ok result ∧ result.docs.comments = .ok comments ∧
        part = .definition ⟨id, directive.source, result.code, comments, declaration⟩ ∧
        refs = result.refs := by
  constructor
  · intro made
    obtain ⟨_, _, made⟩ := Logged.bind_eq_ok.mp made
    obtain ⟨context, seen, made⟩ := Logged.bind_eq_ok.mp made
    obtain ⟨found, isFound, made⟩ := Logged.bind_eq_ok.mp made
    obtain ⟨result, generated, made⟩ := Logged.bind_eq_ok.mp made
    obtain ⟨item, exported, made⟩ := Logged.bind_eq_ok.mp made
    cases made
    rw [Logged.result_lift] at seen isFound exported
    unfold exportOf at exported
    split at exported
    · rename_i id isTarget
      obtain ⟨comments, isComments, exported⟩ := except_bind_eq_ok.mp exported
      cases exported
      rw [isTarget] at seen
      exact ⟨id, context, found, result, comments, isTarget, seen, isFound, generated, isComments,
        rfl, rfl⟩
    · cases exported
  · rintro ⟨id, context, found, result, comments, isTarget, seen, rfl, generated, isComments, rfl,
      rfl⟩
    refine Logged.bind_eq_ok.mpr ⟨(), rfl, ?_⟩
    refine Logged.bind_eq_ok.mpr ⟨context, isTarget ▸ seen, ?_⟩
    refine Logged.bind_eq_ok.mpr ⟨found, rfl, ?_⟩
    refine Logged.bind_eq_ok.mpr ⟨result, generated, ?_⟩
    refine Logged.bind_eq_ok.mpr ⟨_, ?_, rfl⟩
    rw [Logged.result_lift, exportOf, isTarget, isComments]
    rfl

theorem generateExport_ok {schema : Except Failure Schema} {part : Section} {refs : List String}
    (made : (generator.generateExport path directive declaration schema).result =
      .ok (part, refs)) :
    ∃ item found, part = .definition item ∧ directive.target = .str item.id ∧
      item.declaration = declaration ∧ schema = .ok found ∧ generator.Codes item found := by
  obtain ⟨id, context, found, result, comments, isTarget, seen, isFound, generated, _, rfl, _⟩ :=
    generateExport_eq_ok.mp made
  exact ⟨_, found, rfl, isTarget, rfl, isFound, context, result, seen, generated, rfl⟩

theorem generateSection_definition {refs : List String}
    (made : (generator.generateSection path directive).result = .ok (.definition item, refs)) :
    ∃ schema, generator.Codes item schema := by
  unfold generateSection at made
  split at made
  · obtain ⟨_, _, made⟩ := Logged.bind_eq_ok.mp made
    cases made
  all_goals
    obtain ⟨_, found, isItem, _, _, _, codes⟩ := generateExport_ok made
    cases isItem
    exact ⟨found, codes⟩

/-- Directives have a section each, and the ids that these refer to are noted at their first
occurrence. -/
theorem generateSections_parts {directives : List Directive} {sections : List Section}
    {refs : List String}
    (made : (generator.generateSections path directives).result = .ok (sections, refs)) :
    ∃ parts, List.Forall₂ (fun directive part =>
        (generator.generateSection path directive).result = .ok part) directives parts ∧
      sections = parts.map Prod.fst ∧ refs = Text.unique (parts.flatMap Prod.snd) := by
  induction directives generalizing sections refs with
  | nil =>
    cases made
    exact ⟨[], .nil, rfl, rfl⟩
  | cons directive rest ih =>
    obtain ⟨⟨first, firstRefs⟩, here, made⟩ := Logged.bind_eq_ok.mp made
    obtain ⟨⟨others, otherRefs⟩, later, made⟩ := Logged.bind_eq_ok.mp made
    obtain ⟨parts, each, rfl, rfl⟩ := ih later
    cases made
    exact ⟨(first, firstRefs) :: parts, .cons here each, rfl,
      Text.unique_append_congr rfl (Text.unique_unique _)⟩

theorem generateSections_ok {directives : List Directive} {sections : List Section}
    {refs : List String}
    (made : (generator.generateSections path directives).result = .ok (sections, refs)) :
    List.Forall₂ (fun directive part => ∃ refs,
      (generator.generateSection path directive).result = .ok (part, refs))
      directives sections := by
  obtain ⟨parts, each, rfl, _⟩ := generateSections_parts made
  exact List.forall₂_map_right_iff.mpr (each.imp fun _ part made => ⟨part.2, made⟩)

/-- A module is made of the sections of its directives, and of imports for what they refer to. -/
theorem generate_eq_ok {module : GeneratedModule} :
    (generator.generate path).result = .ok module ↔
      ∃ directives refs, Table.get? generator.modules path = some directives ∧
        (generator.generateSections path directives).result = .ok (module.sections, refs) ∧
        generator.importsFor path directives refs = .ok module.imports := by
  constructor
  · intro made
    unfold generate at made
    split at made
    · exact absurd made Logged.throw_ne_ok
    · rename_i directives found
      obtain ⟨⟨sections, refs⟩, parts, made⟩ := Logged.bind_eq_ok.mp made
      obtain ⟨imports, imported, made⟩ := Logged.bind_eq_ok.mp made
      cases made
      exact ⟨directives, refs, found, parts, imported⟩
  · rintro ⟨directives, refs, found, parts, imported⟩
    unfold generate
    rw [found]
    refine Logged.bind_eq_ok.mpr ⟨_, parts, ?_⟩
    exact Logged.bind_eq_ok.mpr ⟨_, imported, rfl⟩

/-- A generated module has a section for each of its directives. -/
theorem generate_ok {module : GeneratedModule}
    (made : (generator.generate path).result = .ok module) :
    ∃ directives, Table.get? generator.modules path = some directives ∧
      List.Forall₂ (fun directive part => ∃ refs,
        (generator.generateSection path directive).result = .ok (part, refs))
        directives module.sections := by
  obtain ⟨directives, refs, found, parts, _⟩ := generate_eq_ok.mp made
  exact ⟨directives, found, generateSections_ok parts⟩

theorem generate_definition {module : GeneratedModule}
    (made : (generator.generate path).result = .ok module)
    (member : .definition item ∈ module.sections) : ∃ schema, generator.Codes item schema := by
  obtain ⟨directives, _, parts⟩ := generate_ok made
  obtain ⟨directive, _, refs, part⟩ := exists_of_mem_right parts _ member
  exact generateSection_definition part

/-- The module of a definition has one section. It is made from the schema of the definition unless
the directive names another one or curates its fields. -/
theorem generate_single {module : GeneratedModule} {id : String} {source fields : Json}
    (found : Table.get? generator.modules path =
      some [.generate (.str id) source declaration fields])
    (made : (generator.generate path).result = .ok module) :
    ∃ item schema, module.sections = [.definition item] ∧ item.id = id ∧
      item.declaration = declaration ∧ generator.Codes item schema ∧
      (source = .null → fields = .null → Table.get? generator.table id = some schema) := by
  obtain ⟨directives, same, parts⟩ := generate_ok made
  rw [found] at same
  cases same
  obtain ⟨part, rest, ⟨refs, part⟩, others, isSections⟩ := List.forall₂_cons_left_iff.mp parts
  obtain rfl := List.forall₂_nil_left_iff.mp others
  obtain ⟨item, schema, rfl, isTarget, isDeclared, looked, codes⟩ := generateExport_ok part
  cases isTarget
  refine ⟨item, schema, isSections, rfl, isDeclared, codes, ?_⟩
  rintro rfl rfl
  obtain ⟨own, isOwn, looked⟩ := except_bind_eq_ok.mp looked
  cases looked
  unfold schemaOf at isOwn
  split at isOwn
  · rename_i held
    cases isOwn
    exact held
  · cases isOwn

end Generator

end SchemaPress
