import Mathlib.Logic.Relation
import SchemaPress.Proofs.BestEffort
import SchemaPress.Proofs.ObjectShapes

/-! Locality. The module of a definition is a matter of that definition and of what can be reached
from it through references: generation asks the table for nothing else. So documents that agree
there have the same module, or the same failure, whatever else they define and in whichever
order. -/

open Relation

namespace SchemaPress

section Shapes

/-- Whether a schema describes an object is a matter of the answers for the ids it mentions. -/
theorem Schema.isObjectShaped_congr {follow follow' : Json → String → Except Failure Bool}
    (schema : Schema) (same : ∀ ref, ∀ id ∈ schema.mentions, follow ref id = follow' ref id) :
    schema.isObjectShaped follow = schema.isObjectShaped follow' := by
  induction schema using Schema.induction with
  | reference info ref =>
    rw [isObjectShaped, isObjectShaped]
    cases named : Schema.target ref with
    | error failure => rfl
    | ok id => exact same ref id (by simp [Schema.mentions, named, Except.toOption])
  | array | object | scalar | unsupported => rfl
  | combined info combinator members ih =>
    cases combinator with
    | oneOf | anyOf => rfl
    | allOf =>
      rw [isObjectShaped, isObjectShaped]
      have each : ∀ member ∈ members,
          member.isObjectShaped follow = member.isObjectShaped follow' :=
        fun member inside => ih member inside fun ref id mentioned =>
          same ref id (mentions_subset_of_mem inside mentioned)
      clear same ih
      induction members with
      | nil => rfl
      | cons first rest ih =>
        obtain ⟨here, later⟩ := List.forall_mem_cons.mp each
        rw [areObjectShaped, areObjectShaped, here, ih later]

namespace Definitions

variable {first second : Definitions} {known : String → Prop}

/-- A definition refers to the ids that its schema mentions. -/
def Refers (table : Definitions) (id target : String) : Prop :=
  ∃ schema, Table.get? table id = some schema ∧ target ∈ schema.mentions

/-- Two tables agree on a set of ids that definitions with such an id do not lead out of. -/
structure AgreeOn (first second : Definitions) (known : String → Prop) : Prop where
  same : ∀ id, known id → Table.get? first id = Table.get? second id
  closed : ∀ id target, known id → first.Refers id target → known target

/-- Tables that agree on what can be reached from an id agree on a set of ids. -/
theorem agreeOn_reachable {id : String}
    (agree : ∀ target, ReflTransGen first.Refers id target →
      Table.get? first target = Table.get? second target) :
    AgreeOn first second (ReflTransGen first.Refers id) where
  same := agree
  closed _ _ reachable refers := reachable.tail refers

/-- Tables that agree on the ids that a schema can lead to agree on whether it describes an
object. -/
theorem AgreeOn.shape (agree : AgreeOn first second known) (path : List String) (schema : Schema)
    (inside : ∀ id ∈ schema.mentions, known id) :
    first.shape path schema = second.shape path schema := by
  rw [shape_eq, shape_eq]
  refine schema.isObjectShaped_congr fun ref id mentioned => ?_
  have isKnown := inside id mentioned
  unfold followed
  by_cases visited : id ∈ path
  · rw [if_pos visited, if_pos visited]
  · rw [if_neg visited, if_neg visited, ← agree.same id isKnown]
    cases found : Table.get? first id with
    | none => rfl
    | some definition =>
      -- The definition is off the path, so that fewer are left.
      have fewer := unvisited_lt first path id definition visited found
      exact agree.shape (id :: path) definition fun target refers =>
        agree.closed id target isKnown ⟨definition, found, refers⟩
termination_by unvisited first path

theorem AgreeOn.isObjectShaped (agree : AgreeOn first second known) {id : String}
    (isKnown : known id) : first.isObjectShaped id = second.isObjectShaped id := by
  rw [Definitions.isObjectShaped, Definitions.isObjectShaped, ← agree.same id isKnown]
  cases found : Table.get? first id with
  | none => rfl
  | some schema =>
    exact agree.shape [id] schema fun target refers =>
      agree.closed id target isKnown ⟨schema, found, refers⟩

end Definitions

end Shapes

section Code

variable {context : Context} {first second : Definitions}

/-- A schema has the same code, or fails in the same way, whichever of two tables it is generated
with. -/
def Schema.AlikeIn (context : Context) (first second : Definitions) (schema : Schema) : Prop :=
  schema.generate { context with table := first } = schema.generate { context with table := second }

theorem generateMembers_alike {members : List Schema}
    (each : ∀ member ∈ members, member.AlikeIn context first second) :
    generateMembers { context with table := first } members =
      generateMembers { context with table := second } members := by
  induction members with
  | nil => rfl
  | cons member rest ih =>
    obtain ⟨here, later⟩ := List.forall_mem_cons.mp each
    rw [generateMembers, generateMembers, ih later, here]

theorem generateFields_alike {required : List Json} {headings : Table String}
    {properties : List (String × Schema)}
    (each : ∀ property ∈ properties, property.2.AlikeIn context first second) :
    generateFields { context with table := first } required headings properties =
      generateFields { context with table := second } required headings properties := by
  induction properties with
  | nil => rfl
  | cons property rest ih =>
    obtain ⟨here, later⟩ := List.forall_mem_cons.mp each
    rw [generateFields, generateFields, ih later, here]

theorem generateParts_alike {members : List Schema}
    (each : ∀ member ∈ members, ∀ property ∈ member.ownProperties,
      property.2.AlikeIn context first second) (results : List Generated) :
    generateParts { context with table := first } results members =
      generateParts { context with table := second } results members := by
  induction members generalizing results with
  | nil =>
    unfold generateParts
    rfl
  | cons member rest ih =>
    obtain ⟨here, later⟩ := List.forall_mem_cons.mp each
    unfold generateParts
    split
    · exact ih later results
    · cases results with
      | nil => rfl
      | cons result results =>
        cases member with
        | object info properties required additional headings =>
          have listed : ∀ property ∈ properties, property.2.AlikeIn context first second := here
          simp only [generateFields_alike listed, ih later]
        | _ => simp only [ih later]

theorem areMergeable_congr {members : List Schema}
    (same : ∀ id ∈ memberMentions members, first.isObjectShaped id = second.isObjectShaped id) :
    Schema.areMergeable first members = Schema.areMergeable second members := by
  have each : ∀ member ∈ members,
      Schema.isMergeable first member = Schema.isMergeable second member := by
    intro member inside
    cases member with
    | reference info ref =>
      rw [Schema.isMergeable, Schema.isMergeable]
      cases named : Schema.target ref with
      | error failure => rfl
      | ok id =>
        refine same id (mentions_subset_of_mem inside ?_)
        simp [Schema.mentions, named, Except.toOption]
    | _ => rfl
  rw [Schema.areMergeable, Schema.areMergeable, mapM_congr each]

/-- Overrides know nothing of the table. -/
theorem usual_alike {schema : Schema} {usual usual' : Logged Generated} (same : usual = usual') :
    (do
      match ← { context with table := first }.overriding schema with
      | some result => return result
      | none => usual : Logged Generated) =
    (do
      match ← { context with table := second }.overriding schema with
      | some result => return result
      | none => usual' : Logged Generated) := by
  rw [same]
  rfl

theorem generateAlone_alike {additional : Additional}
    (typed : ∀ schema, additional = .typed schema → schema.AlikeIn context first second) :
    additional.generateAlone { context with table := first } =
      additional.generateAlone { context with table := second } := by
  cases additional with
  | unstated => rfl
  | allowed any => cases any <;> rfl
  | typed schema => rw [Additional.generateAlone, Additional.generateAlone, typed schema rfl]

theorem generateFurther_alike {additional : Additional}
    (typed : ∀ schema, additional = .typed schema → schema.AlikeIn context first second) :
    additional.generateFurther { context with table := first } =
      additional.generateFurther { context with table := second } := by
  cases additional with
  | unstated | allowed => rfl
  | typed schema => rw [Additional.generateFurther, Additional.generateFurther, typed schema rfl]

theorem object_alike {info : Info} {properties : List (String × Schema)} {required : List Json}
    {additional : Additional} {headings : Table String}
    (named : ∀ property ∈ properties, property.2.AlikeIn context first second)
    (others : ∀ schema, additional = .typed schema → schema.AlikeIn context first second) :
    (Schema.object info properties required additional headings).AlikeIn context first second := by
  cases properties with
  | nil =>
    refine usual_alike ?_
    rw [generateAlone_alike others]
  | cons property rest =>
    refine usual_alike ?_
    dsimp only
    rw [generateFurther_alike others, generateFields_alike named]

theorem union_alike {info : Info} {combinator : Combinator} {members : List Schema}
    (isUnion : combinator ≠ .allOf)
    (each : ∀ member ∈ members, member.AlikeIn context first second) :
    (Schema.combined info combinator members).AlikeIn context first second := by
  rw [Schema.AlikeIn, generate_union isUnion, generate_union isUnion, generateMembers_alike each]

theorem intersection_alike {info : Info} {members : List Schema}
    (shapes : ∀ id ∈ memberMentions members, first.isObjectShaped id = second.isObjectShaped id)
    (each : ∀ member ∈ members, member.AlikeIn context first second)
    (listed : ∀ member ∈ members, ∀ property ∈ member.ownProperties,
      property.2.AlikeIn context first second) :
    (Schema.combined info .allOf members).AlikeIn context first second := by
  by_cases single : ∃ only, members = [only]
  · obtain ⟨only, rfl⟩ := single
    exact each only List.mem_cons_self
  · have several : ∀ only, members ≠ [only] := not_exists.mp single
    have telling : ∀ member ∈ members.filter fun member => !member.isVacuous,
        member.AlikeIn context first second :=
      fun member inside => each member (List.mem_of_mem_filter inside)
    rw [Schema.AlikeIn, generate_intersection several, generate_intersection several]
    simp only [areMergeable_congr shapes, generateTelling_eq, generateMembers_alike telling,
      generateParts_alike listed]

/-- The code of a schema is a matter of the shapes of the definitions that it mentions. -/
theorem Schema.generate_alike (schema : Schema)
    (same : ∀ id ∈ schema.mentions, first.isObjectShaped id = second.isObjectShaped id) :
    schema.AlikeIn context first second := by
  -- A merged object lists the properties of its members again, so these are carried along.
  suffices both : schema.AlikeIn context first second ∧
      ∀ property ∈ schema.ownProperties, property.2.AlikeIn context first second from both.1
  induction schema using Schema.induction with
  | reference | scalar | unsupported => exact ⟨rfl, List.forall_mem_nil _⟩
  | array info items minItems maxItems ih =>
    refine ⟨?_, List.forall_mem_nil _⟩
    have inner : items.AlikeIn context first second := (ih same).1
    exact congrArg (· >>= _) inner
  | object info properties required additional headings named others =>
    have named : ∀ property ∈ properties, property.2.AlikeIn context first second := by
      intro property inside
      refine (named property inside fun id mentioned => same id ?_).1
      rw [mentions, propertyMentions_eq]
      exact List.mem_append_right _
        (mentions_subset_of_mem (List.mem_map_of_mem inside) mentioned)
    refine ⟨object_alike named fun schema isSchema => ?_, named⟩
    subst isSchema
    exact (others schema rfl fun id mentioned => same id (List.mem_append_left _ mentioned)).1
  | combined info combinator members ih =>
    refine ⟨?_, List.forall_mem_nil _⟩
    have each := fun member (inside : member ∈ members) =>
      ih member inside fun id mentioned => same id (mentions_subset_of_mem inside mentioned)
    by_cases isUnion : combinator = .allOf
    · subst isUnion
      exact intersection_alike same (fun member inside => (each member inside).1)
        fun member inside => (each member inside).2
    · exact union_alike isUnion fun member inside => (each member inside).1

end Code

namespace Generator

variable {workingDir : List String} {first second : Definitions} {known : String → Prop}

/-- The generator that has one module for each definition of a table, in its order, and no order of
declarations. -/
def ofDefinitions (workingDir : List String) (table : Definitions) : Generator :=
  ofOrder workingDir table ((Table.keys table).map .unflagged) fun _ _ => .ok true

theorem find?_unflagged (ids : List String) (ref : String) :
    (ids.map OrderEntry.unflagged).find? (fun entry => entry.id = ref) =
      if ref ∈ ids then some (.unflagged ref) else none := by
  induction ids with
  | nil => rfl
  | cons id rest ih =>
    by_cases same : id = ref
    · simp [OrderEntry.unflagged, same]
    · have other : ¬ ref = id := fun equal => same equal.symm
      simp only [List.map_cons, List.find?_cons, List.mem_cons, other, false_or, ih]
      simp [OrderEntry.unflagged, same]

/-- What is imported for an id is a matter of whether the id is defined. -/
theorem importOf_alike {ref : String} (same : Table.get? first ref = Table.get? second ref)
    (path : String) :
    (ofDefinitions workingDir first).importOf path ref =
      (ofDefinitions workingDir second).importOf path ref := by
  have defined : ref ∈ Table.keys first ↔ ref ∈ Table.keys second := by
    rw [Table.mem_keys_iff, Table.mem_keys_iff, same]
  have located : (ofDefinitions workingDir first).locators.find? (.str ref) =
      (ofDefinitions workingDir second).locators.find? (.str ref) := by
    simp only [ofDefinitions, ofOrder, Locators.find?_ofEntries, find?_unflagged, defined]
  rw [importOf, importOf, located]
  rfl

theorem importsFor_alike {refs : List String}
    (same : ∀ ref ∈ refs, Table.get? first ref = Table.get? second ref) (path : String)
    (directives : List Directive) :
    (ofDefinitions workingDir first).importsFor path directives refs =
      (ofDefinitions workingDir second).importsFor path directives refs := by
  rw [importsFor, importsFor, mapM_congr fun ref inside =>
    importOf_alike (same ref (List.mem_of_mem_filter inside)) path]

theorem generateExport_alike {id : String} {schema : Except Failure Schema}
    (alike : ∀ found, schema = .ok found → found.AlikeIn { table := first } first second)
    (path : String) (declaration : Declaration) :
    (ofDefinitions workingDir first).generateExport path
        (Plan.bundledDirective [] (.unflagged id)) declaration schema =
      (ofDefinitions workingDir second).generateExport path
        (Plan.bundledDirective [] (.unflagged id)) declaration schema := by
  cases schema with
  | error failure => rfl
  | ok found =>
    have coded : found.generate { table := first } = found.generate { table := second } :=
      alike found rfl
    let finish : Generated → Logged (Section × List String) := fun result => do
      let item ← exportOf (Plan.bundledDirective [] (.unflagged id)) declaration result
      return (.definition item, result.refs)
    refine Logged.bind_congr_ok fun _ _ => ?_
    show found.generate { table := first } >>= finish =
      found.generate { table := second } >>= finish
    rw [coded]

/-- The schema of a definition that tables agree on is coded alike. -/
theorem alike_of_agreeOn (agree : first.AgreeOn second known) {id : String} (isKnown : known id)
    {schema : Schema} (found : Table.get? first id = some schema) :
    schema.AlikeIn { table := first } first second :=
  schema.generate_alike fun target mentioned =>
    agree.isObjectShaped (agree.closed id target isKnown ⟨schema, found, mentioned⟩)

theorem generateSection_alike (agree : first.AgreeOn second known) {id : String}
    (isKnown : known id) (path : String) :
    (ofDefinitions workingDir first).generateSection path
        (Plan.bundledDirective [] (.unflagged id)) =
      (ofDefinitions workingDir second).generateSection path
        (Plan.bundledDirective [] (.unflagged id)) := by
  have same : (ofDefinitions workingDir first).schemaOf (.str id) =
      (ofDefinitions workingDir second).schemaOf (.str id) := by
    have looked : (Json.str id).text?.bind (Table.get? (ofDefinitions workingDir first).table) =
        (Json.str id).text?.bind (Table.get? (ofDefinitions workingDir second).table) :=
      agree.same id isKnown
    rw [schemaOf, schemaOf, looked]
  have alike : ∀ found, (ofDefinitions workingDir first).schemaOf (.str id) = .ok found →
      found.AlikeIn { table := first } first second :=
    fun found isFound => alike_of_agreeOn agree isKnown (schemaOf_eq_ok.mp isFound)
  show generateExport _ path _ _ ((ofDefinitions workingDir first).schemaOf (.str id) >>= pure) =
    generateExport _ path _ _ ((ofDefinitions workingDir second).schemaOf (.str id) >>= pure)
  rw [← same, bind_pure]
  exact generateExport_alike alike path _

/-- The code of a definition that tables agree on refers to ids that they agree on. -/
theorem refs_known (agree : first.AgreeOn second known) {id path : String} (isKnown : known id)
    {sections : List Section} {refs : List String}
    (made : ((ofDefinitions workingDir first).generateSections path
      [Plan.bundledDirective [] (.unflagged id)]).result = .ok (sections, refs)) :
    ∀ ref ∈ refs, known ref := by
  obtain ⟨part, found, here, _, rfl⟩ := generateSections_single.mp made
  obtain ⟨_, context, schema, result, _, isTarget, seen, looked, generated, _, _, rfl⟩ :=
    generateExport_eq_ok.mp here
  cases isTarget
  cases seen
  obtain ⟨own, isOwn, looked⟩ := except_bind_eq_ok.mp looked
  cases looked
  obtain ⟨isRefs, _⟩ := schema.generate_refers ⟨rfl, rfl, rfl, rfl, rfl⟩ result generated
  intro ref inside
  rw [Text.mem_unique, isRefs, Text.mem_unique] at inside
  exact agree.closed id ref isKnown ⟨schema, schemaOf_eq_ok.mp isOwn, inside⟩

/-- The module of a definition is generated alike from tables that agree on what it can lead to. -/
theorem generate_alike (agree : first.AgreeOn second known) (distinct : (Table.keys first).Nodup)
    (distinct' : (Table.keys second).Nodup) {id : String} (isKnown : known id)
    (defined : id ∈ Table.keys first) :
    (ofDefinitions workingDir first).generate (modulePath id) =
      (ofDefinitions workingDir second).generate (modulePath id) := by
  have defined' : id ∈ Table.keys second := by
    rwa [Table.mem_keys_iff, ← agree.same id isKnown, ← Table.mem_keys_iff]
  have directives : ∀ {table : Definitions}, (Table.keys table).Nodup → id ∈ Table.keys table →
      Table.get? (ofDefinitions workingDir table).modules (modulePath id) =
        some [Plan.bundledDirective [] (.unflagged id)] := by
    intro table distinct defined
    refine directives_ofOrder ?_ (List.mem_map_of_mem defined)
    rwa [OrderEntry.ids_unflagged]
  have parts : (ofDefinitions workingDir first).generateSections (modulePath id)
        [Plan.bundledDirective [] (.unflagged id)] =
      (ofDefinitions workingDir second).generateSections (modulePath id)
        [Plan.bundledDirective [] (.unflagged id)] := by
    rw [generateSections, generateSections, generateSection_alike agree isKnown]
    rfl
  rw [generate, generate, directives distinct defined, directives distinct' defined']
  dsimp only
  rw [← parts]
  refine Logged.bind_congr_ok fun made isMade => ?_
  have same : ∀ ref ∈ made.2, Table.get? first ref = Table.get? second ref :=
    fun ref inside => agree.same ref (refs_known agree isKnown isMade ref inside)
  simp only [importsFor_alike same]

end Generator

namespace Compiler

variable {workingDir : List String} {document : Document} {settings : Settings}
  {formatter : Option Formatter} {shell : Shell} {bundleName barrel : Json}

theorem Basis.generator_plain (distinct : (Table.keys document.schemas).Nodup)
    (basis : (new workingDir document (.plain .oneToOne bundleName barrel) settings formatter
      shell).Basis) :
    basis.generator = .ofDefinitions workingDir document.schemas := by
  have planned := (Plan.resolve_plain_oneToOne bundleName barrel _ _).symm.trans basis.resolved
  have prepared := basis.prepared
  rw [← Except.ok.inj planned] at prepared
  exact Except.ok.inj (prepared.symm.trans (Generator.ofPlan_plain (unflagged_distinct distinct)))

theorem Basis.modulePath_mem_paths (distinct : (Table.keys document.schemas).Nodup)
    (basis : (new workingDir document (.plain .oneToOne bundleName barrel) settings formatter
      shell).Basis) {id : String} (defined : id ∈ Table.keys document.schemas) :
    modulePath id ∈ basis.paths := by
  rw [paths, basis.generator_plain distinct]
  show _ ∈ Table.keys (Plan.bundledTable [] _)
  rw [Plan.keys_bundledTable, OrderEntry.ids_unflagged]
  exact List.mem_map_of_mem defined

/-- Compiling a module for each definition is modular. If documents of the same title and version
agree on all that can be reached from a definition through references, then under a formatter that
is a function the definition has the same module in both, or the same failure. -/
theorem one_to_one_is_modular {first second : Document} {id : String}
    {print : String → Except Failure String}
    (distinct : (Table.keys first.schemas).Nodup) (distinct' : (Table.keys second.schemas).Nodup)
    (title : first.title = second.title) (version : first.version = second.version)
    (defined : id ∈ Table.keys first.schemas)
    (agree : ∀ target, ReflTransGen first.schemas.Refers id target →
      Table.get? first.schemas target = Table.get? second.schemas target)
    (unbarrelled : barrel.isTruthy = false)
    (computes : (new workingDir first (.plain .oneToOne bundleName barrel) settings formatter
      shell).formatting.Computes print) :
    ∃ outcome,
      (new workingDir first (.plain .oneToOne bundleName barrel) settings formatter shell).Records
        (modulePath id) outcome ∧
      (new workingDir second (.plain .oneToOne bundleName barrel) settings formatter shell).Records
        (modulePath id) outcome := by
  have known : ReflTransGen first.schemas.Refers id id := .refl
  have agreeOn := Definitions.agreeOn_reachable agree
  have defined' : id ∈ Table.keys second.schemas := by
    rwa [Table.mem_keys_iff, ← agree id known, ← Table.mem_keys_iff]
  obtain ⟨basis⟩ : Nonempty (new workingDir first (.plain .oneToOne bundleName barrel) settings
    formatter shell).Basis := exists_basis (Plan.usable_plain _ _ _)
  obtain ⟨basis'⟩ : Nonempty (new workingDir second (.plain .oneToOne bundleName barrel) settings
    formatter shell).Basis := exists_basis (Plan.usable_plain _ _ _)
  have generated : (Generator.ofDefinitions workingDir first.schemas).generate (modulePath id) =
      (Generator.ofDefinitions workingDir second.schemas).generate (modulePath id) :=
    Generator.generate_alike agreeOn distinct distinct' known defined
  have headers : (new workingDir first (.plain .oneToOne bundleName barrel) settings formatter
        shell).separateHeader =
      (new workingDir second (.plain .oneToOne bundleName barrel) settings formatter
        shell).separateHeader := by
    show (if settings.output.addComment.isTruthy then
      some ("Generated from " ++ first.title ++ " version " ++ first.version) else none) = _
    rw [title, version]
    rfl
  have text : basis.textOf (modulePath id) = basis'.textOf (modulePath id) := by
    rw [Basis.textOf, Basis.textOf, basis.generator_plain distinct,
      basis'.generator_plain distinct', Generator.textOf, Generator.textOf, generated, headers]
    rfl
  refine ⟨_, basis.records (.inr ⟨rfl, unbarrelled⟩) computes
    (basis.modulePath_mem_paths distinct defined), ?_⟩
  rw [text]
  exact basis'.records (.inr ⟨rfl, unbarrelled⟩) computes
    (basis'.modulePath_mem_paths distinct' defined')

/-- The document in which one definition has no code, in another order and with another definition
that has none. -/
def shuffledDocument : Document :=
  ⟨"Sundry", "1", [("C", .unsupported ⟨"", .null, .null, false, none, []⟩ "not"),
    ("B", .unsupported ⟨"", .null, .null, false, none, []⟩ "not"),
    ("A", Definitions.linking ["B"])]⟩

theorem sundry_reachable {target : String}
    (reachable : ReflTransGen sundryDocument.schemas.Refers "A" target) :
    target = "A" ∨ target = "B" := by
  have mentions : (Definitions.linking ["B"]).mentions = ["B"] := by decide +kernel
  induction reachable with
  | refl => exact .inl rfl
  | tail _ refers ih =>
    obtain ⟨schema, found, mentioned⟩ := refers
    rcases ih with rfl | rfl
    · obtain rfl : Definitions.linking ["B"] = schema := Option.some.inj found
      rw [mentions] at mentioned
      exact .inr (List.mem_singleton.mp mentioned)
    · obtain rfl : Schema.unsupported ⟨"", .null, .null, false, none, []⟩ "not" = schema :=
        Option.some.inj found
      cases mentioned

theorem one_to_one_is_modular_sundry :
    (∃ outcome, (plainly .oneToOne sundryDocument).Records (modulePath "A") outcome ∧
      (plainly .oneToOne shuffledDocument).Records (modulePath "A") outcome) ∧
      Table.keys (compile.run (plainly .oneToOne sundryDocument)).2.failures = ["./B.ts"] ∧
      Table.keys (compile.run (plainly .oneToOne shuffledDocument)).2.failures =
        ["./C.ts", "./B.ts"] := by
  have anywhere : ∀ first second : Document, (Table.keys first.schemas).Nodup →
      (Table.keys second.schemas).Nodup → first.title = second.title →
      first.version = second.version → "A" ∈ Table.keys first.schemas →
      (∀ target, ReflTransGen first.schemas.Refers "A" target →
        Table.get? first.schemas target = Table.get? second.schemas target) →
      ∃ outcome, (plainly .oneToOne first).Records (modulePath "A") outcome ∧
        (plainly .oneToOne second).Records (modulePath "A") outcome :=
    fun _ _ distinct distinct' title version defined agree =>
      one_to_one_is_modular distinct distinct' title version defined agree rfl
        (Formatting.computes_plain rfl)
  refine ⟨anywhere sundryDocument shuffledDocument (by decide) (by decide) rfl rfl (by decide)
    fun target reachable => ?_, by decide +kernel, by decide +kernel⟩
  rcases sundry_reachable reachable with rfl | rfl <;> rfl

end Compiler

end SchemaPress
