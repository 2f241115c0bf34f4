import SchemaPress.Proofs.CodeSpreads
import SchemaPress.Proofs.CodeTexts

/-! What code shows of the references in its schema. All of them are noted, and all are shown but in
one place: a merged object has the properties of its members, so what a member says about further
properties is noted and not shown. -/

namespace SchemaPress

namespace Schema

/-- A schema shows a definition in its code: it is a reference to the definition, or merges one, or
there is a schema right inside that shows it. -/
inductive Shows (table : Definitions) : Schema → String → Prop where
  | reference {info : Info} {ref : Json} {id : String} (named : target ref = .ok id) :
      Shows table (.reference info ref) id
  | spread {info inner : Info} {members : List Schema} {ref : Json} {id : String}
      (merged : AreMerged table members) (inside : .reference inner ref ∈ members)
      (named : target ref = .ok id) : Shows table (.combined info .allOf members) id
  | inner {schema inside : Schema} {id : String} (emits : Emits table schema inside)
      (shown : Shows table inside id) : Shows table schema id

/-- A schema drops a definition from its code: at some depth there is a merged `allOf` with an
object that mentions the definition in what it says about further properties. -/
inductive Drops (table : Definitions) : Schema → String → Prop where
  | here {info inner : Info} {members : List Schema} {properties : List (String × Schema)}
      {required : List Json} {further : Schema} {headings : Table String} {id : String}
      (merged : AreMerged table members)
      (inside : .object inner properties required (.typed further) headings ∈ members)
      (mentioned : id ∈ further.mentions) : Drops table (.combined info .allOf members) id
  | inner {schema inside : Schema} {id : String} (emits : Emits table schema inside)
      (dropped : Drops table inside id) : Drops table schema id

variable {table : Definitions} {schema : Schema} {id : String}

theorem mem_mentions_reference {info : Info} {ref : Json} :
    id ∈ (reference info ref).mentions ↔ target ref = .ok id := by
  rw [mentions]
  cases target ref <;> simp [Except.toOption, eq_comm]

theorem Shows.mentioned (shown : Shows table schema id) : id ∈ schema.mentions := by
  induction shown with
  | reference named => exact mem_mentions_reference.mpr named
  | spread _ inside named =>
    exact mentions_subset_of_mem inside (mem_mentions_reference.mpr named)
  | inner emits _ ih => exact emits.mentions_subset ih

theorem Drops.mentioned (dropped : Drops table schema id) : id ∈ schema.mentions := by
  induction dropped with
  | here _ inside mentioned =>
    exact mentions_subset_of_mem inside (List.mem_append_left _ mentioned)
  | inner emits _ ih => exact emits.mentions_subset ih

/-- What is found right inside is found in the schema. -/
theorem shown_or_dropped_of_emits {inner : Schema} (emits : Emits table schema inner)
    (found : Shows table inner id ∨ Drops table inner id) :
    Shows table schema id ∨ Drops table schema id :=
  found.imp (.inner emits) (.inner emits)

theorem shown_or_dropped_of_merged {info : Info} {members : List Schema} {member : Schema}
    (merged : AreMerged table members) (inside : member ∈ members)
    (mentioned : id ∈ member.mentions)
    (listed : ∀ property ∈ member.ownProperties, id ∈ property.2.mentions →
      Shows table property.2 id ∨ Drops table property.2 id) :
    Shows table (.combined info .allOf members) id ∨
      Drops table (.combined info .allOf members) id := by
  obtain ⟨inner, ref, _, rfl, _, _⟩ | ⟨inner, properties, required, additional, headings, rfl⟩ :=
    isMergeable_cases (merged.isMergeable member inside)
  · exact .inl (.spread merged inside (mem_mentions_reference.mp mentioned))
  · rcases List.mem_append.mp mentioned with mentioned | mentioned
    · cases additional with
      | unstated | allowed => cases mentioned
      | typed further => exact .inr (.here merged inside mentioned)
    · obtain ⟨property, isProperty, mentioned⟩ := mem_propertyMentions.mp mentioned
      exact shown_or_dropped_of_emits (.merged merged inside isProperty)
        (listed property isProperty mentioned)

/-- What a schema mentions, it shows or drops. -/
theorem mem_mentions_iff (table : Definitions) :
    id ∈ schema.mentions ↔ Shows table schema id ∨ Drops table schema id := by
  refine ⟨fun mentioned => ?_, fun found => found.elim Shows.mentioned Drops.mentioned⟩
  induction schema using emits_induction table with
  | step schema ih =>
    have ofEmitted : ∀ inner, Emits table schema inner → id ∈ inner.mentions →
        Shows table schema id ∨ Drops table schema id :=
      fun inner emits mentioned => shown_or_dropped_of_emits emits (ih inner emits mentioned)
    cases schema with
    | reference => exact .inl (.reference (mem_mentions_reference.mp mentioned))
    | array info items => exact ofEmitted items .items mentioned
    | scalar | unsupported => cases mentioned
    | object info properties required additional headings =>
      rcases List.mem_append.mp mentioned with mentioned | mentioned
      · cases additional with
        | unstated | allowed => cases mentioned
        | typed further => exact ofEmitted further .additional mentioned
      · obtain ⟨property, inside, mentioned⟩ := mem_propertyMentions.mp mentioned
        exact ofEmitted property.2 (.property inside) mentioned
    | combined info combinator members =>
      obtain ⟨member, inside, said⟩ := mem_memberMentions.mp mentioned
      by_cases merged : combinator = .allOf ∧ AreMerged table members
      · obtain ⟨rfl, merged⟩ := merged
        exact shown_or_dropped_of_merged merged inside said fun property listed =>
          ih property.2 (.merged merged inside listed)
      · have telling : member.isVacuous = false := by
          by_contra vacuous
          rw [(member.mentions_of_vacuous (by simpa using vacuous)).1] at said
          cases said
        exact ofEmitted member (.member (not_and.mp merged) inside telling) said

end Schema

section Generation

variable {context : Context} {schema : Schema} {result : Generated} {id : String}

theorem reference_references_iff {info : Info} {ref : Json}
    (generated : ((Schema.reference info ref).generate context).result = .ok result) :
    (∃ deferred, (id, deferred) ∈ result.code.references) ↔ Schema.target ref = .ok id := by
  obtain ⟨other, deferred, named, _, isCode⟩ := reference_generated generated
  rw [isCode, named]
  simp [Expr.references, eq_comm]

/-- The references in code are to what the schema shows. -/
theorem Schema.references_iff (silent : context.overrides.Silent)
    (generated : (schema.generate context).result = .ok result) :
    (∃ deferred, (id, deferred) ∈ result.code.references) ↔ schema.Shows context.table id := by
  constructor
  · rintro ⟨deferred, found⟩
    have ofReference : ∀ {info : Info} {ref : Json},
        (Schema.reference info ref).Has context ((id, deferred) ∈ ·.references) →
        target ref = .ok id := by
      rintro info ref ⟨_, made, found⟩
      exact (reference_references_iff made).mp ⟨deferred, found⟩
    induction schema using Schema.emits_induction context.table generalizing result with
    | step schema ih =>
      have composes := generate_composes (Expr.references_inherited (id, deferred)) silent generated
      cases composes.inherits.mp found with
      | reference here => exact .reference (ofReference here)
      | spread merged inside here => exact .spread merged inside (ofReference here)
      | inner emits there =>
        obtain ⟨other, made, found⟩ := there
        exact .inner emits (ih _ emits made found)
  · intro shown
    have inherits {schema : Schema} {result : Generated} {id : String} (deferred : Bool)
        (generated : (schema.generate context).result = .ok result) :=
      (generate_composes (Expr.references_inherited (id, deferred)) silent generated).inherits
    induction shown generalizing result with
    | reference named => exact (reference_references_iff generated).mpr named
    | spread merged inside named =>
      obtain ⟨other, made⟩ := (generate_intersects generated).member inside rfl
      obtain ⟨deferred, found⟩ := (reference_references_iff made).mpr named
      exact ⟨deferred, (inherits deferred generated).mpr
        (.spread merged inside ⟨other, made, found⟩)⟩
    | inner emits _ ih =>
      obtain ⟨other, made⟩ := emits.generated silent generated
      obtain ⟨deferred, found⟩ := ih made
      exact ⟨deferred, (inherits deferred generated).mpr (.inner emits ⟨other, made, found⟩)⟩

/-- The references of a schema in its code. If a schema has code without overrides, the code notes
what the schema shows or drops, and has references to what it shows and to nothing else; the
identifiers of all these stand in its text. -/
theorem Schema.refs_shown_or_dropped (silent : context.overrides.Silent)
    (generated : (schema.generate context).result = .ok result) (id : String) :
    (id ∈ result.refs ↔ schema.Shows context.table id ∨ schema.Drops context.table id) ∧
      ((∃ deferred, (id, deferred) ∈ result.code.references) ↔ schema.Shows context.table id) ∧
      (schema.Shows context.table id →
        Text.contains result.code.render (Name.identifier id) = true) := by
  have shown : (∃ deferred, (id, deferred) ∈ result.code.references) ↔ _ :=
    Schema.references_iff silent generated
  refine ⟨?_, shown, fun isShown => ?_⟩
  · rw [(schema.generate_refers silent result generated).1, Text.mem_unique,
      mem_mentions_iff context.table]
  · obtain ⟨deferred, found⟩ := shown.mpr isShown
    exact Text.contains_iff.mpr (Expr.identifier_within found)

/-- An `allOf` of two objects, of which one says something about further properties. -/
def enclosing : Schema :=
  let info : Info := ⟨"", .null, .null, false, none, []⟩
  let refer (id : String) : Schema := .reference info (.str (Reference.ofId id))
  .combined info .allOf [.object info [("a", refer "A")] [] (.typed (refer "Value")) [],
    .object info [("b", .array info (refer "B") none none)] [] .unstated []]

theorem enclosing_generated :
    ∃ result, (enclosing.generate { table := [] }).result = .ok result ∧
      result.refs = ["Value", "A", "B"] ∧ result.code.references = [("A", false), ("B", false)] ∧
      Text.contains result.code.render "Value" = false := by
  have seen : (enclosing.generate { table := [] }).result.toOption.map (fun result =>
      (result.refs, result.code.references, Text.contains result.code.render "Value")) =
      some (["Value", "A", "B"], [("A", false), ("B", false)], false) := by
    decide +kernel
  obtain ⟨result, found, isResult⟩ := Option.map_eq_some_iff.mp seen
  obtain ⟨refs, references, missing⟩ : _ ∧ _ ∧ _ := by simpa using isResult
  exact ⟨result, eq_ok_of_toOption found, refs, references, missing⟩

theorem Schema.refs_shown_or_dropped_enclosing :
    ∃ result, (enclosing.generate { table := [] }).result = .ok result ∧
      (enclosing.Shows [] "B" ∧ Text.contains result.code.render "B" = true) ∧
      ("Value" ∈ result.refs ∧ enclosing.Drops [] "Value" ∧ ¬ enclosing.Shows [] "Value") := by
  obtain ⟨result, generated, refs, references, _⟩ := enclosing_generated
  have anywhere := Schema.refs_shown_or_dropped ⟨rfl, rfl, rfl, rfl, rfl⟩ generated
  have shown : enclosing.Shows [] "B" := (anywhere "B").2.1.mp ⟨false, by simp [references]⟩
  have unshown : ¬ enclosing.Shows [] "Value" := by
    rw [← (anywhere "Value").2.1, references]
    simp
  have noted : "Value" ∈ result.refs := by simp [refs]
  have dropped := ((anywhere "Value").1.mp noted).resolve_left unshown
  exact ⟨result, generated, ⟨shown, (anywhere "B").2.2 shown⟩, noted, dropped, unshown⟩

/-- Code notes a reference that its text does not show. -/
theorem Schema.noted_reference_not_in_text :
    ∃ result, (enclosing.generate { table := [] }).result = .ok result ∧
      "Value" ∈ result.refs ∧
      Text.contains result.code.render (Name.identifier "Value") = false := by
  obtain ⟨result, generated, refs, _, missing⟩ := enclosing_generated
  exact ⟨result, generated, by simp [refs], missing⟩

end Generation

end SchemaPress
