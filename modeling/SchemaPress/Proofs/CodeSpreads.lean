import SchemaPress.Proofs.Mentions

/-! What generated code has from the schemas inside, and what is spread in it. The code of a schema
is composed of the code of the schemas right inside, so a property of code can be traced through the
schema. One such property is to spread a reference: an `allOf` of objects is merged into one object,
in which a reference is spread to the fields of its target. A spread may stand at any depth; each is
a reference to a definition that is merged somewhere in the schema, and there is one for each. -/

namespace SchemaPress

mutual

/-- What is spread in code, at any depth. -/
def Expr.spreads : Expr → List Expr
  | .verbatim _ | .filtered _ _ | .constants _ | .reference _ _ => []
  | .array items _ => items.spreads
  | .record value => value.spreads
  | .struct fields none => fieldSpreads fields
  | .struct fields (some further) => fieldSpreads fields ++ further.spreads
  | .merged parts => partSpreads parts
  | .extended members | .union members => memberSpreads members

/-- What is spread in the types of fields. -/
def fieldSpreads : List (Field Expr) → List Expr
  | [] => []
  | ⟨_, _, _, _, type⟩ :: rest => type.spreads ++ fieldSpreads rest

/-- What is spread in the parts of a merged object. -/
def partSpreads : List Part → List Expr
  | [] => []
  | part :: rest => part.spreads ++ partSpreads rest

/-- What is spread in a part of a merged object, and what that spreads itself. -/
def Part.spreads : Part → List Expr
  | .spread _ source => source :: source.spreads
  | .fields _ fields => fieldSpreads fields

/-- What is spread in the members of a list of schemas. -/
def memberSpreads : List (Commented Expr) → List Expr
  | [] => []
  | ⟨_, item⟩ :: rest => item.spreads ++ memberSpreads rest

end

section Membership

variable {source : Expr}

theorem mem_fieldSpreads {fields : List (Field Expr)} :
    source ∈ fieldSpreads fields ↔ ∃ field ∈ fields, source ∈ field.type.spreads := by
  induction fields with
  | nil => simp [fieldSpreads]
  | cons field rest ih => simp [fieldSpreads, ih]

theorem mem_partSpreads {parts : List Part} :
    source ∈ partSpreads parts ↔ ∃ part ∈ parts, source ∈ part.spreads := by
  induction parts with
  | nil => simp [partSpreads]
  | cons part rest ih => simp [partSpreads, ih]

theorem mem_memberSpreads {members : List (Commented Expr)} :
    source ∈ memberSpreads members ↔ ∃ member ∈ members, source ∈ member.item.spreads := by
  induction members with
  | nil => simp [memberSpreads]
  | cons member rest ih => simp [memberSpreads, ih]

end Membership

namespace Schema

/-- The members of an `allOf` are merged: there are several that say something, and all of them have
fields. -/
structure AreMerged (table : Definitions) (members : List Schema) : Prop where
  several : 2 ≤ (members.filter fun member => !member.isVacuous).length
  mergeable : areMergeable table members = .ok true

/-- The schemas right inside a schema that its code is made from. Of a member that is merged, these
are the properties only; a member that says nothing has nothing inside. -/
inductive Emits (table : Definitions) : Schema → Schema → Prop where
  | items {info : Info} {items : Schema} {minItems maxItems : Option Int} :
      Emits table (.array info items minItems maxItems) items
  | property {info : Info} {properties : List (String × Schema)} {required : List Json}
      {additional : Additional} {headings : Table String} {property : String × Schema}
      (inside : property ∈ properties) :
      Emits table (.object info properties required additional headings) property.2
  | additional {info : Info} {properties : List (String × Schema)} {required : List Json}
      {schema : Schema} {headings : Table String} :
      Emits table (.object info properties required (.typed schema) headings) schema
  | member {info : Info} {combinator : Combinator} {members : List Schema} {member : Schema}
      (unmerged : combinator = .allOf → ¬ AreMerged table members) (inside : member ∈ members)
      (telling : member.isVacuous = false) : Emits table (.combined info combinator members) member
  | merged {info : Info} {members : List Schema} {member : Schema} {property : String × Schema}
      (merged : AreMerged table members) (inside : member ∈ members)
      (listed : property ∈ member.ownProperties) :
      Emits table (.combined info .allOf members) property.2

/-- A schema merges a definition: at some depth there is a merged `allOf` with a reference to the
definition as a member. -/
inductive Merges (table : Definitions) : Schema → String → Prop where
  | here {info inner : Info} {members : List Schema} {ref : Json} {id : String}
      (merged : AreMerged table members) (inside : .reference inner ref ∈ members)
      (named : target ref = .ok id) : Merges table (.combined info .allOf members) id
  | inner {schema inside : Schema} {id : String} (emits : Emits table schema inside)
      (merges : Merges table inside id) : Merges table schema id

variable {table : Definitions}

/-- Induction over a schema along the schemas that its code is made from. -/
@[elab_as_elim]
theorem emits_induction (table : Definitions) {motive : Schema → Prop}
    (step : ∀ schema, (∀ inner, Emits table schema inner → motive inner) → motive schema)
    (schema : Schema) : motive schema := by
  -- A merged object is made from the properties of its members, so these are carried along.
  suffices both : motive schema ∧ ∀ property ∈ schema.ownProperties, motive property.2 from both.1
  induction schema using Schema.induction with
  | reference | scalar | unsupported =>
    refine ⟨step _ fun inner emits => ?_, List.forall_mem_nil _⟩
    cases emits
  | array info items minItems maxItems ih =>
    refine ⟨step _ fun inner emits => ?_, List.forall_mem_nil _⟩
    cases emits
    exact ih.1
  | object info properties required additional headings named others =>
    refine ⟨step _ fun inner emits => ?_, fun property inside => (named property inside).1⟩
    cases emits with
    | property inside => exact (named _ inside).1
    | additional => exact (others inner rfl).1
  | combined info combinator members ih =>
    refine ⟨step _ fun inner emits => ?_, List.forall_mem_nil _⟩
    cases emits with
    | member _ inside _ => exact (ih inner inside).1
    | merged _ inside listed => exact (ih _ inside).2 _ listed

theorem Emits.mentions_subset {schema inner : Schema} (emits : Emits table schema inner) :
    inner.mentions ⊆ schema.mentions := by
  have ofProperties : ∀ {properties : List (String × Schema)} {property : String × Schema},
      property ∈ properties → property.2.mentions ⊆ propertyMentions properties :=
    fun inside _ mentioned => mem_propertyMentions.mpr ⟨_, inside, mentioned⟩
  cases emits with
  | items => exact List.Subset.refl _
  | property inside =>
    exact List.Subset.trans (ofProperties inside) (List.subset_append_right _ _)
  | additional => exact List.subset_append_left _ _
  | member _ inside _ => exact mentions_subset_of_mem inside
  | @merged _ members member property _ inside listed =>
    refine List.Subset.trans ?_ (mentions_subset_of_mem inside)
    cases member with
    | object =>
      exact List.Subset.trans (ofProperties listed) (List.subset_append_right _ _)
    | _ => cases listed

/-- What a schema merges, it mentions. -/
theorem Merges.mentioned {schema : Schema} {id : String} (merges : Merges table schema id) :
    id ∈ schema.mentions := by
  induction merges with
  | here _ inside named =>
    refine mentions_subset_of_mem inside ?_
    simp [mentions, named, Except.toOption]
  | inner emits _ ih => exact emits.mentions_subset ih

/-- A member that has fields is a reference to an object, or an object itself. -/
theorem isMergeable_cases {member : Schema} (mergeable : isMergeable table member = .ok true) :
    (∃ info ref id, member = .reference info ref ∧ target ref = .ok id ∧
      table.isObjectShaped id = .ok true) ∨
    ∃ info properties required additional headings,
      member = .object info properties required additional headings := by
  cases member with
  | reference info ref =>
    obtain ⟨id, named, shaped⟩ := except_bind_eq_ok.mp mergeable
    exact .inl ⟨info, ref, id, rfl, named, shaped⟩
  | object => exact .inr ⟨_, _, _, _, _, rfl⟩
  | _ => cases mergeable

/-- A yes for all members is a yes for each. -/
theorem areMergeable_iff {members : List Schema} {answer : Bool}
    (asked : areMergeable table members = .ok answer) :
    answer = true ↔ ∀ member ∈ members, isMergeable table member = .ok true := by
  obtain ⟨answers, asked, all⟩ := except_bind_eq_ok.mp asked
  have each := mapM_eq_ok.mp asked
  obtain rfl : answers.all id = answer := Except.ok.inj all
  rw [List.all_eq_true]
  constructor
  · intro yes member inside
    obtain ⟨own, isOwn, asked⟩ := exists_of_mem_right each.flip member inside
    exact asked.trans (congrArg Except.ok (yes own isOwn))
  · intro yes own isOwn
    obtain ⟨member, inside, asked⟩ := exists_of_mem_right each own isOwn
    exact Except.ok.inj (asked.symm.trans (yes member inside))

theorem AreMerged.isMergeable {members : List Schema} (merged : AreMerged table members) :
    ∀ member ∈ members, isMergeable table member = .ok true :=
  (areMergeable_iff merged.mergeable).mp rfl

/-- What is merged is defined. -/
theorem Merges.defined {schema : Schema} {id : String} (merges : Merges table schema id) :
    id ∈ Table.keys table := by
  induction merges with
  | here merged inside named =>
    obtain ⟨_, _, other, isReference, isTarget, shaped⟩ | ⟨_, _, _, _, _, isObject⟩ :=
      isMergeable_cases (merged.isMergeable _ inside)
    · cases isReference
      obtain rfl := Except.ok.inj (named.symm.trans isTarget)
      by_contra absent
      rw [Definitions.isObjectShaped, Table.get?_of_not_mem absent] at shaped
      cases shaped
    · cases isObject
  | inner _ _ ih => exact ih

end Schema

section Inheritance

theorem Expr.spreads_inherited (source : Expr) :
    Inherited (source ∈ ·.spreads) (fun code => source = code ∨ source ∈ code.spreads) where
  atom := by
    intro code atom
    cases code with
    | verbatim | filtered | constants => simp [Expr.spreads]
    | _ => cases atom
  array := by simp [Expr.spreads]
  record := by simp [Expr.spreads]
  struct := by
    intro fields further
    cases further <;> simp [Expr.spreads, mem_fieldSpreads]
  merged := by
    intro parts
    rw [Expr.spreads, mem_partSpreads]
    refine exists_congr fun part => and_congr_right fun _ => ?_
    cases part <;> simp [Part.spreads, Part.Passes, mem_fieldSpreads]
  extended := by simp [Expr.spreads, mem_memberSpreads]
  union := by simp [Expr.spreads, mem_memberSpreads]

variable {context : Context} {has spread : Expr → Prop} {result : Generated}

/-- Where the code of a schema has a property from: it is a reference with the property, or spreads
one that is merged right here, or a schema right inside has the property. -/
inductive Schema.Inherits (context : Context) (has spread : Expr → Prop) : Schema → Prop where
  | reference {info : Info} {ref : Json} (here : (reference info ref).Has context has) :
      Inherits context has spread (.reference info ref)
  | spread {info inner : Info} {members : List Schema} {ref : Json}
      (merged : AreMerged context.table members) (inside : .reference inner ref ∈ members)
      (here : (Schema.reference inner ref).Has context spread) :
      Inherits context has spread (.combined info .allOf members)
  | inner {schema inside : Schema} (emits : Emits context.table schema inside)
      (there : inside.Has context has) : Inherits context has spread schema

/-- What the code of a schema shows of the schemas right inside: they have code themselves, and the
code has exactly those properties that are to be found right here or right inside. -/
structure Schema.Composes (context : Context) (has spread : Expr → Prop) (schema : Schema)
    (result : Generated) : Prop where
  made : ∀ inner, Emits context.table schema inner →
    ∃ result, (inner.generate context).result = .ok result
  inherits : has result.code ↔ schema.Inherits context has spread

theorem reference_generated {info : Info} {ref : Json}
    (generated : ((Schema.reference info ref).generate context).result = .ok result) :
    ∃ id deferred, Schema.target ref = .ok id ∧ context.isBefore id = .ok (!deferred) ∧
      result.code = .reference id deferred := by
  obtain ⟨id, named, generated⟩ := Logged.bind_eq_ok.mp generated
  obtain ⟨before, isBefore, generated⟩ := Logged.bind_eq_ok.mp generated
  cases generated
  exact ⟨id, !before, named, by simpa using isBefore, rfl⟩

theorem reference_composes {info : Info} {ref : Json}
    (generated : ((Schema.reference info ref).generate context).result = .ok result) :
    (Schema.reference info ref).Composes context has spread result := by
  refine ⟨fun inner emits => ?_, fun here => .reference ⟨result, generated, here⟩, ?_⟩
  · cases emits
  · rintro (here | _ | emits)
    · exact (Schema.has_iff generated).mp here
    · cases emits

theorem array_composes {info : Info} {items : Schema} {minItems maxItems : Option Int}
    (inherited : Expr.Inherited has spread)
    (generated : ((Schema.array info items minItems maxItems).generate context).result =
      .ok result) :
    (Schema.array info items minItems maxItems).Composes context has spread result := by
  obtain ⟨inner, made, generated⟩ := Logged.bind_eq_ok.mp generated
  cases generated
  refine ⟨fun other emits => ?_, ?_⟩
  · cases emits
    exact ⟨inner, made⟩
  · rw [inherited.array]
    constructor
    · exact fun there => .inner .items ⟨inner, made, there⟩
    · rintro (_ | _ | ⟨emits, there⟩)
      cases emits
      exact (Schema.has_iff made).mp there

theorem scalar_composes {info : Info} {scalar : Scalar} (inherited : Expr.Inherited has spread)
    (silent : context.overrides.Silent)
    (generated : ((Schema.scalar info scalar).generate context).result = .ok result) :
    (Schema.scalar info scalar).Composes context has spread result := by
  have generated := usual_of_silent silent generated
  obtain ⟨⟨code, refs⟩, made, generated⟩ := Logged.bind_eq_ok.mp generated
  cases generated
  refine ⟨fun inner emits => ?_, ?_⟩
  · cases emits
  · refine iff_of_false (inherited.atom (scalar_isAtom made)) ?_
    rintro (_ | _ | emits)
    cases emits

theorem inherits_object_iff {info : Info} {properties : List (String × Schema)}
    {required : List Json} {additional : Additional} {headings : Table String} :
    (Schema.object info properties required additional headings).Inherits context has spread ↔
      (∃ property ∈ properties, property.2.Has context has) ∨
      ∃ schema, additional = .typed schema ∧ schema.Has context has := by
  constructor
  · rintro (_ | _ | ⟨emits, there⟩)
    cases emits with
    | property inside => exact .inl ⟨_, inside, there⟩
    | additional => exact .inr ⟨_, rfl, there⟩
  · rintro (⟨property, inside, there⟩ | ⟨schema, rfl, there⟩)
    · exact .inner (.property inside) there
    · exact .inner .additional there

theorem object_composes {info : Info} {properties : List (String × Schema)} {required : List Json}
    {additional : Additional} {headings : Table String} (inherited : Expr.Inherited has spread)
    (silent : context.overrides.Silent)
    (generated : ((Schema.object info properties required additional headings).generate
      context).result = .ok result) :
    (Schema.object info properties required additional headings).Composes context has spread
      result := by
  cases properties with
  | nil =>
    have generated := usual_of_silent silent generated
    obtain ⟨⟨code, refs⟩, made, generated⟩ := Logged.bind_eq_ok.mp generated
    cases generated
    constructor
    · intro inner emits
      cases emits with
      | property inside => cases inside
      | additional =>
        obtain ⟨result, made, _⟩ := Logged.bind_eq_ok.mp made
        exact ⟨result, made⟩
    · rw [inherits_object_iff, generateAlone_has inherited made]
      simp
  | cons first rest =>
    have generated := usual_of_silent silent generated
    obtain ⟨⟨further, furtherRefs⟩, made, generated⟩ := Logged.bind_eq_ok.mp generated
    obtain ⟨⟨fields, refs⟩, listed, generated⟩ := Logged.bind_eq_ok.mp generated
    cases generated
    constructor
    · intro inner emits
      cases emits with
      | property inside =>
        obtain ⟨_, _, result, made, _⟩ :=
          exists_of_mem_right (generateFields_ok listed).flip _ inside
        exact ⟨result, made⟩
      | additional =>
        obtain ⟨result, made, _⟩ := Logged.bind_eq_ok.mp made
        exact ⟨result, made⟩
    · rw [inherits_object_iff, inherited.struct, generateFurther_has _ made,
        generateFields_has _ listed]

/-- The code of a member that says nothing has nothing to inherit. -/
theorem not_has_of_vacuous {member : Schema} (inherited : Expr.Inherited has spread)
    (silent : context.overrides.Silent) (vacuous : member.isVacuous = true) :
    ¬ member.Has context has := by
  rintro ⟨result, generated, there⟩
  unfold Schema.isVacuous at vacuous
  split at vacuous
  · simpa [inherits_object_iff] using (object_composes inherited silent generated).inherits.mp there
  · simpa [inherits_object_iff] using (object_composes inherited silent generated).inherits.mp there
  · cases vacuous

/-- What members have, those have that say something. -/
theorem telling_has_iff {members : List Schema} (inherited : Expr.Inherited has spread)
    (silent : context.overrides.Silent) :
    (∃ member ∈ members.filter fun member => !member.isVacuous, member.Has context has) ↔
      ∃ member ∈ members, member.Has context has := by
  constructor
  · rintro ⟨member, telling, there⟩
    exact ⟨member, List.mem_of_mem_filter telling, there⟩
  · rintro ⟨member, inside, there⟩
    have telling : member.isVacuous = false := by
      by_contra vacuous
      exact not_has_of_vacuous inherited silent (by simpa using vacuous) there
    exact ⟨member, Schema.mem_telling inside telling, there⟩

theorem inherits_members_iff {info : Info} {combinator : Combinator} {members : List Schema}
    (unmerged : combinator = .allOf → ¬ Schema.AreMerged context.table members) :
    (Schema.combined info combinator members).Inherits context has spread ↔
      ∃ member ∈ members.filter fun member => !member.isVacuous, member.Has context has := by
  constructor
  · rintro (_ | ⟨merged, _, _⟩ | ⟨emits, there⟩)
    · exact absurd merged (unmerged rfl)
    · cases emits with
      | member _ inside telling =>
        exact ⟨_, Schema.mem_telling inside telling, there⟩
      | merged merged _ _ => exact absurd merged (unmerged rfl)
  · rintro ⟨member, inside, there⟩
    obtain ⟨inside, telling⟩ := List.mem_filter.mp inside
    exact .inner (.member unmerged inside (by simpa using telling)) there

theorem union_composes {info : Info} {combinator : Combinator} {members : List Schema}
    (inherited : Expr.Inherited has spread) (silent : context.overrides.Silent)
    (isUnion : combinator ≠ .allOf)
    (generated : ((Schema.combined info combinator members).generate context).result =
      .ok result) :
    (Schema.combined info combinator members).Composes context has spread result := by
  rw [generate_union isUnion] at generated
  obtain ⟨results, made, generated⟩ := Logged.bind_eq_ok.mp generated
  have made := generateMembers_ok made
  constructor
  · intro inner emits
    cases emits with
    | member _ inside _ =>
      obtain ⟨result, _, made⟩ := exists_of_mem_right made.flip inner inside
      exact ⟨result, made⟩
    | merged => exact absurd rfl isUnion
  · rw [inherits_members_iff fun isAllOf => absurd isAllOf isUnion,
      telling_has_iff inherited silent, ← generateMembers_has _ made]
    split at generated
    · exact absurd generated Logged.throw_ne_ok
    · cases generated
      simp
    · obtain ⟨items, commented, generated⟩ := Logged.bind_eq_ok.mp generated
      cases generated
      rw [inherited.union, commented_has _ commented]

/-- A merged object has what the references among its members spread, and what the properties of the
other members have. -/
theorem inherits_merged_iff {info : Info} {members : List Schema}
    (merged : Schema.AreMerged context.table members) :
    (Schema.combined info .allOf members).Inherits context has spread ↔
      ∃ member ∈ members,
        (∃ inner ref, member = .reference inner ref ∧ member.Has context spread) ∨
        ∃ property ∈ member.ownProperties, property.2.Has context has := by
  constructor
  · rintro (_ | ⟨_, inside, here⟩ | ⟨emits, there⟩)
    · exact ⟨_, inside, .inl ⟨_, _, rfl, here⟩⟩
    · cases emits with
      | member unmerged _ _ => exact absurd merged (unmerged rfl)
      | merged _ inside listed => exact ⟨_, inside, .inr ⟨_, listed, there⟩⟩
  · rintro ⟨member, inside, ⟨inner, ref, rfl, here⟩ | ⟨property, listed, there⟩⟩
    · exact .spread merged inside here
    · exact .inner (.merged merged inside listed) there

theorem makesPart_passes {member : Schema} {part : Part} (made : member.MakesPart context part)
    (mergeable : Schema.isMergeable context.table member = .ok true) :
    part.Passes has spread ↔
      (∃ inner ref, member = .reference inner ref ∧ member.Has context spread) ∨
      ∃ property ∈ member.ownProperties, property.2.Has context has := by
  cases made with
  | fields listed =>
    rw [Part.Passes, generateFields_has _ listed]
    simp [Schema.ownProperties]
  | spread noObject made =>
    obtain ⟨info, ref, _, rfl, _, _⟩ | ⟨_, _, _, _, _, isObject⟩ :=
      Schema.isMergeable_cases mergeable
    · simp [Part.Passes, Schema.ownProperties, Schema.has_iff made]
    · exact absurd isObject (noObject _ _ _ _ _)

theorem not_vacuous_of_property {member : Schema} {property : String × Schema}
    (listed : property ∈ member.ownProperties) : member.isVacuous = false := by
  cases member with
  | object info properties =>
    cases properties with
    | nil => cases listed
    | cons => rfl
  | _ => cases listed

theorem merged_composes {info : Info} {members : List Schema} {parts : List Part}
    (inherited : Expr.Inherited has spread) (merged : Schema.AreMerged context.table members)
    (made : List.Forall₂ (Schema.MakesPart context)
      (members.filter fun member => !member.isVacuous) parts)
    (isCode : result.code = .merged parts) :
    (Schema.combined info .allOf members).Composes context has spread result := by
  have part : ∀ member ∈ members, member.isVacuous = false →
      ∃ part ∈ parts, member.MakesPart context part := by
    intro member inside telling
    exact exists_of_mem_right made.flip member (Schema.mem_telling inside telling)
  constructor
  · intro inner emits
    cases emits with
    | member unmerged _ _ => exact absurd merged (unmerged rfl)
    | merged _ inside listed =>
      obtain ⟨_, _, made⟩ := part _ inside (not_vacuous_of_property listed)
      cases made with
      | fields isFields =>
        obtain ⟨_, _, result, made, _⟩ :=
          exists_of_mem_right (generateFields_ok isFields).flip _ listed
        exact ⟨result, made⟩
      | spread noObject =>
        obtain ⟨_, _, _, rfl, _, _⟩ | ⟨_, _, _, _, _, isObject⟩ :=
          Schema.isMergeable_cases (merged.isMergeable _ inside)
        · cases listed
        · exact absurd isObject (noObject _ _ _ _ _)
  · rw [inherits_merged_iff merged, isCode, inherited.merged]
    constructor
    · rintro ⟨part, isPart, passes⟩
      obtain ⟨member, telling, made⟩ := exists_of_mem_right made part isPart
      have inside : member ∈ members := List.mem_of_mem_filter telling
      exact ⟨member, inside,
        (makesPart_passes made (merged.isMergeable member inside)).mp passes⟩
    · rintro ⟨member, inside, passes⟩
      have telling : member.isVacuous = false := by
        rcases passes with ⟨_, _, rfl, _⟩ | ⟨property, listed, _⟩
        · rfl
        · exact not_vacuous_of_property listed
      obtain ⟨part, isPart, made⟩ := part member inside telling
      exact ⟨part, isPart,
        (makesPart_passes made (merged.isMergeable member inside)).mpr passes⟩

theorem unmerged_composes {info : Info} {members : List Schema} (results : List Generated)
    (unmerged : ¬ Schema.AreMerged context.table members)
    (made : List.Forall₂ (fun member result => (member.generate context).result = .ok result)
      (members.filter fun member => !member.isVacuous) results)
    (isCode : has result.code ↔ ∃ result ∈ results, has result.code) :
    (Schema.combined info .allOf members).Composes context has spread result := by
  constructor
  · intro inner emits
    cases emits with
    | member _ inside telling =>
      obtain ⟨result, _, made⟩ :=
        exists_of_mem_right made.flip inner (Schema.mem_telling inside telling)
      exact ⟨result, made⟩
    | merged merged => exact absurd merged unmerged
  · rw [inherits_members_iff fun _ => unmerged, isCode, generateMembers_has _ made]

/-- The code of an intersection with one member is that of the member. -/
theorem single_composes {info : Info} {only : Schema} (inherited : Expr.Inherited has spread)
    (silent : context.overrides.Silent)
    (generated : (only.generate context).result = .ok result) :
    (Schema.combined info .allOf [only]).Composes context has spread result := by
  have unmerged : ¬ Schema.AreMerged context.table [only] := fun merged =>
    Schema.not_several_singleton only merged.several
  by_cases vacuous : only.isVacuous = true
  · refine unmerged_composes [] unmerged (by simp [vacuous]) ?_
    simpa [Schema.has_iff generated] using not_has_of_vacuous inherited silent vacuous
  · refine unmerged_composes [result] unmerged ?_ (by simp)
    simpa [vacuous] using generated

theorem intersection_composes {info : Info} {members : List Schema}
    (inherited : Expr.Inherited has spread) (silent : context.overrides.Silent)
    (generated : ((Schema.combined info .allOf members).generate context).result = .ok result) :
    (Schema.combined info .allOf members).Composes context has spread result := by
  have few : ∀ {results : List Generated}, results.length < 2 →
      List.Forall₂ (fun member result => (member.generate context).result = .ok result)
        (members.filter fun member => !member.isVacuous) results →
      ¬ Schema.AreMerged context.table members := by
    intro results few made merged
    have several := merged.several
    rw [made.length_eq] at several
    omega
  cases generate_intersects generated with
  | only isOnly made =>
    subst isOnly
    exact single_composes inherited silent made
  | nothing made =>
    refine unmerged_composes _ (few (by simp) made) made ?_
    simp [inherited.struct]
  | single made => exact unmerged_composes _ (few (by simp) made) made (by simp)
  | merged made several mergeable isParts =>
    exact merged_composes inherited ⟨made.length_eq ▸ several, mergeable⟩ isParts rfl
  | extended made several mixed commented =>
    refine unmerged_composes _ (fun merged => ?_) made ?_
    · cases mixed.symm.trans merged.mergeable
    · rw [inherited.extended, commented_has _ commented]

/-- The code of a schema is composed of the code of the schemas right inside. -/
theorem Schema.generate_composes {schema : Schema} (inherited : Expr.Inherited has spread)
    (silent : context.overrides.Silent)
    (generated : (schema.generate context).result = .ok result) :
    schema.Composes context has spread result := by
  cases schema with
  | reference => exact reference_composes generated
  | array => exact array_composes inherited generated
  | object => exact object_composes inherited silent generated
  | scalar => exact scalar_composes inherited silent generated
  | unsupported => exact absurd generated Logged.throw_ne_ok
  | combined info combinator members =>
    by_cases isUnion : combinator = .allOf
    · subst isUnion
      exact intersection_composes inherited silent generated
    · exact union_composes inherited silent isUnion generated

/-- If a schema has code, so have the schemas right inside. -/
theorem Schema.Emits.generated {schema inner : Schema} (emits : Emits context.table schema inner)
    (silent : context.overrides.Silent)
    (generated : (schema.generate context).result = .ok result) :
    ∃ result, (inner.generate context).result = .ok result :=
  (Schema.generate_composes (Expr.spreads_inherited result.code) silent generated).made inner emits

end Inheritance

section Generation

variable {context : Context} {source : Expr} {result : Generated}

/-- A spread in the code of a schema: a reference that is merged right here, or a spread in the code
of a schema right inside. -/
inductive Schema.Spreads (context : Context) : Schema → Expr → Prop where
  | here {info inner : Info} {members : List Schema} {ref : Json} {result : Generated}
      (merged : AreMerged context.table members) (inside : .reference inner ref ∈ members)
      (made : ((reference inner ref).generate context).result = .ok result) :
      Spreads context (.combined info .allOf members) result.code
  | inner {schema inside : Schema} {source : Expr} {result : Generated}
      (emits : Emits context.table schema inside)
      (made : (inside.generate context).result = .ok result)
      (spread : source ∈ result.code.spreads) : Spreads context schema source

/-- What the code of a schema shows of the schemas right inside: they have code themselves, and
exactly what is to be found right here or right inside is spread. -/
structure Schema.Unfolds (context : Context) (schema : Schema) (result : Generated) : Prop where
  made : ∀ inner, Emits context.table schema inner →
    ∃ result, (inner.generate context).result = .ok result
  spreads : ∀ source, source ∈ result.code.spreads ↔ schema.Spreads context source

theorem Schema.generate_unfolds {schema : Schema} (silent : context.overrides.Silent)
    (generated : (schema.generate context).result = .ok result) :
    schema.Unfolds context result := by
  refine ⟨fun inner emits => emits.generated silent generated, fun source => ?_⟩
  refine (generate_composes (Expr.spreads_inherited source) silent generated).inherits.trans ?_
  constructor
  · rintro (⟨_, made, spread⟩ | ⟨merged, inside, _, made, rfl | spread⟩ | ⟨emits, _, made, spread⟩)
    · obtain ⟨_, _, _, _, isCode⟩ := reference_generated made
      simp [isCode, Expr.spreads] at spread
    · exact .here merged inside made
    · obtain ⟨_, _, _, _, isCode⟩ := reference_generated made
      simp [isCode, Expr.spreads] at spread
    · exact .inner emits made spread
  · rintro (⟨merged, inside, made⟩ | ⟨emits, made, spread⟩)
    · exact .spread merged inside ⟨_, made, .inl rfl⟩
    · exact .inner emits ⟨_, made, spread⟩

/-- What is spread in the code of a schema are the references to what the schema merges, deferred
unless their targets are declared before. -/
theorem Schema.mem_spreads_iff {schema : Schema} (silent : context.overrides.Silent)
    (generated : (schema.generate context).result = .ok result) :
    source ∈ result.code.spreads ↔ ∃ id deferred, schema.Merges context.table id ∧
      context.isBefore id = .ok (!deferred) ∧ source = .reference id deferred := by
  constructor
  · induction schema using Schema.emits_induction context.table generalizing result with
    | step schema ih =>
      intro spread
      rcases ((generate_unfolds silent generated).spreads source).mp spread with
        ⟨merged, inside, made⟩ | ⟨emits, made, spread⟩
      · obtain ⟨id, deferred, named, isBefore, isCode⟩ := reference_generated made
        exact ⟨id, deferred, .here merged inside named, isBefore, isCode⟩
      · obtain ⟨id, deferred, merges, isBefore, isSource⟩ := ih _ emits made spread
        exact ⟨id, deferred, .inner emits merges, isBefore, isSource⟩
  · rintro ⟨id, deferred, merges, isBefore, rfl⟩
    induction merges generalizing result with
    | @here info inner members ref id merged inside named =>
      have made : ((Schema.reference inner ref).generate context).result =
          .ok { code := .reference id deferred, refs := [id] } := by
        refine Logged.bind_eq_ok.mpr ⟨id, named, Logged.bind_eq_ok.mpr ⟨_, isBefore, ?_⟩⟩
        simp [Logged.pure_eq_ok]
      exact ((generate_unfolds silent generated).spreads _).mpr (.here merged inside made)
    | inner emits _ ih =>
      have unfolds := generate_unfolds silent generated
      obtain ⟨result, made⟩ := unfolds.made _ emits
      exact (unfolds.spreads _).mpr (.inner emits made (ih made isBefore))

end Generation

end SchemaPress
