import SchemaPress.Proofs.CodeTexts
import SchemaPress.Proofs.MergedObjects

/-! Where overrides are honoured. Overrides are asked for the code of every object and scalar that
code is generated for, and what they give stands in the text of the whole. But an `allOf` leaves out
members that say nothing, and of objects that it merges it takes the properties only. An override of
such a member is lost, and so is everything in what the object says about other properties. -/

namespace SchemaPress

open Relation (ReflTransGen)

namespace Text

/-- A text without the blanks it begins with. -/
def unindented (text : String) : String :=
  String.ofList (text.toList.dropWhile isBlank)

theorem unindented_within (text : String) : Within (unindented text) text := by
  rw [Within, unindented, String.toList_ofList]
  exact (List.dropWhile_suffix isBlank).isInfix

theorem unindented_firm (text : String) : Firm (unindented text) := by
  have solid := List.head?_dropWhile_not isBlank text.toList
  unfold unindented
  cases letters : text.toList.dropWhile isBlank with
  | nil => exact .inl rfl
  | cons letter rest =>
    rw [letters] at solid
    exact .inr ⟨letter, rest, String.toList_ofList, by simpa using solid⟩

end Text

namespace Schema

/-- The overrides of whole schemas apply to objects and scalars. -/
def IsOverridable : Schema → Prop
  | .object _ _ _ _ _ | .scalar _ _ => True
  | _ => False

/-- A choice replaces the code of a schema by other code. -/
def ReplacedBy (choice : Choice) (schema : Schema) (override : Override) : Prop :=
  schema.IsOverridable ∧ choice schema = .ok (some override)

/-- A choice leaves a schema as it is. -/
def IsKept (choice : Choice) (schema : Schema) : Prop :=
  ∀ override, ¬ schema.ReplacedBy choice override

/-- The schemas right inside a schema that is not replaced as a whole. -/
inductive Uncovers (choice : Choice) : Schema → Schema → Prop where
  | items {info : Info} {items : Schema} {minItems maxItems : Option Int} :
      Uncovers choice (.array info items minItems maxItems) items
  | property {info : Info} {properties : List (String × Schema)} {required : List Json}
      {additional : Additional} {headings : Table String} {property : String × Schema}
      (kept : (object info properties required additional headings).IsKept choice)
      (inside : property ∈ properties) :
      Uncovers choice (.object info properties required additional headings) property.2
  | additional {info : Info} {properties : List (String × Schema)} {required : List Json}
      {schema : Schema} {headings : Table String}
      (kept : (object info properties required (.typed schema) headings).IsKept choice) :
      Uncovers choice (.object info properties required (.typed schema) headings) schema
  | member {info : Info} {combinator : Combinator} {members : List Schema} {member : Schema}
      (inside : member ∈ members) : Uncovers choice (.combined info combinator members) member

/-- A member of an `allOf` gives its code to the whole: it is the only member, or it says something
and its properties are not merged with those of others. -/
def GivesCode (table : Definitions) (members : List Schema) (member : Schema) : Prop :=
  members = [member] ∨
    member.isVacuous = false ∧ (AreMerged table members → ¬ member.IsObject)

/-- The schemas whose code is put into the code of a schema. Of objects that are merged, these are
the properties. -/
inductive Places (table : Definitions) (choice : Choice) : Schema → Schema → Prop where
  | items {info : Info} {items : Schema} {minItems maxItems : Option Int} :
      Places table choice (.array info items minItems maxItems) items
  | property {info : Info} {properties : List (String × Schema)} {required : List Json}
      {additional : Additional} {headings : Table String} {property : String × Schema}
      (kept : (object info properties required additional headings).IsKept choice)
      (inside : property ∈ properties) :
      Places table choice (.object info properties required additional headings) property.2
  | additional {info : Info} {properties : List (String × Schema)} {required : List Json}
      {schema : Schema} {headings : Table String}
      (kept : (object info properties required (.typed schema) headings).IsKept choice) :
      Places table choice (.object info properties required (.typed schema) headings) schema
  | member {info : Info} {combinator : Combinator} {members : List Schema} {member : Schema}
      (gives : combinator = .allOf → member.GivesCode table members) (inside : member ∈ members) :
      Places table choice (.combined info combinator members) member
  | merged {info inner : Info} {members : List Schema} {properties : List (String × Schema)}
      {required : List Json} {additional : Additional} {headings : Table String}
      {property : String × Schema} (merged : AreMerged table members)
      (inside : .object inner properties required additional headings ∈ members)
      (kept : (object inner properties required additional headings).IsKept choice)
      (listed : property ∈ properties) :
      Places table choice (.combined info .allOf members) property.2

/-- The schemas in an `allOf` whose code is left out: members that say nothing, objects that are
merged, and all that these say about other properties. -/
inductive Forfeits (table : Definitions) (choice : Choice) : Schema → Schema → Prop where
  | silent {info : Info} {members : List Schema} {member : Schema} (several : members ≠ [member])
      (inside : member ∈ members) (vacuous : member.isVacuous = true) :
      Forfeits table choice (.combined info .allOf members) member
  | merged {info : Info} {members : List Schema} {member : Schema}
      (merged : AreMerged table members) (inside : member ∈ members) (isObject : member.IsObject) :
      Forfeits table choice (.combined info .allOf members) member
  | further {info inner : Info} {members : List Schema} {properties : List (String × Schema)}
      {required : List Json} {schema node : Schema} {headings : Table String}
      (merged : AreMerged table members)
      (inside : .object inner properties required (.typed schema) headings ∈ members)
      (kept : (object inner properties required (.typed schema) headings).IsKept choice)
      (below : ReflTransGen (Uncovers choice) schema node) :
      Forfeits table choice (.combined info .allOf members) node

/-- A schema is accounted for in the code of another: its code is put there, at some depth, or left
out by an `allOf` whose code is. -/
def IsAccountedFor (table : Definitions) (choice : Choice) (schema node : Schema) : Prop :=
  ReflTransGen (Places table choice) schema node ∨
    ∃ intersection, ReflTransGen (Places table choice) schema intersection ∧
      intersection.Forfeits table choice node

variable {table : Definitions} {choice : Choice} {schema inner node : Schema}

theorem Places.uncovers (places : schema.Places table choice inner) :
    ReflTransGen (Uncovers choice) schema inner := by
  cases places with
  | items => exact .single .items
  | property kept inside => exact .single (.property kept inside)
  | additional kept => exact .single (.additional kept)
  | member _ inside => exact .single (.member inside)
  | merged _ inside kept listed => exact .head (.member inside) (.single (.property kept listed))

theorem Forfeits.uncovers (forfeits : schema.Forfeits table choice node) :
    ReflTransGen (Uncovers choice) schema node := by
  cases forfeits with
  | silent _ inside | merged _ inside => exact .single (.member inside)
  | further _ inside kept below => exact .head (.member inside) (.head (.additional kept) below)

theorem uncovers_of_places (placed : ReflTransGen (Places table choice) schema node) :
    ReflTransGen (Uncovers choice) schema node := by
  induction placed with
  | refl => exact .refl
  | tail _ places ih => exact ih.trans places.uncovers

theorem IsAccountedFor.uncovers (accounted : schema.IsAccountedFor table choice node) :
    ReflTransGen (Uncovers choice) schema node := by
  rcases accounted with placed | ⟨_, placed, forfeits⟩
  · exact uncovers_of_places placed
  · exact (uncovers_of_places placed).trans forfeits.uncovers

theorem IsAccountedFor.head (places : schema.Places table choice inner)
    (accounted : inner.IsAccountedFor table choice node) :
    schema.IsAccountedFor table choice node := by
  rcases accounted with placed | ⟨intersection, placed, forfeits⟩
  · exact .inl (.head places placed)
  · exact .inr ⟨intersection, .head places placed, forfeits⟩

/-- What is accounted for in a schema is the schema itself, accounted for in something that it
places, or forfeited by the schema. -/
theorem IsAccountedFor.cases_head (accounted : schema.IsAccountedFor table choice node) :
    node = schema ∨ schema.Forfeits table choice node ∨
      ∃ inner, schema.Places table choice inner ∧ inner.IsAccountedFor table choice node := by
  rcases accounted with placed | ⟨intersection, placed, forfeits⟩
  · rcases ReflTransGen.cases_head placed with rfl | ⟨inner, places, placed⟩
    · exact .inl rfl
    · exact .inr (.inr ⟨inner, places, .inl placed⟩)
  · rcases ReflTransGen.cases_head placed with rfl | ⟨inner, places, placed⟩
    · exact .inr (.inl forfeits)
    · exact .inr (.inr ⟨inner, places, .inr ⟨intersection, placed, forfeits⟩⟩)

/-- A schema that says nothing has nothing inside. -/
theorem not_uncovers_of_vacuous (vacuous : schema.isVacuous = true) :
    ¬ schema.Uncovers choice inner := by
  intro uncovers
  cases uncovers with
  | items | member => cases vacuous
  | @property _ properties _ _ _ _ _ inside =>
    cases properties with
    | nil => cases inside
    | cons => cases vacuous
  | @additional _ properties =>
    cases properties <;> cases vacuous

/-- What is accounted for in an object that is merged is accounted for in the whole. -/
theorem accountedFor_of_merged {info : Info} {members : List Schema} {member : Schema}
    (merged : AreMerged table members) (inside : member ∈ members) (isObject : member.IsObject)
    (accounted : member.IsAccountedFor table choice node) :
    (combined info .allOf members).IsAccountedFor table choice node := by
  rcases accounted.cases_head with rfl | forfeits | ⟨inner, places, below⟩
  · exact .inr ⟨_, .refl, .merged merged inside isObject⟩
  · cases forfeits <;> cases isObject
  · cases places with
    | property kept listed => exact below.head (.merged merged inside kept listed)
    | additional kept => exact .inr ⟨_, .refl, .further merged inside kept below.uncovers⟩
    | items | member | merged => cases isObject

/-- What is accounted for in a member of an `allOf` is accounted for in the whole. -/
theorem accountedFor_of_member {info : Info} {members : List Schema} {member : Schema}
    (inside : member ∈ members) (accounted : member.IsAccountedFor table choice node) :
    (combined info .allOf members).IsAccountedFor table choice node := by
  by_cases gives : member.GivesCode table members
  · exact accounted.head (.member (fun _ => gives) inside)
  · obtain ⟨several, lost⟩ := not_or.mp gives
    cases vacuous : member.isVacuous with
    | true =>
      -- There is nothing in the member, so it can only be the member itself.
      rcases ReflTransGen.cases_head accounted.uncovers with rfl | ⟨_, uncovers, _⟩
      · exact .inr ⟨_, .refl, .silent several inside vacuous⟩
      · exact absurd uncovers (not_uncovers_of_vacuous vacuous)
    | false =>
      obtain ⟨merged, isObject⟩ : AreMerged table members ∧ member.IsObject := by
        simpa [vacuous] using lost
      exact accountedFor_of_merged merged inside isObject accounted

/-- Everything in a schema that is not in something replaced is accounted for in its code. -/
theorem uncovered_iff_accountedFor :
    ReflTransGen (Uncovers choice) schema node ↔ schema.IsAccountedFor table choice node := by
  refine ⟨fun uncovered => ?_, IsAccountedFor.uncovers⟩
  induction uncovered using ReflTransGen.head_induction_on with
  | refl => exact .inl .refl
  | head uncovers _ ih =>
    cases uncovers with
    | items => exact ih.head .items
    | property kept inside => exact ih.head (.property kept inside)
    | additional kept => exact ih.head (.additional kept)
    | @member _ combinator _ _ inside =>
      cases combinator with
      | allOf => exact accountedFor_of_member inside ih
      | oneOf | anyOf => exact ih.head (.member (by simp) inside)

end Schema

section Generation

variable {context : Context} {result : Generated}

/-- The code of a schema that is kept is the usual code. -/
theorem usual_of_kept {schema : Schema} {usual : Logged Generated}
    (kept : schema.IsKept context.overrides.schema) (overridable : schema.IsOverridable)
    (generated : (do
      match ← context.overriding schema with
      | some result => return result
      | none => usual : Logged Generated).result = .ok result) : usual.result = .ok result := by
  rcases overridden_or_usual generated with ⟨override, isChoice, _⟩ | ⟨_, usual⟩
  · exact absurd ⟨overridable, isChoice⟩ (kept override)
  · exact usual

theorem replacing_code {schema : Schema} {usual : Logged Generated} {override : Override}
    (isChoice : context.overrides.schema schema = .ok (some override))
    (generated : (do
      match ← context.overriding schema with
      | some result => return result
      | none => usual : Logged Generated).result = .ok result) :
    result.code = .verbatim override.code := by
  rcases overridden_or_usual generated with ⟨_, again, rfl⟩ | ⟨none, _⟩
  · cases isChoice.symm.trans again
    rfl
  · cases isChoice.symm.trans none

/-- The code of a schema that is replaced is what the choice says. -/
theorem Schema.ReplacedBy.code {schema : Schema} {override : Override}
    (replaced : schema.ReplacedBy context.overrides.schema override)
    (generated : (schema.generate context).result = .ok result) :
    result.code = .verbatim override.code := by
  obtain ⟨overridable, isChoice⟩ := replaced
  cases schema with
  | object info properties =>
    cases properties with
    | nil | cons => exact replacing_code isChoice generated
  | scalar => exact replacing_code isChoice generated
  | reference | array | combined | unsupported => cases overridable

theorem property_inside {info : Info} {properties : List (String × Schema)} {required : List Json}
    {additional : Additional} {headings : Table String} {property : String × Schema}
    (kept : (Schema.object info properties required additional headings).IsKept
      context.overrides.schema) (inside : property ∈ properties)
    (generated : ((Schema.object info properties required additional headings).generate
      context).result = .ok result) :
    ∃ other, (property.2.generate context).result = .ok other ∧ result.code.Holds other.code := by
  cases properties with
  | nil => cases inside
  | cons first rest =>
    have generated := usual_of_kept kept trivial generated
    obtain ⟨⟨further, furtherRefs⟩, _, generated⟩ := Logged.bind_eq_ok.mp generated
    obtain ⟨⟨fields, refs⟩, listed, generated⟩ := Logged.bind_eq_ok.mp generated
    cases generated
    obtain ⟨field, isField, other, made, isCode⟩ :=
      exists_of_mem_right (generateFields_ok listed).flip property inside
    exact ⟨other, made, isCode ▸ .field isField⟩

theorem additional_inside {info : Info} {properties : List (String × Schema)}
    {required : List Json} {schema : Schema} {headings : Table String}
    (kept : (Schema.object info properties required (.typed schema) headings).IsKept
      context.overrides.schema)
    (generated : ((Schema.object info properties required (.typed schema) headings).generate
      context).result = .ok result) :
    ∃ other, (schema.generate context).result = .ok other ∧ result.code.Holds other.code := by
  cases properties with
  | nil =>
    have generated := usual_of_kept kept trivial generated
    obtain ⟨⟨code, refs⟩, made, generated⟩ := Logged.bind_eq_ok.mp generated
    cases generated
    obtain ⟨other, here, made⟩ := Logged.bind_eq_ok.mp made
    cases made
    exact ⟨other, here, .value⟩
  | cons first rest =>
    have generated := usual_of_kept kept trivial generated
    obtain ⟨⟨further, furtherRefs⟩, made, generated⟩ := Logged.bind_eq_ok.mp generated
    obtain ⟨⟨fields, refs⟩, _, generated⟩ := Logged.bind_eq_ok.mp generated
    cases generated
    obtain ⟨other, here, made⟩ := Logged.bind_eq_ok.mp made
    cases made
    exact ⟨other, here, .further⟩

/-- The code of each of some members is an item of their list. -/
theorem exists_commented {members : List Schema} {member : Schema} {results : List Generated}
    {items : List (Commented Expr)}
    (made : List.Forall₂ (fun member result => (member.generate context).result = .ok result)
      members results) (commented : Generated.commented results = .ok items)
    (inside : member ∈ members) :
    ∃ other, (member.generate context).result = .ok other ∧
      ∃ item ∈ items, item.item = other.code := by
  obtain ⟨other, isResult, here⟩ := exists_of_mem_right made.flip member inside
  obtain ⟨item, isItem, isCode⟩ :=
    exists_of_mem_right (commented_ok commented).flip other isResult
  exact ⟨other, here, item, isItem, isCode⟩

theorem union_inside {info : Info} {combinator : Combinator} {members : List Schema}
    {member : Schema} (isUnion : combinator ≠ .allOf) (inside : member ∈ members)
    (generated : ((Schema.combined info combinator members).generate context).result =
      .ok result) :
    ∃ other, (member.generate context).result = .ok other ∧
      ReflTransGen Expr.Holds result.code other.code := by
  rw [generate_union isUnion] at generated
  obtain ⟨results, made, generated⟩ := Logged.bind_eq_ok.mp generated
  have made := generateMembers_ok made
  obtain _ | ⟨first, _ | ⟨second, rest⟩⟩ := results
  · cases generated
  · cases generated
    obtain ⟨other, isResult, here⟩ := exists_of_mem_right made.flip member inside
    obtain rfl := List.mem_singleton.mp isResult
    exact ⟨other, here, .refl⟩
  · obtain ⟨items, commented, generated⟩ := Logged.bind_eq_ok.mp generated
    cases generated
    obtain ⟨other, here, item, isItem, isCode⟩ := exists_commented made commented inside
    exact ⟨other, here, .single (isCode ▸ .member isItem)⟩

theorem intersection_inside {info : Info} {members : List Schema} {member : Schema}
    (gives : member.GivesCode context.table members) (inside : member ∈ members)
    (generated : ((Schema.combined info .allOf members).generate context).result = .ok result) :
    ∃ other, (member.generate context).result = .ok other ∧
      ReflTransGen Expr.Holds result.code other.code := by
  rcases gives with rfl | ⟨telling, unmerged⟩
  · exact ⟨result, generated, .refl⟩
  have kept := Schema.mem_telling inside telling
  cases generate_intersects generated with
  | only isOnly made =>
    subst isOnly
    obtain rfl := List.mem_singleton.mp inside
    exact ⟨result, made, .refl⟩
  | nothing made =>
    rw [List.forall₂_nil_right_iff.mp made] at kept
    cases kept
  | single made =>
    obtain ⟨other, isResult, here⟩ := exists_of_mem_right made.flip member kept
    obtain rfl := List.mem_singleton.mp isResult
    exact ⟨other, here, .refl⟩
  | merged made several mergeable isParts =>
    obtain ⟨part, isPart, makes⟩ := exists_of_mem_right isParts.flip member kept
    cases makes with
    | fields => exact absurd trivial (unmerged ⟨made.length_eq ▸ several, mergeable⟩)
    | spread _ here => exact ⟨_, here, .single (.part isPart .source)⟩
  | extended made _ _ commented =>
    obtain ⟨other, here, item, isItem, isCode⟩ := exists_commented made commented kept
    exact ⟨other, here, .single (isCode ▸ .extension isItem)⟩

theorem merged_inside {info inner : Info} {members : List Schema}
    {properties : List (String × Schema)} {required : List Json} {additional : Additional}
    {headings : Table String} {property : String × Schema}
    (merged : Schema.AreMerged context.table members)
    (inside : .object inner properties required additional headings ∈ members)
    (listed : property ∈ properties)
    (generated : ((Schema.combined info .allOf members).generate context).result = .ok result) :
    ∃ other, (property.2.generate context).result = .ok other ∧
      result.code.Holds other.code := by
  have telling : (Schema.object inner properties required additional headings).isVacuous = false :=
    not_vacuous_of_property (show property ∈ Schema.ownProperties _ from listed)
  have kept := Schema.mem_telling inside telling
  have several := merged.several
  cases generate_intersects generated with
  | only isOnly =>
    subst isOnly
    exact absurd several (Schema.not_several_singleton _)
  | nothing made | single made =>
    rw [made.length_eq] at several
    exact absurd several (by simp)
  | extended _ _ mixed => cases mixed.symm.trans merged.mergeable
  | merged _ _ _ isParts =>
    obtain ⟨part, isPart, makes⟩ := exists_of_mem_right isParts.flip _ kept
    cases makes with
    | spread noObject => exact absurd rfl (noObject _ _ _ _ _)
    | fields fields =>
      obtain ⟨field, isField, other, made, isCode⟩ :=
        exists_of_mem_right (generateFields_ok fields).flip property listed
      exact ⟨other, made, isCode ▸ .part isPart (.field isField)⟩

/-- The code of a schema that is placed is a piece of the whole. -/
theorem Schema.Places.inside {schema inner : Schema}
    (places : schema.Places context.table context.overrides.schema inner)
    (generated : (schema.generate context).result = .ok result) :
    ∃ other, (inner.generate context).result = .ok other ∧
      ReflTransGen Expr.Holds result.code other.code := by
  cases places with
  | items =>
    obtain ⟨other, made, generated⟩ := Logged.bind_eq_ok.mp generated
    cases generated
    exact ⟨other, made, .single .items⟩
  | property kept inside =>
    obtain ⟨other, made, holds⟩ := property_inside kept inside generated
    exact ⟨other, made, .single holds⟩
  | additional kept =>
    obtain ⟨other, made, holds⟩ := additional_inside kept generated
    exact ⟨other, made, .single holds⟩
  | @member _ combinator _ _ gives inside =>
    by_cases isAllOf : combinator = .allOf
    · subst isAllOf
      exact intersection_inside (gives rfl) inside generated
    · exact union_inside isAllOf inside generated
  | merged merged inside _ listed =>
    obtain ⟨other, made, holds⟩ := merged_inside merged inside listed generated
    exact ⟨other, made, .single holds⟩

/-- The code of what is placed at any depth is a piece of the whole. -/
theorem Schema.inside_of_placed {schema node : Schema}
    (placed : ReflTransGen (Places context.table context.overrides.schema) schema node)
    (generated : (schema.generate context).result = .ok result) :
    ∃ other, (node.generate context).result = .ok other ∧
      ReflTransGen Expr.Holds result.code other.code := by
  induction placed with
  | refl => exact ⟨result, generated, .refl⟩
  | tail _ places ih =>
    obtain ⟨other, made, outer⟩ := ih
    obtain ⟨last, made, inner⟩ := places.inside made
    exact ⟨last, made, outer.trans inner⟩

/-- What stands in the code that replaces a schema stands in the text of the whole, if the schema is
placed there. -/
theorem Schema.ReplacedBy.within {schema node : Schema} {override : Override} {piece : String}
    (replaced : node.ReplacedBy context.overrides.schema override)
    (placed : ReflTransGen (Places context.table context.overrides.schema) schema node)
    (generated : (schema.generate context).result = .ok result)
    (stands : Text.Within piece override.code) (firm : Text.Firm piece) :
    Text.Within piece result.code.render := by
  obtain ⟨other, made, inside⟩ := inside_of_placed placed generated
  refine Expr.within_of_inside inside ?_ firm
  rw [replaced.code made]
  exact stands

/-- Overrides of whole schemas. A schema that is replaced, and is not inside another that is, either
has its code put into the code of the whole or is left out by an `allOf`. In the first case the code
that replaces it stands in the text of the whole, without the blanks it begins with if there are
any. -/
theorem Schema.overrides_honoured_or_forfeited {schema : Schema}
    (generated : (schema.generate context).result = .ok result) :
    ∀ node override, node.ReplacedBy context.overrides.schema override →
      (ReflTransGen (Uncovers context.overrides.schema) schema node ↔
        ReflTransGen (Places context.table context.overrides.schema) schema node ∨
          ∃ intersection,
            ReflTransGen (Places context.table context.overrides.schema) schema intersection ∧
              intersection.Forfeits context.table context.overrides.schema node) ∧
      (ReflTransGen (Places context.table context.overrides.schema) schema node →
        Text.Within (Text.unindented override.code) result.code.render ∧
          (Text.Firm override.code → Text.Within override.code result.code.render)) := by
  intro node override replaced
  refine ⟨uncovered_iff_accountedFor, fun placed => ⟨?_, fun firm => ?_⟩⟩
  · exact replaced.within placed generated (Text.unindented_within _) (Text.unindented_firm _)
  · exact replaced.within placed generated (.refl _) firm

/-- An object that says nothing but its title. -/
def entitled (title : String) : Schema :=
  .object ⟨"", .str title, .null, false, none, []⟩ [] [] .unstated []

/-- Overrides that replace what has one title. -/
def retitling : Overrides where
  schema := Rule.choice [⟨[("title", .str "custom")], .replace { code := "Custom" }⟩]

theorem Schema.overrides_honoured_or_forfeited_union :
    ∃ result, ((Schema.combined ⟨"", .null, .null, false, none, []⟩ .oneOf
        [entitled "custom", entitled "other"]).generate
          { table := [], overrides := retitling }).result = .ok result ∧
      Text.Within "Custom" result.code.render := by
  obtain ⟨result, generated⟩ : ∃ result, ((Schema.combined ⟨"", .null, .null, false, none, []⟩
      .oneOf [entitled "custom", entitled "other"]).generate
        { table := [], overrides := retitling }).result = .ok result :=
    exists_of_isOk (by decide +kernel)
  have honoured := (Schema.overrides_honoured_or_forfeited generated (entitled "custom")
    { code := "Custom" } ⟨trivial, rfl⟩).2 (.single (.member (by simp) List.mem_cons_self))
  exact ⟨result, generated, honoured.2 (.inr ⟨'C', _, rfl, by decide⟩)⟩

/-- An override of a member that says nothing is not to be found in the code of an `allOf`. -/
theorem Schema.override_of_silent_member_lost :
    (entitled "custom").ReplacedBy retitling.schema { code := "Custom" } ∧
    (conjunction [entitled "custom", entitled "other"]).Uncovers retitling.schema
      (entitled "custom") ∧
    ∃ result, ((conjunction [entitled "custom", entitled "other"]).generate
        { table := [], overrides := retitling }).result = .ok result ∧
      result.code.render = "S.Struct(\x7b\x7d)" ∧ ¬ Text.Within "Custom" result.code.render := by
  refine ⟨⟨trivial, rfl⟩, .member List.mem_cons_self, _, rfl, rfl, ?_⟩
  rw [← Text.contains_iff]
  decide

end Generation

end SchemaPress
