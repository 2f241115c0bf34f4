import SchemaPress.Code.Generate
import SchemaPress.Dependency.Direct
import SchemaPress.Proofs.Results
import SchemaPress.Proofs.Tables

/-! The references in generated code. Every reference comes from a reference in the schema, and is
deferred exactly if its target is not declared before the definition whose code is generated. -/

namespace SchemaPress

/-- Induction over a schema and the schemas in it. -/
@[elab_as_elim]
theorem Schema.induction {motive : Schema → Prop}
    (reference : ∀ info ref, motive (.reference info ref))
    (array : ∀ info items minItems maxItems, motive items →
      motive (.array info items minItems maxItems))
    (object : ∀ info properties required additional headings,
      (∀ property ∈ properties, motive property.2) →
      (∀ schema, additional = .typed schema → motive schema) →
      motive (.object info properties required additional headings))
    (scalar : ∀ info scalar, motive (.scalar info scalar))
    (combined : ∀ info combinator members, (∀ member ∈ members, motive member) →
      motive (.combined info combinator members))
    (unsupported : ∀ info construct, motive (.unsupported info construct))
    (schema : Schema) : motive schema := by
  refine @Schema.rec motive (fun additional => ∀ schema, additional = .typed schema → motive schema)
    (fun properties => ∀ property ∈ properties, motive property.2)
    (fun members => ∀ member ∈ members, motive member) (fun property => motive property.2)
    reference array object scalar combined unsupported ?_ ?_ ?_ ?_ ?_ ?_ ?_ ?_ schema
  case refine_1 | refine_2 =>
    intros
    contradiction
  case refine_3 =>
    rintro schema held _ ⟨⟩
    exact held
  case refine_4 | refine_6 =>
    intro _ member
    cases member
  case refine_5 | refine_7 =>
    intro first rest held later other member
    rcases List.mem_cons.mp member with rfl | member
    · exact held
    · exact later other member
  case refine_8 => exact fun _ _ held => held

mutual

/-- The references in code, each with whether it is deferred. -/
def Expr.references : Expr → List (String × Bool)
  | .verbatim _ | .filtered _ _ | .constants _ => []
  | .reference id deferred => [(id, deferred)]
  | .array items _ => items.references
  | .record value => value.references
  | .struct fields none => fieldReferences fields
  | .struct fields (some further) => fieldReferences fields ++ further.references
  | .merged parts => partReferences parts
  | .extended members | .union members => memberReferences members

/-- The references in the types of fields. -/
def fieldReferences : List (Field Expr) → List (String × Bool)
  | [] => []
  | ⟨_, _, _, _, type⟩ :: rest => type.references ++ fieldReferences rest

/-- The references in the parts of a merged object. -/
def partReferences : List Part → List (String × Bool)
  | [] => []
  | part :: rest => part.references ++ partReferences rest

/-- The references in a part of a merged object. -/
def Part.references : Part → List (String × Bool)
  | .spread _ source => source.references
  | .fields _ fields => fieldReferences fields

/-- The references in the members of a list of schemas. -/
def memberReferences : List (Commented Expr) → List (String × Bool)
  | [] => []
  | ⟨_, item⟩ :: rest => item.references ++ memberReferences rest

end

section Membership

variable {found : String × Bool}

theorem mem_fieldReferences {fields : List (Field Expr)} :
    found ∈ fieldReferences fields ↔ ∃ field ∈ fields, found ∈ field.type.references := by
  induction fields with
  | nil => simp [fieldReferences]
  | cons field rest ih => simp [fieldReferences, ih]

theorem mem_partReferences {parts : List Part} :
    found ∈ partReferences parts ↔ ∃ part ∈ parts, found ∈ part.references := by
  induction parts with
  | nil => simp [partReferences]
  | cons part rest ih => simp [partReferences, ih]

theorem mem_memberReferences {members : List (Commented Expr)} :
    found ∈ memberReferences members ↔ ∃ member ∈ members, found ∈ member.item.references := by
  induction members with
  | nil => simp [memberReferences]
  | cons member rest ih => simp [memberReferences, ih]

end Membership

section Inheritance

/-- Code that has no other code in it and is no reference. -/
def Expr.IsAtom : Expr → Prop
  | .verbatim _ | .filtered _ _ | .constants _ => True
  | _ => False

/-- A part of a merged object passes a property of code on: what is spread has a property of its
own, or the type of a field has the property. -/
def Part.Passes (has spread : Expr → Prop) : Part → Prop
  | .spread _ source => spread source
  | .fields _ listed => ∃ field ∈ listed, has field.type

/-- A property that all code but references has from the code right inside. What is spread passes
it on by a property of its own. -/
structure Expr.Inherited (has spread : Expr → Prop) : Prop where
  atom : ∀ {code : Expr}, code.IsAtom → ¬ has code
  array : ∀ {items : Expr} {filters : List String}, has (.array items filters) ↔ has items
  record : ∀ {value : Expr}, has (.record value) ↔ has value
  struct : ∀ {fields : List (Field Expr)} {further : Option Expr}, has (.struct fields further) ↔
    (∃ field ∈ fields, has field.type) ∨ ∃ code, further = some code ∧ has code
  merged : ∀ {parts : List Part}, has (.merged parts) ↔ ∃ part ∈ parts, part.Passes has spread
  extended : ∀ {members : List (Commented Expr)},
    has (.extended members) ↔ ∃ member ∈ members, has member.item
  union : ∀ {members : List (Commented Expr)},
    has (.union members) ↔ ∃ member ∈ members, has member.item

theorem Expr.references_inherited (found : String × Bool) :
    Inherited (found ∈ ·.references) (found ∈ ·.references) where
  atom := by
    intro code atom
    cases code with
    | verbatim | filtered | constants => simp [Expr.references]
    | _ => cases atom
  array := by simp [Expr.references]
  record := by simp [Expr.references]
  struct := by
    intro fields further
    cases further <;> simp [Expr.references, mem_fieldReferences]
  merged := by
    intro parts
    rw [Expr.references, mem_partReferences]
    refine exists_congr fun part => and_congr_right fun _ => ?_
    cases part <;> simp [Part.references, Part.Passes, mem_fieldReferences]
  extended := by simp [Expr.references, mem_memberReferences]
  union := by simp [Expr.references, mem_memberReferences]

end Inheritance

section Dependencies

variable {targets : List String}

/-- What a member refers to, the members refer to. -/
theorem member_dependencies {members : List Schema}
    (known : memberDependencies members = .ok targets) :
    ∀ member ∈ members, ∃ here, member.dependencies = .ok here ∧ here ⊆ targets := by
  induction members generalizing targets with
  | nil => exact fun _ member => nomatch member
  | cons first rest ih =>
    rw [memberDependencies] at known
    obtain ⟨here, first, known⟩ := except_bind_eq_ok.mp known
    obtain ⟨later, others, known⟩ := except_bind_eq_ok.mp known
    cases known
    intro other member
    rcases List.mem_cons.mp member with rfl | member
    · exact ⟨here, first, List.subset_append_left here later⟩
    · obtain ⟨found, isFound, inside⟩ := ih others other member
      exact ⟨found, isFound, List.Subset.trans inside (List.subset_append_right here later)⟩

theorem propertyDependencies_eq (properties : List (String × Schema)) :
    propertyDependencies properties = memberDependencies (properties.map Prod.snd) := by
  induction properties with
  | nil => rfl
  | cons property rest ih =>
    obtain ⟨name, schema⟩ := property
    rw [propertyDependencies, ih, List.map_cons, memberDependencies]

end Dependencies

section Generation

variable {context : Context}

theorem generateMembers_ok {members : List Schema} {results : List Generated}
    (generated : (generateMembers context members).result = .ok results) :
    List.Forall₂ (fun member result => (member.generate context).result = .ok result)
      members results := by
  induction members generalizing results with
  | nil =>
    rw [generateMembers, Logged.pure_eq_ok] at generated
    subst generated
    exact .nil
  | cons first rest ih =>
    rw [generateMembers] at generated
    obtain ⟨here, made, generated⟩ := Logged.bind_eq_ok.mp generated
    obtain ⟨others, later, generated⟩ := Logged.bind_eq_ok.mp generated
    rw [Logged.pure_eq_ok] at generated
    subst generated
    exact .cons made (ih later)

theorem generate_union {info : Info} {combinator : Combinator} {members : List Schema}
    (isUnion : combinator ≠ .allOf) :
    (Schema.combined info combinator members).generate context = (do
      match ← generateMembers context members with
      | [] => throw (.emptyUnion combinator.key)
      | [result] => return result
      | results => return {
          code := .union (← Generated.commented results)
          refs := Generated.combineRefs results
          docs := (Schema.combined info combinator members).docs }) := by
  cases combinator with
  | allOf => exact absurd rfl isUnion
  | oneOf => rfl
  | anyOf => rfl

theorem generate_intersection {info : Info} {members : List Schema}
    (several : ∀ only, members ≠ [only]) :
    (Schema.combined info .allOf members).generate context = (do
      let mergeable ← Schema.areMergeable context.table members
      match ← generateTelling context members with
      | [] => return {
          code := .struct [] none
          docs := (Schema.combined info .allOf members).docs }
      | [result] => return result
      | results =>
        let code ← if mergeable then do
            pure (Expr.merged (← generateParts context results members))
          else do
            pure (Expr.extended (← Generated.commented results))
        return {
          code
          refs := Generated.combineRefs results
          docs := (Schema.combined info .allOf members).docs }) := by
  obtain _ | ⟨only, _ | ⟨second, rest⟩⟩ := members
  · rfl
  · exact absurd rfl (several only)
  · rfl

theorem generateTelling_eq (members : List Schema) :
    generateTelling context members =
      generateMembers context (members.filter fun member => !member.isVacuous) := by
  induction members with
  | nil => rfl
  | cons first rest ih =>
    rw [generateTelling, ih]
    by_cases vacuous : first.isVacuous = true
    · simp [vacuous]
    · simp [vacuous, generateMembers]

/-- The types of the fields are the code of the properties. -/
theorem generateFields_ok {required : List Json} {headings : Table String}
    {properties : List (String × Schema)} {fields : List (Field Expr)} {refs : List String}
    (generated : (generateFields context required headings properties).result =
      .ok (fields, refs)) :
    List.Forall₂ (fun property field => ∃ result,
      (property.2.generate context).result = .ok result ∧ field.type = result.code)
      properties fields := by
  induction properties generalizing fields refs with
  | nil =>
    rw [generateFields, Logged.pure_eq_ok] at generated
    cases generated
    exact .nil
  | cons first rest ih =>
    obtain ⟨name, schema⟩ := first
    rw [generateFields] at generated
    obtain ⟨result, made, generated⟩ := Logged.bind_eq_ok.mp generated
    obtain ⟨comments, _, generated⟩ := Logged.bind_eq_ok.mp generated
    obtain ⟨⟨others, otherRefs⟩, later, generated⟩ := Logged.bind_eq_ok.mp generated
    rw [Logged.pure_eq_ok] at generated
    cases generated
    exact .cons ⟨result, made, rfl⟩ (ih later)

/-- A part of a merged object: the fields of a member that is an object, or else the code of a
member to be spread. -/
inductive Schema.MakesPart (context : Context) : Schema → Part → Prop where
  | fields {info : Info} {properties : List (String × Schema)} {required : List Json}
      {additional : Additional} {headings : Table String} {comments : Comments}
      {fields : List (Field Expr)} {refs : List String}
      (listed : (generateFields context required headings properties).result =
        .ok (fields, refs)) :
      MakesPart context (.object info properties required additional headings)
        (.fields comments fields)
  | spread {member : Schema} {comments : Comments} {result : Generated}
      (noObject : ∀ info properties required additional headings,
        member ≠ .object info properties required additional headings)
      (made : (member.generate context).result = .ok result) :
      MakesPart context member (.spread comments result.code)

/-- A merged object has a part for each member that says something. -/
theorem generateParts_ok {members : List Schema} {results : List Generated} {parts : List Part}
    (made : List.Forall₂ (fun member result => (member.generate context).result = .ok result)
      (members.filter fun member => !member.isVacuous) results)
    (generated : (generateParts context results members).result = .ok parts) :
    List.Forall₂ (Schema.MakesPart context) (members.filter fun member => !member.isVacuous)
      parts := by
  induction members generalizing results parts with
  | nil =>
    unfold generateParts at generated
    cases generated
    exact .nil
  | cons first rest ih =>
    unfold generateParts at generated
    by_cases vacuous : first.isVacuous = true
    · rw [if_pos vacuous] at generated
      rw [List.filter_cons_of_neg (by simp [vacuous])] at made ⊢
      exact ih made generated
    · rw [if_neg vacuous] at generated
      rw [List.filter_cons_of_pos (by simp [vacuous])] at made ⊢
      obtain ⟨result, results, here, later, rfl⟩ := List.forall₂_cons_left_iff.mp made
      -- Whatever the first part is, the others are made from the other members.
      have others : ∀ part : Comments → Part,
          (do
            let comments ← result.docs.comments
            let later ← generateParts context results rest
            pure (part comments :: later) : Logged (List Part)).result = .ok parts →
          (∀ comments, first.MakesPart context (part comments)) →
          List.Forall₂ (Schema.MakesPart context)
            (first :: rest.filter fun member => !member.isVacuous) parts := by
        intro part generated makes
        obtain ⟨comments, _, generated⟩ := Logged.bind_eq_ok.mp generated
        obtain ⟨others, isOthers, generated⟩ := Logged.bind_eq_ok.mp generated
        rw [Logged.pure_eq_ok] at generated
        subst generated
        exact .cons (makes comments) (ih later isOthers)
      dsimp only at generated
      split at generated
      · obtain ⟨⟨fields, refs⟩, listed, generated⟩ := Logged.bind_eq_ok.mp generated
        exact others (fun comments => .fields comments fields) generated fun _ => .fields listed
      · rename_i noObject
        exact others (fun comments => .spread comments result.code) generated fun _ =>
          .spread noObject here

theorem Schema.mem_telling {members : List Schema} {member : Schema} (inside : member ∈ members)
    (telling : member.isVacuous = false) :
    member ∈ members.filter fun member => !member.isVacuous :=
  List.mem_filter.mpr ⟨inside, by simp [telling]⟩

theorem Schema.not_several_singleton (only : Schema) :
    ¬ 2 ≤ ([only].filter fun member => !member.isVacuous).length := by
  have bound := List.length_filter_le (fun member : Schema => !member.isVacuous) [only]
  simp only [List.length_singleton] at bound
  omega

/-- The ways in which code of an `allOf` comes about: it is that of the only member, or of the only
one that says something; or the members that say something are merged, or extend the first. -/
inductive Schema.Intersects (context : Context) (info : Info) (members : List Schema) :
    Generated → Prop where
  | only {member : Schema} {result : Generated} (isOnly : members = [member])
      (made : (member.generate context).result = .ok result) :
      Intersects context info members result
  | nothing
      (made : List.Forall₂ (fun member result => (member.generate context).result = .ok result)
        (members.filter fun member => !member.isVacuous) []) :
      Intersects context info members
        { code := .struct [] none, docs := (Schema.combined info .allOf members).docs }
  | single {result : Generated}
      (made : List.Forall₂ (fun member result => (member.generate context).result = .ok result)
        (members.filter fun member => !member.isVacuous) [result]) :
      Intersects context info members result
  | merged {results : List Generated} {parts : List Part}
      (made : List.Forall₂ (fun member result => (member.generate context).result = .ok result)
        (members.filter fun member => !member.isVacuous) results)
      (several : 2 ≤ results.length) (mergeable : areMergeable context.table members = .ok true)
      (isParts : List.Forall₂ (Schema.MakesPart context)
        (members.filter fun member => !member.isVacuous) parts) :
      Intersects context info members {
        code := .merged parts
        refs := Generated.combineRefs results
        docs := (Schema.combined info .allOf members).docs }
  | extended {results : List Generated} {items : List (Commented Expr)}
      (made : List.Forall₂ (fun member result => (member.generate context).result = .ok result)
        (members.filter fun member => !member.isVacuous) results)
      (several : 2 ≤ results.length) (mixed : areMergeable context.table members = .ok false)
      (commented : Generated.commented results = .ok items) :
      Intersects context info members {
        code := .extended items
        refs := Generated.combineRefs results
        docs := (Schema.combined info .allOf members).docs }

theorem generate_intersects {info : Info} {members : List Schema} {result : Generated}
    (generated : ((Schema.combined info .allOf members).generate context).result = .ok result) :
    Schema.Intersects context info members result := by
  by_cases single : ∃ only, members = [only]
  · obtain ⟨only, rfl⟩ := single
    exact .only rfl generated
  · rw [generate_intersection (not_exists.mp single)] at generated
    obtain ⟨mergeable, asked, generated⟩ := Logged.bind_eq_ok.mp generated
    obtain ⟨results, made, generated⟩ := Logged.bind_eq_ok.mp generated
    rw [Logged.result_lift] at asked
    rw [generateTelling_eq] at made
    have made := generateMembers_ok made
    obtain _ | ⟨first, _ | ⟨second, rest⟩⟩ := results
    · cases generated
      exact .nothing made
    · cases generated
      exact .single made
    · have several : 2 ≤ (first :: second :: rest).length := by simp
      cases mergeable with
      | true =>
        obtain ⟨parts, isParts, generated⟩ := Logged.bind_eq_ok.mp generated
        cases generated
        exact .merged made several asked (generateParts_ok made isParts)
      | false =>
        obtain ⟨items, commented, generated⟩ := Logged.bind_eq_ok.mp generated
        cases generated
        exact .extended made several asked commented

/-- If an `allOf` has code, so has every member that says something. -/
theorem Schema.Intersects.member {info : Info} {members : List Schema} {member : Schema}
    {result : Generated} (intersects : Intersects context info members result)
    (inside : member ∈ members) (telling : member.isVacuous = false) :
    ∃ other, (member.generate context).result = .ok other := by
  have kept := mem_telling inside telling
  cases intersects with
  | only isOnly made =>
    subst isOnly
    obtain rfl := List.mem_singleton.mp inside
    exact ⟨result, made⟩
  | nothing made | single made | merged made | extended made =>
    obtain ⟨other, _, made⟩ := exists_of_mem_right made.flip member kept
    exact ⟨other, made⟩

theorem commented_ok {results : List Generated} {items : List (Commented Expr)}
    (made : Generated.commented results = .ok items) :
    List.Forall₂ (fun result item => item.item = result.code) results items := by
  refine (mapM_eq_ok.mp made).imp fun result item made => ?_
  obtain ⟨comments, _, made⟩ := except_bind_eq_ok.mp made
  cases made
  rfl

section Properties

variable {has spread : Expr → Prop}

/-- A schema has code with a property. -/
def Schema.Has (context : Context) (has : Expr → Prop) (schema : Schema) : Prop :=
  ∃ result, (schema.generate context).result = .ok result ∧ has result.code

theorem Schema.has_iff {schema : Schema} {result : Generated}
    (made : (schema.generate context).result = .ok result) :
    schema.Has context has ↔ has result.code := by
  simp [Schema.Has, made]

theorem generateFields_has (has : Expr → Prop) {required : List Json} {headings : Table String}
    {properties : List (String × Schema)} {fields : List (Field Expr)} {refs : List String}
    (generated : (generateFields context required headings properties).result =
      .ok (fields, refs)) :
    (∃ field ∈ fields, has field.type) ↔
      ∃ property ∈ properties, property.2.Has context has := by
  refine exists_mem_iff (generateFields_ok generated) fun property field => ?_
  rintro ⟨result, made, isType⟩
  rw [Schema.has_iff made, isType]

theorem commented_has (has : Expr → Prop) {results : List Generated} {items : List (Commented Expr)}
    (made : Generated.commented results = .ok items) :
    (∃ item ∈ items, has item.item) ↔ ∃ result ∈ results, has result.code :=
  exists_mem_iff (commented_ok made) fun result item isCode => by rw [isCode]

theorem generateMembers_has (has : Expr → Prop) {members : List Schema} {results : List Generated}
    (made : List.Forall₂ (fun member result => (member.generate context).result = .ok result)
      members results) :
    (∃ result ∈ results, has result.code) ↔ ∃ member ∈ members, member.Has context has :=
  exists_mem_iff made fun member result isMade => by rw [Schema.has_iff isMade]

theorem generateAlone_has {additional : Additional} {code : Expr} {refs : List String}
    (inherited : Expr.Inherited has spread)
    (generated : (additional.generateAlone context).result = .ok (code, refs)) :
    has code ↔ ∃ schema, additional = .typed schema ∧ schema.Has context has := by
  cases additional with
  | unstated =>
    cases generated
    simp [inherited.struct]
  | allowed any =>
    have atom : code.IsAtom := by
      cases any <;> cases generated <;> trivial
    simp [inherited.atom atom]
  | typed schema =>
    obtain ⟨inner, made, generated⟩ := Logged.bind_eq_ok.mp generated
    cases generated
    simp [inherited.record, Schema.has_iff made]

theorem generateFurther_has (has : Expr → Prop) {additional : Additional} {further : Option Expr}
    {refs : List String}
    (generated : (additional.generateFurther context).result = .ok (further, refs)) :
    (∃ code, further = some code ∧ has code) ↔
      ∃ schema, additional = .typed schema ∧ schema.Has context has := by
  cases additional with
  | unstated | allowed =>
    cases generated
    simp
  | typed schema =>
    obtain ⟨inner, made, generated⟩ := Logged.bind_eq_ok.mp generated
    cases generated
    simp [Schema.has_iff made]

end Properties

/-- The properties of a schema, if it is an object. -/
def Schema.ownProperties : Schema → List (String × Schema)
  | .object _ properties _ _ _ => properties
  | _ => []

/-- A reference in the code of some property of a schema. -/
def Schema.InProperties (context : Context) (schema : Schema) (found : String × Bool) : Prop :=
  ∃ property ∈ schema.ownProperties, ∃ result,
    (property.2.generate context).result = .ok result ∧ found ∈ result.code.references

/-- What stands in a merged object comes from the code of a member, or from a property of one. -/
theorem generateParts_references {members : List Schema} {parts : List Part}
    {found : String × Bool} (made : List.Forall₂ (Schema.MakesPart context) members parts)
    (member : found ∈ partReferences parts) :
    ∃ source ∈ members, (∃ result, (source.generate context).result = .ok result ∧
      found ∈ result.code.references) ∨ source.InProperties context found := by
  obtain ⟨part, isPart, member⟩ := mem_partReferences.mp member
  obtain ⟨source, inside, made⟩ := exists_of_mem_right made part isPart
  refine ⟨source, inside, ?_⟩
  cases made with
  | fields listed =>
    exact .inr ((generateFields_has (found ∈ ·.references) listed).mp
      (mem_fieldReferences.mp member))
  | spread _ made => exact .inl ⟨_, made, member⟩

/-- Code replaces the usual one if the overrides have some for the schema. -/
theorem overriding_eq_ok {schema : Schema} {found : Option Generated} :
    (context.overriding schema).result = .ok found ↔
      ∃ chosen, context.overrides.schema schema = .ok chosen ∧
        chosen.map Generated.ofOverride = found := by
  rw [Context.overriding, Logged.bind_eq_ok]
  refine exists_congr fun chosen => and_congr Iff.rfl ?_
  cases chosen <;> exact Logged.pure_eq_ok

/-- Code that replaces the usual one holds no references. -/
theorem overriding_references {schema : Schema} {result : Generated}
    (chosen : (context.overriding schema).result = .ok (some result)) :
    result.code.references = [] := by
  obtain ⟨_, _, isResult⟩ := overriding_eq_ok.mp chosen
  obtain ⟨override, _, rfl⟩ := Option.map_eq_some_iff.mp isResult
  rfl

/-- Code that can be replaced is what the overrides have for the schema, or else the usual code. -/
theorem overridden_or_usual {schema : Schema} {usual : Logged Generated} {result : Generated}
    (generated : (do
      match ← context.overriding schema with
      | some result => return result
      | none => usual : Logged Generated).result = .ok result) :
    (∃ override, context.overrides.schema schema = .ok (some override) ∧
      result = .ofOverride override) ∨
    (context.overrides.schema schema = .ok none ∧ usual.result = .ok result) := by
  obtain ⟨found, chosen, generated⟩ := Logged.bind_eq_ok.mp generated
  obtain ⟨choice, isChoice, rfl⟩ := overriding_eq_ok.mp chosen
  cases choice with
  | none => exact .inr ⟨isChoice, generated⟩
  | some override =>
    cases generated
    exact .inl ⟨override, isChoice, rfl⟩

/-- Code with a reference is the usual code, not one that replaces it. -/
theorem usual_of_reference {schema : Schema} {usual : Logged Generated} {result : Generated}
    {found : String × Bool}
    (generated : (do
      match ← context.overriding schema with
      | some result => return result
      | none => usual : Logged Generated).result = .ok result)
    (member : found ∈ result.code.references) : usual.result = .ok result := by
  rcases overridden_or_usual generated with ⟨override, _, rfl⟩ | ⟨_, usual⟩
  · cases member
  · exact usual

theorem constants_isAtom {expected : String} {isExpected : Json → Bool} {values : List Json}
    {code : Expr} (made : Scalar.constants expected isExpected values = .ok code) :
    code.IsAtom := by
  unfold Scalar.constants at made
  split at made <;> cases made
  trivial

theorem scalar_isAtom {overrides : Overrides} {schema : Schema} {scalar : Scalar} {code : Expr}
    {refs : List String} (generated : scalar.generate overrides schema = .ok (code, refs)) :
    code.IsAtom := by
  unfold Scalar.generate at generated
  split at generated
  case h_1 =>
    obtain ⟨choice, _, generated⟩ := except_bind_eq_ok.mp generated
    cases choice <;> cases generated <;> trivial
  case h_2 =>
    unfold Scalar.generateString at generated
    split at generated
    · obtain ⟨values, made, generated⟩ := except_bind_eq_ok.mp generated
      cases generated
      exact constants_isAtom made
    · obtain ⟨base, _, generated⟩ := except_bind_eq_ok.mp generated
      obtain ⟨choice, _, generated⟩ := except_bind_eq_ok.mp generated
      cases choice <;> cases generated <;> trivial
  case h_5 =>
    split at generated
    · cases generated
    · obtain ⟨choice, _, generated⟩ := except_bind_eq_ok.mp generated
      cases choice <;> cases generated <;> trivial
  all_goals
    unfold Scalar.generateNumber at generated
    split at generated
    · obtain ⟨values, made, generated⟩ := except_bind_eq_ok.mp generated
      cases generated
      exact constants_isAtom made
    · obtain ⟨base, _, generated⟩ := except_bind_eq_ok.mp generated
      obtain ⟨choice, _, generated⟩ := except_bind_eq_ok.mp generated
      cases choice <;> cases generated <;> trivial

/-- The code of a scalar holds no references. -/
theorem scalar_references {overrides : Overrides} {schema : Schema} {scalar : Scalar} {code : Expr}
    {refs : List String} (generated : scalar.generate overrides schema = .ok (code, refs)) :
    code.references = [] := by
  have atom := scalar_isAtom generated
  cases code with
  | verbatim | filtered | constants => rfl
  | _ => cases atom

/-- A reference is bare if its target is declared before, and deferred if not, and its target is a
dependency of a schema. -/
def Schema.Traced (context : Context) (schema : Schema) (found : String × Bool) : Prop :=
  context.isBefore found.1 = .ok (!found.2) ∧
    ∀ targets, schema.dependencies = .ok targets → found.1 ∈ targets

variable {found : String × Bool}

theorem traced_of_member {info : Info} {combinator : Combinator} {members : List Schema}
    {member : Schema} (inside : member ∈ members) (traced : member.Traced context found) :
    (Schema.combined info combinator members).Traced context found := by
  refine ⟨traced.1, fun targets known => ?_⟩
  rw [Schema.dependencies] at known
  obtain ⟨all, listed, known⟩ := except_bind_eq_ok.mp known
  cases known
  obtain ⟨here, isHere, included⟩ := member_dependencies listed member inside
  exact Text.mem_unique.mpr (included (traced.2 here isHere))

theorem traced_of_property {info : Info} {properties : List (String × Schema)}
    {required : List Json} {additional : Additional} {headings : Table String}
    {property : String × Schema} (inside : property ∈ properties)
    (traced : property.2.Traced context found) :
    (Schema.object info properties required additional headings).Traced context found := by
  refine ⟨traced.1, fun targets known => ?_⟩
  rw [Schema.dependencies] at known
  obtain ⟨named, listed, known⟩ := except_bind_eq_ok.mp known
  obtain ⟨others, _, known⟩ := except_bind_eq_ok.mp known
  cases known
  rw [propertyDependencies_eq] at listed
  obtain ⟨here, isHere, included⟩ :=
    member_dependencies listed property.2 (List.mem_map_of_mem inside)
  exact Text.mem_unique.mpr (List.mem_append_left _ (included (traced.2 here isHere)))

theorem traced_of_additional {info : Info} {properties : List (String × Schema)}
    {required : List Json} {headings : Table String} {schema : Schema}
    (traced : schema.Traced context found) :
    (Schema.object info properties required (.typed schema) headings).Traced context found := by
  refine ⟨traced.1, fun targets known => ?_⟩
  rw [Schema.dependencies] at known
  obtain ⟨named, _, known⟩ := except_bind_eq_ok.mp known
  obtain ⟨others, isOthers, known⟩ := except_bind_eq_ok.mp known
  cases known
  exact Text.mem_unique.mpr (List.mem_append_right _ (traced.2 others isOthers))

/-- All references in the code of a schema can be traced to the schema. -/
def Schema.Traceable (context : Context) (schema : Schema) : Prop :=
  ∀ result, (schema.generate context).result = .ok result →
    ∀ found ∈ result.code.references, schema.Traced context found

theorem reference_traceable {info : Info} {ref : Json} :
    (Schema.reference info ref).Traceable context := by
  intro result generated found member
  obtain ⟨id, isId, generated⟩ := Logged.bind_eq_ok.mp generated
  obtain ⟨before, isBefore, generated⟩ := Logged.bind_eq_ok.mp generated
  cases generated
  obtain rfl := List.mem_singleton.mp member
  refine ⟨by simpa using isBefore, fun targets known => ?_⟩
  rw [Schema.dependencies] at known
  obtain ⟨other, isOther, known⟩ := except_bind_eq_ok.mp known
  cases known
  rw [Logged.result_lift, isOther] at isId
  cases isId
  exact List.mem_singleton.mpr rfl

theorem array_traceable {info : Info} {items : Schema} {minItems maxItems : Option Int}
    (traceable : items.Traceable context) :
    (Schema.array info items minItems maxItems).Traceable context := by
  intro result generated found member
  obtain ⟨inner, made, generated⟩ := Logged.bind_eq_ok.mp generated
  cases generated
  have traced := traceable inner made found member
  refine ⟨traced.1, fun targets known => ?_⟩
  rw [Schema.dependencies] at known
  obtain ⟨here, isHere, known⟩ := except_bind_eq_ok.mp known
  cases known
  exact Text.mem_unique.mpr (traced.2 here isHere)

theorem scalar_traceable {info : Info} {scalar : Scalar} :
    (Schema.scalar info scalar).Traceable context := by
  intro result generated found member
  have generated := usual_of_reference generated member
  obtain ⟨⟨code, refs⟩, made, generated⟩ := Logged.bind_eq_ok.mp generated
  cases generated
  rw [scalar_references made] at member
  cases member

theorem object_traceable {info : Info} {properties : List (String × Schema)}
    {required : List Json} {additional : Additional} {headings : Table String}
    (named : ∀ property ∈ properties, property.2.Traceable context)
    (others : ∀ schema, additional = .typed schema → schema.Traceable context) :
    (Schema.object info properties required additional headings).Traceable context := by
  intro result generated found member
  have inherited := Expr.references_inherited found
  have ofAdditional : (∃ schema, additional = .typed schema ∧
      schema.Has context (found ∈ ·.references)) →
      (Schema.object info properties required additional headings).Traced context found := by
    rintro ⟨schema, rfl, inner, made, inside⟩
    exact traced_of_additional (others schema rfl inner made found inside)
  cases properties with
  | nil =>
    have generated := usual_of_reference generated member
    obtain ⟨⟨code, refs⟩, made, generated⟩ := Logged.bind_eq_ok.mp generated
    cases generated
    exact ofAdditional ((generateAlone_has inherited made).mp member)
  | cons first rest =>
    have generated := usual_of_reference generated member
    obtain ⟨⟨further, furtherRefs⟩, made, generated⟩ := Logged.bind_eq_ok.mp generated
    obtain ⟨⟨fields, refs⟩, listed, generated⟩ := Logged.bind_eq_ok.mp generated
    cases generated
    rcases inherited.struct.mp member with inside | inside
    · obtain ⟨property, isProperty, inner, isInner, inside⟩ :=
        (generateFields_has (found ∈ ·.references) listed).mp inside
      exact traced_of_property isProperty (named property isProperty inner isInner found inside)
    · exact ofAdditional ((generateFurther_has (found ∈ ·.references) made).mp inside)

theorem union_traceable {info : Info} {combinator : Combinator} {members : List Schema}
    (isUnion : combinator ≠ .allOf) (traceable : ∀ member ∈ members, member.Traceable context) :
    (Schema.combined info combinator members).Traceable context := by
  intro result generated found member
  rw [generate_union isUnion] at generated
  obtain ⟨results, made, generated⟩ := Logged.bind_eq_ok.mp generated
  have ofResult : ∀ other ∈ results, found ∈ other.code.references →
      (Schema.combined info combinator members).Traced context found := by
    intro other isOther inside
    obtain ⟨source, isSource, isMade⟩ :=
      exists_of_mem_right (generateMembers_ok made) other isOther
    exact traced_of_member isSource (traceable source isSource other isMade found inside)
  split at generated
  · exact absurd generated Logged.throw_ne_ok
  · cases generated
    exact ofResult result List.mem_cons_self member
  · obtain ⟨items, commented, generated⟩ := Logged.bind_eq_ok.mp generated
    cases generated
    obtain ⟨other, isOther, inside⟩ := (commented_has (found ∈ ·.references) commented).mp
      ((Expr.references_inherited found).union.mp member)
    exact ofResult other isOther inside

theorem intersection_traceable {info : Info} {members : List Schema}
    (traceable : ∀ member ∈ members, member.Traceable context)
    (listed : ∀ member ∈ members, ∀ found, member.InProperties context found →
      member.Traced context found) :
    (Schema.combined info .allOf members).Traceable context := by
  intro result generated found member
  have ofMember : ∀ source ∈ members, ∀ other, (source.generate context).result = .ok other →
      found ∈ other.code.references →
      (Schema.combined info .allOf members).Traced context found :=
    fun source isSource other isMade inside =>
      traced_of_member isSource (traceable source isSource other isMade found inside)
  have ofResult : ∀ {results : List Generated},
      List.Forall₂ (fun member result => (member.generate context).result = .ok result)
        (members.filter fun member => !member.isVacuous) results →
      ∀ other ∈ results, found ∈ other.code.references →
        (Schema.combined info .allOf members).Traced context found := by
    intro results made other isOther inside
    obtain ⟨source, telling, isMade⟩ := exists_of_mem_right made other isOther
    exact ofMember source (List.mem_of_mem_filter telling) other isMade inside
  cases generate_intersects generated with
  | @only only _ isOnly made =>
    exact ofMember only (isOnly ▸ List.mem_cons_self) result made member
  | nothing => cases member
  | single made => exact ofResult made result List.mem_cons_self member
  | merged _ _ _ isParts =>
    obtain ⟨source, telling, ⟨other, isMade, inside⟩ | inside⟩ :=
      generateParts_references isParts member
    · exact ofMember source (List.mem_of_mem_filter telling) other isMade inside
    · have isSource : source ∈ members := List.mem_of_mem_filter telling
      exact traced_of_member isSource (listed source isSource found inside)
  | extended made _ _ commented =>
    obtain ⟨other, isOther, inside⟩ := (commented_has (found ∈ ·.references) commented).mp
      ((Expr.references_inherited found).extended.mp member)
    exact ofResult made other isOther inside

/-- Every reference in the code of a schema can be traced to the schema. -/
theorem Schema.generate_traceable (schema : Schema) : schema.Traceable context := by
  -- A merged object lists the properties of its members again, so these are carried along.
  suffices both : schema.Traceable context ∧
      ∀ found, schema.InProperties context found → schema.Traced context found from both.1
  have noProperties : ∀ {schema : Schema}, schema.ownProperties = [] →
      ∀ found, schema.InProperties context found → schema.Traced context found := by
    rintro schema none found ⟨property, inside, _⟩
    rw [none] at inside
    cases inside
  induction schema using Schema.induction with
  | reference info ref => exact ⟨reference_traceable, noProperties rfl⟩
  | array info items minItems maxItems ih => exact ⟨array_traceable ih.1, noProperties rfl⟩
  | scalar info scalar => exact ⟨scalar_traceable, noProperties rfl⟩
  | unsupported info construct =>
    refine ⟨fun result generated => ?_, noProperties rfl⟩
    exact absurd generated Logged.throw_ne_ok
  | object info properties required additional headings named others =>
    refine ⟨object_traceable (fun property inside => (named property inside).1)
      fun schema isSchema => (others schema isSchema).1, ?_⟩
    rintro found ⟨property, isProperty, result, made, inside⟩
    exact traced_of_property isProperty
      ((named property isProperty).1 result made found inside)
  | combined info combinator members ih =>
    refine ⟨?_, noProperties rfl⟩
    by_cases isUnion : combinator = .allOf
    · subst isUnion
      exact intersection_traceable (fun member inside => (ih member inside).1)
        fun member inside => (ih member inside).2
    · exact union_traceable isUnion fun member inside => (ih member inside).1

end Generation

end SchemaPress
