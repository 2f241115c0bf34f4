import SchemaPress.Proofs.SchemaWalks

/-! What a schema mentions. Code that is generated without overrides refers to the ids that its
schema mentions, each once, in the order in which generation meets them; these are the dependencies
of the schema, which are met in another order. A schema whose dependencies are not known has no
code. -/

namespace SchemaPress

mutual

/-- The ids that a schema mentions, as generation meets them: what an object says about other
properties comes before its properties. -/
def Schema.mentions : Schema → List String
  | .reference _ ref => (Schema.target ref).toOption.toList
  | .array _ items _ _ => items.mentions
  | .object _ properties _ additional _ => additional.mentions ++ propertyMentions properties
  | .combined _ _ members => memberMentions members
  | .scalar _ _ | .unsupported _ _ => []

/-- The ids that the schema of other properties mentions. -/
def Additional.mentions : Additional → List String
  | .typed schema => schema.mentions
  | .unstated | .allowed _ => []

/-- The ids that properties mention, one property after the other. -/
def propertyMentions : List (String × Schema) → List String
  | [] => []
  | (_, schema) :: rest => schema.mentions ++ propertyMentions rest

/-- The ids that members mention, one member after the other. -/
def memberMentions : List Schema → List String
  | [] => []
  | schema :: rest => schema.mentions ++ memberMentions rest

end

theorem propertyMentions_eq (properties : List (String × Schema)) :
    propertyMentions properties = memberMentions (properties.map Prod.snd) := by
  induction properties with
  | nil => rfl
  | cons property rest ih => rw [propertyMentions, ih, List.map_cons, memberMentions]

theorem mem_memberMentions {members : List Schema} {id : String} :
    id ∈ memberMentions members ↔ ∃ member ∈ members, id ∈ member.mentions := by
  induction members with
  | nil => simp [memberMentions]
  | cons first rest ih => simp [memberMentions, ih]

theorem mem_propertyMentions {properties : List (String × Schema)} {id : String} :
    id ∈ propertyMentions properties ↔ ∃ property ∈ properties, id ∈ property.2.mentions := by
  induction properties with
  | nil => simp [propertyMentions]
  | cons first rest ih => simp [propertyMentions, ih]

theorem mentions_subset_of_mem {members : List Schema} {member : Schema}
    (inside : member ∈ members) : member.mentions ⊆ memberMentions members :=
  fun _ mentioned => mem_memberMentions.mpr ⟨member, inside, mentioned⟩

section Dependencies

variable {targets : List String} {id : String}

/-- Dependencies and mentions have the same members. -/
def Schema.DependsAsMentioned (schema : Schema) : Prop :=
  ∀ targets, schema.dependencies = .ok targets → ∀ id, id ∈ targets ↔ id ∈ schema.mentions

theorem mem_memberDependencies {members : List Schema}
    (each : ∀ member ∈ members, member.DependsAsMentioned)
    (known : memberDependencies members = .ok targets) :
    id ∈ targets ↔ id ∈ memberMentions members := by
  induction members generalizing targets with
  | nil =>
    cases known
    rfl
  | cons first rest ih =>
    rw [memberDependencies] at known
    obtain ⟨here, isHere, known⟩ := except_bind_eq_ok.mp known
    obtain ⟨later, others, known⟩ := except_bind_eq_ok.mp known
    cases known
    have first := each first List.mem_cons_self here isHere id
    have rest := ih (fun member inside => each member (List.mem_cons_of_mem _ inside)) others
    rw [memberMentions, List.mem_append, List.mem_append, first, rest]

theorem mem_additionalDependencies {additional : Additional}
    (typed : ∀ schema, additional = .typed schema → schema.DependsAsMentioned)
    (known : additional.dependencies = .ok targets) :
    id ∈ targets ↔ id ∈ additional.mentions := by
  cases additional with
  | unstated | allowed =>
    cases known
    rfl
  | typed schema => exact typed schema rfl targets known id

/-- The dependencies of a schema are what it mentions. -/
theorem Schema.mem_dependencies (schema : Schema) : schema.DependsAsMentioned := by
  induction schema using Schema.induction with
  | reference info ref =>
    intro targets known id
    rw [Schema.dependencies] at known
    obtain ⟨target, isTarget, known⟩ := except_bind_eq_ok.mp known
    cases known
    rw [Schema.mentions, isTarget]
    rfl
  | array info items minItems maxItems ih =>
    intro targets known id
    rw [Schema.dependencies] at known
    obtain ⟨here, isHere, known⟩ := except_bind_eq_ok.mp known
    cases known
    rw [Text.mem_unique, ih here isHere, Schema.mentions]
  | scalar info scalar =>
    intro targets known id
    cases known
    rfl
  | unsupported info construct =>
    intro targets known
    cases known
  | object info properties required additional headings named others =>
    intro targets known id
    rw [Schema.dependencies, propertyDependencies_eq] at known
    obtain ⟨here, isHere, known⟩ := except_bind_eq_ok.mp known
    obtain ⟨further, isFurther, known⟩ := except_bind_eq_ok.mp known
    cases known
    have each : ∀ member ∈ properties.map Prod.snd, member.DependsAsMentioned :=
      List.forall_mem_map.mpr named
    rw [Text.mem_unique, List.mem_append, mem_memberDependencies each isHere,
      mem_additionalDependencies others isFurther, Schema.mentions, List.mem_append,
      propertyMentions_eq, or_comm]
  | combined info combinator members ih =>
    intro targets known id
    rw [Schema.dependencies] at known
    obtain ⟨all, listed, known⟩ := except_bind_eq_ok.mp known
    cases known
    rw [Text.mem_unique, mem_memberDependencies ih listed, Schema.mentions]

theorem memberDependencies_ok {members : List Schema}
    (each : ∀ member ∈ members, ∃ targets, member.dependencies = .ok targets) :
    ∃ targets, memberDependencies members = .ok targets := by
  induction members with
  | nil => exact ⟨[], rfl⟩
  | cons first rest ih =>
    obtain ⟨here, isHere⟩ := each first List.mem_cons_self
    obtain ⟨later, isLater⟩ := ih fun member inside => each member (List.mem_cons_of_mem _ inside)
    refine ⟨here ++ later, ?_⟩
    rw [memberDependencies, isHere, isLater]
    rfl

end Dependencies

/-- An object that says nothing about its properties mentions nothing. -/
theorem Schema.mentions_of_vacuous {schema : Schema} (vacuous : schema.isVacuous = true) :
    schema.mentions = [] ∧ schema.dependencies = .ok [] := by
  unfold Schema.isVacuous at vacuous
  split at vacuous
  · exact ⟨rfl, rfl⟩
  · exact ⟨rfl, rfl⟩
  · cases vacuous

theorem memberMentions_telling (members : List Schema) :
    memberMentions (members.filter fun member => !member.isVacuous) = memberMentions members := by
  induction members with
  | nil => rfl
  | cons first rest ih =>
    by_cases vacuous : first.isVacuous = true
    · have silent : first.mentions = [] := (first.mentions_of_vacuous vacuous).1
      simp [memberMentions, vacuous, silent, ih]
    · simp [memberMentions, vacuous, ih]

/-- Overrides that keep the usual code of every schema. How optional fields are represented is left
open. -/
structure Overrides.Silent (overrides : Overrides) : Prop where
  schema : overrides.schema = Choice.usual
  string : overrides.string = Choice.usual
  number : overrides.number = Choice.usual
  boolean : overrides.boolean = Choice.usual
  null : overrides.null = Choice.usual

section Generation

variable {context : Context}

/-- Code of a schema, if there is any, refers to what the schema mentions, and its dependencies are
known. -/
def Schema.RefersAsMentioned (context : Context) (schema : Schema) : Prop :=
  ∀ result, (schema.generate context).result = .ok result →
    result.refs = Text.unique schema.mentions ∧ ∃ targets, schema.dependencies = .ok targets

theorem combineRefs_mentions {members : List Schema} {results : List Generated}
    (each : ∀ member ∈ members, member.RefersAsMentioned context)
    (made : List.Forall₂ (fun member result => (member.generate context).result = .ok result)
      members results) :
    Generated.combineRefs results = Text.unique (memberMentions members) := by
  rw [Generated.combineRefs]
  induction made with
  | nil => rfl
  | cons here _ ih =>
    have later := ih fun member inside => each member (List.mem_cons_of_mem _ inside)
    have refs := (each _ List.mem_cons_self _ here).1
    rw [List.flatMap_cons, memberMentions]
    refine Text.unique_append_congr ?_ later
    rw [refs, Text.unique_unique]

theorem combineRefs_single {members : List Schema} {result : Generated}
    (each : ∀ member ∈ members, member.RefersAsMentioned context)
    (made : List.Forall₂ (fun member result => (member.generate context).result = .ok result)
      members [result]) : Generated.combineRefs [result] = result.refs := by
  obtain ⟨member, inside, made⟩ := exists_of_mem_right made result List.mem_cons_self
  have listed : Generated.combineRefs [result] = Text.unique result.refs := by
    rw [Generated.combineRefs, List.flatMap_cons, List.flatMap_nil, List.append_nil]
  rw [listed, (each member inside result made).1, Text.unique_unique]

theorem dependencies_of_members {members : List Schema} {results : List Generated}
    (each : ∀ member ∈ members, member.RefersAsMentioned context)
    (made : List.Forall₂ (fun member result => (member.generate context).result = .ok result)
      members results) :
    ∀ member ∈ members, ∃ targets, member.dependencies = .ok targets := by
  intro member inside
  obtain ⟨result, _, made⟩ := exists_of_mem_right made.flip member inside
  exact (each member inside result made).2

theorem generateFields_refs {required : List Json} {headings : Table String}
    {properties : List (String × Schema)} {fields : List (Field Expr)} {refs : List String}
    (each : ∀ property ∈ properties, property.2.RefersAsMentioned context)
    (generated : (generateFields context required headings properties).result =
      .ok (fields, refs)) :
    refs = Text.unique (propertyMentions properties) ∧
      ∃ targets, propertyDependencies properties = .ok targets := by
  induction properties generalizing fields refs with
  | nil =>
    cases generated
    exact ⟨rfl, [], rfl⟩
  | cons first rest ih =>
    obtain ⟨name, schema⟩ := first
    rw [generateFields] at generated
    obtain ⟨result, made, generated⟩ := Logged.bind_eq_ok.mp generated
    obtain ⟨comments, _, generated⟩ := Logged.bind_eq_ok.mp generated
    obtain ⟨⟨others, otherRefs⟩, later, generated⟩ := Logged.bind_eq_ok.mp generated
    cases generated
    obtain ⟨isRefs, here, isHere⟩ := each (name, schema) List.mem_cons_self result made
    obtain ⟨isOthers, further, isFurther⟩ :=
      ih (fun property inside => each property (List.mem_cons_of_mem _ inside)) later
    refine ⟨?_, here ++ further, ?_⟩
    · rw [isRefs, isOthers, propertyMentions]
      exact Text.unique_append_congr (Text.unique_unique _) (Text.unique_unique _)
    · rw [propertyDependencies, isHere, isFurther]
      rfl

theorem generateAlone_refs {additional : Additional} {code : Expr} {refs : List String}
    (typed : ∀ schema, additional = .typed schema → schema.RefersAsMentioned context)
    (generated : (additional.generateAlone context).result = .ok (code, refs)) :
    refs = Text.unique additional.mentions ∧ ∃ targets, additional.dependencies = .ok targets := by
  cases additional with
  | unstated =>
    cases generated
    exact ⟨rfl, [], rfl⟩
  | allowed any =>
    cases any <;> cases generated <;> exact ⟨rfl, [], rfl⟩
  | typed schema =>
    obtain ⟨inner, made, generated⟩ := Logged.bind_eq_ok.mp generated
    cases generated
    exact typed schema rfl inner made

theorem generateFurther_refs {additional : Additional} {further : Option Expr} {refs : List String}
    (typed : ∀ schema, additional = .typed schema → schema.RefersAsMentioned context)
    (generated : (additional.generateFurther context).result = .ok (further, refs)) :
    refs = Text.unique additional.mentions ∧ ∃ targets, additional.dependencies = .ok targets := by
  cases additional with
  | unstated | allowed =>
    cases generated
    exact ⟨rfl, [], rfl⟩
  | typed schema =>
    obtain ⟨inner, made, generated⟩ := Logged.bind_eq_ok.mp generated
    cases generated
    exact typed schema rfl inner made

/-- Without overrides, code is the usual code. -/
theorem usual_of_silent {schema : Schema} {usual : Logged Generated} {result : Generated}
    (silent : context.overrides.Silent)
    (generated : (do
      match ← context.overriding schema with
      | some result => return result
      | none => usual : Logged Generated).result = .ok result) : usual.result = .ok result := by
  rcases overridden_or_usual generated with ⟨override, isChoice, _⟩ | ⟨_, usual⟩
  · rw [silent.schema] at isChoice
    cases isChoice
  · exact usual

theorem scalar_refs {overrides : Overrides} {schema : Schema} {scalar : Scalar} {code : Expr}
    {refs : List String} (silent : overrides.Silent)
    (generated : scalar.generate overrides schema = .ok (code, refs)) : refs = [] := by
  unfold Scalar.generate at generated
  rw [silent.string, silent.number, silent.boolean, silent.null] at generated
  split at generated
  case h_1 =>
    cases generated
    rfl
  case h_2 =>
    unfold Scalar.generateString at generated
    split at generated <;>
      obtain ⟨_, _, generated⟩ := except_bind_eq_ok.mp generated <;>
      cases generated <;> rfl
  case h_5 =>
    split at generated <;> cases generated
    rfl
  all_goals
    unfold Scalar.generateNumber at generated
    split at generated <;>
      obtain ⟨_, _, generated⟩ := except_bind_eq_ok.mp generated <;>
      cases generated <;> rfl

theorem reference_refers {info : Info} {ref : Json} :
    (Schema.reference info ref).RefersAsMentioned context := by
  intro result generated
  obtain ⟨id, isId, generated⟩ := Logged.bind_eq_ok.mp generated
  obtain ⟨before, _, generated⟩ := Logged.bind_eq_ok.mp generated
  cases generated
  rw [Logged.result_lift] at isId
  rw [Schema.mentions, Schema.dependencies, isId]
  exact ⟨rfl, [id], rfl⟩

theorem array_refers {info : Info} {items : Schema} {minItems maxItems : Option Int}
    (inner : items.RefersAsMentioned context) :
    (Schema.array info items minItems maxItems).RefersAsMentioned context := by
  intro result generated
  obtain ⟨item, made, generated⟩ := Logged.bind_eq_ok.mp generated
  cases generated
  obtain ⟨isRefs, targets, known⟩ := inner item made
  rw [Schema.mentions, Schema.dependencies, known]
  exact ⟨isRefs, _, rfl⟩

theorem scalar_refers {info : Info} {scalar : Scalar} (silent : context.overrides.Silent) :
    (Schema.scalar info scalar).RefersAsMentioned context := by
  intro result generated
  have generated := usual_of_silent silent generated
  obtain ⟨⟨code, refs⟩, made, generated⟩ := Logged.bind_eq_ok.mp generated
  cases generated
  exact ⟨scalar_refs silent made, [], rfl⟩

theorem object_refers {info : Info} {properties : List (String × Schema)} {required : List Json}
    {additional : Additional} {headings : Table String} (silent : context.overrides.Silent)
    (named : ∀ property ∈ properties, property.2.RefersAsMentioned context)
    (others : ∀ schema, additional = .typed schema → schema.RefersAsMentioned context) :
    (Schema.object info properties required additional headings).RefersAsMentioned context := by
  intro result generated
  cases properties with
  | nil =>
    have generated := usual_of_silent silent generated
    obtain ⟨⟨code, refs⟩, made, generated⟩ := Logged.bind_eq_ok.mp generated
    cases generated
    obtain ⟨isRefs, targets, known⟩ := generateAlone_refs others made
    rw [Schema.mentions, Schema.dependencies, known, propertyMentions, List.append_nil]
    exact ⟨isRefs, _, rfl⟩
  | cons first rest =>
    have generated := usual_of_silent silent generated
    obtain ⟨⟨further, furtherRefs⟩, made, generated⟩ := Logged.bind_eq_ok.mp generated
    obtain ⟨⟨fields, refs⟩, listed, generated⟩ := Logged.bind_eq_ok.mp generated
    cases generated
    obtain ⟨isFurther, targets, known⟩ := generateFurther_refs others made
    obtain ⟨isRefs, named, isNamed⟩ := generateFields_refs named listed
    rw [Schema.mentions, Schema.dependencies, known, isNamed]
    refine ⟨?_, _, rfl⟩
    rw [isFurther, isRefs]
    exact Text.unique_append_congr (Text.unique_unique _) (Text.unique_unique _)

theorem union_refers {info : Info} {combinator : Combinator} {members : List Schema}
    (isUnion : combinator ≠ .allOf)
    (each : ∀ member ∈ members, member.RefersAsMentioned context) :
    (Schema.combined info combinator members).RefersAsMentioned context := by
  intro result generated
  rw [generate_union isUnion] at generated
  obtain ⟨results, made, generated⟩ := Logged.bind_eq_ok.mp generated
  have made := generateMembers_ok made
  obtain ⟨targets, known⟩ := memberDependencies_ok (dependencies_of_members each made)
  have refs := combineRefs_mentions each made
  rw [Schema.mentions, Schema.dependencies, known]
  refine ⟨?_, _, rfl⟩
  rw [← refs]
  split at generated
  · exact absurd generated Logged.throw_ne_ok
  · cases generated
    exact (combineRefs_single each made).symm
  · obtain ⟨items, _, generated⟩ := Logged.bind_eq_ok.mp generated
    cases generated
    rfl

theorem intersection_refers {info : Info} {members : List Schema}
    (each : ∀ member ∈ members, member.RefersAsMentioned context) :
    (Schema.combined info .allOf members).RefersAsMentioned context := by
  intro result generated
  have telling : ∀ member ∈ members.filter fun member => !member.isVacuous,
      member.RefersAsMentioned context :=
    fun member inside => each member (List.mem_of_mem_filter inside)
  -- Members that say nothing are left out of the code, and mention nothing.
  have ofTelling : ∀ {results : List Generated},
      List.Forall₂ (fun member result => (member.generate context).result = .ok result)
        (members.filter fun member => !member.isVacuous) results →
      Generated.combineRefs results =
          Text.unique (Schema.combined info .allOf members).mentions ∧
        ∃ targets, (Schema.combined info .allOf members).dependencies = .ok targets := by
    intro results made
    have known : ∀ member ∈ members, ∃ targets, member.dependencies = .ok targets := by
      intro member inside
      by_cases vacuous : member.isVacuous = true
      · exact ⟨[], (member.mentions_of_vacuous vacuous).2⟩
      · refine dependencies_of_members telling made member (List.mem_filter.mpr ⟨inside, ?_⟩)
        simpa using vacuous
    obtain ⟨targets, known⟩ := memberDependencies_ok known
    rw [Schema.mentions, Schema.dependencies, known, combineRefs_mentions telling made,
      memberMentions_telling]
    exact ⟨rfl, _, rfl⟩
  cases generate_intersects generated with
  | @only only _ isOnly made =>
    subst isOnly
    obtain ⟨isRefs, targets, known⟩ := each only List.mem_cons_self result made
    rw [Schema.mentions, Schema.dependencies, memberMentions, memberMentions, memberDependencies,
      known, List.append_nil]
    exact ⟨isRefs, _, rfl⟩
  | single made =>
    rw [← combineRefs_single telling made]
    exact ofTelling made
  | nothing made | merged made | extended made => exact ofTelling made

/-- Code that is generated without overrides refers to what its schema mentions, each id once. -/
theorem Schema.generate_refers (silent : context.overrides.Silent) (schema : Schema) :
    schema.RefersAsMentioned context := by
  induction schema using Schema.induction with
  | reference info ref => exact reference_refers
  | array info items minItems maxItems ih => exact array_refers ih
  | scalar info scalar => exact scalar_refers silent
  | unsupported info construct =>
    intro result generated
    exact absurd generated Logged.throw_ne_ok
  | object info properties required additional headings named others =>
    exact object_refers silent named others
  | combined info combinator members ih =>
    by_cases isUnion : combinator = .allOf
    · subst isUnion
      exact intersection_refers ih
    · exact union_refers isUnion ih

/-- Generation and the analysis of dependencies see the same references. If a schema has code
without overrides, whatever is declared before it, then its dependencies are known; the code refers
to the same ids, each once, though perhaps in another order; and these are the targets of the
references that the walk through the schema comes across. -/
theorem Schema.refs_permute_dependencies {schema : Schema} {result : Generated}
    (silent : context.overrides.Silent)
    (generated : (schema.generate context).result = .ok result) :
    ∃ targets, schema.dependencies = .ok targets ∧ result.refs.Nodup ∧
      result.refs.Perm targets ∧
      ∀ id, id ∈ result.refs ↔ ∃ node ∈ schema.walk, node.IsReferenceTo id := by
  obtain ⟨isRefs, targets, known⟩ := schema.generate_refers silent result generated
  have distinct : result.refs.Nodup := isRefs ▸ Text.unique_nodup _
  have same : ∀ id, id ∈ result.refs ↔ id ∈ targets := by
    intro id
    rw [isRefs, Text.mem_unique, ← schema.mem_dependencies targets known id]
  refine ⟨targets, known, distinct, ?_, fun id => ?_⟩
  · exact (List.perm_ext_iff_of_nodup distinct (Schema.dependencies_nodup known)).mpr same
  · rw [same, Schema.mem_dependencies_iff known]

/-- An `allOf` with a member that says nothing, an object that says something about other
properties, and a reference to what the object refers to as well. -/
def layered : Schema :=
  let info : Info := ⟨"", .null, .null, false, none, []⟩
  let refer (id : String) : Schema := .reference info (.str (Reference.ofId id))
  .combined info .allOf [.object info [] [] .unstated [],
    .object info [("b", refer "B"), ("a", .combined info .oneOf [refer "A"])] []
      (.typed (.array info (refer "C") none none)) [],
    refer "B"]

/-- Definitions that the object in `layered` can be merged with. -/
def layeredContext : Context where
  table := [("B", .object ⟨"", .null, .null, false, none, []⟩ [] [] .unstated [])]

theorem Schema.refs_permute_dependencies_layered :
    ∃ result, (layered.generate layeredContext).result = .ok result ∧
      result.refs = ["C", "B", "A"] ∧ layered.dependencies = .ok ["B", "A", "C"] ∧
      result.refs.Perm ["B", "A", "C"] := by
  have refs : (layered.generate layeredContext).result.toOption.map Generated.refs =
      some ["C", "B", "A"] := by decide +kernel
  have known : layered.dependencies = .ok ["B", "A", "C"] := eq_ok_of_toOption (by decide +kernel)
  obtain ⟨result, found, isRefs⟩ := Option.map_eq_some_iff.mp refs
  have generated := eq_ok_of_toOption found
  obtain ⟨targets, isTargets, _, permuted, _⟩ :=
    Schema.refs_permute_dependencies ⟨rfl, rfl, rfl, rfl, rfl⟩ generated
  rw [known] at isTargets
  cases isTargets
  exact ⟨result, generated, isRefs, known, permuted⟩

end Generation

end SchemaPress
