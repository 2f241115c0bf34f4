import SchemaPress.Proofs.CodeTexts
import SchemaPress.Proofs.MergedObjects

/-! Fields to spread. A merged `allOf` spreads the fields of the definitions it refers to, and takes
a definition to have fields if it describes an object. The code of such a definition is a structure
or the name of another such definition, unless the object is a dictionary, the name is deferred, or
an `allOf` became a pipeline. -/

namespace SchemaPress

namespace Definitions

variable {table : Definitions} {path : List String} {id : String} {answer own : Bool}

theorem Answers.unique (first : table.Answers path id answer) (second : table.Answers path id own) :
    answer = own := by
  obtain ⟨_, definition, found, known⟩ := first
  obtain ⟨_, _, same, again⟩ := second
  cases found.symm.trans same
  exact Except.ok.inj (known.symm.trans again)

/-- An answer that is found along a path is found along every path that visits less. -/
theorem shape_of_subset {path further : List String} {schema : Schema} {answer : Bool}
    (shorter : path ⊆ further)
    (known : table.shape further schema = .ok answer) : table.shape path schema = .ok answer := by
  have answers {target : String} {own : Bool} (answered : table.Answers further target own) :
      table.Answers path target own := by
    obtain ⟨outside, definition, found, asked⟩ := answered
    exact ⟨fun inside => outside (shorter inside), definition, found,
      shape_of_subset (List.cons_subset_cons target shorter) asked⟩
  obtain ⟨sound, each, yes⟩ := shape_eq_ok.mp known
  refine shape_eq_ok.mpr ⟨sound, fun target builds => ?_, yes.trans ?_⟩
  · obtain ⟨own, answered⟩ := each target builds
    exact ⟨own, answers answered⟩
  · refine and_congr_right fun _ => forall₂_congr fun target builds => ⟨answers, fun shorter => ?_⟩
    obtain ⟨own, answered⟩ := each target builds
    obtain rfl := (answers answered).unique shorter
    exact answered
termination_by unvisited table further
decreasing_by exact unvisited_lt table further target definition outside found

/-- A definition that is told to describe an object along a path does so by itself. -/
theorem Answers.isObjectShaped (answered : table.Answers path id answer) :
    table.isObjectShaped id = .ok answer := by
  obtain ⟨_, definition, found, known⟩ := answered
  rw [Definitions.isObjectShaped, found]
  exact shape_of_subset (List.cons_subset_cons id (List.nil_subset path)) known

/-- Code has fields to spread: it is a structure, or the name of another definition that describes
an object. -/
def Offers (table : Definitions) (root : String) (code : Expr) : Prop :=
  (∃ body, code.render = "S.Struct(" ++ body ++ ")") ∨
    ∃ target, target ≠ root ∧ table.isObjectShaped target = .ok true ∧
      code.render = Name.identifier target

end Definitions

namespace Name

theorem not_bracket_of_isIdentifier {letters : List Char} (reads : isIdentifier letters = true) :
    '(' ∉ letters := fun inside =>
  absurd (isPart_of_mem reads _ inside) (by decide)

/-- No identifier has a bracket in it. -/
theorem not_bracket_identifier (id : String) : '(' ∉ (identifier id).toList := by
  have kept : '(' ∉ id.toList.filter isPart := fun inside =>
    absurd (List.mem_filter.mp inside).2 (by decide)
  unfold identifier
  dsimp only
  split
  · rename_i reads
    rcases Bool.or_eq_true_iff.mp reads with reads | reads
    · exact not_bracket_of_isIdentifier reads
    · obtain ⟨ending, reads⟩ := Bool.and_eq_true_iff.mp reads
      obtain ⟨front, letters⟩ := List.getLast?_eq_some_iff.mp (of_decide_eq_true ending)
      rw [letters, List.dropLast_concat] at reads
      rw [letters, List.mem_append, not_or]
      exact ⟨not_bracket_of_isIdentifier reads, by decide⟩
  · split
    · exact List.not_mem_nil
    · rw [String.toList_ofList]
      split
      · rw [List.mem_cons, not_or]
        exact ⟨by decide, kept⟩
      · exact kept

end Name

/-- A text begins with another. -/
def Text.Begins (text front : String) : Prop :=
  front.toList <+: text.toList

theorem Text.Begins.refl (text : String) : Begins text text :=
  List.prefix_rfl

theorem Text.Begins.append {text front : String} (begins : Begins text front) (back : String) :
    Begins (text ++ back) front := by
  rw [Begins, String.toList_append]
  exact List.IsPrefix.trans begins (List.prefix_append _ _)

namespace Definitions

variable {table : Definitions} {root : String} {code : Expr}

/-- Code that opens a bracket after anything but the name of a structure has no fields. -/
theorem not_offers (front : String) (begins : Text.Begins code.render front)
    (other : front.toList.take 5 ≠ "S.Str".toList) (long : 5 ≤ front.toList.length)
    (bracket : '(' ∈ front.toList) : ¬ table.Offers root code := by
  obtain ⟨rest, isText⟩ := begins
  rintro (⟨body, isStruct⟩ | ⟨target, _, _, isName⟩)
  · have same := congrArg (·.toList.take 5) isStruct
    refine other ?_
    simpa [← isText, List.take_append_of_le_length long] using same
  · refine Name.not_bracket_identifier target ?_
    rw [← isName, ← isText]
    exact List.mem_append_left rest bracket

/-- Code that begins as a structure does and ends with a bracket has fields. -/
theorem offers_struct {text back : String} (isText : code.render = text ++ back)
    (opens : Text.Begins text "S.Struct(\x7b\n") (closes : ∃ rest, back = rest ++ ")") :
    table.Offers root code := by
  obtain ⟨first, isFirst⟩ := opens
  obtain ⟨last, rfl⟩ := closes
  refine .inl ⟨"\x7b\n" ++ String.ofList first ++ last, String.toList_inj.mp ?_⟩
  simp [isText, ← isFirst]

end Definitions

namespace Schema

/-- The code of an `allOf` is that of one of its members: the only one, or the only one that says
something. -/
def StandsAlone (member : Schema) (members : List Schema) : Prop :=
  members = [member] ∨ (members.filter fun member => !member.isVacuous) = [member]

/-- A schema that describes an object has no fields in code: a dictionary, a reference to what is
declared later, an `allOf` that becomes a pipeline since one of its members is an `allOf`, or one
whose code is that of such a member. -/
inductive LacksFields (context : Context) : Schema → Prop where
  | dictionary {info : Info} {required : List Json} {additional : Additional}
      {headings : Table String} (stated : additional ≠ .unstated) :
      LacksFields context (.object info [] required additional headings)
  | deferred {info : Info} {ref : Json} {id : String} (named : target ref = .ok id)
      (later : context.isBefore id = .ok false) : LacksFields context (.reference info ref)
  | pipeline {info : Info} {members : List Schema} {member : Schema}
      (several : 2 ≤ (members.filter fun member => !member.isVacuous).length)
      (inside : member ∈ members) (nested : member.IsAllOf) :
      LacksFields context (.combined info .allOf members)
  | inside {info : Info} {members : List Schema} {member : Schema}
      (alone : member.StandsAlone members) (lacks : LacksFields context member) :
      LacksFields context (.combined info .allOf members)

variable {context : Context} {info : Info} {members : List Schema} {member other : Schema}

theorem StandsAlone.not_several (alone : member.StandsAlone members) :
    ¬ 2 ≤ (members.filter fun member => !member.isVacuous).length := by
  rcases alone with rfl | isOnly
  · exact not_several_singleton member
  · simp [isOnly]

theorem StandsAlone.unique (first : member.StandsAlone members)
    (second : other.StandsAlone members) : member = other := by
  have ofFilter {first second : Schema}
      (isOnly : ([first].filter fun member => !member.isVacuous) = [second]) : first = second := by
    have inside : second ∈ [first].filter fun member => !member.isVacuous := by simp [isOnly]
    exact (List.mem_singleton.mp (List.mem_filter.mp inside).1).symm
  rcases first with rfl | first <;> rcases second with second | second
  · exact List.singleton_inj.mp second
  · exact ofFilter second
  · exact (ofFilter (second ▸ first)).symm
  · exact List.singleton_inj.mp (first.symm.trans second)

theorem lacksFields_of_standsAlone (alone : member.StandsAlone members) :
    (combined info .allOf members).LacksFields context ↔ member.LacksFields context := by
  constructor
  · intro lacks
    cases lacks with
    | pipeline several => exact absurd several alone.not_several
    | inside again lacks => exact alone.unique again ▸ lacks
  · exact .inside alone

end Schema

section Generation

variable {context : Context} {root : String} {result : Generated}

theorem reference_offers_iff {info : Info} {ref : Json}
    (shaped : context.table.shape [root] (.reference info ref) = .ok true)
    (generated : ((Schema.reference info ref).generate context).result = .ok result) :
    context.table.Offers root result.code ↔ ¬ (Schema.reference info ref).LacksFields context := by
  obtain ⟨id, deferred, named, before, isCode⟩ := reference_generated generated
  rw [Definitions.shape_eq, Schema.isObjectShaped, except_bind_eq_ok] at shaped
  obtain ⟨_, same, followed⟩ := shaped
  cases named.symm.trans same
  have answered := Definitions.followed_eq_ok.mp followed
  rw [isCode]
  cases deferred with
  | false =>
    refine iff_of_true (.inr ⟨id, ?_, answered.isObjectShaped, rfl⟩) ?_
    · rintro rfl
      exact answered.1 List.mem_cons_self
    · rintro (_ | ⟨again, later⟩)
      cases named.symm.trans again
      cases before.symm.trans later
  | true =>
    refine iff_of_false ?_ (not_not_intro (.deferred named before))
    refine Definitions.not_offers "S.suspend((): S.Schema<_" ?_ (by decide) (by decide) (by decide)
    exact ((((((Text.Begins.refl _).append _).append _).append _).append _).append _).append _

/-- Of objects without properties, all but those that say nothing of other properties are
dictionaries in code. -/
theorem generateAlone_offers_iff {additional : Additional} {code : Expr} {refs : List String}
    (made : (additional.generateAlone context).result = .ok (code, refs)) :
    context.table.Offers root code ↔ additional = .unstated := by
  have record (begins : Text.Begins code.render "S.Record(") : ¬ context.table.Offers root code :=
    Definitions.not_offers "S.Record(" begins (by decide) (by decide) (by decide)
  cases additional with
  | unstated =>
    cases made
    exact iff_of_true (.inl ⟨"\x7b\x7d", rfl⟩) rfl
  | allowed allowed =>
    refine iff_of_false (record ?_) (by simp)
    cases allowed with
    | false =>
      cases made
      exact ⟨"S.Never, S.Never)".toList, rfl⟩
    | true =>
      cases made
      exact ⟨"S.String, S.Unknown)".toList, rfl⟩
  | typed schema =>
    obtain ⟨value, _, made⟩ := Logged.bind_eq_ok.mp made
    cases made
    have begins : Text.Begins "S.Record(S.String, " "S.Record(" := ⟨"S.String, ".toList, rfl⟩
    exact iff_of_false (record ((begins.append _).append _)) (by simp)

theorem object_offers_iff {info : Info} {properties : List (String × Schema)} {required : List Json}
    {additional : Additional} {headings : Table String} (silent : context.overrides.Silent)
    (generated : ((Schema.object info properties required additional headings).generate
      context).result = .ok result) :
    context.table.Offers root result.code ↔
      ¬ (Schema.object info properties required additional headings).LacksFields context := by
  cases properties with
  | nil =>
    have generated := usual_of_silent silent generated
    obtain ⟨⟨code, refs⟩, made, generated⟩ := Logged.bind_eq_ok.mp generated
    cases generated
    rw [generateAlone_offers_iff made]
    constructor
    · rintro unstated (stated | _)
      exact stated unstated
    · intro offered
      by_contra stated
      exact offered (.dictionary stated)
  | cons first rest =>
    have generated := usual_of_silent silent generated
    obtain ⟨⟨further, furtherRefs⟩, _, generated⟩ := Logged.bind_eq_ok.mp generated
    obtain ⟨⟨fields, refs⟩, listed, generated⟩ := Logged.bind_eq_ok.mp generated
    cases generated
    refine iff_of_true ?_ (by rintro ⟨⟩)
    have opens := (Text.Begins.refl "S.Struct(\x7b\n").append
    cases generateFields_ok listed with
    | cons =>
      cases further with
      | none => exact Definitions.offers_struct rfl (opens _) ⟨"\n\x7d", rfl⟩
      | some =>
        exact Definitions.offers_struct rfl (((opens _).append _).append _) ⟨" \x7d", rfl⟩

/-- If members that describe objects are not merged, an `allOf` among them is the reason. -/
theorem Schema.exists_allOf {table : Definitions} {members : List Schema}
    (objects : ∀ member ∈ members, table.shape [root] member = .ok true)
    (mixed : areMergeable table members = .ok false) : ∃ member ∈ members, member.IsAllOf := by
  by_contra none
  refine Bool.false_ne_true ((areMergeable_iff mixed).mpr fun member inside => ?_)
  apply isMergeable_iff.mpr
  constructor
  · exact Definitions.shape_of_subset (List.nil_subset [root]) (objects member inside)
  · exact fun nested => none ⟨member, inside, nested⟩

theorem intersection_offers_iff {info : Info} {members : List Schema}
    (objects : ∀ member ∈ members, context.table.shape [root] member = .ok true)
    (each : ∀ member ∈ members, ∀ result, (member.generate context).result = .ok result →
      (context.table.Offers root result.code ↔ ¬ member.LacksFields context))
    (generated : ((Schema.combined info .allOf members).generate context).result = .ok result) :
    context.table.Offers root result.code ↔
      ¬ (Schema.combined info .allOf members).LacksFields context := by
  have alone {member : Schema} (inside : member ∈ members) (alone : member.StandsAlone members)
      (made : (member.generate context).result = .ok result) :
      context.table.Offers root result.code ↔
        ¬ (Schema.combined info .allOf members).LacksFields context := by
    rw [Schema.lacksFields_of_standsAlone alone]
    exact each member inside result made
  -- The only member stands for the whole even if it says nothing.
  by_cases single : ∃ only, members = [only]
  · obtain ⟨only, rfl⟩ := single
    exact alone List.mem_cons_self (.inl rfl) generated
  cases generate_intersects generated with
  | only isOnly => exact absurd ⟨_, isOnly⟩ single
  | nothing made =>
    have silence := List.forall₂_nil_right_iff.mp made
    refine iff_of_true (.inl ⟨"\x7b\x7d", rfl⟩) ?_
    rintro (_ | _ | several | ⟨isOnly | isOnly, _⟩)
    · rw [silence] at several
      cases several
    · exact single ⟨_, isOnly⟩
    · cases silence.symm.trans isOnly
  | single made =>
    obtain ⟨only, _, here, none, isOnly⟩ := List.forall₂_cons_right_iff.mp made
    cases none
    have inside : only ∈ members := (List.mem_filter.mp (isOnly ▸ List.mem_cons_self)).1
    exact alone inside (.inr isOnly) here
  | merged made several mergeable isParts =>
    refine iff_of_true
      (Definitions.offers_struct rfl ((Text.Begins.refl _).append _) ⟨"\n\x7d", rfl⟩) ?_
    rintro (_ | _ | ⟨_, inside, nested⟩ | alone)
    · have mergeable := (Schema.areMergeable_iff mergeable).mp rfl _ inside
      exact (Schema.isMergeable_iff.mp mergeable).2 nested
    · exact alone.not_several (made.length_eq ▸ several)
  | extended made several mixed commented =>
    obtain ⟨member, inside, nested⟩ := Schema.exists_allOf objects mixed
    have lacks : (Schema.combined info .allOf members).LacksFields context :=
      .pipeline (made.length_eq ▸ several) inside nested
    refine iff_of_false ?_ (not_not_intro lacks)
    exact Definitions.not_offers "pipe(\n" (((Text.Begins.refl _).append _).append _) (by decide)
      (by decide) (by decide)

theorem Schema.offers_iff {schema : Schema} (silent : context.overrides.Silent)
    (shaped : context.table.shape [root] schema = .ok true)
    (generated : (schema.generate context).result = .ok result) :
    context.table.Offers root result.code ↔ ¬ schema.LacksFields context := by
  induction schema using Schema.induction generalizing result with
  | reference => exact reference_offers_iff shaped generated
  | object => exact object_offers_iff silent generated
  | combined info combinator members ih =>
    rw [Definitions.shape_eq] at shaped
    cases combinator with
    | oneOf | anyOf => cases shaped
    | allOf =>
      have objects := (areObjectShaped_eq_ok.mp shaped).2.mp rfl
      simp only [← Definitions.shape_eq] at objects
      exact intersection_offers_iff objects
        (fun member inside _ made => ih member inside (objects member inside) made) generated
  | array | scalar | unsupported =>
    rw [Definitions.shape_eq] at shaped
    cases shaped

/-- The fields of definitions that describe objects. The code of such a definition is a structure or
the name of another definition that describes an object, so that there are fields to spread, exactly
if it is none of these: a dictionary, a reference that is deferred, an `allOf` of several members
with an `allOf` among them, and an `allOf` whose code is that of such a member. -/
theorem Definitions.object_offers_fields {schema : Schema} (silent : context.overrides.Silent)
    (found : Table.get? context.table root = some schema)
    (shaped : context.table.isObjectShaped root = .ok true)
    (generated : (schema.generate context).result = .ok result) :
    context.table.Offers root result.code ↔ ¬ schema.LacksFields context := by
  rw [isObjectShaped, found] at shaped
  exact Schema.offers_iff silent shaped generated

/-- Definitions of which the second is an `allOf` of the first alone. -/
def aliasing : Definitions :=
  [("A", bearing "a"), ("B", conjunction
    [.reference ⟨"", .null, .null, false, none, []⟩ (.str (Reference.ofId "A"))])]

theorem Definitions.object_offers_fields_alias :
    ∃ schema result, Table.get? aliasing "B" = some schema ∧
      (schema.generate { table := aliasing }).result = .ok result ∧
      aliasing.Offers "B" result.code := by
  obtain ⟨result, generated⟩ : ∃ result, ((conjunction [.reference
      ⟨"", .null, .null, false, none, []⟩ (.str (Reference.ofId "A"))]).generate
      { table := aliasing }).result = .ok result :=
    exists_of_isOk (by decide +kernel)
  refine ⟨_, result, rfl, generated, (Definitions.object_offers_fields ⟨rfl, rfl, rfl, rfl, rfl⟩ rfl
    (eq_ok_of_toOption (by decide +kernel)) generated).mpr ?_⟩
  rintro (_ | _ | several | ⟨alone, lacks⟩)
  · exact absurd several (by decide)
  · rw [alone.unique (.inl rfl)] at lacks
    cases lacks with
    | deferred _ later => cases later

/-- Definitions of which one is a dictionary, and one merges it with an object. -/
def spreading : Definitions :=
  let info : Info := ⟨"", .null, .null, false, none, []⟩
  [("Extra", .object info [] [] (.allowed true) []),
    ("Whole", conjunction [.reference info (.str (Reference.ofId "Extra")), bearing "a"])]

/-- A dictionary describes an object and is spread like one, though its code has no fields. -/
theorem Definitions.dictionary_offers_nothing :
    spreading.isObjectShaped "Extra" = .ok true ∧
    (∃ schema result, Table.get? spreading "Extra" = some schema ∧
      (schema.generate { table := spreading }).result = .ok result ∧
      result.code.render = "S.Record(S.String, S.Unknown)" ∧
      ¬ spreading.Offers "Extra" result.code) ∧
    ∃ schema result, Table.get? spreading "Whole" = some schema ∧
      (schema.generate { table := spreading }).result = .ok result ∧
      Text.contains result.code.render "...Extra.fields," = true := by
  refine ⟨eq_ok_of_toOption (by decide +kernel), ⟨_, _, rfl, rfl, rfl, ?_⟩, ?_⟩
  · exact Definitions.not_offers "S.Record(" ⟨"S.String, S.Unknown)".toList, rfl⟩ (by decide)
      (by decide) (by decide)
  · have seen : ((Table.get? spreading "Whole").bind fun schema =>
        (schema.generate { table := spreading }).result.toOption.map fun result =>
          Text.contains result.code.render "...Extra.fields,") = some true := by
      decide +kernel
    obtain ⟨schema, found, seen⟩ := Option.bind_eq_some_iff.mp seen
    obtain ⟨result, generated, isSpread⟩ := Option.map_eq_some_iff.mp seen
    exact ⟨schema, result, found, eq_ok_of_toOption generated, isSpread⟩

end Generation

end SchemaPress
