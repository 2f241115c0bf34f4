import SchemaPress.Proofs.CodeSpreads
import SchemaPress.Proofs.ObjectShapes

/-! When an `allOf` becomes one object. Generation asks of each member whether it has fields to
merge, and the analysis of shapes whether it describes an object. The two agree on all members but
those that are an `allOf` themselves, which are never merged. -/

namespace SchemaPress

namespace Definitions

/-- A reference describes an object exactly if its target does. -/
theorem followed_nil (table : Definitions) (ref : Json) (id : String) :
    table.followed [] ref id = table.isObjectShaped id :=
  if_neg List.not_mem_nil

end Definitions

namespace Schema

variable {table : Definitions} {member : Schema} {members : List Schema}

/-- A member has fields to merge exactly if it describes an object and is no `allOf`. -/
theorem isMergeable_iff :
    isMergeable table member = .ok true ↔ table.shape [] member = .ok true ∧ ¬ member.IsAllOf := by
  rw [Definitions.shape_eq]
  cases member with
  | reference info ref =>
    have other : ¬ (reference info ref).IsAllOf := by
      rintro ⟨_, _, ⟨⟩⟩
    simp [isMergeable, isObjectShaped, Definitions.followed_nil, other]
  | object =>
    refine iff_of_true rfl ⟨rfl, ?_⟩
    rintro ⟨_, _, ⟨⟩⟩
  | combined info combinator members =>
    refine iff_of_false (fun asked => ?_) ?_
    · cases asked
    · rintro ⟨shaped, other⟩
      cases combinator with
      | allOf => exact other ⟨info, members, rfl⟩
      | oneOf | anyOf => cases shaped
  | array | scalar | unsupported =>
    refine iff_of_false (fun asked => ?_) ?_
    · cases asked
    · rintro ⟨⟨⟩, _⟩

end Schema

section Generation

variable {context : Context} {info : Info} {members : List Schema} {result : Generated}

/-- Code is one object with a part for each member that says something. -/
def Expr.Merges (context : Context) (members : List Schema) (code : Expr) : Prop :=
  ∃ parts, code = .merged parts ∧
    code.render = "S.Struct(\x7b\n" ++ Text.joinLines (renderParts parts) ++ "\n\x7d)" ∧
    List.Forall₂ (Schema.MakesPart context) (members.filter fun member => !member.isVacuous) parts

/-- Code is a pipeline in which the code of each member that says something extends the first. -/
def Expr.Extends (context : Context) (members : List Schema) (code : Expr) : Prop :=
  ∃ items, code = .extended items ∧
    code.render = "pipe(\n" ++ Text.joinLines (renderExtensions true items) ++ "\n)" ∧
    List.Forall₂ (fun member item => ∃ result, (Schema.generate context member).result =
      .ok result ∧ item.item = result.code) (members.filter fun member => !member.isVacuous) items

/-- The items of a pipeline are the code of the members. -/
theorem commented_members {results : List Generated} {items : List (Commented Expr)}
    (made : List.Forall₂ (fun member result => (member.generate context).result = .ok result)
      members results) (commented : Generated.commented results = .ok items) :
    List.Forall₂ (fun member item => ∃ result, (Schema.generate context member).result =
      .ok result ∧ item.item = result.code) members items := by
  have same := commented_ok commented
  clear commented
  induction made generalizing items with
  | nil =>
    cases same
    exact .nil
  | cons here _ ih =>
    cases same with
    | cons isCode same => exact .cons ⟨_, here, isCode⟩ (ih same)

/-- When an `allOf` is merged. If two of its members or more say something, its code is one object
exactly if every member describes an object and none is an `allOf` itself, and a pipeline exactly if
some member describes no object or is an `allOf`. -/
theorem Schema.merged_iff_objects
    (several : 2 ≤ (members.filter fun member => !member.isVacuous).length)
    (generated : ((Schema.combined info .allOf members).generate context).result = .ok result) :
    (result.code.Merges context members ↔
      ∀ member ∈ members, context.table.shape [] member = .ok true ∧ ¬ member.IsAllOf) ∧
    (result.code.Extends context members ↔
      ∃ member ∈ members, context.table.shape [] member ≠ .ok true ∨ member.IsAllOf) := by
  have agree {answer : Bool} (asked : areMergeable context.table members = .ok answer) :
      answer = true ↔ ∀ member ∈ members,
        context.table.shape [] member = .ok true ∧ ¬ member.IsAllOf := by
    simp only [areMergeable_iff asked, isMergeable_iff]
  have otherwise : (∃ member ∈ members,
      context.table.shape [] member ≠ .ok true ∨ member.IsAllOf) ↔
      ¬ ∀ member ∈ members, context.table.shape [] member = .ok true ∧ ¬ member.IsAllOf := by
    simp [imp_iff_not_or]
  rw [otherwise]
  cases generate_intersects generated with
  | @only only _ isOnly made =>
    subst isOnly
    have bound := List.length_filter_le (fun member : Schema => !member.isVacuous) [only]
    exact absurd (Nat.le_trans several bound) (by simp)
  | nothing made | single made =>
    rw [made.length_eq] at several
    exact absurd several (by simp)
  | merged made _ mergeable isParts =>
    have objects := (agree mergeable).mp rfl
    refine ⟨iff_of_true ⟨_, rfl, rfl, isParts⟩ objects, iff_of_false ?_ (not_not_intro objects)⟩
    rintro ⟨_, ⟨⟩, _⟩
  | extended made _ mixed commented =>
    have objects : ¬ _ := fun objects => Bool.false_ne_true ((agree mixed).mpr objects)
    refine ⟨iff_of_false ?_ objects, iff_of_true ⟨_, rfl, rfl, ?_⟩ objects⟩
    · rintro ⟨_, ⟨⟩, _⟩
    · exact commented_members made commented

/-- An object with one property. -/
def bearing (name : String) : Schema :=
  let info : Info := ⟨"", .null, .null, false, none, []⟩
  .object info [(name, .object info [] [] .unstated [])] [] .unstated []

/-- The `allOf` of some members. -/
def conjunction (members : List Schema) : Schema :=
  .combined ⟨"", .null, .null, false, none, []⟩ .allOf members

/-- Members that are objects or refer to one, and one that says nothing. -/
def levelMembers : List Schema :=
  let info : Info := ⟨"", .null, .null, false, none, []⟩
  [bearing "a", .object info [] [] .unstated [], .reference info (.str (Reference.ofId "B"))]

theorem Schema.merged_iff_objects_level :
    ∃ result, ((conjunction levelMembers).generate { table := [("B", bearing "b")] }).result =
        .ok result ∧
      result.code.Merges { table := [("B", bearing "b")] } levelMembers := by
  obtain ⟨result, generated⟩ : ∃ result, ((conjunction levelMembers).generate
      { table := [("B", bearing "b")] }).result = .ok result :=
    exists_of_isOk (by decide +kernel)
  refine ⟨result, generated, (Schema.merged_iff_objects (by decide) generated).1.mpr ?_⟩
  have mergeable : Schema.areMergeable [("B", bearing "b")] levelMembers = .ok true :=
    eq_ok_of_toOption (by decide +kernel)
  intro member inside
  exact Schema.isMergeable_iff.mp ((Schema.areMergeable_iff mergeable).mp rfl member inside)

/-- Members of which one is an `allOf` of objects. -/
def nestedMembers : List Schema :=
  [conjunction [bearing "a", bearing "b"], bearing "c"]

/-- An `allOf` is not merged if one of its members is an `allOf`, though all describe objects. -/
theorem Schema.nested_objects_not_merged :
    nestedMembers.map (Definitions.shape [] []) = [.ok true, .ok true] ∧
      ∃ result, ((conjunction nestedMembers).generate { table := [] }).result = .ok result ∧
        Text.startsWith result.code.render "pipe(\n" = true := by
  constructor
  · simp only [nestedMembers, List.map_cons, List.map_nil, Definitions.shape_eq]
    rfl
  · have seen : ((conjunction nestedMembers).generate { table := [] }).result.toOption.map
        (fun result => Text.startsWith result.code.render "pipe(\n") = some true := by
      decide +kernel
    obtain ⟨result, found, isResult⟩ := Option.map_eq_some_iff.mp seen
    exact ⟨result, eq_ok_of_toOption found, isResult⟩

end Generation

end SchemaPress
