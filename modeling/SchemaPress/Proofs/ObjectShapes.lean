import Mathlib.Logic.Relation
import SchemaPress.Dependency.Shape
import SchemaPress.Proofs.SchemaWalks

/-! Object shapes. Whether a definition describes an object is told by exploring it: the members of
an `allOf` are asked, and so is the definition that a reference points to. Along each chain of
references no definition is asked twice, so there is an answer exactly if nothing that is explored
is at fault, nothing is missing, and no chain of references comes back to where it started; and the
answer is yes if all that is explored describes objects. -/

namespace SchemaPress

open Relation

mutual

/-- The schemas that have to describe objects for a schema to do so: the schema itself or, of an
`allOf`, those of its members. -/
def Schema.conjuncts : Schema → List Schema
  | .combined _ .allOf members => memberConjuncts members
  | schema => [schema]

/-- The schemas that have to describe objects for all of some schemas to do so. -/
def memberConjuncts : List Schema → List Schema
  | [] => []
  | schema :: rest => schema.conjuncts ++ memberConjuncts rest

end

namespace Schema

/-- A schema is an `allOf`. -/
def IsAllOf (schema : Schema) : Prop :=
  ∃ info members, schema = .combined info .allOf members

/-- A schema is neither a reference nor an `allOf`, so that it is its own matter whether it describes
an object. -/
def IsPlain : Schema → Prop
  | .reference _ _ | .combined _ .allOf _ => False
  | _ => True

/-- A schema is an object. -/
def IsObject : Schema → Prop
  | .object _ _ _ _ _ => True
  | _ => False

/-- One of the conjuncts of a schema is a reference to an id. -/
def BuildsOn (schema : Schema) (target : String) : Prop :=
  ∃ node ∈ schema.conjuncts, node.IsReferenceTo target

theorem forall_buildsOn {schema : Schema} {holds : String → Prop} :
    (∀ target, schema.BuildsOn target → holds target) ↔
      ∀ node ∈ schema.conjuncts, ∀ target, node.IsReferenceTo target → holds target := by
  constructor
  · exact fun each node inside target refers => each target ⟨node, inside, refers⟩
  · rintro each target ⟨node, inside, refers⟩
    exact each node inside target refers

theorem IsPlain.not_reference {node : Schema} {id : String} (plain : node.IsPlain) :
    ¬ node.IsReferenceTo id := by
  rintro ⟨_, _, rfl, _⟩
  exact plain

/-- What is no `allOf` and not at fault refers to an id or answers by itself. -/
theorem refers_or_plain {node : Schema} (other : ¬ node.IsAllOf) (sound : ¬ node.IsFaulty) :
    (∃ id, node.IsReferenceTo id) ∨ node.IsPlain := by
  cases node with
  | reference info ref =>
    obtain ⟨text, id, rfl, spelt⟩ := not_not.mp sound
    exact .inl ⟨id, info, text, rfl, spelt⟩
  | combined info combinator members =>
    cases combinator with
    | allOf => exact absurd ⟨info, members, rfl⟩ other
    | oneOf | anyOf => exact .inr trivial
  | array | object | scalar | unsupported => exact .inr trivial

end Schema

theorem mem_memberConjuncts {node : Schema} {members : List Schema} :
    node ∈ memberConjuncts members ↔ ∃ member ∈ members, node ∈ member.conjuncts := by
  induction members with
  | nil => simp [memberConjuncts]
  | cons member rest ih => simp [memberConjuncts, ih]

/-- What is no `allOf` has nothing but itself to ask. -/
theorem Schema.conjuncts_of_not_allOf {schema : Schema} (other : ¬ schema.IsAllOf) :
    schema.conjuncts = [schema] := by
  cases schema with
  | combined info combinator members =>
    cases combinator with
    | allOf => exact absurd ⟨info, members, rfl⟩ other
    | oneOf | anyOf => rfl
  | reference | array | object | scalar | unsupported => rfl

theorem Schema.not_allOf_of_mem {schema node : Schema} (inside : node ∈ schema.conjuncts) :
    ¬ node.IsAllOf := by
  induction schema using Schema.induction with
  | combined info combinator members ih =>
    cases combinator with
    | allOf =>
      obtain ⟨member, isMember, inside⟩ := mem_memberConjuncts.mp inside
      exact ih member isMember inside
    | oneOf | anyOf =>
      obtain rfl := List.mem_singleton.mp inside
      simp [IsAllOf]
  | reference | array | object | scalar | unsupported =>
    obtain rfl := List.mem_singleton.mp inside
    simp [IsAllOf]

/-- There is an answer to every question. -/
theorem exists_answer (holds : Prop) : ∃ answer : Bool, answer = true ↔ holds := by
  by_cases yes : holds
  · exact ⟨true, iff_of_true rfl yes⟩
  · exact ⟨false, iff_of_false Bool.false_ne_true yes⟩

section Asked

variable {follow : Json → String → Except Failure Bool}

theorem areObjectShaped_append (first second : List Schema) :
    areObjectShaped follow (first ++ second) = (do
      let here ← areObjectShaped follow first
      let later ← areObjectShaped follow second
      return here && later) := by
  induction first with
  | nil =>
    rw [List.nil_append, areObjectShaped]
    cases areObjectShaped follow second <;> rfl
  | cons schema rest ih =>
    rw [List.cons_append, areObjectShaped, areObjectShaped, ih]
    simp only [bind_assoc, pure_bind, Bool.and_assoc]

theorem areObjectShaped_singleton (schema : Schema) :
    areObjectShaped follow [schema] = schema.isObjectShaped follow := by
  rw [areObjectShaped, areObjectShaped]
  cases schema.isObjectShaped follow with
  | error failure => rfl
  | ok answer => exact congrArg Except.ok (Bool.and_true answer)

/-- A schema is asked by asking its conjuncts one after the other. -/
theorem Schema.isObjectShaped_eq_conjuncts (schema : Schema) :
    schema.isObjectShaped follow = areObjectShaped follow schema.conjuncts := by
  induction schema using Schema.induction with
  | combined info combinator members ih =>
    cases combinator with
    | allOf =>
      rw [isObjectShaped, conjuncts]
      clear info
      induction members with
      | nil => rfl
      | cons member rest later =>
        obtain ⟨here, others⟩ := List.forall_mem_cons.mp ih
        rw [areObjectShaped, memberConjuncts, areObjectShaped_append, here, later others]
    | oneOf | anyOf => exact (areObjectShaped_singleton _).symm
  | reference | array | object | scalar | unsupported => exact (areObjectShaped_singleton _).symm

theorem exists_areObjectShaped {schemas : List Schema}
    (each : ∀ schema ∈ schemas, ∃ own, schema.isObjectShaped follow = .ok own) :
    ∃ answer, areObjectShaped follow schemas = .ok answer := by
  induction schemas with
  | nil => exact ⟨true, rfl⟩
  | cons first rest ih =>
    obtain ⟨⟨here, isHere⟩, others⟩ := List.forall_mem_cons.mp each
    obtain ⟨later, isLater⟩ := ih others
    exact ⟨here && later, except_bind_eq_ok.mpr
      ⟨here, isHere, except_bind_eq_ok.mpr ⟨later, isLater, rfl⟩⟩⟩

theorem areObjectShaped_ok {schemas : List Schema} {answer : Bool}
    (asked : areObjectShaped follow schemas = .ok answer) :
    (∀ schema ∈ schemas, ∃ own, schema.isObjectShaped follow = .ok own) ∧
      (answer = true ↔ ∀ schema ∈ schemas, schema.isObjectShaped follow = .ok true) := by
  induction schemas generalizing answer with
  | nil =>
    cases asked
    simp
  | cons first rest ih =>
    obtain ⟨here, isHere, asked⟩ := except_bind_eq_ok.mp asked
    obtain ⟨later, isLater, asked⟩ := except_bind_eq_ok.mp asked
    obtain rfl := Except.ok.inj asked
    obtain ⟨each, all⟩ := ih isLater
    rw [List.forall_mem_cons, List.forall_mem_cons, Bool.and_eq_true, all, isHere]
    exact ⟨⟨⟨here, rfl⟩, each⟩, by rw [Except.ok.injEq]⟩

/-- There is an answer for schemas if there is one for each, and it is yes if all of these are. -/
theorem areObjectShaped_eq_ok {schemas : List Schema} {answer : Bool} :
    areObjectShaped follow schemas = .ok answer ↔
      (∀ schema ∈ schemas, ∃ own, schema.isObjectShaped follow = .ok own) ∧
      (answer = true ↔ ∀ schema ∈ schemas, schema.isObjectShaped follow = .ok true) := by
  refine ⟨areObjectShaped_ok, ?_⟩
  rintro ⟨each, all⟩
  obtain ⟨other, asked⟩ := exists_areObjectShaped each
  have same : other = answer := Bool.eq_iff_iff.mpr ((areObjectShaped_ok asked).2.trans all.symm)
  rw [asked, same]

end Asked

namespace Definitions

variable {table : Definitions} {path : List String} {root id target : String}
  {schema node : Schema} {answer own : Bool}

/-- The answer for a reference that is come across along a path. -/
def followed (table : Definitions) (path : List String) (ref : Json) (id : String) :
    Except Failure Bool :=
  if id ∈ path then .error (.circularShape ref.display)
  else match Table.get? table id with
    | none => .error (.missingSchema id)
    | some definition => table.shape (id :: path) definition

theorem shape_eq (table : Definitions) (path : List String) (schema : Schema) :
    table.shape path schema = schema.isObjectShaped (table.followed path) := by
  rw [shape]
  congr
  funext ref id
  unfold followed
  split
  · rfl
  · split
    · rename_i absent
      rw [absent]
    · rename_i definition found
      rw [found]

/-- An id that is come across along a path has an answer: it is not on the path, and its definition
has the answer along the path that goes on to it. -/
def Answers (table : Definitions) (path : List String) (id : String) (answer : Bool) : Prop :=
  id ∉ path ∧ ∃ definition, Table.get? table id = some definition ∧
    table.shape (id :: path) definition = .ok answer

theorem followed_eq_ok {ref : Json} :
    table.followed path ref id = .ok answer ↔ table.Answers path id answer := by
  unfold followed Answers
  by_cases visited : id ∈ path
  · simp [visited]
  · cases found : Table.get? table id <;> simp [visited]

/-- What is no `allOf` answers by itself, or as the definition does that it refers to. -/
theorem isObjectShaped_eq_ok (other : ¬ node.IsAllOf) :
    node.isObjectShaped (table.followed path) = .ok answer ↔
      (∃ target, node.IsReferenceTo target ∧ table.Answers path target answer) ∨
      (node.IsPlain ∧ ¬ node.IsFaulty ∧ (answer = true ↔ node.IsObject)) := by
  cases node with
  | reference info ref =>
    rw [Schema.isObjectShaped, except_bind_eq_ok]
    constructor
    · rintro ⟨target, named, asked⟩
      obtain ⟨text, rfl, spelt⟩ := Schema.target_eq_ok.mp named
      exact .inl ⟨target, ⟨info, text, rfl, spelt⟩, followed_eq_ok.mp asked⟩
    · rintro (⟨target, ⟨_, text, same, spelt⟩, answers⟩ | ⟨plain, _⟩)
      · cases same
        exact ⟨target, Schema.target_eq_ok.mpr ⟨text, rfl, spelt⟩, followed_eq_ok.mpr answers⟩
      · exact absurd plain id
  | combined info combinator members =>
    cases combinator with
    | allOf => exact absurd ⟨info, members, rfl⟩ other
    | oneOf | anyOf =>
      simp [Schema.isObjectShaped, Schema.IsReferenceTo, Schema.IsPlain, Schema.IsFaulty,
        Schema.IsObject]
  | array | object | scalar | unsupported =>
    simp [Schema.isObjectShaped, Schema.IsReferenceTo, Schema.IsPlain, Schema.IsFaulty,
      Schema.IsObject, eq_comm]

theorem exists_isObjectShaped (other : ¬ node.IsAllOf) :
    (∃ own, node.isObjectShaped (table.followed path) = .ok own) ↔
      ¬ node.IsFaulty ∧ ∀ target, node.IsReferenceTo target →
        ∃ own, table.Answers path target own := by
  simp only [isObjectShaped_eq_ok other]
  constructor
  · rintro ⟨own, ⟨target, refers, answers⟩ | ⟨plain, sound, _⟩⟩
    · exact ⟨refers.not_faulty, fun _ again => ⟨own, refers.unique again ▸ answers⟩⟩
    · exact ⟨sound, fun _ refers => absurd refers plain.not_reference⟩
  · rintro ⟨sound, each⟩
    rcases node.refers_or_plain other sound with ⟨target, refers⟩ | plain
    · obtain ⟨own, answers⟩ := each target refers
      exact ⟨own, .inl ⟨target, refers, answers⟩⟩
    · obtain ⟨own, object⟩ := exists_answer node.IsObject
      exact ⟨own, .inr ⟨plain, sound, object⟩⟩

theorem isObjectShaped_eq_true (other : ¬ node.IsAllOf) (sound : ¬ node.IsFaulty) :
    node.isObjectShaped (table.followed path) = .ok true ↔
      (node.IsPlain → node.IsObject) ∧
        ∀ target, node.IsReferenceTo target → table.Answers path target true := by
  rw [isObjectShaped_eq_ok other]
  constructor
  · rintro (⟨target, refers, answers⟩ | ⟨plain, _, object⟩)
    · exact ⟨fun plain => absurd refers plain.not_reference,
        fun _ again => refers.unique again ▸ answers⟩
    · exact ⟨fun _ => object.mp rfl, fun _ refers => absurd refers plain.not_reference⟩
  · rintro ⟨object, each⟩
    rcases node.refers_or_plain other sound with ⟨target, refers⟩ | plain
    · exact .inl ⟨target, refers, each target refers⟩
    · exact .inr ⟨plain, sound, iff_of_true rfl (object plain)⟩

/-- One step of the exploration. A schema has an answer along a path if nothing among its conjuncts
is at fault and each definition that it builds on has one; and it is yes if the conjuncts that
answer by themselves are objects and the definitions say yes. -/
theorem shape_eq_ok :
    table.shape path schema = .ok answer ↔
      (∀ node ∈ schema.conjuncts, ¬ node.IsFaulty) ∧
      (∀ target, schema.BuildsOn target → ∃ own, table.Answers path target own) ∧
      (answer = true ↔ (∀ node ∈ schema.conjuncts, node.IsPlain → node.IsObject) ∧
        ∀ target, schema.BuildsOn target → table.Answers path target true) := by
  have known : (∀ node ∈ schema.conjuncts, ∃ own,
      node.isObjectShaped (table.followed path) = .ok own) ↔
      (∀ node ∈ schema.conjuncts, ¬ node.IsFaulty) ∧
        ∀ target, schema.BuildsOn target → ∃ own, table.Answers path target own := by
    rw [Schema.forall_buildsOn, ← forall₂_and]
    exact forall₂_congr fun node inside => exists_isObjectShaped (Schema.not_allOf_of_mem inside)
  have yes (sound : ∀ node ∈ schema.conjuncts, ¬ node.IsFaulty) : (∀ node ∈ schema.conjuncts,
      node.isObjectShaped (table.followed path) = .ok true) ↔
      (∀ node ∈ schema.conjuncts, node.IsPlain → node.IsObject) ∧
        ∀ target, schema.BuildsOn target → table.Answers path target true := by
    rw [Schema.forall_buildsOn, ← forall₂_and]
    exact forall₂_congr fun node inside =>
      isObjectShaped_eq_true (Schema.not_allOf_of_mem inside) (sound node inside)
  rw [shape_eq, Schema.isObjectShaped_eq_conjuncts, areObjectShaped_eq_ok, known, and_assoc]
  refine and_congr_right fun sound => and_congr_right fun _ => ?_
  rw [yes sound]

/-- The schema of a definition builds on an id. -/
def BuildsOn (table : Definitions) (id target : String) : Prop :=
  ∃ schema, Table.get? table id = some schema ∧ schema.BuildsOn target

/-- What can be reached from a definition is the definition itself and what can be reached from
those that its schema builds on. -/
theorem forall_reached_iff {holds : String → Prop} (found : Table.get? table id = some schema) :
    (∀ other, ReflTransGen table.BuildsOn id other → holds other) ↔
      holds id ∧ ∀ target, schema.BuildsOn target →
        ∀ other, ReflTransGen table.BuildsOn target other → holds other := by
  constructor
  · intro each
    exact ⟨each id .refl, fun target builds other reached =>
      each other (.head ⟨schema, found, builds⟩ reached)⟩
  · rintro ⟨here, beyond⟩ other reached
    rcases ReflTransGen.cases_head_iff.mp reached with rfl | ⟨target, builds, reached⟩
    · exact here
    · obtain ⟨_, same, builds⟩ := builds
      cases found.symm.trans same
      exact beyond target builds other reached

/-- The answer for a definition on the path needs one for each definition that it builds on, however
many steps away, along a path that goes on to it. -/
theorem shape_along (found : Table.get? table id = some schema) (visited : id ∈ path)
    (known : table.shape path schema = .ok answer)
    (reached : ReflTransGen table.BuildsOn id target) :
    ∃ further definition own, path ⊆ further ∧ target ∈ further ∧
      Table.get? table target = some definition ∧ table.shape further definition = .ok own := by
  induction reached with
  | refl => exact ⟨path, schema, answer, List.Subset.refl _, visited, found, known⟩
  | tail _ builds ih =>
    obtain ⟨further, definition, own, longer, _, isDefinition, asked⟩ := ih
    obtain ⟨_, same, builds⟩ := builds
    cases isDefinition.symm.trans same
    obtain ⟨other, _, next, isNext, answers⟩ := (shape_eq_ok.mp asked).2.1 _ builds
    exact ⟨_, next, other, List.subset_cons_of_subset _ longer, List.mem_cons_self, isNext, answers⟩

/-- A definition on the path that has an answer does not build on itself. -/
theorem acyclic_of_shape (found : Table.get? table id = some schema) (visited : id ∈ path)
    (known : table.shape path schema = .ok answer) : ¬ TransGen table.BuildsOn id id := by
  intro chain
  obtain ⟨last, reached, _, isLast, builds⟩ := TransGen.tail'_iff.mp chain
  obtain ⟨further, definition, own, longer, _, same, asked⟩ :=
    shape_along found visited known reached
  cases isLast.symm.trans same
  obtain ⟨_, outside, _⟩ := (shape_eq_ok.mp asked).2.1 _ builds
  exact outside (longer visited)

/-- A definition is there, and nothing among its conjuncts is at fault. -/
def IsSound (table : Definitions) (id : String) : Prop :=
  ∃ schema, Table.get? table id = some schema ∧ ∀ node ∈ schema.conjuncts, ¬ node.IsFaulty

/-- A schema has an answer along a path if everything that it builds on is sound, off the path and on
no cycle. -/
theorem exists_shape (path : List String) (schema : Schema)
    (sound : ∀ node ∈ schema.conjuncts, ¬ node.IsFaulty)
    (beyond : ∀ target, schema.BuildsOn target → ∀ id, ReflTransGen table.BuildsOn target id →
      id ∉ path ∧ table.IsSound id ∧ ¬ TransGen table.BuildsOn id id) :
    ∃ answer, table.shape path schema = .ok answer := by
  have each : ∀ target, schema.BuildsOn target → ∃ own, table.Answers path target own := by
    intro target builds
    obtain ⟨outside, ⟨definition, found, faultless⟩, acyclic⟩ := beyond target builds target .refl
    have fewer := unvisited_lt table path target definition outside found
    obtain ⟨own, answers⟩ := exists_shape (target :: path) definition faultless <| by
      intro next further id reached
      have step : table.BuildsOn target next := ⟨definition, found, further⟩
      obtain ⟨off, isSound, alone⟩ := beyond target builds id (.head step reached)
      -- The target is on the path now; what it builds on does not lead back to it.
      refine ⟨List.not_mem_cons_of_ne_of_not_mem ?_ off, isSound, alone⟩
      rintro rfl
      exact acyclic (.head' step reached)
    exact ⟨own, outside, definition, found, answers⟩
  obtain ⟨answer, yes⟩ := exists_answer
    ((∀ node ∈ schema.conjuncts, node.IsPlain → node.IsObject) ∧
      ∀ target, schema.BuildsOn target → table.Answers path target true)
  exact ⟨answer, shape_eq_ok.mpr ⟨sound, each, yes⟩⟩
termination_by unvisited table path

/-- All conjuncts of a definition that answer by themselves are objects. -/
def HasObjects (table : Definitions) (id : String) : Prop :=
  ∀ schema, Table.get? table id = some schema →
    ∀ node ∈ schema.conjuncts, node.IsPlain → node.IsObject

theorem hasObjects_iff (found : Table.get? table id = some schema) :
    table.HasObjects id ↔ ∀ node ∈ schema.conjuncts, node.IsPlain → node.IsObject := by
  simp [HasObjects, found]

/-- An answer is yes exactly if all conjuncts of the schema and of everything that it builds on are
objects or references. -/
theorem shape_eq_true_iff (path : List String) (schema : Schema) (answer : Bool)
    (known : table.shape path schema = .ok answer) :
    answer = true ↔ (∀ node ∈ schema.conjuncts, node.IsPlain → node.IsObject) ∧
      ∀ target, schema.BuildsOn target → ∀ id, ReflTransGen table.BuildsOn target id →
        table.HasObjects id := by
  obtain ⟨_, each, yes⟩ := shape_eq_ok.mp known
  rw [yes]
  refine and_congr_right fun _ => forall₂_congr fun target builds => ?_
  obtain ⟨own, outside, definition, found, asked⟩ := each target builds
  have fewer := unvisited_lt table path target definition outside found
  have inner := shape_eq_true_iff (target :: path) definition own asked
  have only : table.Answers path target true ↔ own = true := by
    simp [Answers, outside, found, asked]
  rw [forall_reached_iff found, hasObjects_iff found, only, inner]
termination_by unvisited table path

/-- The answer for a root, in terms of what can be reached from it: each definition has to be sound
and must not build on itself. -/
theorem isObjectShaped_eq_ok_reached :
    table.isObjectShaped root = .ok answer ↔
      (∀ id, ReflTransGen table.BuildsOn root id →
        table.IsSound id ∧ ¬ TransGen table.BuildsOn id id) ∧
      (answer = true ↔ ∀ id, ReflTransGen table.BuildsOn root id → table.HasObjects id) := by
  unfold isObjectShaped
  cases found : Table.get? table root with
  | none =>
    refine iff_of_false ?_ ?_
    · intro asked
      cases asked
    · rintro ⟨each, _⟩
      obtain ⟨⟨_, defined, _⟩, _⟩ := each root .refl
      rw [found] at defined
      cases defined
  | some schema =>
    have value : ∀ answer, table.shape [root] schema = .ok answer →
        (answer = true ↔ ∀ id, ReflTransGen table.BuildsOn root id → table.HasObjects id) := by
      intro answer known
      rw [forall_reached_iff found, hasObjects_iff found,
        shape_eq_true_iff [root] schema answer known]
    constructor
    · intro known
      refine ⟨fun id reached => ?_, value answer known⟩
      obtain ⟨further, definition, own, _, visited, isDefinition, asked⟩ :=
        shape_along found List.mem_cons_self known reached
      exact ⟨⟨definition, isDefinition, (shape_eq_ok.mp asked).1⟩,
        acyclic_of_shape isDefinition visited asked⟩
    · rintro ⟨each, yes⟩
      obtain ⟨⟨⟨_, same, sound⟩, acyclic⟩, beyond⟩ := (forall_reached_iff found).mp each
      cases found.symm.trans same
      obtain ⟨other, known⟩ := exists_shape [root] schema sound <| by
        intro target builds id reached
        refine ⟨?_, beyond target builds id reached⟩
        rw [List.mem_singleton]
        rintro rfl
        exact acyclic (.head' ⟨schema, found, builds⟩ reached)
      have same : other = answer := Bool.eq_iff_iff.mpr ((value other known).trans yes.symm)
      exact same ▸ known

/-- The schemas that are explored for a root, each in the definition of an id: the schema of the root,
the members of an explored `allOf`, and the schema that an explored reference points to. -/
inductive Explored (table : Definitions) (root : String) : String → Schema → Prop where
  | root {schema : Schema} (found : Table.get? table root = some schema) :
      Explored table root root schema
  | member {id : String} {info : Info} {members : List Schema} {member : Schema}
      (explored : Explored table root id (.combined info .allOf members))
      (inside : member ∈ members) : Explored table root id member
  | target {id target : String} {node schema : Schema} (explored : Explored table root id node)
      (refers : node.IsReferenceTo target) (found : Table.get? table target = some schema) :
      Explored table root target schema

/-- An explored reference in one definition points to another. -/
def Passes (table : Definitions) (root id target : String) : Prop :=
  ∃ node, table.Explored root id node ∧ node.IsReferenceTo target

theorem Explored.conjunct (explored : table.Explored root id schema)
    (inside : node ∈ schema.conjuncts) : table.Explored root id node := by
  induction schema using Schema.induction with
  | combined info combinator members ih =>
    cases combinator with
    | allOf =>
      obtain ⟨member, isMember, inside⟩ := mem_memberConjuncts.mp inside
      exact ih member isMember (.member explored isMember) inside
    | oneOf | anyOf =>
      obtain rfl := List.mem_singleton.mp inside
      exact explored
  | reference | array | object | scalar | unsupported =>
    obtain rfl := List.mem_singleton.mp inside
    exact explored

/-- What is explored in a definition is part of it, and the definition can be reached. -/
theorem Explored.reached (explored : table.Explored root id node) :
    ReflTransGen table.BuildsOn root id ∧
      ∃ schema, Table.get? table id = some schema ∧ node.conjuncts ⊆ schema.conjuncts := by
  induction explored with
  | root found => exact ⟨.refl, _, found, List.Subset.refl _⟩
  | member _ inside ih =>
    obtain ⟨reached, schema, found, part⟩ := ih
    refine ⟨reached, schema, found, fun node held => part ?_⟩
    exact mem_memberConjuncts.mpr ⟨_, inside, held⟩
  | target _ refers found ih =>
    obtain ⟨reached, schema, isSchema, part⟩ := ih
    obtain ⟨info, text, rfl, spelt⟩ := refers
    refine ⟨reached.tail ⟨schema, isSchema, _, part List.mem_cons_self, info, text, rfl, spelt⟩,
      _, found, List.Subset.refl _⟩

theorem explored_of_reached (reached : ReflTransGen table.BuildsOn root id)
    (found : Table.get? table id = some schema) : table.Explored root id schema := by
  induction reached generalizing schema with
  | refl => exact .root found
  | tail _ builds ih =>
    obtain ⟨_, isBuilder, node, inside, refers⟩ := builds
    exact .target ((ih isBuilder).conjunct inside) refers found

theorem passes_iff :
    table.Passes root id target ↔
      ReflTransGen table.BuildsOn root id ∧ table.BuildsOn id target := by
  constructor
  · rintro ⟨node, explored, refers⟩
    obtain ⟨reached, schema, found, part⟩ := explored.reached
    refine ⟨reached, schema, found, node, part ?_, refers⟩
    obtain ⟨_, _, rfl, _⟩ := refers
    exact List.mem_cons_self
  · rintro ⟨reached, schema, found, node, inside, refers⟩
    exact ⟨node, (explored_of_reached reached found).conjunct inside, refers⟩

/-- What every `allOf` has in any case, all that is explored has exactly if the conjuncts of all
definitions that can be reached have it. -/
theorem forall_explored_iff {holds : Schema → Prop}
    (ofAllOf : ∀ info members, holds (.combined info .allOf members)) :
    (∀ id node, table.Explored root id node → holds node) ↔
      ∀ id, ReflTransGen table.BuildsOn root id → ∀ schema, Table.get? table id = some schema →
        ∀ node ∈ schema.conjuncts, holds node := by
  constructor
  · intro each id reached schema found node inside
    exact each id node ((explored_of_reached reached found).conjunct inside)
  · intro each id node explored
    by_cases isAllOf : node.IsAllOf
    · obtain ⟨info, members, rfl⟩ := isAllOf
      exact ofAllOf info members
    · obtain ⟨reached, schema, found, part⟩ := explored.reached
      rw [Schema.conjuncts_of_not_allOf isAllOf] at part
      exact each id reached schema found node (part List.mem_cons_self)

/-- Chains of explored references are chains of definitions that can be reached. -/
theorem transGen_passes_iff :
    TransGen (table.Passes root) id target ↔
      ReflTransGen table.BuildsOn root id ∧ TransGen table.BuildsOn id target := by
  constructor
  · intro chain
    obtain ⟨_, first, _⟩ := TransGen.head'_iff.mp chain
    have builds : table.Passes root ≤ table.BuildsOn := fun _ _ passes => (passes_iff.mp passes).2
    exact ⟨(passes_iff.mp first).1, TransGen.mono builds id target chain⟩
  · rintro ⟨reached, chain⟩
    induction chain with
    | single builds => exact .single (passes_iff.mpr ⟨reached, builds⟩)
    | tail before builds ih =>
      exact ih.tail (passes_iff.mpr ⟨reached.trans before.to_reflTransGen, builds⟩)

/-- What the exploration of a root needs for an answer: the root is defined and every explored
reference names a definition; nothing that is explored is a reference that names nothing, or a
schema that cannot be expressed; and no chain of explored references comes back to where it
started. -/
structure Explorable (table : Definitions) (root : String) : Prop where
  defined : ∃ schema, Table.get? table root = some schema
  resolved : ∀ id target, table.Passes root id target →
    ∃ schema, Table.get? table target = some schema
  faultless : ∀ id node, table.Explored root id node → ¬ node.IsFaulty
  acyclic : ∀ id, ¬ TransGen (table.Passes root) id id

theorem explorable_iff :
    table.Explorable root ↔ ∀ id, ReflTransGen table.BuildsOn root id →
      table.IsSound id ∧ ¬ TransGen table.BuildsOn id id := by
  have explored : (∀ id node, table.Explored root id node → ¬ node.IsFaulty) ↔ _ :=
    forall_explored_iff fun _ _ => id
  constructor
  · rintro ⟨defined, resolved, faultless, acyclic⟩ id reached
    have found : ∃ schema, Table.get? table id = some schema := by
      rcases ReflTransGen.cases_tail_iff _ _ _ |>.mp reached with rfl | ⟨last, before, builds⟩
      · exact defined
      · exact resolved last id (passes_iff.mpr ⟨before, builds⟩)
    obtain ⟨schema, found⟩ := found
    refine ⟨⟨schema, found, explored.mp faultless id reached schema found⟩, ?_⟩
    exact fun chain => acyclic id (transGen_passes_iff.mpr ⟨reached, chain⟩)
  · intro each
    refine ⟨?_, ?_, ?_, ?_⟩
    · obtain ⟨⟨schema, found, _⟩, _⟩ := each root .refl
      exact ⟨schema, found⟩
    · intro id target passes
      obtain ⟨reached, builds⟩ := passes_iff.mp passes
      obtain ⟨⟨schema, found, _⟩, _⟩ := each target (reached.tail builds)
      exact ⟨schema, found⟩
    · refine explored.mpr fun id reached schema found => ?_
      obtain ⟨⟨_, same, sound⟩, _⟩ := each id reached
      cases found.symm.trans same
      exact sound
    · intro id chain
      obtain ⟨reached, chain⟩ := transGen_passes_iff.mp chain
      exact (each id reached).2 chain

/-- Exploring a root always ends. It ends with an answer exactly if the root is explorable, and the
answer is yes exactly if everything that is explored is a reference, an `allOf` or an object; in all
other cases it fails. -/
theorem isObjectShaped_by_exploration (table : Definitions) (root : String) :
    (∀ answer, table.isObjectShaped root = .ok answer ↔ table.Explorable root ∧
      (answer = true ↔
        ∀ id node, table.Explored root id node → node.IsPlain → node.IsObject)) ∧
    ((∃ failure, table.isObjectShaped root = .error failure) ↔ ¬ table.Explorable root) := by
  have objects : (∀ id node, table.Explored root id node → node.IsPlain → node.IsObject) ↔
      ∀ id, ReflTransGen table.BuildsOn root id → table.HasObjects id :=
    forall_explored_iff fun _ _ plain => absurd plain id
  have answered : ∀ answer, table.isObjectShaped root = .ok answer ↔ table.Explorable root ∧
      (answer = true ↔
        ∀ id node, table.Explored root id node → node.IsPlain → node.IsObject) := by
    intro answer
    rw [isObjectShaped_eq_ok_reached, explorable_iff, objects]
  refine ⟨answered, ?_, ?_⟩
  · rintro ⟨failure, failed⟩ explorable
    obtain ⟨answer, isAnswer⟩ := exists_answer
      (∀ id node, table.Explored root id node → node.IsPlain → node.IsObject)
    cases failed.symm.trans ((answered answer).mpr ⟨explorable, isAnswer⟩)
  · intro unexplorable
    cases asked : table.isObjectShaped root with
    | error failure => exact ⟨failure, rfl⟩
    | ok answer => exact absurd ((answered answer).mp asked).1 unexplorable

end Definitions

end SchemaPress
