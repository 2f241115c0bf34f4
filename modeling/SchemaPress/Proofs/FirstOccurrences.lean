import SchemaPress.Proofs.SchemaWalks

/-! Dependencies in the order of the walk. Each level of a schema keeps the first occurrences of
what the levels below it hand over; the outcome is the same as if the walk were made as a whole. It
lists every target once, where the walk first comes across it, and if something on the walk is at
fault, it is the failure of the first such schema. -/

namespace SchemaPress

namespace Schema

/-- How a schema that is at fault by itself fails. -/
inductive FailsWith : Schema → Failure → Prop where
  /-- It cannot be expressed. -/
  | unsupported (info : Info) (construct : String) :
      FailsWith (.unsupported info construct) (.unsupportedSchema construct (some info.path))
  /-- It refers to something that is no text. -/
  | untyped {info : Info} {ref : Json} (other : ∀ text, ref ≠ .str text) :
      FailsWith (.reference info ref) (.mismatch .operation)
  /-- It refers to something inside a definition. -/
  | nested {info : Info} {text : String} (leads : Reference.LeadsInto text) :
      FailsWith (.reference info (.str text)) (.nestedReference text)
  /-- It does not refer to a definition at all. -/
  | misspelt {info : Info} {text : String} (outside : ¬ Reference.LeadsInto text)
      (unspelt : ∀ id, ¬ Reference.Spells text id) :
      FailsWith (.reference info (.str text)) (.unsupportedReference text)

variable {schema : Schema} {failure : Failure} {targets : List String}

theorem ownTargets_eq_error : schema.ownTargets = .error failure ↔ schema.FailsWith failure := by
  cases schema with
  | unsupported info construct =>
    constructor
    · intro failed
      cases failed
      exact .unsupported info construct
    · intro fails
      cases fails
      rfl
  | reference info ref =>
    have own : (reference info ref).ownTargets = .error failure ↔ target ref = .error failure := by
      refine except_bind_eq_error.trans (or_iff_left ?_)
      rintro ⟨_, _, failed⟩
      cases failed
    rw [own]
    cases ref with
    | str text =>
      refine Iff.trans Reference.toId_eq_error ⟨?_, ?_⟩
      · rintro (⟨leads, rfl⟩ | ⟨outside, unspelt, rfl⟩)
        · exact .nested leads
        · exact .misspelt outside unspelt
      · intro fails
        cases fails with
        | untyped other => exact absurd rfl (other text)
        | nested leads => exact .inl ⟨leads, rfl⟩
        | misspelt outside unspelt => exact .inr ⟨outside, unspelt, rfl⟩
    | _ =>
      constructor
      · intro failed
        cases failed
        exact .untyped fun text isText => by cases isText
      · intro fails
        cases fails
        rfl
  | array | object | scalar | combined =>
    refine iff_of_false (fun failed => ?_) fun fails => ?_
    · cases failed
    · cases fails

theorem FailsWith.isFaulty (fails : schema.FailsWith failure) : schema.IsFaulty := by
  by_contra sound
  obtain ⟨targets, known⟩ := exists_ownTargets.mpr sound
  rw [ownTargets_eq_error.mpr fails] at known
  cases known

/-- By itself a schema has at most one target. -/
theorem ownTargets_cases (known : schema.ownTargets = .ok targets) :
    targets = [] ∨ ∃ id, targets = [id] ∧ schema.IsReferenceTo id := by
  have members := mem_ownTargets known
  cases schema with
  | reference info ref =>
    obtain ⟨id, _, known⟩ := except_bind_eq_ok.mp known
    cases known
    exact .inr ⟨id, rfl, (members id).mp List.mem_cons_self⟩
  | unsupported info construct => cases known
  | array | object | scalar | combined =>
    cases known
    exact .inl rfl

end Schema

section Along

variable {schemas : List Schema} {failure : Failure} {targets : List String}

/-- A walk fails where it first comes across a schema that is at fault. -/
theorem targetsAlong_eq_error :
    targetsAlong schemas = .error failure ↔
      ∃ earlier node later, schemas = earlier ++ node :: later ∧
        (∀ other ∈ earlier, ¬ other.IsFaulty) ∧ node.IsFaulty ∧ node.FailsWith failure := by
  induction schemas with
  | nil =>
    refine iff_of_false (fun failed => ?_) ?_
    · cases failed
    · rintro ⟨earlier, node, later, isWhole, _⟩
      simp at isWhole
  | cons first rest ih =>
    rw [targetsAlong, except_bind_eq_error, Schema.ownTargets_eq_error]
    constructor
    · rintro (here | ⟨targets, sound, failed⟩)
      · exact ⟨[], first, rest, rfl, List.forall_mem_nil _, here.isFaulty, here⟩
      · have failed : targetsAlong rest = .error failure :=
          (except_bind_eq_error.mp failed).resolve_right (by rintro ⟨_, _, failed⟩; cases failed)
        obtain ⟨earlier, node, later, rfl, faultless, fault⟩ := ih.mp failed
        exact ⟨first :: earlier, node, later, rfl,
          List.forall_mem_cons.mpr ⟨Schema.exists_ownTargets.mp ⟨targets, sound⟩, faultless⟩, fault⟩
    · rintro ⟨earlier, node, later, isWhole, faultless, fault⟩
      cases earlier with
      | nil =>
        cases isWhole
        exact .inl fault.2
      | cons other earlier =>
        cases isWhole
        obtain ⟨here, faultless⟩ := List.forall_mem_cons.mp faultless
        obtain ⟨targets, sound⟩ := Schema.exists_ownTargets.mpr here
        have failed := ih.mpr ⟨earlier, node, later, rfl, faultless, fault⟩
        exact .inr ⟨targets, sound, except_bind_eq_error.mpr (.inl failed)⟩

/-- Among schemas one id occurs before another: where some schema refers to the one, none before it
has referred to the other. -/
def OccursBefore (schemas : List Schema) (id other : String) : Prop :=
  ∃ earlier node later, schemas = earlier ++ node :: later ∧ node.IsReferenceTo id ∧
    ∀ node ∈ earlier, ¬ node.IsReferenceTo other

/-- A list has the ids that schemas refer to, each once and in order of first occurrence. -/
structure ListsTargets (schemas : List Schema) (targets : List String) : Prop where
  distinct : targets.Nodup
  member : ∀ id, id ∈ targets ↔ ∃ node ∈ schemas, node.IsReferenceTo id
  ordered : targets.Pairwise (OccursBefore schemas)

/-- The place of a target is that of a reference to it. -/
theorem targetsAlong_split {before after : List String} {id : String}
    (known : targetsAlong schemas = .ok (before ++ id :: after)) :
    ∃ earlier node later, schemas = earlier ++ node :: later ∧ node.IsReferenceTo id ∧
      targetsAlong earlier = .ok before := by
  induction schemas generalizing before with
  | nil => simp [targetsAlong] at known
  | cons first rest ih =>
    obtain ⟨here, isHere, known⟩ := except_bind_eq_ok.mp known
    obtain ⟨others, isOthers, known⟩ := except_bind_eq_ok.mp known
    have whole : here ++ others = before ++ id :: after := Except.ok.inj known
    -- If the target is not that of the first schema, the cut is in the rest.
    have further {before : List String} (isRest : others = before ++ id :: after) :
        ∃ earlier node later, first :: rest = earlier ++ node :: later ∧ node.IsReferenceTo id ∧
          targetsAlong earlier = .ok (here ++ before) := by
      obtain ⟨earlier, node, later, rfl, refers, isEarlier⟩ := ih (isRest ▸ isOthers)
      exact ⟨first :: earlier, node, later, rfl, refers,
        except_bind_eq_ok.mpr ⟨here, isHere, except_bind_eq_ok.mpr ⟨before, isEarlier, rfl⟩⟩⟩
    rcases Schema.ownTargets_cases isHere with rfl | ⟨other, rfl, refers⟩
    · exact further whole
    · cases before with
      | nil =>
        cases whole
        exact ⟨[], first, rest, rfl, refers, rfl⟩
      | cons head before =>
        cases whole
        exact further rfl

theorem listsTargets_unique (known : targetsAlong schemas = .ok targets) :
    ListsTargets schemas (Text.unique targets) where
  distinct := Text.unique_nodup targets
  member id := by rw [Text.mem_unique, mem_targetsAlong known]
  ordered := by
    refine (Text.unique_pairwise targets).imp ?_
    rintro id other ⟨before, after, rfl, unseen⟩
    obtain ⟨earlier, node, later, isWhole, refers, isEarlier⟩ := targetsAlong_split known
    refine ⟨earlier, node, later, isWhole, refers, fun node inside mentions => unseen ?_⟩
    exact (mem_targetsAlong isEarlier other).mpr ⟨node, inside, mentions⟩

/-- Of two ids only one occurs before the other. -/
theorem OccursBefore.antisymm {id other : String} (before : OccursBefore schemas id other)
    (after : OccursBefore schemas other id) : id = other := by
  obtain ⟨earlier, node, later, rfl, refers, unseen⟩ := before
  obtain ⟨earlier', node', later', same, refers', unseen'⟩ := after
  -- Both cuts are at the same reference, or the one that comes first is seen by the other.
  rcases List.append_eq_append_iff.mp same with ⟨between, rfl, isLater⟩ | ⟨between, rfl, isLater⟩
  · cases between with
    | nil =>
      cases isLater
      exact refers.unique refers'
    | cons =>
      cases isLater
      exact absurd refers (unseen' node (by simp))
  · cases between with
    | nil =>
      cases isLater
      exact refers.unique refers'
    | cons =>
      cases isLater
      exact absurd refers' (unseen node' (by simp))

/-- There is only one such list. -/
theorem ListsTargets.unique {others : List String} (lists : ListsTargets schemas targets)
    (again : ListsTargets schemas others) : targets = others := by
  refine List.Perm.eq_of_pairwise (fun _ _ _ _ before after => before.antisymm after)
    lists.ordered again.ordered ?_
  rw [List.perm_ext_iff_of_nodup lists.distinct again.distinct]
  exact fun id => (lists.member id).trans (again.member id).symm

end Along

/-- The dependencies of a schema follow its walk. They are known exactly if nothing on the walk is
unsupported or a reference that spells no id. They are then the targets of all references on the
walk, each once and in order of first occurrence; otherwise the failure is that of the first schema
on the walk that is at fault. -/
theorem Schema.dependencies_follow_walk (schema : Schema) :
    ((∃ targets, schema.dependencies = .ok targets) ↔ ∀ node ∈ schema.walk, ¬ node.IsFaulty) ∧
    (∀ targets, schema.dependencies = .ok targets ↔
      (∀ node ∈ schema.walk, ¬ node.IsFaulty) ∧ ListsTargets schema.walk targets) ∧
    ∀ failure, schema.dependencies = .error failure ↔
      ∃ earlier node later, schema.walk = earlier ++ node :: later ∧
        (∀ other ∈ earlier, ¬ other.IsFaulty) ∧ node.IsFaulty ∧ node.FailsWith failure := by
  have lists {targets : List String} (known : schema.dependencies = .ok targets) :
      ListsTargets schema.walk targets := by
    rw [schema.dependencies_along_walk] at known
    obtain ⟨all, isAll, rfl⟩ := except_map_eq_ok.mp known
    exact listsTargets_unique isAll
  refine ⟨exists_dependencies, fun targets => ⟨fun known => ?_, ?_⟩, fun failure => ?_⟩
  · exact ⟨exists_dependencies.mp ⟨targets, known⟩, lists known⟩
  · rintro ⟨faultless, listed⟩
    obtain ⟨others, known⟩ := exists_dependencies.mpr faultless
    rw [known, (lists known).unique listed]
  · rw [schema.dependencies_along_walk, ← targetsAlong_eq_error]
    cases targetsAlong schema.walk with
    | error => exact Iff.rfl
    | ok => exact iff_of_false (fun failed => by cases failed) fun failed => by cases failed

end SchemaPress
