import SchemaPress.Proofs.CodeReferences
import SchemaPress.Proofs.Pointers

/-! The walk through a schema. It comes across the schema itself and then, depth first, across the
schemas in it; references are not followed. The dependencies of a schema are the targets of the
references on its walk, each at its first occurrence, and they are known exactly if nothing on the
walk is at fault. -/

namespace SchemaPress

mutual

/-- A schema and the schemas in it, in the order in which they are come across: properties come
before what an object says about other properties. -/
def Schema.walk : Schema → List Schema
  | .reference info ref => [.reference info ref]
  | .array info items minItems maxItems => .array info items minItems maxItems :: items.walk
  | .object info properties required additional headings =>
    .object info properties required additional headings ::
      (propertyWalk properties ++ additional.walk)
  | .scalar info scalar => [.scalar info scalar]
  | .combined info combinator members => .combined info combinator members :: memberWalk members
  | .unsupported info construct => [.unsupported info construct]

/-- The schemas in what an object says about other properties. -/
def Additional.walk : Additional → List Schema
  | .typed schema => schema.walk
  | .unstated | .allowed _ => []

/-- The schemas in properties, one property after the other. -/
def propertyWalk : List (String × Schema) → List Schema
  | [] => []
  | (_, schema) :: rest => schema.walk ++ propertyWalk rest

/-- The schemas in members, one member after the other. -/
def memberWalk : List Schema → List Schema
  | [] => []
  | schema :: rest => schema.walk ++ memberWalk rest

end

namespace Schema

/-- A schema is a reference to an id. -/
def IsReferenceTo (schema : Schema) (id : String) : Prop :=
  ∃ info text, schema = .reference info (.str text) ∧ Reference.Spells text id

/-- Something is wrong with a schema by itself: it cannot be expressed, or it is a reference that
spells no id. -/
def IsFaulty : Schema → Prop
  | .unsupported _ _ => True
  | .reference _ ref => ¬ ∃ text id, ref = .str text ∧ Reference.Spells text id
  | .array _ _ _ _ | .object _ _ _ _ _ | .scalar _ _ | .combined _ _ _ => False

/-- What a schema refers to by itself, whatever is in it. -/
def ownTargets : Schema → Except Failure (List String)
  | .reference _ ref => do return [← target ref]
  | .unsupported info construct => .error (.unsupportedSchema construct (some info.path))
  | .array _ _ _ _ | .object _ _ _ _ _ | .scalar _ _ | .combined _ _ _ => .ok []

theorem target_eq_ok {ref : Json} {id : String} :
    target ref = .ok id ↔ ∃ text, ref = .str text ∧ Reference.Spells text id := by
  constructor
  · intro named
    obtain ⟨text, isText, named⟩ := except_bind_eq_ok.mp named
    cases ref with
    | str =>
      cases isText
      exact ⟨text, rfl, Reference.toId_eq_ok_iff_spells.mp named⟩
    | _ => cases isText
  · rintro ⟨text, rfl, spelt⟩
    exact except_bind_eq_ok.mpr ⟨text, rfl, Reference.toId_eq_ok_iff_spells.mpr spelt⟩

theorem IsReferenceTo.unique {node : Schema} {id other : String} (first : node.IsReferenceTo id)
    (second : node.IsReferenceTo other) : id = other := by
  obtain ⟨_, text, rfl, spelt⟩ := first
  obtain ⟨_, _, same, again⟩ := second
  cases same
  have named := target_eq_ok.mpr ⟨text, rfl, spelt⟩
  rw [target_eq_ok.mpr ⟨text, rfl, again⟩] at named
  exact (Except.ok.inj named).symm

theorem IsReferenceTo.not_faulty {node : Schema} {id : String} (refers : node.IsReferenceTo id) :
    ¬ node.IsFaulty := by
  obtain ⟨_, text, rfl, spelt⟩ := refers
  exact fun faulty => faulty ⟨text, id, rfl, spelt⟩

theorem exists_ownTargets {schema : Schema} :
    (∃ targets, schema.ownTargets = .ok targets) ↔ ¬ schema.IsFaulty := by
  cases schema with
  | reference info ref =>
    rw [IsFaulty, not_not]
    constructor
    · rintro ⟨targets, known⟩
      obtain ⟨id, isTarget, _⟩ := except_bind_eq_ok.mp known
      obtain ⟨text, isText, spelt⟩ := target_eq_ok.mp isTarget
      exact ⟨text, id, isText, spelt⟩
    · rintro ⟨text, id, isText, spelt⟩
      exact ⟨[id], except_bind_eq_ok.mpr ⟨id, target_eq_ok.mpr ⟨text, isText, spelt⟩, rfl⟩⟩
  | unsupported info construct =>
    refine iff_of_false ?_ fun sound => sound trivial
    rintro ⟨_, known⟩
    cases known
  | array | object | scalar | combined => exact iff_of_true ⟨[], rfl⟩ id

theorem mem_ownTargets {schema : Schema} {targets : List String}
    (known : schema.ownTargets = .ok targets) (id : String) :
    id ∈ targets ↔ schema.IsReferenceTo id := by
  cases schema with
  | reference info ref =>
    obtain ⟨other, isTarget, known⟩ := except_bind_eq_ok.mp known
    cases known
    obtain ⟨text, rfl, spelt⟩ := target_eq_ok.mp isTarget
    have refers : (reference info (.str text)).IsReferenceTo other := ⟨info, text, rfl, spelt⟩
    rw [List.mem_singleton]
    exact ⟨fun same => same ▸ refers, fun found => found.unique refers⟩
  | unsupported info construct => cases known
  | array | object | scalar | combined =>
    cases known
    refine iff_of_false List.not_mem_nil ?_
    rintro ⟨_, _, same, _⟩
    cases same

end Schema

/-- What schemas refer to by themselves, one after the other. -/
def targetsAlong : List Schema → Except Failure (List String)
  | [] => .ok []
  | schema :: rest => do
    let here ← schema.ownTargets
    return here ++ (← targetsAlong rest)

section Along

variable {schemas : List Schema} {targets : List String}

theorem exists_targetsAlong :
    (∃ targets, targetsAlong schemas = .ok targets) ↔ ∀ schema ∈ schemas, ¬ schema.IsFaulty := by
  induction schemas with
  | nil => exact iff_of_true ⟨[], rfl⟩ (List.forall_mem_nil _)
  | cons first rest ih =>
    rw [List.forall_mem_cons, ← ih, ← Schema.exists_ownTargets]
    constructor
    · rintro ⟨targets, known⟩
      obtain ⟨here, isHere, known⟩ := except_bind_eq_ok.mp known
      obtain ⟨later, isLater, _⟩ := except_bind_eq_ok.mp known
      exact ⟨⟨here, isHere⟩, later, isLater⟩
    · rintro ⟨⟨here, isHere⟩, later, isLater⟩
      exact ⟨here ++ later, except_bind_eq_ok.mpr
        ⟨here, isHere, except_bind_eq_ok.mpr ⟨later, isLater, rfl⟩⟩⟩

theorem mem_targetsAlong (known : targetsAlong schemas = .ok targets) (id : String) :
    id ∈ targets ↔ ∃ schema ∈ schemas, schema.IsReferenceTo id := by
  induction schemas generalizing targets with
  | nil =>
    cases known
    simp
  | cons first rest ih =>
    obtain ⟨here, isHere, known⟩ := except_bind_eq_ok.mp known
    obtain ⟨later, isLater, known⟩ := except_bind_eq_ok.mp known
    cases known
    rw [List.mem_append, Schema.mem_ownTargets isHere, ih isLater, List.exists_mem_cons_iff]

theorem targetsAlong_append (first second : List Schema) :
    targetsAlong (first ++ second) = (do
      let here ← targetsAlong first
      return here ++ (← targetsAlong second)) := by
  induction first with
  | nil =>
    show _ = (do return [] ++ (← targetsAlong second) : Except Failure (List String))
    simp
  | cons schema rest ih =>
    rw [List.cons_append, targetsAlong, targetsAlong, ih]
    simp only [bind_assoc, pure_bind, List.append_assoc]

end Along

section Occurrences

variable {x y x' y' : Except Failure (List String)}

/-- First occurrences in two lists, one after the other, depend only on those in each. -/
theorem unique_bind_append_congr (first : Text.unique <$> x = Text.unique <$> x')
    (second : Text.unique <$> y = Text.unique <$> y') :
    Text.unique <$> (do
      let here ← x
      return here ++ (← y)) = Text.unique <$> (do
      let here ← x'
      return here ++ (← y')) := by
  cases x with
  | error =>
    cases x' with
    | error => cases first; rfl
    | ok => cases first
  | ok here =>
    cases x' with
    | error => cases first
    | ok here' =>
      cases y with
      | error =>
        cases y' with
        | error => cases second; rfl
        | ok => cases second
      | ok later =>
        cases y' with
        | error => cases second
        | ok later' =>
          exact congrArg Except.ok
            (Text.unique_append_congr (Except.ok.inj first) (Except.ok.inj second))

theorem unique_map_unique (x : Except Failure (List String)) :
    Text.unique <$> (Text.unique <$> x) = Text.unique <$> x := by
  cases x with
  | error => rfl
  | ok targets => exact congrArg Except.ok (Text.unique_unique targets)

end Occurrences

/-- The dependencies of a schema are the first occurrences of the targets along its walk. -/
def Schema.DependsAlongWalk (schema : Schema) : Prop :=
  schema.dependencies = Text.unique <$> targetsAlong schema.walk

theorem memberDependencies_walk {members : List Schema}
    (each : ∀ member ∈ members, member.DependsAlongWalk) :
    Text.unique <$> memberDependencies members =
      Text.unique <$> targetsAlong (memberWalk members) := by
  induction members with
  | nil => rfl
  | cons first rest ih =>
    obtain ⟨here, later⟩ := List.forall_mem_cons.mp each
    rw [memberWalk, targetsAlong_append]
    refine unique_bind_append_congr ?_ (ih later)
    rw [here, unique_map_unique]

theorem propertyWalk_eq (properties : List (String × Schema)) :
    propertyWalk properties = memberWalk (properties.map Prod.snd) := by
  induction properties with
  | nil => rfl
  | cons property rest ih => rw [propertyWalk, ih, List.map_cons, memberWalk]

theorem additionalDependencies_walk {additional : Additional}
    (typed : ∀ schema, additional = .typed schema → schema.DependsAlongWalk) :
    Text.unique <$> additional.dependencies = Text.unique <$> targetsAlong additional.walk := by
  cases additional with
  | unstated | allowed => rfl
  | typed schema =>
    have inner : schema.dependencies = Text.unique <$> targetsAlong schema.walk := typed schema rfl
    rw [Additional.walk, ← unique_map_unique (targetsAlong _), ← inner]
    rfl

/-- What has no target by itself adds none. -/
theorem targetsAlong_cons {schema : Schema} (silent : schema.ownTargets = .ok [])
    (rest : List Schema) : targetsAlong (schema :: rest) = targetsAlong rest := by
  rw [targetsAlong, silent]
  show (do return [] ++ (← targetsAlong rest) : Except Failure (List String)) = _
  simp

theorem Schema.dependencies_along_walk (schema : Schema) : schema.DependsAlongWalk := by
  induction schema using Schema.induction with
  | reference info ref =>
    show (do return [← Schema.target ref] : Except Failure (List String)) =
      Text.unique <$> (do
        let here ← (do return [← Schema.target ref])
        return here ++ (← targetsAlong []))
    cases Schema.target ref <;> rfl
  | array info items minItems maxItems ih =>
    rw [DependsAlongWalk, walk, targetsAlong_cons rfl, ← unique_map_unique, ← ih]
    exact bind_pure_comp _ _
  | scalar info scalar => rfl
  | unsupported info construct => rfl
  | object info properties required additional headings named others =>
    have each := memberDependencies_walk (List.forall_mem_map.mpr named)
    rw [DependsAlongWalk, walk, targetsAlong_cons rfl, targetsAlong_append, propertyWalk_eq,
      ← unique_bind_append_congr each (additionalDependencies_walk others),
      ← propertyDependencies_eq]
    simp only [map_bind, map_pure]
    rfl
  | combined info combinator members ih =>
    rw [DependsAlongWalk, walk, targetsAlong_cons rfl, ← memberDependencies_walk ih]
    exact bind_pure_comp _ _

namespace Schema

variable {schema : Schema} {targets : List String}

theorem dependencies_nodup (known : schema.dependencies = .ok targets) : targets.Nodup := by
  rw [schema.dependencies_along_walk] at known
  obtain ⟨all, _, rfl⟩ := except_map_eq_ok.mp known
  exact Text.unique_nodup all

/-- The dependencies of a schema are known exactly if nothing on its walk is at fault. -/
theorem exists_dependencies :
    (∃ targets, schema.dependencies = .ok targets) ↔ ∀ node ∈ schema.walk, ¬ node.IsFaulty := by
  rw [schema.dependencies_along_walk, ← exists_targetsAlong]
  constructor
  · rintro ⟨_, known⟩
    obtain ⟨all, isAll, _⟩ := except_map_eq_ok.mp known
    exact ⟨all, isAll⟩
  · rintro ⟨all, isAll⟩
    exact ⟨_, except_map_eq_ok.mpr ⟨all, isAll, rfl⟩⟩

/-- A schema depends on an id exactly if its walk comes across a reference to it. -/
theorem mem_dependencies_iff (known : schema.dependencies = .ok targets) (id : String) :
    id ∈ targets ↔ ∃ node ∈ schema.walk, node.IsReferenceTo id := by
  rw [schema.dependencies_along_walk] at known
  obtain ⟨all, isAll, rfl⟩ := except_map_eq_ok.mp known
  rw [Text.mem_unique, mem_targetsAlong isAll]

end Schema

end SchemaPress
