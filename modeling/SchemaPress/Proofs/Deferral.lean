import SchemaPress.Proofs.CodeReferences

/-! Deferral of references. All that the order of declarations changes in generated code is which
references are deferred: under one order the code is that under any other, with the references to
late definitions deferred and no others. Whether there is code at all, what it refers to and its
documentation do not depend on the order. -/

namespace SchemaPress

mutual

/-- Code in which a reference is deferred exactly if its target is late. -/
def Expr.defer (late : String → Bool) : Expr → Expr
  | .verbatim code => .verbatim code
  | .filtered base filters => .filtered base filters
  | .constants values => .constants values
  | .reference id _ => .reference id (late id)
  | .array items filters => .array (items.defer late) filters
  | .record value => .record (value.defer late)
  | .struct fields none => .struct (deferFields late fields) none
  | .struct fields (some further) => .struct (deferFields late fields) (some (further.defer late))
  | .merged parts => .merged (deferParts late parts)
  | .extended members => .extended (deferMembers late members)
  | .union members => .union (deferMembers late members)

/-- Fields with the references in their types deferred if late. -/
def deferFields (late : String → Bool) : List (Field Expr) → List (Field Expr)
  | [] => []
  | ⟨name, heading, comments, presence, type⟩ :: rest =>
    ⟨name, heading, comments, presence, type.defer late⟩ :: deferFields late rest

/-- Parts of a merged object with their references deferred if late. -/
def deferParts (late : String → Bool) : List Part → List Part
  | [] => []
  | part :: rest => part.defer late :: deferParts late rest

/-- A part of a merged object with its references deferred if late. -/
def Part.defer (late : String → Bool) : Part → Part
  | .spread comments source => .spread comments (source.defer late)
  | .fields comments fields => .fields comments (deferFields late fields)

/-- Members of a list of schemas with their references deferred if late. -/
def deferMembers (late : String → Bool) : List (Commented Expr) → List (Commented Expr)
  | [] => []
  | ⟨comments, item⟩ :: rest => ⟨comments, item.defer late⟩ :: deferMembers late rest

end

/-- Each of some references is deferred exactly if its target is late. -/
def Fitting (late : String → Bool) (references : List (String × Bool)) : Prop :=
  ∀ found ∈ references, found.2 = late found.1

variable {late other : String → Bool}

theorem fitting_append {first second : List (String × Bool)} :
    Fitting late (first ++ second) ↔ Fitting late first ∧ Fitting late second :=
  List.forall_mem_append

mutual

/-- Code whose references are deferred as they should be stays as it is. -/
theorem Expr.defer_of_fitting (code : Expr) (fits : Fitting late code.references) :
    code.defer late = code := by
  match code with
  | .verbatim _ | .filtered _ _ | .constants _ => rw [Expr.defer]
  | .reference id deferred =>
    have flag : deferred = late id := fits (id, deferred) List.mem_cons_self
    rw [Expr.defer, flag]
  | .array items _ => rw [Expr.defer, items.defer_of_fitting fits]
  | .record value => rw [Expr.defer, value.defer_of_fitting fits]
  | .struct fields none => rw [Expr.defer, deferFields_of_fitting fields fits]
  | .struct fields (some further) =>
    obtain ⟨named, others⟩ := fitting_append.mp fits
    rw [Expr.defer, deferFields_of_fitting fields named, further.defer_of_fitting others]
  | .merged parts => rw [Expr.defer, deferParts_of_fitting parts fits]
  | .extended members | .union members => rw [Expr.defer, deferMembers_of_fitting members fits]

theorem deferFields_of_fitting (fields : List (Field Expr))
    (fits : Fitting late (fieldReferences fields)) : deferFields late fields = fields := by
  match fields with
  | [] => rfl
  | ⟨_, _, _, _, type⟩ :: rest =>
    obtain ⟨here, later⟩ := fitting_append.mp fits
    rw [deferFields, type.defer_of_fitting here, deferFields_of_fitting rest later]

theorem deferParts_of_fitting (parts : List Part) (fits : Fitting late (partReferences parts)) :
    deferParts late parts = parts := by
  match parts with
  | [] => rfl
  | part :: rest =>
    obtain ⟨here, later⟩ := fitting_append.mp fits
    rw [deferParts, part.defer_of_fitting here, deferParts_of_fitting rest later]

theorem Part.defer_of_fitting (part : Part) (fits : Fitting late part.references) :
    part.defer late = part := by
  match part with
  | .spread _ source => rw [Part.defer, source.defer_of_fitting fits]
  | .fields _ fields => rw [Part.defer, deferFields_of_fitting fields fits]

theorem deferMembers_of_fitting (members : List (Commented Expr))
    (fits : Fitting late (memberReferences members)) : deferMembers late members = members := by
  match members with
  | [] => rfl
  | ⟨_, item⟩ :: rest =>
    obtain ⟨here, later⟩ := fitting_append.mp fits
    rw [deferMembers, item.defer_of_fitting here, deferMembers_of_fitting rest later]

end

theorem Expr.defer_of_no_references {code : Expr} (none : code.references = []) :
    code.defer late = code :=
  code.defer_of_fitting fun found member => by
    rw [none] at member
    cases member

theorem struct_defer (fields : List (Field Expr)) (further : Option Expr) :
    (Expr.struct fields further).defer late =
      .struct (deferFields late fields) (further.map (Expr.defer late)) := by
  cases further <;> rw [Expr.defer] <;> rfl

/-- A result with the references in its code deferred if late. -/
def Generated.defer (late : String → Bool) (result : Generated) : Generated :=
  { result with code := result.code.defer late }

/-- The context in which every definition is declared before the one at hand unless it is late. -/
def Context.orderedBy (context : Context) (late : String → Bool) : Context :=
  { context with isBefore := fun id => .ok (!late id) }

variable {context : Context}

/-- The code of a schema under one order is that under another, with the references to definitions
that are late in the first order deferred. -/
def Schema.Defers (context : Context) (late other : String → Bool) (schema : Schema) : Prop :=
  (schema.generate (context.orderedBy late)).result =
    Generated.defer late <$> (schema.generate (context.orderedBy other)).result

section Lists

theorem generateMembers_defer {members : List Schema}
    (each : ∀ member ∈ members, member.Defers context late other) :
    (generateMembers (context.orderedBy late) members).result =
      List.map (Generated.defer late) <$>
        (generateMembers (context.orderedBy other) members).result := by
  induction members with
  | nil => rfl
  | cons first rest ih =>
    have here : first.Defers context late other := each first List.mem_cons_self
    have later := ih fun member inside => each member (List.mem_cons_of_mem _ inside)
    exact Logged.result_bind_map here fun _ => Logged.result_bind_map later fun _ => rfl

theorem generateTelling_defer {members : List Schema}
    (each : ∀ member ∈ members, member.Defers context late other) :
    (generateTelling (context.orderedBy late) members).result =
      List.map (Generated.defer late) <$>
        (generateTelling (context.orderedBy other) members).result := by
  rw [generateTelling_eq, generateTelling_eq]
  exact generateMembers_defer fun member inside => each member (List.mem_of_mem_filter inside)

theorem generateFields_defer {required : List Json} {headings : Table String}
    {properties : List (String × Schema)}
    (each : ∀ property ∈ properties, property.2.Defers context late other) :
    (generateFields (context.orderedBy late) required headings properties).result =
      Prod.map (deferFields late) id <$>
        (generateFields (context.orderedBy other) required headings properties).result := by
  induction properties with
  | nil => rfl
  | cons first rest ih =>
    obtain ⟨name, schema⟩ := first
    have here : schema.Defers context late other := each (name, schema) List.mem_cons_self
    have later := ih fun property inside => each property (List.mem_cons_of_mem _ inside)
    exact Logged.result_bind_map here fun _ => Logged.result_bind_same fun _ =>
      Logged.result_bind_map later fun _ => rfl

theorem generateParts_defer {members : List Schema}
    (each : ∀ member ∈ members, ∀ property ∈ member.ownProperties,
      property.2.Defers context late other) (results : List Generated) :
    (generateParts (context.orderedBy late) (results.map (Generated.defer late)) members).result =
      deferParts late <$> (generateParts (context.orderedBy other) results members).result := by
  induction members generalizing results with
  | nil =>
    unfold generateParts
    rfl
  | cons first rest ih =>
    have later := ih fun member inside => each member (List.mem_cons_of_mem _ inside)
    unfold generateParts
    split
    · exact later results
    · cases results with
      | nil => rfl
      | cons result results =>
        simp only [List.map_cons]
        cases first with
        | object info properties required additional headings =>
          have listed : ∀ property ∈ properties, property.2.Defers context late other :=
            each _ List.mem_cons_self
          simp only [Logged.result_bind, generateFields_defer listed, later, bind_map_left,
            map_bind]
          rfl
        | _ =>
          simp only [Logged.result_bind, later, bind_map_left, map_bind]
          rfl

theorem commented_defer (results : List Generated) :
    Generated.commented (results.map (Generated.defer late)) =
      deferMembers late <$> Generated.commented results := by
  induction results with
  | nil => rfl
  | cons result rest ih =>
    simp only [Generated.commented, List.map_cons, List.mapM_cons] at ih ⊢
    rw [ih]
    simp only [bind_map_left, map_bind, bind_assoc, pure_bind]
    rfl

theorem combineRefs_defer (results : List Generated) :
    Generated.combineRefs (results.map (Generated.defer late)) = Generated.combineRefs results := by
  simp only [Generated.combineRefs, List.flatMap_map]
  rfl

/-- Code that is put together from the code of members, with their comments. -/
def Generated.collect (make : List (Commented Expr) → Expr) (docs : Docs)
    (results : List Generated) : Logged Generated := do
  let items ← Generated.commented results
  return { code := make items, refs := Generated.combineRefs results, docs }

theorem collect_defer (make : List (Commented Expr) → Expr) (docs : Docs)
    (made : ∀ items, (make items).defer late = make (deferMembers late items))
    (results : List Generated) :
    (Generated.collect make docs (results.map (Generated.defer late))).result =
      Generated.defer late <$> (Generated.collect make docs results).result := by
  rw [Generated.collect, Generated.collect, combineRefs_defer, Logged.result_bind,
    Logged.result_bind, Logged.result_lift, Logged.result_lift, commented_defer]
  simp only [bind_map_left, map_bind, ← made]
  rfl

end Lists

section Schemas

theorem reference_defers {info : Info} {ref : Json} :
    (Schema.reference info ref).Defers context late other := by
  refine Logged.result_bind_same fun id => ?_
  show Except.ok _ = Except.ok _
  simp [Generated.defer, Expr.defer]

theorem array_defers {info : Info} {items : Schema} {minItems maxItems : Option Int}
    (inner : items.Defers context late other) :
    (Schema.array info items minItems maxItems).Defers context late other :=
  Logged.result_bind_map inner fun _ => rfl

/-- Overrides know nothing of the order, and the code they give holds no references. -/
theorem usual_defers {schema : Schema} {usual usual' : Logged Generated}
    (same : usual.result = Generated.defer late <$> usual'.result) :
    (do
      match ← (context.orderedBy late).overriding schema with
      | some result => return result
      | none => usual : Logged Generated).result =
    Generated.defer late <$> (do
      match ← (context.orderedBy other).overriding schema with
      | some result => return result
      | none => usual' : Logged Generated).result := by
  have unordered : (context.orderedBy late).overriding schema =
      (context.orderedBy other).overriding schema := rfl
  rw [unordered]
  simp only [Logged.result_bind, map_bind]
  cases chosen : ((context.orderedBy other).overriding schema).result with
  | error failure => rfl
  | ok choice =>
    cases choice with
    | none => exact same
    | some result =>
      have kept : result.defer late = result := by
        rw [Generated.defer, Expr.defer_of_no_references (overriding_references chosen)]
      exact congrArg Except.ok kept.symm

theorem scalar_defers {info : Info} {scalar : Scalar} :
    (Schema.scalar info scalar).Defers context late other := by
  refine usual_defers ?_
  have unordered : scalar.generate (context.orderedBy late).overrides (.scalar info scalar) =
      scalar.generate (context.orderedBy other).overrides (.scalar info scalar) := rfl
  simp only [Logged.result_bind, map_bind, Logged.result_lift, unordered]
  cases generated : scalar.generate (context.orderedBy other).overrides (.scalar info scalar) with
  | error failure => rfl
  | ok made =>
    obtain ⟨code, refs⟩ := made
    have kept : code.defer late = code :=
      Expr.defer_of_no_references (scalar_references generated)
    show Except.ok _ = Except.ok _
    rw [Generated.defer, kept]

theorem generateAlone_defer {additional : Additional}
    (typed : ∀ schema, additional = .typed schema → schema.Defers context late other) :
    (additional.generateAlone (context.orderedBy late)).result =
      Prod.map (Expr.defer late) id <$>
        (additional.generateAlone (context.orderedBy other)).result := by
  cases additional with
  | unstated => rfl
  | allowed any => cases any <;> rfl
  | typed schema =>
    have inner : schema.Defers context late other := typed schema rfl
    exact Logged.result_bind_map inner fun _ => rfl

theorem generateFurther_defer {additional : Additional}
    (typed : ∀ schema, additional = .typed schema → schema.Defers context late other) :
    (additional.generateFurther (context.orderedBy late)).result =
      Prod.map (Option.map (Expr.defer late)) id <$>
        (additional.generateFurther (context.orderedBy other)).result := by
  cases additional with
  | unstated | allowed => rfl
  | typed schema =>
    have inner : schema.Defers context late other := typed schema rfl
    exact Logged.result_bind_map inner fun _ => rfl

theorem object_defers {info : Info} {properties : List (String × Schema)} {required : List Json}
    {additional : Additional} {headings : Table String}
    (named : ∀ property ∈ properties, property.2.Defers context late other)
    (others : ∀ schema, additional = .typed schema → schema.Defers context late other) :
    (Schema.object info properties required additional headings).Defers context late other := by
  cases properties with
  | nil =>
    refine usual_defers ?_
    exact Logged.result_bind_map (generateAlone_defer others) fun _ => rfl
  | cons first rest =>
    refine usual_defers (Logged.result_bind_map (generateFurther_defer others) fun made => ?_)
    refine Logged.result_bind_map (generateFields_defer named) fun listed => ?_
    exact congrArg Except.ok (congrArg (Generated.mk · _ _) (struct_defer ..).symm)

theorem union_defers {info : Info} {combinator : Combinator} {members : List Schema}
    (isUnion : combinator ≠ .allOf)
    (each : ∀ member ∈ members, member.Defers context late other) :
    (Schema.combined info combinator members).Defers context late other := by
  rw [Schema.Defers, generate_union isUnion, generate_union isUnion]
  refine Logged.result_bind_map (generateMembers_defer each) fun results => ?_
  obtain _ | ⟨first, _ | ⟨second, rest⟩⟩ := results
  · rfl
  · rfl
  · exact collect_defer .union _ (fun _ => by rw [Expr.defer]) (first :: second :: rest)

theorem intersection_defers {info : Info} {members : List Schema}
    (each : ∀ member ∈ members, member.Defers context late other)
    (listed : ∀ member ∈ members, ∀ property ∈ member.ownProperties,
      property.2.Defers context late other) :
    (Schema.combined info .allOf members).Defers context late other := by
  by_cases single : ∃ only, members = [only]
  · obtain ⟨only, rfl⟩ := single
    exact each only List.mem_cons_self
  · have several : ∀ only, members ≠ [only] := not_exists.mp single
    rw [Schema.Defers, generate_intersection several, generate_intersection several]
    refine Logged.result_bind_same fun mergeable => ?_
    refine Logged.result_bind_map (generateTelling_defer each) fun results => ?_
    obtain _ | ⟨first, _ | ⟨second, rest⟩⟩ := results
    · rfl
    · rfl
    · cases mergeable with
      | false =>
        exact collect_defer .extended _ (fun _ => by rw [Expr.defer]) (first :: second :: rest)
      | true =>
        have parts := generateParts_defer listed (first :: second :: rest)
        have refs : Generated.combineRefs ((first :: second :: rest).map (Generated.defer late)) =
            Generated.combineRefs (first :: second :: rest) := combineRefs_defer _
        refine Logged.result_bind_map parts fun made => ?_
        exact congrArg Except.ok (congrArg (Generated.mk _ · _) refs)

/-- Generating code under an order is generating it under any other and deferring the references to
late definitions. -/
theorem Schema.generate_defers (schema : Schema) : schema.Defers context late other := by
  -- A merged object lists the properties of its members again, so these are carried along.
  suffices both : schema.Defers context late other ∧
      ∀ property ∈ schema.ownProperties, property.2.Defers context late other from both.1
  induction schema using Schema.induction with
  | reference info ref => exact ⟨reference_defers, List.forall_mem_nil _⟩
  | array info items minItems maxItems ih => exact ⟨array_defers ih.1, List.forall_mem_nil _⟩
  | scalar info scalar => exact ⟨scalar_defers, List.forall_mem_nil _⟩
  | unsupported info construct =>
    exact ⟨rfl, List.forall_mem_nil _⟩
  | object info properties required additional headings named others =>
    have named := fun property inside => (named property inside).1
    exact ⟨object_defers named fun schema isSchema => (others schema isSchema).1, named⟩
  | combined info combinator members ih =>
    refine ⟨?_, List.forall_mem_nil _⟩
    by_cases isUnion : combinator = .allOf
    · subst isUnion
      exact intersection_defers (fun member inside => (ih member inside).1)
        fun member inside => (ih member inside).2
    · exact union_defers isUnion fun member inside => (ih member inside).1

end Schemas

end SchemaPress
