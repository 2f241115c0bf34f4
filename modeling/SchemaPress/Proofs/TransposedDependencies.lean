import SchemaPress.Proofs.OrderSearch

/-! Dependents as dependencies turned around. The dependents of all definitions are gathered edge by
edge, and what they come to is the dependencies of all definitions with every edge turned around:
who depends on a definition is listed in the order of the table, each once, and the definitions that
something depends on in the order in which they are first named. Both are known for the same tables;
if they are not, the first definition at fault is to blame. -/

namespace SchemaPress

namespace Adjacency

variable {result : Adjacency} {key : String}

/-- Relating an id to one more names that one, unless it is named already. -/
theorem keys_relate (distinct : (Table.keys result).Nodup) (id other : String) :
    Table.keys (relate id other result) = Text.unique (Table.keys result ++ [id]) := by
  rw [Text.unique_concat distinct]
  clear distinct
  induction result with
  | nil => simp [relate, Table.keys]
  | cons entry rest ih =>
    by_cases here : entry.1 = id
    · simp [relate, Table.keys, here]
    · simp only [Table.keys] at ih
      by_cases later : id ∈ Table.keys rest <;>
        simp_all [relate, Table.keys, Ne.symm here]

/-- Relating an id to one more adds it at the end of what is related to that one. -/
theorem of_relate (distinct : (of result key).Nodup) (id other : String) :
    of (relate id other result) key =
      Text.unique (of result key ++ if key = id then [other] else []) := by
  induction result with
  | nil =>
    by_cases same : key = id
    · subst same
      simp [relate, of, Table.get?, Text.unique_of_nodup]
    · simp [relate, of, Table.get?, same, Ne.symm same, Text.unique_of_nodup]
  | cons entry rest ih =>
    obtain ⟨first, others⟩ := entry
    by_cases here : first = key
    · subst here
      rw [of_cons_self] at distinct ⊢
      by_cases same : first = id
      · subst same
        simp [relate, of_cons_self, Text.unique_concat distinct]
      · simp [relate, of_cons_self, same, Text.unique_of_nodup distinct]
    · rw [of_cons_ne _ here] at distinct ⊢
      by_cases same : first = id
      · subst same
        simp [relate, of_cons_ne _ here, Ne.symm here, Text.unique_of_nodup distinct]
      · simp only [relate, same, if_false, of_cons_ne _ here, ih distinct]

theorem keys_foldl_relate (distinct : (Table.keys result).Nodup) (id : String)
    (targets : List String) :
    Table.keys (targets.foldl (fun (result : Adjacency) target => result.relate target id) result) =
      Text.unique (Table.keys result ++ targets) := by
  induction targets generalizing result with
  | nil => simp [Text.unique_of_nodup distinct]
  | cons target rest ih =>
    have named := keys_relate distinct target id
    rw [List.foldl_cons, ih (named ▸ Text.unique_nodup _), named, Text.unique_unique_append]
    simp

theorem of_foldl_relate (distinct : (of result key).Nodup) (id : String) (targets : List String) :
    of (targets.foldl (fun result target => result.relate target id) result) key =
      Text.unique (of result key ++ if key ∈ targets then [id] else []) := by
  induction targets generalizing result with
  | nil => simp [Text.unique_of_nodup distinct]
  | cons target rest ih =>
    have related := of_relate distinct target id
    rw [List.foldl_cons, ih (related ▸ Text.unique_nodup _), related, Text.unique_unique_append]
    by_cases here : key = target
    · subst here
      by_cases later : key ∈ rest
      · have known : id ∈ of result key ++ [id] := by simp
        simpa [later] using Text.unique_append_cons known []
      · simp [later]
    · simp [here]

/-- An adjacency with the edges of another added, turned around. -/
def addTurned (result adjacency : Adjacency) : Adjacency :=
  adjacency.foldl (fun (result : Adjacency) entry =>
    entry.2.foldl (fun (result : Adjacency) target => result.relate target entry.1) result) result

theorem keys_addTurned (distinct : (Table.keys result).Nodup) (adjacency : Adjacency) :
    Table.keys (result.addTurned adjacency) =
      Text.unique (Table.keys result ++ adjacency.flatMap Prod.snd) := by
  induction adjacency generalizing result with
  | nil => simp [addTurned, Text.unique_of_nodup distinct]
  | cons entry rest ih =>
    have named := keys_foldl_relate distinct entry.1 entry.2
    rw [addTurned, List.foldl_cons]
    refine (ih (named ▸ Text.unique_nodup _)).trans ?_
    rw [named, Text.unique_unique_append, List.flatMap_cons, List.append_assoc]

theorem of_addTurned (distinct : (of result key).Nodup) (adjacency : Adjacency) :
    of (result.addTurned adjacency) key = Text.unique
      (of result key ++ Table.keys (adjacency.filter fun entry => entry.2.contains key)) := by
  induction adjacency generalizing result with
  | nil => simp [addTurned, Table.keys, Text.unique_of_nodup distinct]
  | cons entry rest ih =>
    have related := of_foldl_relate distinct entry.1 entry.2
    rw [addTurned, List.foldl_cons]
    refine (ih (related ▸ Text.unique_nodup _)).trans ?_
    rw [related, Text.unique_unique_append, List.append_assoc]
    by_cases here : key ∈ entry.2 <;> simp [here, Table.keys]

end Adjacency

namespace Definitions

variable {table : Definitions} {dependents dependencies : Adjacency}

/-- The dependencies of a table list its definitions in order, each with what its schema depends
on. -/
theorem dependencies_eq_ok :
    table.dependencies = .ok dependencies ↔ List.Forall₂ (fun entry found =>
      found.1 = entry.1 ∧ entry.2.dependencies = .ok found.2) table dependencies := by
  induction table generalizing dependencies with
  | nil =>
    rw [List.forall₂_nil_left_iff]
    exact ⟨fun known => (Except.ok.inj known).symm, fun none => congrArg _ none.symm⟩
  | cons entry rest ih =>
    obtain ⟨id, schema⟩ := entry
    rw [List.forall₂_cons_left_iff, Definitions.dependencies]
    constructor
    · intro known
      obtain ⟨here, isHere, known⟩ := except_bind_eq_ok.mp known
      obtain ⟨later, isLater, known⟩ := except_bind_eq_ok.mp known
      exact ⟨(id, here), later, ⟨rfl, isHere⟩, ih.mp isLater, (Except.ok.inj known).symm⟩
    · rintro ⟨⟨_, here⟩, later, ⟨rfl, isHere⟩, isLater, rfl⟩
      exact except_bind_eq_ok.mpr ⟨here, isHere, except_bind_eq_ok.mpr ⟨later, ih.mpr isLater, rfl⟩⟩

theorem keys_dependencies (known : table.dependencies = .ok dependencies) :
    Table.keys dependencies = Table.keys table := by
  have each := dependencies_eq_ok.mp known
  clear known
  induction each with
  | nil => rfl
  | cons here _ ih => simpa [Table.keys, here.1] using ih

/-- The dependents come from the dependencies alone. -/
theorem addDependents_eq_addTurned {result : Adjacency}
    (known : table.dependencies = .ok dependencies) :
    addDependents result table = .ok (result.addTurned dependencies) := by
  have each := dependencies_eq_ok.mp known
  clear known
  induction each generalizing result with
  | nil => rfl
  | cons here _ ih =>
    rw [addDependents, here.2]
    simpa [Adjacency.addTurned, here.1] using ih

/-- Dependents cannot be told from the first definition on whose own dependencies cannot be told. -/
theorem addDependents_eq_error {result : Adjacency} {failure : Failure} :
    addDependents result table = .error failure ↔
      ∃ before id schema after cause, table = before ++ (id, schema) :: after ∧
        (∀ entry ∈ before, ∃ targets, entry.2.dependencies = .ok targets) ∧
        schema.dependencies = .error cause ∧ failure = .unknownDependents id cause := by
  induction table generalizing result with
  | nil =>
    refine iff_of_false ?_ ?_
    · intro failed
      cases failed
    · rintro ⟨before, id, schema, after, _, isTable, _⟩
      simp at isTable
  | cons entry rest ih =>
    obtain ⟨first, own⟩ := entry
    rw [addDependents]
    cases known : own.dependencies with
    | error cause =>
      constructor
      · intro failed
        cases failed
        exact ⟨[], first, own, rest, cause, rfl, List.forall_mem_nil _, known, rfl⟩
      · rintro ⟨before, id, schema, after, cause', isTable, sound, faulty, rfl⟩
        cases before with
        | nil =>
          cases isTable
          rw [known] at faulty
          cases faulty
          rfl
        | cons entry before =>
          cases isTable
          obtain ⟨targets, isTargets⟩ := sound _ List.mem_cons_self
          rw [known] at isTargets
          cases isTargets
    | ok targets =>
      refine Iff.trans ih ?_
      constructor
      · rintro ⟨before, id, schema, after, cause, rfl, sound, faulty, isFailure⟩
        exact ⟨(first, own) :: before, id, schema, after, cause, rfl,
          List.forall_mem_cons.mpr ⟨⟨targets, known⟩, sound⟩, faulty, isFailure⟩
      · rintro ⟨before, id, schema, after, cause, isTable, sound, faulty, isFailure⟩
        cases before with
        | nil =>
          cases isTable
          rw [known] at faulty
          cases faulty
        | cons entry before =>
          cases isTable
          exact ⟨before, id, schema, after, cause, rfl,
            (List.forall_mem_cons.mp sound).2, faulty, isFailure⟩

theorem exists_dependencies
    (each : ∀ entry ∈ table, ∃ targets, entry.2.dependencies = .ok targets) :
    ∃ dependencies, table.dependencies = .ok dependencies := by
  induction table with
  | nil => exact ⟨[], rfl⟩
  | cons entry rest ih =>
    obtain ⟨⟨targets, isTargets⟩, others⟩ := List.forall_mem_cons.mp each
    obtain ⟨later, isLater⟩ := ih others
    exact ⟨(entry.1, targets) :: later, dependencies_eq_ok.mpr
      (.cons ⟨rfl, isTargets⟩ (dependencies_eq_ok.mp isLater))⟩

/-- Dependents are the dependencies turned around. They are known exactly if the dependencies are.
They name the ids that some definition depends on, defined or not, in the order in which these first
occur among the dependencies; and they list a definition under an id exactly if it depends on the
id, in the order of the table and never twice. Otherwise the failure is about the first definition
whose own dependencies fail, and arose from that. -/
theorem dependents_transpose_dependencies (table : Definitions) :
    ((∃ dependents, table.dependents = .ok dependents) ↔
      ∃ dependencies, table.dependencies = .ok dependencies) ∧
    (∀ dependents dependencies, table.dependents = .ok dependents →
      table.dependencies = .ok dependencies →
      Table.keys dependents = Text.unique (dependencies.flatMap Prod.snd) ∧
      ∀ target, (dependents.of target).Nodup ∧
        (dependents.of target).Sublist (Table.keys table) ∧
        ∀ id, id ∈ dependents.of target ↔
          ∃ targets, (id, targets) ∈ dependencies ∧ target ∈ targets) ∧
    ∀ failure, table.dependents = .error failure ↔
      ∃ before id schema after cause, table = before ++ (id, schema) :: after ∧
        (∀ entry ∈ before, ∃ targets, entry.2.dependencies = .ok targets) ∧
        schema.dependencies = .error cause ∧ failure = .unknownDependents id cause ∧
        failure.kind = .dependencyAnalysis ∧ failure.cause? = some cause := by
  refine ⟨⟨?_, ?_⟩, ?_, ?_⟩
  · rintro ⟨dependents, computed⟩
    exact exists_dependencies fun entry member => dependencies_of_addDependents computed member
  · rintro ⟨dependencies, known⟩
    exact ⟨_, addDependents_eq_addTurned known⟩
  · intro dependents dependencies computed known
    obtain rfl : Adjacency.addTurned [] dependencies = dependents :=
      Except.ok.inj ((addDependents_eq_addTurned known).symm.trans computed)
    have noKeys : (Table.keys ([] : Adjacency)).Nodup := List.nodup_nil
    refine ⟨Adjacency.keys_addTurned noKeys dependencies, fun target => ?_⟩
    have noneListed : (Adjacency.of [] target).Nodup := List.nodup_nil
    rw [Adjacency.of_addTurned noneListed dependencies]
    refine ⟨Text.unique_nodup _, ?_, fun id => ?_⟩
    · rw [← keys_dependencies known]
      exact (Text.unique_sublist _).trans (List.filter_sublist.map Prod.fst)
    · simp [Adjacency.of, Table.get?, Table.keys]
  · intro failure
    refine addDependents_eq_error.trans ?_
    constructor
    · rintro ⟨before, id, schema, after, cause, isTable, sound, faulty, rfl⟩
      exact ⟨before, id, schema, after, cause, isTable, sound, faulty, rfl, rfl, rfl⟩
    · rintro ⟨before, id, schema, after, cause, isTable, sound, faulty, isFailure, _⟩
      exact ⟨before, id, schema, after, cause, isTable, sound, faulty, isFailure⟩

theorem dependents_transpose_dependencies_entwined :
    ∃ dependents, entwined.dependents = .ok dependents ∧
      Table.keys dependents = ["B", "X", "C", "D"] ∧ (dependents.of "B").Nodup ∧
      (dependents.of "B").Sublist ["A", "B", "C", "D"] ∧ "C" ∈ dependents.of "B" := by
  have known : entwined.dependencies =
      .ok [("A", ["B", "X"]), ("B", ["C"]), ("C", ["B", "D"]), ("D", [])] :=
    eq_ok_of_toOption (by decide +kernel)
  obtain ⟨agree, turned, _⟩ := dependents_transpose_dependencies entwined
  obtain ⟨dependents, computed⟩ := agree.mpr ⟨_, known⟩
  obtain ⟨named, listed⟩ := turned dependents _ computed known
  obtain ⟨distinct, ordered, members⟩ := listed "B"
  exact ⟨dependents, computed, named, distinct, ordered,
    (members "C").mpr ⟨["B", "D"], by simp, by simp⟩⟩

end Definitions

end SchemaPress
