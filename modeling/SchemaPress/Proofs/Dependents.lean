import Mathlib.Logic.Relation
import SchemaPress.Dependency.Direct

/-! Direct dependency as a relation between ids, independent of the tables that are computed from
it. The dependents of a definition are exactly the definitions that depend on it, so following
dependents is following dependencies backwards. -/

namespace SchemaPress

/-- The schema of a definition refers to an id, whether or not the id is defined. -/
def Definitions.DependsOn (table : Definitions) (id target : String) : Prop :=
  ∃ schema targets, (id, schema) ∈ table ∧ schema.dependencies = .ok targets ∧ target ∈ targets

/-- A chain of one or more dependencies leads from a definition to an id. -/
abbrev Definitions.Reaches (table : Definitions) : String → String → Prop :=
  Relation.TransGen table.DependsOn

/-- An adjacency relates one id to another. -/
def Adjacency.Edge (adjacency : Adjacency) (id other : String) : Prop :=
  other ∈ adjacency.of id

namespace Adjacency

variable {adjacency : Adjacency} {id other key member : String}

theorem of_cons_self (others : List String) : of ((id, others) :: adjacency) id = others := by
  simp [of, Table.get?]

theorem of_cons_ne (others : List String) (different : key ≠ id) :
    of ((key, others) :: adjacency) id = of adjacency id := by
  simp [of, Table.get?, different]

/-- Relating one more id adds one edge and no other. -/
theorem mem_of_relate (adjacency : Adjacency) (id other key member : String) :
    member ∈ of (relate id other adjacency) key ↔
      member ∈ of adjacency key ∨ key = id ∧ member = other := by
  induction adjacency with
  | nil =>
    by_cases same : id = key
    · subst same
      simp [relate, of, Table.get?]
    · simp [relate, of, Table.get?, same, Ne.symm same]
  | cons entry rest ih =>
    obtain ⟨first, others⟩ := entry
    by_cases found : first = id
    · subst found
      by_cases same : first = key
      · subst same
        simp only [relate, ↓reduceIte, of_cons_self, true_and]
        split
        · rename_i present
          constructor
          · exact Or.inl
          · rintro (old | rfl)
            · exact old
            · exact List.contains_iff_mem.mp present
        · simp
      · simp only [relate, ↓reduceIte, of_cons_ne _ same, Ne.symm same, false_and, or_false]
    · simp only [relate, found, ↓reduceIte]
      by_cases same : first = key
      · subst same
        simp only [of_cons_self, found, false_and, or_false]
      · simp only [of_cons_ne _ same, ih]

/-- Relating an id to each of some ids adds the edges from these. -/
theorem mem_of_foldl_relate (targets : List String) (adjacency : Adjacency)
    (id key member : String) :
    member ∈ of (targets.foldl (fun result target => result.relate target id) adjacency) key ↔
      member ∈ of adjacency key ∨ key ∈ targets ∧ member = id := by
  induction targets generalizing adjacency with
  | nil => simp
  | cons target rest ih =>
    rw [List.foldl_cons, ih, mem_of_relate, List.mem_cons]
    constructor
    · rintro ((old | ⟨rfl, rfl⟩) | ⟨later, rfl⟩)
      · exact .inl old
      · exact .inr ⟨.inl rfl, rfl⟩
      · exact .inr ⟨.inr later, rfl⟩
    · rintro (old | ⟨rfl | later, rfl⟩)
      · exact .inl (.inl old)
      · exact .inl (.inr ⟨rfl, rfl⟩)
      · exact .inr ⟨later, rfl⟩

end Adjacency

namespace Definitions

variable {table : Definitions} {dependents result : Adjacency} {id target : String}

/-- The definitions of a table are added to the dependents of what they refer to. -/
theorem mem_of_addDependents (computed : addDependents dependents table = .ok result) :
    id ∈ result.of target ↔ id ∈ dependents.of target ∨ table.DependsOn id target := by
  induction table generalizing dependents with
  | nil =>
    cases computed
    simp [DependsOn]
  | cons entry rest ih =>
    obtain ⟨first, schema⟩ := entry
    unfold addDependents at computed
    split at computed
    · cases computed
    · rename_i targets known
      rw [ih computed, Adjacency.mem_of_foldl_relate, or_assoc]
      refine or_congr Iff.rfl ⟨?_, ?_⟩
      · rintro (⟨member, rfl⟩ | ⟨other, others, member, found⟩)
        · exact ⟨schema, targets, List.mem_cons_self, known, member⟩
        · exact ⟨other, others, List.mem_cons_of_mem _ member, found⟩
      · rintro ⟨other, others, member, found, refers⟩
        rcases List.mem_cons.mp member with here | later
        · cases here
          rw [known] at found
          cases found
          exact .inl ⟨refers, rfl⟩
        · exact .inr ⟨other, others, later, found, refers⟩

/-- The dependents are only known if all dependencies are. -/
theorem dependencies_of_addDependents {schema : Schema}
    (computed : addDependents dependents table = .ok result) (member : (id, schema) ∈ table) :
    ∃ targets, schema.dependencies = .ok targets := by
  induction table generalizing dependents with
  | nil => cases member
  | cons entry rest ih =>
    unfold addDependents at computed
    split at computed
    · cases computed
    · rename_i targets known
      rcases List.mem_cons.mp member with rfl | member
      · exact ⟨targets, known⟩
      · exact ih computed member

/-- If all dependencies are known, so are the dependents. -/
theorem addDependents_ok (known : ∀ entry ∈ table, ∃ targets, entry.2.dependencies = .ok targets) :
    ∃ result, addDependents dependents table = .ok result := by
  induction table generalizing dependents with
  | nil => exact ⟨dependents, rfl⟩
  | cons entry rest ih =>
    obtain ⟨targets, isTargets⟩ := known entry List.mem_cons_self
    rw [addDependents, isTargets]
    exact ih fun entry later => known entry (List.mem_cons_of_mem _ later)

/-- Dependents are dependencies read backwards. -/
theorem mem_of_dependents (computed : table.dependents = .ok dependents) :
    id ∈ dependents.of target ↔ table.DependsOn id target := by
  have added : id ∈ dependents.of target ↔
      id ∈ Adjacency.of [] target ∨ table.DependsOn id target := mem_of_addDependents computed
  simpa [Adjacency.of, Table.get?] using added

/-- An edge of the dependents is a dependency in the other direction. -/
theorem edge_dependents (computed : table.dependents = .ok dependents) :
    dependents.Edge = Function.swap table.DependsOn := by
  funext target id
  exact propext (mem_of_dependents computed)

/-- A chain of dependents is a chain of dependencies in the other direction. -/
theorem transGen_edge_dependents (computed : table.dependents = .ok dependents) :
    Relation.TransGen dependents.Edge target id ↔ table.Reaches id target := by
  rw [edge_dependents computed]
  exact Relation.transGen_swap

/-- Only definitions of the table depend on anything. -/
theorem DependsOn.defined (depends : table.DependsOn id target) : id ∈ Table.keys table := by
  obtain ⟨schema, _, member, _⟩ := depends
  exact List.mem_map.mpr ⟨_, member, rfl⟩

end Definitions

end SchemaPress
