import SchemaPress.Dependency.Cycle

/-!
An order of definitions in which a definition stands before everything that depends on it, except
across cycles. A depth-first search over the dependents puts a definition in front once all of its
dependents have been visited.
-/

namespace SchemaPress

/-- A place in the order: an id, and whether its definition lies on a cycle. -/
structure OrderEntry where
  id : String
  circular : Bool
  deriving DecidableEq, Repr

/-- An order under construction: the ids that have been visited, those of them that were come
across again, and the finished ones in order. -/
structure Sorting where
  visited : List String := []
  revisited : List String := []
  sorted : List OrderEntry := []

namespace Sorting

/-- Notes that an id was come across again. -/
def revisit (id : String) (sorting : Sorting) : Sorting :=
  { sorting with revisited := id :: sorting.revisited }

/-- Notes that an id has been visited. -/
def enter (id : String) (sorting : Sorting) : Sorting :=
  { sorting with visited := id :: sorting.visited }

/-- Puts an id in front of the finished ones. It is circular if it is known to lie on a cycle or
was come across again. -/
def finish (cyclic : List String) (id : String) (sorting : Sorting) : Sorting :=
  let circular := sorting.revisited.contains id || cyclic.contains id
  { sorting with sorted := ⟨id, circular⟩ :: sorting.sorted }

/-- Twice the number of dependents of the ids that have not been visited. -/
def owed (dependents : Adjacency) (visited : List String) : Nat :=
  totalCost (fun entry => 2 * entry.2.length)
    (dependents.filter fun entry => !visited.contains entry.1)

/-- What the open ids, with the dependents that are left of each, will cost. -/
def pending (frames : List (String × List String)) : Nat :=
  totalCost (fun frame => 1 + 2 * frame.2.length) frames

/-- The more ids have been visited, the less is owed. -/
theorem owed_anti (dependents : Adjacency) {earlier later : List String}
    (kept : earlier ⊆ later) : owed dependents later ≤ owed dependents earlier := by
  induction dependents with
  | nil => simp [owed, totalCost]
  | cons entry rest ih =>
    by_cases before : entry.1 ∈ earlier
    · have after := kept before
      simpa [owed, before, after] using ih
    · by_cases after : entry.1 ∈ later <;>
        simp [owed, totalCost, before, after] at ih ⊢ <;> omega

/-- Visiting an id takes its dependents off what is owed. -/
theorem owed_enter (dependents : Adjacency) (visited : List String) (id : String)
    (fresh : id ∉ visited) :
    owed dependents (id :: visited) + 2 * (dependents.of id).length ≤ owed dependents visited := by
  induction dependents with
  | nil => simp [owed, totalCost, Adjacency.of, Table.get?]
  | cons entry rest ih =>
    by_cases same : entry.1 = id
    · have below := owed_anti rest (List.subset_cons_self id visited)
      simp only [owed] at below
      simp [owed, totalCost, Adjacency.of, Table.get?, same, fresh]
      simp at below
      omega
    · have later : Adjacency.of (entry :: rest) id = Adjacency.of rest id := by
        simp [Adjacency.of, Table.get?, same]
      rw [later]
      by_cases seen : entry.1 ∈ visited
      · simp_all [owed]
      · simp_all [owed, totalCost]
        omega

/-- Works off the open ids, innermost first. -/
def run (dependents : Adjacency) (cyclic : List String) (sorting : Sorting) :
    List (String × List String) → Sorting
  | [] => sorting
  | (id, []) :: frames => run dependents cyclic (sorting.finish cyclic id) frames
  | (id, next :: rest) :: frames =>
    if next ∈ sorting.visited then
      run dependents cyclic (sorting.revisit next) ((id, rest) :: frames)
    else
      run dependents cyclic (sorting.enter next)
        ((next, dependents.of next) :: (id, rest) :: frames)
termination_by frames => owed dependents sorting.visited + pending frames
decreasing_by
  · simp [finish, pending, totalCost]
  · simp [revisit, pending, totalCost]
  · rename_i fresh
    have below := owed_enter dependents sorting.visited next fresh
    simp [enter, pending, totalCost]
    omega

/-- Visits an id: everything that depends on it is finished first, unless it was visited
before. -/
def visit (dependents : Adjacency) (cyclic : List String) (sorting : Sorting) (id : String) :
    Sorting :=
  if id ∈ sorting.visited then sorting.revisit id
  else run dependents cyclic (sorting.enter id) [(id, dependents.of id)]

end Sorting

/-- The definitions of a table in order, given their dependents. -/
def Adjacency.order (dependents : Adjacency) (ids : List String) : List OrderEntry :=
  (ids.foldl (Sorting.visit dependents dependents.cyclicIds) {}).sorted

/-- The definitions of a table in order. -/
def Definitions.order (table : Definitions) : Except Failure (List OrderEntry) := do
  let dependents ← table.dependents
  return dependents.order (Table.keys table)

end SchemaPress
