import SchemaPress.Dependency.Order

/-! Visiting by recursion. The search for an order keeps its open ids, with the dependents that are
left of each, on a stack of its own. It does what a plain recursion does: an id that was visited
before is noted, and any other is put in front once each of its dependents has been visited in the
same way. The stack stands for the recursive calls that are still to return, so a stack is worked
off by letting the innermost call return and going on with the others. -/

namespace SchemaPress.Sorting

mutual

/-- Visits an id by recursion. It never takes back that an id has been visited. -/
def descend (dependents : Adjacency) (cyclic : List String) (sorting : Sorting) (id : String) :
    { after : Sorting // sorting.visited ⊆ after.visited } :=
  if _ : id ∈ sorting.visited then ⟨sorting.revisit id, List.Subset.refl _⟩
  else
    let inner := descendEach dependents cyclic (sorting.enter id) (dependents.of id)
    ⟨inner.1.finish cyclic id, fun _ seen => inner.2 (List.mem_cons_of_mem id seen)⟩
termination_by owed dependents sorting.visited + 1
decreasing_by
  rename_i new
  have below := owed_enter dependents sorting.visited id new
  simp only [enter]
  omega

/-- Visits ids one after the other by recursion. -/
def descendEach (dependents : Adjacency) (cyclic : List String) (sorting : Sorting) :
    (ids : List String) → { after : Sorting // sorting.visited ⊆ after.visited }
  | [] => ⟨sorting, List.Subset.refl _⟩
  | id :: rest =>
    let first := descend dependents cyclic sorting id
    let last := descendEach dependents cyclic first.1 rest
    ⟨last.1, List.Subset.trans first.2 last.2⟩
termination_by ids => owed dependents sorting.visited + 2 * ids.length
decreasing_by
  · simp only [List.length_cons]
    omega
  · have below := owed_anti dependents first.2
    simp only [first, List.length_cons] at below ⊢
    omega

end

/-- The sorting after an id has been visited by recursion. -/
def recurse (dependents : Adjacency) (cyclic : List String) (sorting : Sorting) (id : String) :
    Sorting :=
  (descend dependents cyclic sorting id).1

variable (dependents : Adjacency) (cyclic : List String)

theorem descendEach_eq (sorting : Sorting) (ids : List String) :
    (descendEach dependents cyclic sorting ids).1 =
      ids.foldl (recurse dependents cyclic) sorting := by
  induction ids generalizing sorting with
  | nil => rw [descendEach, List.foldl_nil]
  | cons id rest ih => rw [descendEach, List.foldl_cons, recurse, ih]

theorem visited_foldl_recurse (sorting : Sorting) (ids : List String) :
    sorting.visited ⊆ (ids.foldl (recurse dependents cyclic) sorting).visited := by
  rw [← descendEach_eq]
  exact (descendEach dependents cyclic sorting ids).2

/-- The recursion in its own words. -/
theorem recurse_eq (sorting : Sorting) (id : String) :
    recurse dependents cyclic sorting id =
      if id ∈ sorting.visited then sorting.revisit id
      else ((dependents.of id).foldl (recurse dependents cyclic) (sorting.enter id)).finish
        cyclic id := by
  rw [recurse, descend]
  by_cases seen : id ∈ sorting.visited
  · simp only [seen, ↓reduceIte, ↓reduceDIte]
  · simp only [seen, ↓reduceIte, ↓reduceDIte, descendEach_eq]

/-- The innermost open id stands for a recursive call: what is left of its dependents is visited,
it is finished, and the ids around it go on. -/
theorem run_cons (sorting : Sorting) (id : String) (rest : List String)
    (frames : List (String × List String)) :
    run dependents cyclic sorting ((id, rest) :: frames) =
      run dependents cyclic ((rest.foldl (recurse dependents cyclic) sorting).finish cyclic id)
        frames := by
  cases rest with
  | nil => rw [run, List.foldl_nil]
  | cons next rest =>
    rw [run, List.foldl_cons, recurse_eq]
    by_cases seen : next ∈ sorting.visited
    · rw [if_pos seen, if_pos seen, run_cons (sorting.revisit next)]
    · rw [if_neg seen, if_neg seen]
      have below := owed_enter dependents sorting.visited next seen
      have kept := visited_foldl_recurse dependents cyclic (sorting.enter next) (dependents.of next)
      have less := owed_anti dependents kept
      -- The call for the next id returns first, then the rest of this one goes on.
      rw [run_cons (sorting.enter next), run_cons _ id rest]
termination_by owed dependents sorting.visited + 2 * rest.length
decreasing_by
  all_goals simp only [revisit, enter, finish, List.length_cons] at *; omega

/-- Visiting an id with a stack is visiting it by recursion. -/
theorem visit_eq_recurse (sorting : Sorting) (id : String) :
    visit dependents cyclic sorting id = recurse dependents cyclic sorting id := by
  rw [visit, recurse_eq]
  by_cases seen : id ∈ sorting.visited
  · rw [if_pos seen, if_pos seen]
  · rw [if_neg seen, if_neg seen, run_cons, run]

/-- The search with a stack is the recursion. Visiting an id by recursion notes it if it was visited
before; otherwise the id counts as visited, each of its dependents is visited in order, and then it
is put in front, flagged if by then it was come across again or is known to lie on a cycle. From any
sorting, any sequence of visits with a stack leaves the same ids visited, the same ids come across
again, and the same entries in the same order as the recursion. -/
theorem visits_follow_recursion (sorting : Sorting) (ids : List String) :
    (∀ before id, recurse dependents cyclic before id =
      if id ∈ before.visited then { before with revisited := id :: before.revisited }
      else
        let after := (dependents.of id).foldl (recurse dependents cyclic)
          { before with visited := id :: before.visited }
        { after with sorted := ⟨id, after.revisited.contains id || cyclic.contains id⟩ ::
            after.sorted }) ∧
    ids.foldl (visit dependents cyclic) sorting =
      ids.foldl (recurse dependents cyclic) sorting := by
  refine ⟨recurse_eq dependents cyclic, ?_⟩
  have same : visit dependents cyclic = recurse dependents cyclic := by
    funext before id
    exact visit_eq_recurse dependents cyclic before id
  rw [same]

end SchemaPress.Sorting
