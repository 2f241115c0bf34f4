import SchemaPress.Schema.Basic

/-!
Following references through a table of definitions. A walk remembers the ids on its path; each
reference it follows leads to a definition that is not yet on the path, so it ends.
-/

namespace SchemaPress

/-- The number of entries whose id is not on a path. -/
def unvisited (table : Definitions) (path : List String) : Nat :=
  (table.filter fun entry => !path.contains entry.1).length

private theorem length_filter_le_of_imp {α : Type} (p q : α → Bool) (xs : List α)
    (weaker : ∀ x ∈ xs, p x = true → q x = true) :
    (xs.filter p).length ≤ (xs.filter q).length := by
  induction xs with
  | nil => simp
  | cons x rest ih =>
    have later := ih fun y member => weaker y (List.mem_cons_of_mem x member)
    have here := weaker x List.mem_cons_self
    by_cases kept : p x = true
    · simpa [List.filter_cons, kept, here kept] using later
    · simp only [List.filter_cons, kept, Bool.false_eq_true, ↓reduceIte]
      split
      · exact Nat.le_succ_of_le later
      · exact later

/-- A path that takes up a definition of the table leaves fewer definitions. -/
theorem unvisited_lt (table : Definitions) (path : List String) (id : String) (schema : Schema)
    (fresh : id ∉ path) (found : Table.get? table id = some schema) :
    unvisited table (id :: path) < unvisited table path := by
  unfold unvisited
  induction table with
  | nil => simp [Table.get?] at found
  | cons entry rest ih =>
    have kept : ∀ other : Definitions,
        (other.filter fun entry => !(id :: path).contains entry.1).length ≤
          (other.filter fun entry => !path.contains entry.1).length := by
      intro other
      apply length_filter_le_of_imp
      intro x _ outside
      simp only [List.contains_cons, Bool.not_or, Bool.and_eq_true] at outside
      exact outside.2
    by_cases same : entry.1 = id
    · have first : (!(id :: path).contains entry.1) = false := by simp [same]
      have second : (!path.contains entry.1) = true := by simp [same, fresh]
      rw [List.filter_cons, List.filter_cons, first, second]
      simpa using Nat.lt_succ_of_le (kept rest)
    · have later : Table.get? rest id = some schema := by
        simpa [Table.get?, same] using found
      have below := ih later
      have agree : (!(id :: path).contains entry.1) = !path.contains entry.1 := by
        simp [same]
      rw [List.filter_cons, List.filter_cons, agree]
      split
      · simpa using below
      · exact below

end SchemaPress
