/-!
Sums over lists, as measures of the work that is left.
-/

namespace SchemaPress

/-- The sum of what the members of a list cost. -/
def totalCost {α : Type} (cost : α → Nat) : List α → Nat
  | [] => 0
  | x :: rest => cost x + totalCost cost rest

end SchemaPress
