import SchemaPress.Dependency.Cost
import SchemaPress.Dependency.Direct

/-!
Cycles of an adjacency. A depth-first search keeps the ids of unfinished components on a trail and
learns for each open id the lowest trail position that it can get back to; an id that can get no
lower than its own position closes a component. The ids on cycles are those of components with two
or more members, and those related to themselves.
-/

namespace SchemaPress.Cycle

/-- An id whose relatives are being looked at: its position on the trail, the lowest position it
is known to get back to, and the relatives that are left. -/
structure Frame where
  id : String
  index : Nat
  low : Nat
  rest : List String

/-- A search: the ids not reached yet, the trail with its last id first, the open ids with the
innermost first, and the ids found to be on cycles. -/
structure Search where
  fresh : List String
  trail : List String
  frames : List Frame
  cyclic : List String

/-- The position of an id on a trail. -/
def position? (id : String) : List String → Option Nat
  | [] => none
  | other :: rest => if other = id then some rest.length else position? id rest

/-- The trail down to an id, and the trail under it. -/
def cutAt (id : String) : List String → List String × List String
  | [] => ([], [])
  | other :: rest =>
    if other = id then ([other], rest)
    else
      let (above, under) := cutAt id rest
      (other :: above, under)

/-- The innermost open id learns a position. -/
def lower (low : Nat) : List Frame → List Frame
  | [] => []
  | frame :: rest => { frame with low := min frame.low low } :: rest

namespace Search

/-- The ids of an adjacency: its keys, then what they are related to. -/
def nodes (adjacency : Adjacency) : List String :=
  Text.unique (Table.keys adjacency ++ (Table.values adjacency).flatten)

/-- Before the search. -/
def start (adjacency : Adjacency) : Search where
  fresh := nodes adjacency
  trail := []
  frames := []
  cyclic := []

/-- Opens an id that has not been reached. -/
def enter (adjacency : Adjacency) (id : String) (search : Search) : Search :=
  let index := search.trail.length
  { search with
    fresh := search.fresh.erase id
    trail := id :: search.trail
    frames := ⟨id, index, index, adjacency.of id⟩ :: search.frames }

/-- Closes an id all of whose relatives have been looked at, and its component with it if the id
is the lowest it can get back to. -/
def leave (adjacency : Adjacency) (frame : Frame) (rest : List Frame) (search : Search) : Search :=
  let frames := lower frame.low rest
  if frame.low = frame.index then
    let (component, trail) := cutAt frame.id search.trail
    let onCycle := 1 < component.length || (adjacency.of frame.id).contains frame.id
    { search with
      frames, trail, cyclic := if onCycle then search.cyclic ++ component else search.cyclic }
  else { search with frames }

/-- One step of the search; none when it is over. -/
def step? (adjacency : Adjacency) (search : Search) : Option Search :=
  match search.frames with
  | [] =>
    match search.fresh with
    | [] => none
    | id :: _ => some (search.enter adjacency id)
  | frame :: frames =>
    match frame.rest with
    | [] => some (search.leave adjacency frame frames)
    | next :: rest =>
      let search := { search with frames := { frame with rest } :: frames }
      if search.fresh.contains next then some (search.enter adjacency next)
      else match position? next search.trail with
        | none => some search
        | some low => some { search with frames := lower low search.frames }

/-- What an id that is not reached yet will cost. -/
def cost (adjacency : Adjacency) (id : String) : Nat :=
  2 + (adjacency.of id).length

/-- What the open ids will cost. -/
def pending (frames : List Frame) : Nat :=
  totalCost (fun frame => 1 + frame.rest.length) frames

/-- An upper bound on the number of steps left. -/
def measure (adjacency : Adjacency) (search : Search) : Nat :=
  totalCost (cost adjacency) search.fresh + pending search.frames

private theorem pending_cons (frame : Frame) (frames : List Frame) :
    pending (frame :: frames) = 1 + frame.rest.length + pending frames := by
  rfl

private theorem pending_lower (low : Nat) (frames : List Frame) :
    pending (lower low frames) = pending frames := by
  cases frames <;> rfl

private theorem sum_cost_erase (adjacency : Adjacency) (id : String) (fresh : List String)
    (member : id ∈ fresh) :
    totalCost (cost adjacency) fresh =
      cost adjacency id + totalCost (cost adjacency) (fresh.erase id) := by
  induction fresh with
  | nil => simp at member
  | cons other rest ih =>
    by_cases same : other = id
    · simp [same, totalCost]
    · have later : id ∈ rest := by
        rcases List.mem_cons.mp member with equal | later
        · exact absurd equal.symm same
        · exact later
      have erased : (other :: rest).erase id = other :: rest.erase id := by
        simp [same]
      simp only [erased, totalCost, ih later]
      omega

private theorem measure_enter (adjacency : Adjacency) (id : String) (search : Search)
    (member : id ∈ search.fresh) :
    (search.enter adjacency id).measure adjacency + 1 = search.measure adjacency := by
  have split := sum_cost_erase adjacency id search.fresh member
  simp only [measure, enter, pending_cons, split, cost]
  omega

/-- Every step lowers the measure. -/
theorem measure_step (adjacency : Adjacency) (search next : Search)
    (stepped : search.step? adjacency = some next) :
    next.measure adjacency < search.measure adjacency := by
  unfold step? at stepped
  split at stepped
  · split at stepped
    · simp at stepped
    · rename_i id others isFresh
      cases stepped
      have member : id ∈ search.fresh := by simp [isFresh]
      have entered := measure_enter adjacency id search member
      omega
  · rename_i frame frames isFrames
    split at stepped
    · rename_i isRest
      cases stepped
      have before : search.measure adjacency =
          totalCost (cost adjacency) search.fresh + (1 + pending frames) := by
        simp [measure, isFrames, pending_cons, isRest]
      have after : (search.leave adjacency frame frames).measure adjacency =
          totalCost (cost adjacency) search.fresh + pending frames := by
        unfold leave
        split <;> simp [measure, pending_lower]
      omega
    · rename_i target rest isRest
      have before : search.measure adjacency =
          ({ search with frames := { frame with rest } :: frames } : Search).measure adjacency + 1 := by
        simp only [measure, isFrames, pending_cons, isRest, List.length_cons]
        omega
      simp only at stepped
      split at stepped
      · rename_i isFresh
        cases stepped
        have entered := measure_enter adjacency target
          { search with frames := { frame with rest } :: frames } (by simpa using isFresh)
        omega
      · split at stepped
        · cases stepped
          omega
        · cases stepped
          simp only [measure, pending_lower] at before ⊢
          omega

/-- The search run to its end. -/
def run (adjacency : Adjacency) (search : Search) : Search :=
  match _ : search.step? adjacency with
  | none => search
  | some next => run adjacency next
termination_by search.measure adjacency
decreasing_by apply measure_step; assumption

end Search

end SchemaPress.Cycle

namespace SchemaPress.Adjacency

/-- The ids that lie on a cycle of an adjacency. -/
def cyclicIds (adjacency : Adjacency) : List String :=
  ((Cycle.Search.start adjacency).run adjacency).cyclic

end SchemaPress.Adjacency
