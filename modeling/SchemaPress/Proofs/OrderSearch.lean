import SchemaPress.Dependency.Order
import SchemaPress.Proofs.CycleSearch
import SchemaPress.Proofs.Results

/-! The order of definitions, followed from moment to moment. The open ids form a chain of
dependents, so an id that is come across while it is open lies on a cycle, and an id is finished
after all of its dependents unless one of them leads back to it. -/

namespace SchemaPress

open Relation

namespace Sorting

/-- The finished ids in order. -/
def ids (sorting : Sorting) : List String :=
  sorting.sorted.map OrderEntry.id

/-- A moment of the search: the order under construction, the open ids with the dependents that are
left of each, innermost first, and the ids still to be visited. -/
structure Moment where
  sorting : Sorting
  frames : List (String × List String)
  waiting : List String

/-- One step of the search. -/
inductive Step (dependents : Adjacency) (cyclic : List String) : Moment → Moment → Prop where
  | skip {sorting id waiting} (seen : id ∈ sorting.visited) :
      Step dependents cyclic ⟨sorting, [], id :: waiting⟩ ⟨sorting.revisit id, [], waiting⟩
  | begin {sorting id waiting} (new : id ∉ sorting.visited) :
      Step dependents cyclic ⟨sorting, [], id :: waiting⟩
        ⟨sorting.enter id, [(id, dependents.of id)], waiting⟩
  | finish {sorting id frames waiting} :
      Step dependents cyclic ⟨sorting, (id, []) :: frames, waiting⟩
        ⟨sorting.finish cyclic id, frames, waiting⟩
  | revisit {sorting id next rest frames waiting} (seen : next ∈ sorting.visited) :
      Step dependents cyclic ⟨sorting, (id, next :: rest) :: frames, waiting⟩
        ⟨sorting.revisit next, (id, rest) :: frames, waiting⟩
  | enter {sorting id next rest frames waiting} (new : next ∉ sorting.visited) :
      Step dependents cyclic ⟨sorting, (id, next :: rest) :: frames, waiting⟩
        ⟨sorting.enter next, (next, dependents.of next) :: (id, rest) :: frames, waiting⟩

/-- Any number of steps lead from one moment to another. -/
abbrev Leads (dependents : Adjacency) (cyclic : List String) : Moment → Moment → Prop :=
  ReflTransGen (Step dependents cyclic)

variable {dependents : Adjacency} {cyclic : List String} {moment next other : Moment}

theorem Step.unique (first : Step dependents cyclic moment next)
    (second : Step dependents cyclic moment other) : next = other := by
  cases first <;> cases second <;> first | rfl | contradiction

/-- Working off the open ids is a sequence of steps. -/
theorem leads_run (sorting : Sorting) (frames : List (String × List String))
    (waiting : List String) :
    Leads dependents cyclic ⟨sorting, frames, waiting⟩
      ⟨run dependents cyclic sorting frames, [], waiting⟩ := by
  fun_induction run dependents cyclic sorting frames with
  | case1 sorting => exact .refl
  | case2 sorting id frames ih => exact .head .finish ih
  | case3 sorting id next rest frames seen ih => exact .head (.revisit seen) ih
  | case4 sorting id next rest frames new ih => exact .head (.enter new) ih

/-- Visiting ids one after the other is a sequence of steps. -/
theorem leads_visits (sorting : Sorting) (waiting : List String) :
    Leads dependents cyclic ⟨sorting, [], waiting⟩
      ⟨waiting.foldl (visit dependents cyclic) sorting, [], []⟩ := by
  induction waiting generalizing sorting with
  | nil => exact .refl
  | cons id waiting ih =>
    refine ReflTransGen.trans ?_ (ih (visit dependents cyclic sorting id))
    unfold visit
    split
    · rename_i seen
      exact .single (.skip seen)
    · rename_i new
      exact .head (.begin new) (leads_run _ _ _)

/-- What holds at every moment. The visited ids are the open and the finished ones; the open ones
lead to each other from the outside in; a finished id stands before its dependents, except for
those that lead back to it; and an id is come across again only if it is finished or lies on a
cycle. -/
structure Searched (dependents : Adjacency) (cyclic : List String) (sorting : Sorting)
    (frames : List (String × List String)) : Prop where
  visited : ∀ id, id ∈ sorting.visited ↔ id ∈ frames.map Prod.fst ∨ id ∈ sorting.ids
  distinct : (frames.map Prod.fst ++ sorting.ids).Nodup
  chain : frames.Pairwise fun inner outer => TransGen dependents.Edge outer.1 inner.1
  left : ∀ frame ∈ frames, ∀ next ∈ frame.2, dependents.Edge frame.1 next
  looked : ∀ frame ∈ frames, ∀ next, dependents.Edge frame.1 next →
    next ∈ frame.2 ∨ next ∈ sorting.visited
  settled : ∀ id ∈ sorting.ids, ∀ next, dependents.Edge id next →
    [id, next].Sublist sorting.ids ∨ TransGen dependents.Edge next id
  again : ∀ id ∈ sorting.revisited, id ∈ sorting.ids ∨ dependents.OnCycle id
  flagged : ∀ entry ∈ sorting.sorted, entry.circular = true →
    entry.id ∈ cyclic ∨ dependents.OnCycle entry.id
  kept : ∀ entry ∈ sorting.sorted, entry.id ∈ cyclic → entry.circular = true

namespace Searched

variable {sorting : Sorting} {id neighbour : String} {rest : List String}
  {frames : List (String × List String)}

/-- Before the first visit there is nothing to hold. -/
theorem start : Searched dependents cyclic {} [] := by
  constructor <;> simp [ids]

/-- An open neighbour of the innermost open id leads to it. -/
theorem open_leads (searched : Searched dependents cyclic sorting ((id, rest) :: frames))
    (edge : dependents.Edge id neighbour)
    (isOpen : neighbour ∈ ((id, rest) :: frames).map Prod.fst) :
    TransGen dependents.Edge neighbour id := by
  rcases List.mem_cons.mp isOpen with rfl | outer
  · exact .single edge
  · obtain ⟨frame, member, rfl⟩ := List.mem_map.mp outer
    exact (List.pairwise_cons.mp searched.chain).1 frame member

/-- Coming across an id again is noted, if the id is finished or lies on a cycle. -/
theorem revisit (searched : Searched dependents cyclic sorting frames)
    (settled : id ∈ sorting.ids ∨ dependents.OnCycle id) :
    Searched dependents cyclic (sorting.revisit id) frames where
  visited := searched.visited
  distinct := searched.distinct
  chain := searched.chain
  left := searched.left
  looked := searched.looked
  settled := searched.settled
  again := by
    intro other member
    rcases List.mem_cons.mp member with rfl | member
    · exact settled
    · exact searched.again other member
  flagged := searched.flagged
  kept := searched.kept

/-- Opening an id that all open ids lead to. -/
theorem enter (searched : Searched dependents cyclic sorting frames)
    (new : id ∉ sorting.visited)
    (reached : ∀ frame ∈ frames, TransGen dependents.Edge frame.1 id) :
    Searched dependents cyclic (sorting.enter id) ((id, dependents.of id) :: frames) where
  visited := by
    intro other
    simp only [Sorting.enter, List.mem_cons, searched.visited other, List.map_cons, or_assoc]
    exact Iff.rfl
  distinct := by
    have outside : id ∉ frames.map Prod.fst ++ sorting.ids := by
      rw [List.mem_append, ← searched.visited id]
      exact new
    exact List.nodup_cons.mpr ⟨outside, searched.distinct⟩
  chain := List.pairwise_cons.mpr ⟨reached, searched.chain⟩
  left := by
    intro frame member next waiting
    rcases List.mem_cons.mp member with rfl | member
    · exact waiting
    · exact searched.left frame member next waiting
  looked := by
    intro frame member next edge
    rcases List.mem_cons.mp member with rfl | member
    · exact .inl edge
    · exact (searched.looked frame member next edge).imp_right (List.mem_cons_of_mem id)
  settled := searched.settled
  again := searched.again
  flagged := searched.flagged
  kept := searched.kept

/-- A neighbour that has been visited need not be looked at again. -/
theorem pass (inner : List (String × List String))
    (searched : Searched dependents cyclic sorting (inner ++ (id, neighbour :: rest) :: frames))
    (seen : neighbour ∈ sorting.visited) :
    Searched dependents cyclic sorting (inner ++ (id, rest) :: frames) where
  visited := by simpa using searched.visited
  distinct := by simpa using searched.distinct
  chain := by simpa [List.pairwise_append] using searched.chain
  left := by
    intro frame member next waiting
    rcases List.mem_append.mp member with inside | member
    · exact searched.left frame (List.mem_append_left _ inside) next waiting
    · rcases List.mem_cons.mp member with rfl | member
      · exact searched.left (id, neighbour :: rest) (by simp) next
          (List.mem_cons_of_mem neighbour waiting)
      · exact searched.left frame (by simp [member]) next waiting
  looked := by
    intro frame member next edge
    rcases List.mem_append.mp member with inside | member
    · exact searched.looked frame (List.mem_append_left _ inside) next edge
    · rcases List.mem_cons.mp member with rfl | member
      · rcases searched.looked (id, neighbour :: rest) (by simp) next edge with waiting | visited
        · rcases List.mem_cons.mp waiting with rfl | waiting
          · exact .inr seen
          · exact .inl waiting
        · exact .inr visited
      · exact searched.looked frame (by simp [member]) next edge
  settled := searched.settled
  again := searched.again
  flagged := searched.flagged
  kept := searched.kept

/-- Finishing an id all of whose dependents have been looked at. -/
theorem finish (searched : Searched dependents cyclic sorting ((id, []) :: frames)) :
    Searched dependents cyclic (sorting.finish cyclic id) frames := by
  have isIds : (sorting.finish cyclic id).ids = id :: sorting.ids := rfl
  have unfinished : id ∉ sorting.ids := by
    have distinct := searched.distinct
    rw [List.map_cons, List.cons_append, List.nodup_cons, List.mem_append, not_or] at distinct
    exact distinct.1.2
  refine ⟨?_, ?_, (List.pairwise_cons.mp searched.chain).2, ?_, ?_, ?_, ?_, ?_, ?_⟩
  · intro other
    have known := searched.visited other
    rw [isIds, List.mem_cons]
    rw [List.map_cons, List.mem_cons] at known
    exact known.trans (by grind)
  · rw [isIds]
    exact (List.perm_middle.nodup_iff).mpr searched.distinct
  · exact fun frame member => searched.left frame (List.mem_cons_of_mem _ member)
  · exact fun frame member => searched.looked frame (List.mem_cons_of_mem _ member)
  · intro other member next edge
    rw [isIds] at member ⊢
    rcases List.mem_cons.mp member with rfl | member
    · -- No dependent is left, so each is finished already or still open.
      have seen := (searched.looked _ List.mem_cons_self next edge).resolve_left (by simp)
      rcases (searched.visited next).mp seen with isOpen | finished
      · exact .inr (searched.open_leads edge isOpen)
      · exact .inl (.cons_cons _ (List.singleton_sublist.mpr finished))
    · exact (searched.settled other member next edge).imp_left (.cons _)
  · intro other member
    rw [isIds, List.mem_cons]
    exact (searched.again other member).imp_left .inr
  · intro entry member circular
    rcases List.mem_cons.mp member with rfl | member
    · simp only [Bool.or_eq_true, List.contains_iff_mem] at circular
      rcases circular with again | known
      · exact .inr ((searched.again id again).resolve_left unfinished)
      · exact .inl known
    · exact searched.flagged entry member circular
  · intro entry member known
    rcases List.mem_cons.mp member with rfl | member
    · simp only [Bool.or_eq_true, List.contains_iff_mem]
      exact .inr known
    · exact searched.kept entry member known

/-- Every step keeps what holds. -/
theorem step (searched : Searched dependents cyclic moment.sorting moment.frames)
    (stepped : Step dependents cyclic moment next) :
    Searched dependents cyclic next.sorting next.frames := by
  cases stepped with
  | skip seen =>
    have finished := ((searched.visited _).mp seen).resolve_left (by simp)
    exact searched.revisit (.inl finished)
  | begin new => exact searched.enter new (by simp)
  | finish => exact searched.finish
  | @revisit sorting id neighbour rest frames waiting seen =>
    have edge : dependents.Edge id neighbour :=
      searched.left _ List.mem_cons_self neighbour List.mem_cons_self
    refine (pass [] searched seen).revisit ?_
    rcases (searched.visited neighbour).mp seen with isOpen | finished
    · exact .inr ((searched.open_leads edge isOpen).tail edge)
    · exact .inl finished
  | @enter sorting id neighbour rest frames waiting new =>
    have edge : dependents.Edge id neighbour :=
      searched.left _ List.mem_cons_self neighbour List.mem_cons_self
    refine pass [(neighbour, dependents.of neighbour)] (searched.enter new ?_) List.mem_cons_self
    intro frame member
    rcases List.mem_cons.mp member with rfl | outer
    · exact .single edge
    · exact ((List.pairwise_cons.mp searched.chain).1 frame outer).tail edge

/-- It holds at every moment that a search leads to. -/
theorem leads (searched : Searched dependents cyclic moment.sorting moment.frames)
    (run : Leads dependents cyclic moment next) :
    Searched dependents cyclic next.sorting next.frames := by
  induction run with
  | refl => exact searched
  | tail _ stepped ih => exact ih.step stepped

end Searched

/-- The ids that a search is about: each has been visited or is waiting, and no other ever is. -/
structure Listed (ids : List String) (moment : Moment) : Prop where
  all : ∀ id ∈ ids, id ∈ moment.sorting.visited ∨ id ∈ moment.waiting
  visited : ∀ id ∈ moment.sorting.visited, id ∈ ids
  waiting : ∀ id ∈ moment.waiting, id ∈ ids

theorem Listed.step {ids : List String} (listed : Listed ids moment)
    (searched : Searched dependents cyclic moment.sorting moment.frames)
    (inside : ∀ id next, dependents.Edge id next → next ∈ ids)
    (stepped : Step dependents cyclic moment next) : Listed ids next := by
  obtain ⟨all, visited, waiting⟩ := listed
  cases stepped with
  | @skip sorting id others seen =>
    refine ⟨fun other member => ?_, visited, fun other member => waiting other (.tail id member)⟩
    rcases all other member with earlier | later
    · exact .inl earlier
    · rcases List.mem_cons.mp later with rfl | later
      · exact .inl seen
      · exact .inr later
  | @begin sorting id others new =>
    refine ⟨fun other member => ?_, fun other member => ?_,
      fun other member => waiting other (.tail id member)⟩
    · rcases all other member with earlier | later
      · exact .inl (.tail id earlier)
      · rcases List.mem_cons.mp later with rfl | later
        · exact .inl List.mem_cons_self
        · exact .inr later
    · rcases List.mem_cons.mp member with rfl | earlier
      · exact waiting other List.mem_cons_self
      · exact visited other earlier
  | finish => exact ⟨all, visited, waiting⟩
  | revisit seen => exact ⟨all, visited, waiting⟩
  | @enter sorting id neighbour rest frames others new =>
    have member : neighbour ∈ ids :=
      inside id neighbour (searched.left _ List.mem_cons_self neighbour List.mem_cons_self)
    refine ⟨?_, ?_, waiting⟩
    · exact fun other known => (all other known).imp_left (List.mem_cons_of_mem neighbour)
    · intro other entered
      rcases List.mem_cons.mp entered with rfl | earlier
      · exact member
      · exact visited other earlier

theorem Listed.leads {ids : List String} (listed : Listed ids moment)
    (searched : Searched dependents cyclic moment.sorting moment.frames)
    (inside : ∀ id next, dependents.Edge id next → next ∈ ids)
    (run : Leads dependents cyclic moment next) : Listed ids next := by
  induction run with
  | refl => exact listed
  | tail run stepped ih => exact ih.step (searched.leads run) inside stepped

/-- An entry that has been put into the order stays as it is. -/
theorem Step.sorted_suffix (stepped : Step dependents cyclic moment next) :
    moment.sorting.sorted <:+ next.sorting.sorted := by
  cases stepped with
  | finish => exact List.suffix_cons _ _
  | skip | begin | revisit | enter => exact List.suffix_refl _

theorem sorted_suffix_of_leads (run : Leads dependents cyclic moment next) :
    moment.sorting.sorted <:+ next.sorting.sorted := by
  induction run with
  | refl => exact List.suffix_refl _
  | tail _ stepped ih => exact ih.trans stepped.sorted_suffix

/-- A search leads from each of its moments to its end. -/
theorem leads_to_end {sorting : Sorting} (run : Leads dependents cyclic moment next)
    (ended : Leads dependents cyclic moment ⟨sorting, [], []⟩) :
    Leads dependents cyclic next ⟨sorting, [], []⟩ := by
  have unique : Relator.RightUnique (Step dependents cyclic) := fun _ _ _ first second =>
    first.unique second
  rcases ReflTransGen.total_of_right_unique unique run ended with onward | back
  · exact onward
  · rcases ReflTransGen.cases_head_iff.mp back with same | ⟨_, stepped, _⟩
    · rw [same]
    · cases stepped

end Sorting

/-- The sorting with which the order of some ids ends. -/
def Adjacency.sorted (dependents : Adjacency) (ids : List String) : Sorting :=
  ids.foldl (Sorting.visit dependents dependents.cyclicIds) {}

section Ended

variable {dependents : Adjacency} {ids : List String}

theorem Adjacency.leads_sorted (dependents : Adjacency) (ids : List String) :
    Sorting.Leads dependents dependents.cyclicIds ⟨{}, [], ids⟩ ⟨dependents.sorted ids, [], []⟩ :=
  Sorting.leads_visits {} ids

theorem Adjacency.sorted_searched (dependents : Adjacency) (ids : List String) :
    Sorting.Searched dependents dependents.cyclicIds (dependents.sorted ids) [] :=
  Sorting.Searched.start.leads (dependents.leads_sorted ids)

/-- The order lists the given ids, if nothing but these are dependents. -/
theorem Adjacency.mem_sorted_ids (inside : ∀ id next, dependents.Edge id next → next ∈ ids)
    (id : String) : id ∈ (dependents.sorted ids).ids ↔ id ∈ ids := by
  have begun : Sorting.Listed ids ⟨{}, [], ids⟩ :=
    ⟨fun _ member => .inr member, by simp, fun _ member => member⟩
  have listed := begun.leads .start inside (dependents.leads_sorted ids)
  have visited := (dependents.sorted_searched ids).visited id
  simp only [List.map_nil, List.not_mem_nil, false_or] at visited
  rw [← visited]
  exact ⟨listed.visited id, fun member => (listed.all id member).resolve_right (by simp)⟩

end Ended

/-- The one of two ids that stands before the other in a list has the lower index. -/
theorem idxOf_lt_of_sublist {first second : String} {ids : List String} (distinct : ids.Nodup)
    (before : [first, second].Sublist ids) : ids.idxOf first < ids.idxOf second := by
  induction ids with
  | nil => cases before
  | cons head rest ih =>
    obtain ⟨outside, distinct⟩ := List.nodup_cons.mp distinct
    cases before with
    | cons _ later =>
      have members := later.subset
      have firstNe : head ≠ first := fun same => outside (same ▸ members (by simp))
      have secondNe : head ≠ second := fun same => outside (same ▸ members (by simp))
      simpa [List.idxOf_cons, beq_false_of_ne firstNe, beq_false_of_ne secondNe] using
        ih distinct later
    | cons_cons _ later =>
      have member : second ∈ rest := List.singleton_sublist.mp later
      have different : first ≠ second := fun same => outside (same ▸ member)
      simp [List.idxOf_cons, beq_false_of_ne different]

namespace Definitions

variable {table : Definitions} {entries : List OrderEntry}

/-- An order comes from the dependents of a table. -/
theorem order_eq_ok (ordered : table.order = .ok entries) :
    ∃ dependents, table.dependents = .ok dependents ∧
      (dependents.sorted (Table.keys table)).sorted = entries := by
  unfold order at ordered
  cases computed : table.dependents with
  | error failure =>
    rw [computed] at ordered
    cases ordered
  | ok dependents =>
    rw [computed] at ordered
    cases ordered
    exact ⟨dependents, rfl, rfl⟩

/-- There is an order once all dependencies are known. -/
theorem order_ok (known : ∀ entry ∈ table, ∃ targets, entry.2.dependencies = .ok targets) :
    ∃ entries, table.order = .ok entries := by
  obtain ⟨dependents, computed⟩ : ∃ result, table.dependents = .ok result := addDependents_ok known
  exact ⟨dependents.order (Table.keys table), except_bind_eq_ok.mpr ⟨dependents, computed, rfl⟩⟩

/-- The ids of an order are those of the table, each once. -/
theorem order_ids (ordered : table.order = .ok entries) :
    (entries.map OrderEntry.id).Nodup ∧
      ∀ id, id ∈ entries.map OrderEntry.id ↔ id ∈ Table.keys table := by
  obtain ⟨dependents, computed, rfl⟩ := order_eq_ok ordered
  have inside : ∀ id next, dependents.Edge id next → next ∈ Table.keys table :=
    fun _ _ edge => DependsOn.defined ((mem_of_dependents computed).mp edge)
  exact ⟨by simpa [Sorting.ids] using (dependents.sorted_searched (Table.keys table)).distinct,
    Adjacency.mem_sorted_ids inside⟩

/-- A definition stands before another that refers to it, unless it depends on the other. -/
theorem order_before {id target : String} (ordered : table.order = .ok entries)
    (depends : table.DependsOn id target) (defined : target ∈ Table.keys table)
    (acyclic : ¬ table.Reaches target id) :
    (entries.map OrderEntry.id).idxOf target < (entries.map OrderEntry.id).idxOf id := by
  obtain ⟨distinct, members⟩ := order_ids ordered
  have listed := (members target).mpr defined
  obtain ⟨dependents, computed, rfl⟩ := order_eq_ok ordered
  have edge : dependents.Edge target id := (mem_of_dependents computed).mpr depends
  have settled := (dependents.sorted_searched (Table.keys table)).settled target listed id edge
  rw [transGen_edge_dependents computed] at settled
  exact idxOf_lt_of_sublist distinct (settled.resolve_right acyclic)

/-- An entry is flagged if and only if its definition lies on a cycle. -/
theorem order_circular {entry : OrderEntry} (ordered : table.order = .ok entries)
    (member : entry ∈ entries) : entry.circular = true ↔ table.Reaches entry.id entry.id := by
  obtain ⟨dependents, computed, rfl⟩ := order_eq_ok ordered
  have searched := dependents.sorted_searched (Table.keys table)
  rw [← transGen_edge_dependents computed]
  constructor
  · intro circular
    exact (searched.flagged entry member circular).elim Adjacency.mem_cyclicIds.mp id
  · exact fun cycle => searched.kept entry member (Adjacency.mem_cyclicIds.mpr cycle)

/-- The order is a permutation of the ids of the table, and a definition stands before each
definition that refers to it, unless it depends on that definition itself. Nothing is asked of the
rest of the table, nor of the other cycles that the two lie on. -/
theorem order_permutes_and_respects_dependencies (ordered : table.order = .ok entries) :
    (entries.map OrderEntry.id).Nodup ∧
      (∀ id, id ∈ entries.map OrderEntry.id ↔ id ∈ Table.keys table) ∧
      ((Table.keys table).Nodup → (entries.map OrderEntry.id).Perm (Table.keys table)) ∧
      ∀ id target, table.DependsOn id target → target ∈ Table.keys table →
        ¬ table.Reaches target id →
        (entries.map OrderEntry.id).idxOf target < (entries.map OrderEntry.id).idxOf id := by
  obtain ⟨distinct, members⟩ := order_ids ordered
  refine ⟨distinct, members, fun keysDistinct => ?_, fun id target depends defined acyclic => ?_⟩
  · exact (List.perm_ext_iff_of_nodup distinct keysDistinct).mpr members
  · exact order_before ordered depends defined acyclic

/-- An object with a property for each of some definitions. -/
def linking (targets : List String) : Schema :=
  let info : Info := ⟨"", .null, .null, false, none, []⟩
  .object info (targets.map fun id => (id, .reference info (.str (Reference.ofId id)))) []
    .unstated []

theorem linking_nil_dependencies : (linking []).dependencies = .ok [] :=
  eq_ok_of_toOption (by decide +kernel)

/-- Two definitions on a cycle, one in front of them that also refers to a definition that there is
not, and one behind them. -/
def entwined : Definitions :=
  [("A", linking ["B", "X"]), ("B", linking ["C"]), ("C", linking ["B", "D"]), ("D", linking [])]

theorem entwined_order :
    entwined.order = .ok [⟨"D", false⟩, ⟨"B", true⟩, ⟨"C", true⟩, ⟨"A", false⟩] :=
  eq_ok_of_toOption (by decide +kernel)

theorem order_permutes_and_respects_dependencies_entwined :
    entwined.order = .ok [⟨"D", false⟩, ⟨"B", true⟩, ⟨"C", true⟩, ⟨"A", false⟩] ∧
      ["D", "B", "C", "A"].Perm ["A", "B", "C", "D"] ∧
      ["D", "B", "C", "A"].idxOf "D" < ["D", "B", "C", "A"].idxOf "C" := by
  obtain ⟨_, _, permuted, before⟩ := order_permutes_and_respects_dependencies entwined_order
  refine ⟨entwined_order, permuted (by decide), before "C" "D" ?_ (by decide) ?_⟩
  · exact ⟨linking ["B", "D"], ["B", "D"], by simp [entwined],
      eq_ok_of_toOption (by decide +kernel), by decide⟩
  · intro chain
    obtain ⟨_, ⟨schema, targets, member, known, refers⟩, _⟩ := TransGen.head'_iff.mp chain
    obtain rfl : schema = linking [] := by simpa [entwined] using member
    rw [linking_nil_dependencies] at known
    cases known
    cases refers

/-- The flag of an entry says exactly whether its definition depends on itself. Coming across a
definition again never adds a flag to what the search for cycles found: at every moment of the
search, an id that was come across again is finished or lies on a cycle, and the entries made so
far are part of the order as they are. -/
theorem circular_exactly_on_cycles (ordered : table.order = .ok entries) :
    (∀ entry ∈ entries, entry.circular = true ↔ table.Reaches entry.id entry.id) ∧
      ∃ dependents sorting, table.dependents = .ok dependents ∧ sorting.sorted = entries ∧
        (∀ entry ∈ entries, entry.circular = dependents.cyclicIds.contains entry.id) ∧
        Sorting.Leads dependents dependents.cyclicIds ⟨{}, [], Table.keys table⟩
          ⟨sorting, [], []⟩ ∧
        ∀ moment, Sorting.Leads dependents dependents.cyclicIds ⟨{}, [], Table.keys table⟩ moment →
          moment.sorting.sorted <:+ entries ∧
          ∀ id ∈ moment.sorting.revisited, id ∉ moment.sorting.ids → table.Reaches id id := by
  refine ⟨fun entry member => order_circular ordered member, ?_⟩
  obtain ⟨dependents, computed, isEntries⟩ := order_eq_ok ordered
  have ended := dependents.leads_sorted (Table.keys table)
  refine ⟨dependents, _, computed, isEntries, fun entry member => ?_, ended, fun moment run => ?_⟩
  · rw [Bool.eq_iff_iff, order_circular ordered member, List.contains_iff_mem,
      Adjacency.mem_cyclicIds]
    exact (transGen_edge_dependents computed).symm
  · refine ⟨isEntries ▸ Sorting.sorted_suffix_of_leads (Sorting.leads_to_end run ended),
      fun id again unfinished => ?_⟩
    have searched := Sorting.Searched.start.leads run
    exact (transGen_edge_dependents computed).mp
      ((searched.again id again).resolve_left unfinished)

theorem circular_exactly_on_cycles_entwined :
    entwined.order = .ok [⟨"D", false⟩, ⟨"B", true⟩, ⟨"C", true⟩, ⟨"A", false⟩] ∧
      entwined.Reaches "B" "B" ∧ ¬ entwined.Reaches "A" "A" := by
  have flags := (circular_exactly_on_cycles entwined_order).1
  exact ⟨entwined_order, (flags ⟨"B", true⟩ (by simp)).mp rfl,
    fun cycle => nomatch (flags ⟨"A", false⟩ (by simp)).mpr cycle⟩

end Definitions

end SchemaPress
