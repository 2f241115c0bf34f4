import SchemaPress.Dependency.Cycle
import SchemaPress.Proofs.Dependents
import SchemaPress.Proofs.Tables

/-! The search for cycles finds exactly the ids on cycles. The trail is read in layers, one for
each open id: an open id, the finished ids above it that are joined to its component, and the trail
under it. A component is closed when its open id cannot get below its own layer; then nothing that
it leads to is open any more, so no cycle can pass through it later. -/

namespace SchemaPress

open Relation

/-- A chain of edges, possibly none, leads from one id to another. -/
abbrev Adjacency.Path (adjacency : Adjacency) : String → String → Prop :=
  ReflTransGen adjacency.Edge

/-- A chain of one or more edges leads from an id back to itself. -/
abbrev Adjacency.OnCycle (adjacency : Adjacency) (id : String) : Prop :=
  TransGen adjacency.Edge id id

namespace Cycle

section Positions

variable {id : String} {above under trail : List String} {position : Nat}

theorem mem_of_position (found : position? id trail = some position) : id ∈ trail := by
  induction trail with
  | nil => cases found
  | cons other rest ih =>
    simp only [position?] at found
    split at found
    · rename_i same
      exact same ▸ List.mem_cons_self
    · exact List.mem_cons_of_mem _ (ih found)

theorem position_lt_length (found : position? id trail = some position) :
    position < trail.length := by
  induction trail with
  | nil => cases found
  | cons other rest ih =>
    simp only [position?] at found
    split at found
    · cases found
      exact Nat.lt_succ_self _
    · exact Nat.lt_succ_of_lt (ih found)

theorem position_of_mem (member : id ∈ trail) : ∃ position, position? id trail = some position := by
  induction trail with
  | nil => cases member
  | cons other rest ih =>
    by_cases same : other = id
    · exact ⟨rest.length, by simp [position?, same]⟩
    · have later : id ∈ rest := (List.mem_cons.mp member).resolve_left (Ne.symm same)
      simpa [position?, same] using ih later

theorem position_append (under : List String) (outside : id ∉ above) :
    position? id (above ++ under) = position? id under := by
  induction above with
  | nil => rfl
  | cons other rest ih =>
    have different := List.ne_of_not_mem_cons outside
    simp [position?, Ne.symm different, ih (List.not_mem_of_not_mem_cons outside)]

/-- A low position lies in the lower part of the trail. -/
theorem position_under (above : List String)
    (found : position? id (above ++ under) = some position) (low : position < under.length) :
    position? id under = some position := by
  by_cases inside : id ∈ above
  · exfalso
    induction above with
    | nil => cases inside
    | cons other rest ih =>
      simp only [List.cons_append, position?] at found
      split at found
      · cases found
        simp only [List.length_append] at low
        omega
      · rename_i different
        exact ih found ((List.mem_cons.mp inside).resolve_left (Ne.symm different))
  · rwa [position_append under inside] at found

theorem cutAt_append (outside : id ∉ above) :
    cutAt id (above ++ id :: under) = (above ++ [id], under) := by
  induction above with
  | nil => simp [cutAt]
  | cons other rest ih =>
    have different := List.ne_of_not_mem_cons outside
    simp [cutAt, Ne.symm different, ih (List.not_mem_of_not_mem_cons outside)]

end Positions

/-- Both ends of an edge are among the ids of an adjacency. -/
theorem Search.edge_mem_nodes {adjacency : Adjacency} {id next : String}
    (edge : adjacency.Edge id next) :
    id ∈ nodes adjacency ∧ next ∈ nodes adjacency := by
  have entry : ∃ others, (id, others) ∈ adjacency ∧ next ∈ others := by
    induction adjacency with
    | nil => cases edge
    | cons first rest ih =>
      obtain ⟨key, others⟩ := first
      by_cases same : key = id
      · subst same
        rw [Adjacency.Edge, Adjacency.of_cons_self] at edge
        exact ⟨others, List.mem_cons_self, edge⟩
      · rw [Adjacency.Edge, Adjacency.of_cons_ne _ same] at edge
        obtain ⟨found, member, inside⟩ := ih edge
        exact ⟨found, List.mem_cons_of_mem _ member, inside⟩
  obtain ⟨others, member, inside⟩ := entry
  simp only [nodes, Text.mem_unique, List.mem_append]
  exact ⟨.inl (List.mem_map.mpr ⟨_, member, rfl⟩),
    .inr (List.mem_flatten.mpr ⟨others, List.mem_map.mpr ⟨_, member, rfl⟩, inside⟩)⟩

/-- What is known of an open id, the finished ids above it and the trail under it. The ids above it
form one component with it. It has been seen to get down to its low position, and everything that
was looked at from this layer has been reached and stands no lower. -/
structure Layer (adjacency : Adjacency) (fresh : List String) (frame : Frame)
    (frames : List Frame) (above under : List String) : Prop where
  index : frame.index = under.length
  entered : ∀ outer ∈ frames.head?, adjacency.Edge outer.id frame.id
  left : ∀ next ∈ frame.rest, adjacency.Edge frame.id next
  joined : ∀ id ∈ above, adjacency.Path frame.id id ∧ adjacency.Path id frame.id
  lowest : ∃ id, position? id (frame.id :: under) = some frame.low ∧ adjacency.Path frame.id id
  seen : ∀ id ∈ frame.id :: above, ∀ next, adjacency.Edge id next →
    id = frame.id ∧ next ∈ frame.rest ∨
      next ∉ fresh ∧ ∀ position, position? next under = some position → frame.low ≤ position

/-- A trail in layers, one for each open id. -/
inductive Layout (adjacency : Adjacency) (fresh : List String) :
    List Frame → List String → Prop where
  | nil : Layout adjacency fresh [] []
  | cons {frame : Frame} {frames : List Frame} {above under : List String}
      (outer : Layout adjacency fresh frames under)
      (layer : Layer adjacency fresh frame frames above under) :
      Layout adjacency fresh (frame :: frames) (above ++ frame.id :: under)

variable {adjacency : Adjacency} {fresh fewer : List String} {frame outer : Frame}
  {frames : List Frame} {above under between trail : List String}

theorem Layer.low_le_index (layer : Layer adjacency fresh frame frames above under) :
    frame.low ≤ frame.index := by
  obtain ⟨id, found, _⟩ := layer.lowest
  have bound := position_lt_length found
  rw [List.length_cons, ← layer.index] at bound
  omega

/-- Fewer fresh ids leave a layer as it is. -/
theorem Layer.shrink (layer : Layer adjacency fresh frame frames above under)
    (included : fewer ⊆ fresh) : Layer adjacency fewer frame frames above under where
  index := layer.index
  entered := layer.entered
  left := layer.left
  joined := layer.joined
  lowest := layer.lowest
  seen := by
    intro id member next edge
    refine (layer.seen id member next edge).imp_right ?_
    exact fun ⟨known, bound⟩ => ⟨fun again => known (included again), bound⟩

theorem Layout.shrink (layout : Layout adjacency fresh frames trail)
    (included : fewer ⊆ fresh) : Layout adjacency fewer frames trail := by
  induction layout with
  | nil => exact .nil
  | cons _ layer ih => exact .cons ih (layer.shrink included)

/-- Everything on the trail leads to the innermost open id. -/
theorem Layout.leads_to_top (layout : Layout adjacency fresh (frame :: frames) trail) :
    ∀ id ∈ trail, adjacency.Path id frame.id := by
  induction frames generalizing frame trail with
  | nil =>
    obtain _ | ⟨rest, layer⟩ := layout
    cases rest
    intro id member
    rcases List.mem_append.mp member with inside | last
    · exact (layer.joined id inside).2
    · rw [List.mem_singleton.mp last]
  | cons outer frames ih =>
    obtain _ | ⟨rest, layer⟩ := layout
    intro id member
    rcases List.mem_append.mp member with inside | lower
    · exact (layer.joined id inside).2
    · rcases List.mem_cons.mp lower with rfl | lower
      · exact .refl
      · exact (ih rest id lower).tail (layer.entered outer rfl)

/-- Looking at one more neighbour of an open id. The low position may fall, to a position that is
known to be reached and not above that of the neighbour. -/
theorem Layer.advance (layer : Layer adjacency fresh frame frames above under)
    {next : String} {rest : List String} {low : Nat} (isRest : frame.rest = next :: rest)
    (included : fewer ⊆ fresh) (known : next ∉ fewer)
    (bound : ∀ position, position? next under = some position → low ≤ position)
    (lower : low ≤ frame.low)
    (lowest : ∃ id, position? id (frame.id :: under) = some low ∧ adjacency.Path frame.id id) :
    Layer adjacency fewer { frame with rest, low } frames above under where
  index := layer.index
  entered := layer.entered
  left := fun other member => layer.left other (isRest ▸ List.mem_cons_of_mem next member)
  joined := layer.joined
  lowest := lowest
  seen := by
    intro id member other edge
    rcases layer.seen id member other edge with ⟨same, waiting⟩ | ⟨reached, above⟩
    · rw [isRest] at waiting
      rcases List.mem_cons.mp waiting with rfl | waiting
      · exact .inr ⟨known, bound⟩
      · exact .inl ⟨same, waiting⟩
    · refine .inr ⟨fun again => reached (included again), fun position found => ?_⟩
      exact Nat.le_trans lower (above position found)

/-- An open id that gets below its own layer joins the layer under it when it is left. -/
theorem Layer.join (rest : Layout adjacency fresh (outer :: frames) (between ++ outer.id :: under))
    (inner : Layer adjacency fresh frame (outer :: frames) above (between ++ outer.id :: under))
    (layer : Layer adjacency fresh outer frames between under)
    (distinct : (between ++ outer.id :: under).Nodup)
    (done : frame.rest = []) (below : frame.low < frame.index) :
    Layer adjacency fresh { outer with low := min outer.low frame.low } frames
      (above ++ frame.id :: between) under where
  index := layer.index
  entered := layer.entered
  left := layer.left
  joined := by
    have down : adjacency.Edge outer.id frame.id := inner.entered outer rfl
    -- The low position is under the layer, and everything there leads to the outer id.
    have up : adjacency.Path frame.id outer.id := by
      obtain ⟨id, found, path⟩ := inner.lowest
      have lower := position_under [frame.id] found (inner.index ▸ below)
      exact path.trans (rest.leads_to_top id (mem_of_position lower))
    intro id member
    rcases List.mem_append.mp member with inside | lower
    · obtain ⟨there, back⟩ := inner.joined id inside
      exact ⟨.head down there, back.trans up⟩
    · rcases List.mem_cons.mp lower with rfl | lower
      · exact ⟨.single down, up⟩
      · exact layer.joined id lower
  lowest := by
    rcases Nat.le_total outer.low frame.low with keep | fall
    · simpa only [Nat.min_eq_left keep] using layer.lowest
    · obtain ⟨id, found, path⟩ := inner.lowest
      have bound := layer.low_le_index
      have lower : position? id (outer.id :: under) = some frame.low := by
        refine position_under (frame.id :: between) (by simpa using found) ?_
        rw [List.length_cons, ← layer.index]
        omega
      simp only [Nat.min_eq_right fall]
      exact ⟨id, lower, .head (inner.entered outer rfl) path⟩
  seen := by
    intro id member next edge
    have split : id ∈ frame.id :: above ∨ id ∈ outer.id :: between := by
      simp only [List.mem_cons, List.mem_append] at member ⊢
      grind
    rcases split with inside | lower
    · rcases inner.seen id inside next edge with ⟨_, waiting⟩ | ⟨known, bound⟩
      · rw [done] at waiting
        cases waiting
      · refine .inr ⟨known, fun position found => ?_⟩
        have outside : next ∉ between ++ [outer.id] := by
          intro again
          have apart : (between ++ [outer.id] ++ under).Nodup := by simpa using distinct
          exact (List.nodup_append.mp apart).2.2 next again next (mem_of_position found) rfl
        have same := position_append under outside
        rw [List.append_assoc, List.singleton_append, found] at same
        exact Nat.le_trans (Nat.min_le_right _ _) (bound position same)
    · refine (layer.seen id lower next edge).imp_right ?_
      exact fun ⟨known, bound⟩ =>
        ⟨known, fun position found => Nat.le_trans (Nat.min_le_left _ _) (bound position found)⟩

/-- What a layer leads to when it is closed is neither fresh nor under it. -/
theorem Layer.leads_nowhere_open (layer : Layer adjacency fresh frame frames above under)
    (done : frame.rest = []) (closing : frame.low = frame.index) {id next : String}
    (member : id ∈ frame.id :: above) (edge : adjacency.Edge id next) :
    next ∉ fresh ∧ next ∉ under := by
  rcases layer.seen id member next edge with ⟨_, waiting⟩ | ⟨known, bound⟩
  · rw [done] at waiting
    cases waiting
  · refine ⟨known, fun inside => ?_⟩
    obtain ⟨position, found⟩ := position_of_mem inside
    have low := bound position found
    have high := position_lt_length found
    rw [closing, layer.index] at low
    omega

/-- All members of a layer with two or more members lie on cycles. -/
theorem Layer.on_cycle (layer : Layer adjacency fresh frame frames above under)
    (distinct : (above ++ frame.id :: under).Nodup) (several : above ≠ []) {id : String}
    (member : id ∈ frame.id :: above) : adjacency.OnCycle id := by
  have different : ∀ other ∈ above, other ≠ frame.id := fun other inside =>
    (List.nodup_append.mp distinct).2.2 other inside frame.id List.mem_cons_self
  have strict : ∀ {id other : String}, id ≠ other → adjacency.Path id other →
      TransGen adjacency.Edge id other := fun apart path =>
    (reflTransGen_iff_eq_or_transGen.mp path).resolve_left (Ne.symm apart)
  rcases List.mem_cons.mp member with rfl | inside
  · obtain ⟨other, inside⟩ := List.exists_mem_of_ne_nil above several
    obtain ⟨there, back⟩ := layer.joined other inside
    exact (strict (different other inside).symm there).trans_left back
  · obtain ⟨there, back⟩ := layer.joined id inside
    exact (strict (different id inside) back).trans_left there

/-- Closing a layer does not lower the open id under it. -/
theorem Layout.lower_closing {low : Nat} (layout : Layout adjacency fresh frames under)
    (bound : under.length ≤ low) : lower low frames = frames := by
  cases layout with
  | nil => rfl
  | cons _ layer =>
    have known := layer.low_le_index
    rw [layer.index] at known
    simp only [List.length_append, List.length_cons] at bound
    rw [lower, Nat.min_eq_left (by omega)]

namespace Search

variable {search next : Search} {id : String}

/-- An id that the search is done with: it has been reached and its component has been closed. -/
def Closed (search : Search) (id : String) : Prop :=
  id ∉ search.fresh ∧ id ∉ search.trail

/-- What holds throughout the search. Nothing leads out of the ids that it is done with, and those
of them that lie on cycles are known. -/
structure Sound (adjacency : Adjacency) (search : Search) : Prop where
  layout : Layout adjacency search.fresh search.frames search.trail
  freshDistinct : search.fresh.Nodup
  trailDistinct : search.trail.Nodup
  apart : ∀ id ∈ search.trail, id ∉ search.fresh
  closed : ∀ id, search.Closed id → ∀ next, adjacency.Edge id next → search.Closed next
  cyclic : ∀ id, id ∈ search.cyclic ↔ search.Closed id ∧ adjacency.OnCycle id

theorem Sound.closed_path (sound : search.Sound adjacency) {id other : String}
    (closed : search.Closed id) (path : adjacency.Path id other) : search.Closed other := by
  induction path with
  | refl => exact closed
  | tail _ edge ih => exact sound.closed _ ih _ edge

/-- Before the search only ids without edges count as done with. -/
theorem start_sound (adjacency : Adjacency) : (start adjacency).Sound adjacency where
  layout := .nil
  freshDistinct := Text.unique_nodup _
  trailDistinct := List.nodup_nil
  apart := by
    intro id member
    cases member
  closed := by
    intro id closed next edge
    exact absurd (edge_mem_nodes edge).1 closed.1
  cyclic := by
    intro id
    constructor
    · intro member
      cases member
    · rintro ⟨closed, cycle⟩
      obtain ⟨next, edge, _⟩ := TransGen.head'_iff.mp cycle
      exact absurd (edge_mem_nodes edge).1 closed.1

/-- The innermost open id has the uppermost layer of the trail. -/
theorem Sound.layers (sound : search.Sound adjacency) (isFrames : search.frames = frame :: frames) :
    ∃ above under, search.trail = above ++ frame.id :: under ∧
      Layout adjacency search.fresh frames under ∧
      Layer adjacency search.fresh frame frames above under := by
  have layout := sound.layout
  rw [isFrames] at layout
  generalize search.trail = trail at layout
  obtain _ | ⟨outer, layer⟩ := layout
  exact ⟨_, _, rfl, outer, layer⟩

theorem Sound.trail_eq_nil (sound : search.Sound adjacency) (isFrames : search.frames = []) :
    search.trail = [] := by
  have layout := sound.layout
  rw [isFrames] at layout
  generalize search.trail = trail at layout
  cases layout
  rfl

/-- Opening an id, which may come with an advance of the id it was reached from. -/
theorem Sound.enter (sound : search.Sound adjacency) (frames : List Frame)
    (isFresh : id ∈ search.fresh)
    (layout : Layout adjacency (search.fresh.erase id) frames search.trail)
    (reached : ∀ outer ∈ frames.head?, adjacency.Edge outer.id id) :
    ({ search with frames }.enter adjacency id).Sound adjacency := by
  have outside : id ∉ search.trail := fun inside => sound.apart id inside isFresh
  -- An id that stops being fresh is on the trail, so nothing new is done with.
  have same : ∀ other, ({ search with frames }.enter adjacency id).Closed other ↔
      search.Closed other := by
    intro other
    by_cases equal : other = id
    · subst equal
      simp [Closed, Search.enter, isFresh]
    · simp [Closed, Search.enter, List.mem_erase_of_ne equal, equal]
  refine ⟨?_, sound.freshDistinct.erase id, List.nodup_cons.mpr ⟨outside, sound.trailDistinct⟩,
    ?_, ?_, ?_⟩
  · have alone : Layer adjacency (search.fresh.erase id)
        ⟨id, search.trail.length, search.trail.length, adjacency.of id⟩ frames [] search.trail := by
      refine ⟨rfl, reached, fun _ member => member, ?_, ?_, ?_⟩
      · intro other member
        cases member
      · exact ⟨id, by simp [position?], .refl⟩
      · intro other member next edge
        obtain rfl : other = id := List.mem_singleton.mp member
        exact .inl ⟨rfl, edge⟩
    exact .cons layout alone
  · intro other member again
    rcases List.mem_cons.mp member with rfl | member
    · exact sound.freshDistinct.not_mem_erase again
    · exact sound.apart other member (List.mem_of_mem_erase again)
  · intro other closed next edge
    rw [same] at closed ⊢
    exact sound.closed other closed next edge
  · intro other
    rw [same]
    exact sound.cyclic other

/-- Looking at a neighbour that is not fresh changes nothing but the layer of the open id. -/
theorem Sound.advance (sound : search.Sound adjacency)
    (layout : Layout adjacency search.fresh frames search.trail) :
    ({ search with frames } : Search).Sound adjacency where
  layout := layout
  freshDistinct := sound.freshDistinct
  trailDistinct := sound.trailDistinct
  apart := sound.apart
  closed := sound.closed
  cyclic := sound.cyclic

/-- Leaving an open id that gets below its own layer. -/
theorem Sound.leave_joining (sound : search.Sound adjacency)
    (isFrames : search.frames = frame :: frames) (done : frame.rest = [])
    (joining : frame.low ≠ frame.index) :
    (search.leave adjacency frame frames).Sound adjacency := by
  obtain ⟨above, under, isTrail, rest, inner⟩ := sound.layers isFrames
  have below : frame.low < frame.index := Nat.lt_of_le_of_ne inner.low_le_index joining
  have left : search.leave adjacency frame frames =
      { search with frames := lower frame.low frames } := by
    simp [Search.leave, joining]
  rw [left]
  apply sound.advance
  rw [isTrail]
  cases rest with
  | nil =>
    have index := inner.index
    simp only [List.length_nil] at index
    omega
  | @cons outer frames between under rest layer =>
    have distinct : (between ++ outer.id :: under).Nodup := by
      have whole := sound.trailDistinct
      rw [isTrail] at whole
      exact (List.nodup_cons.mp (List.nodup_append.mp whole).2.1).2
    have joined := Layer.join (.cons rest layer) inner layer distinct done below
    simpa [lower] using Layout.cons rest joined

/-- A layer that gets no lower is a whole component: its members lie on cycles if there are several
of them, or if the only one leads to itself. -/
theorem Sound.component_on_cycle (sound : search.Sound adjacency)
    (isTrail : search.trail = above ++ frame.id :: under)
    (layer : Layer adjacency search.fresh frame frames above under) (done : frame.rest = [])
    (closing : frame.low = frame.index) (id : String) (member : id ∈ frame.id :: above) :
    adjacency.OnCycle id ↔
      1 < (above ++ [frame.id]).length ∨ adjacency.Edge frame.id frame.id := by
  cases above with
  | cons first others =>
    have distinct := isTrail ▸ sound.trailDistinct
    simp [layer.on_cycle distinct (by simp) member]
  | nil =>
    obtain rfl : id = frame.id := List.mem_singleton.mp member
    have onTrail : frame.id ∈ search.trail := isTrail ▸ List.mem_cons_self
    constructor
    · intro cycle
      obtain ⟨next, edge, back⟩ := TransGen.head'_iff.mp cycle
      have escape := layer.leads_nowhere_open done closing member edge
      by_cases self : next = frame.id
      · exact .inr (self ▸ edge)
      · -- The cycle would come back from what the search is done with.
        have closed : search.Closed next := by
          refine ⟨escape.1, ?_⟩
          simpa [isTrail, self] using escape.2
        exact absurd onTrail (sound.closed_path closed back).2
    · rintro (several | edge)
      · simp at several
      · exact .single edge

/-- Leaving an open id that gets no lower takes its layer off the trail. -/
theorem leave_of_closing (isTrail : search.trail = above ++ frame.id :: under)
    (outside : frame.id ∉ above) (rest : Layout adjacency search.fresh frames under)
    (layer : Layer adjacency search.fresh frame frames above under)
    (closing : frame.low = frame.index) :
    search.leave adjacency frame frames =
      { search with
        frames, trail := under
        cyclic :=
          if 1 < (above ++ [frame.id]).length || (adjacency.of frame.id).contains frame.id
          then search.cyclic ++ (above ++ [frame.id]) else search.cyclic } := by
  have unchanged : lower frame.low frames = frames :=
    rest.lower_closing (Nat.le_of_eq (by rw [closing, layer.index]))
  simp only [Search.leave, closing, ↓reduceIte, isTrail, cutAt_append outside]
  rw [← closing, unchanged]

/-- Without its topmost layer, the search is done with the layer and with what it was done with
before. -/
theorem Sound.closed_or_layer (sound : search.Sound adjacency)
    (isTrail : search.trail = above ++ frame.id :: under) (id : String) :
    id ∉ search.fresh ∧ id ∉ under ↔ search.Closed id ∨ id ∈ frame.id :: above := by
  have distinct : (frame.id :: above ++ under).Nodup := by
    have whole := isTrail ▸ sound.trailDistinct
    exact (List.perm_middle.nodup_iff).mp whole
  have onTrail : id ∈ search.trail ↔ id ∈ frame.id :: above ∨ id ∈ under := by
    rw [isTrail, List.perm_middle.mem_iff, ← List.cons_append]
    exact List.mem_append
  simp only [Closed, onTrail, not_or]
  constructor
  · intro closed
    by_cases member : id ∈ frame.id :: above
    · exact .inr member
    · exact .inl ⟨closed.1, member, closed.2⟩
  · rintro (closed | member)
    · exact ⟨closed.1, closed.2.2⟩
    · exact ⟨sound.apart id (onTrail.mpr (.inl member)), fun inside =>
        (List.nodup_append.mp distinct).2.2 id member id inside rfl⟩

/-- Leaving an open id that gets no lower closes its layer. -/
theorem Sound.leave_closing (sound : search.Sound adjacency)
    (isFrames : search.frames = frame :: frames) (done : frame.rest = [])
    (closing : frame.low = frame.index) :
    (search.leave adjacency frame frames).Sound adjacency := by
  obtain ⟨above, under, isTrail, rest, layer⟩ := sound.layers isFrames
  have distinct : (above ++ frame.id :: under).Nodup := isTrail ▸ sound.trailDistinct
  obtain ⟨_, lowerDistinct, crossed⟩ := List.nodup_append.mp distinct
  have outside : frame.id ∉ above := fun again => crossed _ again _ List.mem_cons_self rfl
  have parts := sound.closed_or_layer isTrail
  rw [leave_of_closing isTrail outside rest layer closing]
  refine ⟨rest, sound.freshDistinct, (List.nodup_cons.mp lowerDistinct).2, ?_, ?_, ?_⟩
  · intro id inside
    refine sound.apart id ?_
    rw [isTrail]
    exact List.mem_append_right above (List.mem_cons_of_mem _ inside)
  · intro id closed next edge
    rcases (parts id).mp closed with closed | member
    · exact (parts next).mpr (.inl (sound.closed id closed next edge))
    · exact layer.leads_nowhere_open done closing member edge
  · intro id
    refine Iff.trans ?_ (and_congr (parts id) Iff.rfl).symm
    have component : id ∈ above ++ [frame.id] ↔ id ∈ frame.id :: above := by
      simp [or_comm]
    have test := sound.component_on_cycle isTrail layer done closing id
    have known := sound.cyclic id
    simp only [Adjacency.Edge] at test
    simp only [Bool.or_eq_true, decide_eq_true_eq, List.contains_iff_mem]
    split
    · rename_i onCycle
      rw [List.mem_append, component, known]
      grind
    · rename_i offCycle
      rw [known]
      grind

/-- Looking at a fresh neighbour of the innermost open id opens the neighbour. -/
theorem Sound.enter_neighbour (sound : search.Sound adjacency)
    (isFrames : search.frames = frame :: frames) {neighbour : String} {others : List String}
    (isRest : frame.rest = neighbour :: others) (isFresh : neighbour ∈ search.fresh) :
    ({ search with frames := { frame with rest := others } :: frames }.enter adjacency
      neighbour).Sound adjacency := by
  obtain ⟨above, under, isTrail, rest, layer⟩ := sound.layers isFrames
  have fewer : search.fresh.erase neighbour ⊆ search.fresh := List.erase_subset
  have edge : adjacency.Edge frame.id neighbour := layer.left _ (isRest ▸ List.mem_cons_self)
  apply sound.enter _ isFresh
  · rw [isTrail]
    refine .cons (rest.shrink fewer) (layer.advance isRest fewer
      sound.freshDistinct.not_mem_erase ?_ (Nat.le_refl _) layer.lowest)
    intro position found
    have inside : neighbour ∈ search.trail := by
      rw [isTrail]
      exact List.mem_append_right _ (List.mem_cons_of_mem _ (mem_of_position found))
    exact absurd isFresh (sound.apart neighbour inside)
  · intro outer isOuter
    cases isOuter
    exact edge

/-- Looking at a neighbour that the search is done with leaves the low position as it is. -/
theorem Sound.pass_closed (sound : search.Sound adjacency)
    (isFrames : search.frames = frame :: frames) {neighbour : String} {others : List String}
    (isRest : frame.rest = neighbour :: others) (known : neighbour ∉ search.fresh)
    (offTrail : position? neighbour search.trail = none) :
    ({ search with frames := { frame with rest := others } :: frames } : Search).Sound
      adjacency := by
  obtain ⟨above, under, isTrail, rest, layer⟩ := sound.layers isFrames
  apply sound.advance
  rw [isTrail]
  refine .cons rest (layer.advance isRest (List.Subset.refl _) known ?_ (Nat.le_refl _)
    layer.lowest)
  intro position found
  have inside : neighbour ∈ search.trail := by
    rw [isTrail]
    exact List.mem_append_right _ (List.mem_cons_of_mem _ (mem_of_position found))
  obtain ⟨_, onTrail⟩ := position_of_mem inside
  rw [offTrail] at onTrail
  cases onTrail

/-- Looking at a neighbour on the trail lets the low position fall to that of the neighbour. -/
theorem Sound.pass_open (sound : search.Sound adjacency)
    (isFrames : search.frames = frame :: frames) {neighbour : String} {others : List String}
    {low : Nat} (isRest : frame.rest = neighbour :: others) (known : neighbour ∉ search.fresh)
    (onTrail : position? neighbour search.trail = some low) :
    ({ search with frames := { frame with rest := others, low := min frame.low low } :: frames } :
      Search).Sound adjacency := by
  obtain ⟨above, under, isTrail, rest, layer⟩ := sound.layers isFrames
  have distinct : (above ++ frame.id :: under).Nodup := isTrail ▸ sound.trailDistinct
  have edge : adjacency.Edge frame.id neighbour := layer.left _ (isRest ▸ List.mem_cons_self)
  apply sound.advance
  rw [isTrail] at onTrail ⊢
  refine .cons rest (layer.advance isRest (List.Subset.refl _) known ?_ (Nat.min_le_left _ _) ?_)
  · intro position found
    have outside : neighbour ∉ above ++ [frame.id] := by
      intro again
      have apart : (above ++ [frame.id] ++ under).Nodup := by simpa using distinct
      exact (List.nodup_append.mp apart).2.2 _ again _ (mem_of_position found) rfl
    have same := position_append under outside
    rw [List.append_assoc, List.singleton_append, onTrail, found] at same
    cases same
    exact Nat.min_le_right _ _
  · rcases Nat.le_total frame.low low with keep | fall
    · simpa only [Nat.min_eq_left keep] using layer.lowest
    · have bound := layer.low_le_index
      rw [layer.index] at bound
      rw [Nat.min_eq_right fall]
      refine ⟨neighbour, position_under above onTrail ?_, .single edge⟩
      rw [List.length_cons]
      omega

/-- Every step keeps the search sound. -/
theorem Sound.step (sound : search.Sound adjacency)
    (stepped : search.step? adjacency = some next) : next.Sound adjacency := by
  unfold step? at stepped
  split at stepped
  · rename_i isFrames
    split at stepped
    · cases stepped
    · rename_i id others isFresh
      cases stepped
      have unchanged : ({ search with frames := [] } : Search) = search := by
        rw [← isFrames]
      have member : id ∈ search.fresh := by simp [isFresh]
      have entered := sound.enter [] member
      rw [unchanged, sound.trail_eq_nil isFrames] at entered
      exact entered .nil (by simp)
  · rename_i frame frames isFrames
    split at stepped
    · rename_i done
      cases stepped
      by_cases closing : frame.low = frame.index
      · exact sound.leave_closing isFrames done closing
      · exact sound.leave_joining isFrames done closing
    · rename_i neighbour others isRest
      dsimp only at stepped
      split at stepped
      · rename_i isFresh
        cases stepped
        exact sound.enter_neighbour isFrames isRest (List.contains_iff_mem.mp isFresh)
      · rename_i known
        have known : neighbour ∉ search.fresh := fun again =>
          known (List.contains_iff_mem.mpr again)
        split at stepped
        · rename_i offTrail
          cases stepped
          exact sound.pass_closed isFrames isRest known offTrail
        · rename_i low onTrail
          cases stepped
          exact sound.pass_open isFrames isRest known onTrail

/-- A search that is run to its end stays sound and has nothing left to do. -/
theorem Sound.run (sound : search.Sound adjacency) :
    (search.run adjacency).Sound adjacency ∧ (search.run adjacency).step? adjacency = none := by
  fun_induction Search.run adjacency search with
  | case1 search ended => exact ⟨sound, ended⟩
  | case2 search next stepped ih => exact ih (sound.step stepped)

/-- Only leaving an open id adds to the ids on cycles. -/
theorem step_cyclic (stepped : search.step? adjacency = some next) :
    next.cyclic = search.cyclic ∨
      ∃ frame frames, search.frames = frame :: frames ∧
        next = search.leave adjacency frame frames := by
  unfold step? at stepped
  split at stepped
  · split at stepped <;> cases stepped
    exact .inl rfl
  · rename_i frame frames isFrames
    split at stepped
    · cases stepped
      exact .inr ⟨frame, frames, isFrames, rfl⟩
    · refine .inl ?_
      dsimp only at stepped
      split at stepped
      · cases stepped
        rfl
      · split at stepped <;> cases stepped <;> rfl

/-- What leaving an open id adds comes from the trail, where nothing that is known to lie on a cycle
is left. -/
theorem Sound.leave_distinct (sound : search.Sound adjacency) (distinct : search.cyclic.Nodup)
    (isFrames : search.frames = frame :: frames) :
    (search.leave adjacency frame frames).cyclic.Nodup := by
  by_cases closing : frame.low = frame.index
  · obtain ⟨above, under, isTrail, rest, layer⟩ := sound.layers isFrames
    have whole : (above ++ [frame.id] ++ under).Nodup := by
      simpa [isTrail] using sound.trailDistinct
    have component := (List.nodup_append.mp whole).1
    have outside : frame.id ∉ above := fun again =>
      (List.nodup_append.mp component).2.2 _ again _ List.mem_cons_self rfl
    rw [leave_of_closing isTrail outside rest layer closing]
    dsimp only
    split
    · refine List.nodup_append.mpr ⟨distinct, component, fun id known other inside same => ?_⟩
      have offTrail : id ∉ search.trail := ((sound.cyclic id).mp known).1.2
      rw [isTrail, List.append_cons] at offTrail
      exact offTrail (List.mem_append_left under (same ▸ inside))
    · exact distinct
  · simpa [Search.leave, closing] using distinct

/-- No id is found twice. -/
theorem Sound.run_distinct (sound : search.Sound adjacency) (distinct : search.cyclic.Nodup) :
    (search.run adjacency).cyclic.Nodup := by
  fun_induction Search.run adjacency search with
  | case1 search ended => exact distinct
  | case2 search next stepped ih =>
    refine ih (sound.step stepped) ?_
    rcases step_cyclic stepped with same | ⟨frame, frames, isFrames, rfl⟩
    · exact same ▸ distinct
    · exact sound.leave_distinct distinct isFrames

/-- A search that is over is done with every id. -/
theorem Sound.closed_of_ended (sound : search.Sound adjacency)
    (ended : search.step? adjacency = none) (id : String) : search.Closed id := by
  unfold step? at ended
  split at ended
  · rename_i isFrames
    split at ended
    · rename_i isFresh
      simp [Closed, isFresh, sound.trail_eq_nil isFrames]
    · cases ended
  · split at ended
    · cases ended
    · dsimp only at ended
      split at ended
      · cases ended
      · split at ended <;> cases ended

end Search

end Cycle

/-- The search finds exactly the ids from which a chain of one or more edges leads back. -/
theorem Adjacency.mem_cyclicIds {adjacency : Adjacency} {id : String} :
    id ∈ adjacency.cyclicIds ↔ adjacency.OnCycle id := by
  obtain ⟨sound, ended⟩ := (Cycle.Search.start_sound adjacency).run
  rw [Adjacency.cyclicIds, sound.cyclic id]
  exact and_iff_right (sound.closed_of_ended ended id)

/-- An id lies on a cycle exactly if it leads to itself at once, or if its component has another
member. -/
theorem Adjacency.onCycle_iff_component {adjacency : Adjacency} {id : String} :
    adjacency.OnCycle id ↔ adjacency.Edge id id ∨
      ∃ other, other ≠ id ∧ adjacency.Path id other ∧ adjacency.Path other id := by
  constructor
  · intro cycle
    obtain ⟨next, edge, back⟩ := TransGen.head'_iff.mp cycle
    by_cases self : next = id
    · exact .inl (self ▸ edge)
    · exact .inr ⟨next, self, .single edge, back⟩
  · rintro (edge | ⟨other, different, there, back⟩)
    · exact .single edge
    · have strict := (reflTransGen_iff_eq_or_transGen.mp there).resolve_left different
      exact strict.trans_left back

/-- The search lists, each once, exactly the ids from which a path of one or more edges leads back:
those related to themselves and those of components with two or more members. Nothing is asked of
the adjacency: ids may be related to an id several times, and to ids it has no entry for. -/
theorem Adjacency.cyclicIds_exactly_on_cycles (adjacency : Adjacency) :
    adjacency.cyclicIds.Nodup ∧
      (∀ id, id ∈ adjacency.cyclicIds ↔ adjacency.OnCycle id) ∧
      ∀ id, id ∈ adjacency.cyclicIds ↔ adjacency.Edge id id ∨
        ∃ other, other ≠ id ∧ adjacency.Path id other ∧ adjacency.Path other id := by
  refine ⟨?_, fun id => mem_cyclicIds, fun id => mem_cyclicIds.trans onCycle_iff_component⟩
  exact (Cycle.Search.start_sound adjacency).run_distinct List.nodup_nil

end SchemaPress
