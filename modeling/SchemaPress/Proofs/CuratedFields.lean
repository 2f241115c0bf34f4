import Mathlib.Data.List.Induction
import Mathlib.Data.List.TakeWhile
import SchemaPress.Proofs.ObjectShapes
import SchemaPress.Schema.Fields

/-! Curation of fields. Field groups name the properties that an object keeps, and the order of
first mention is the order in which it keeps them; the members of a combination are curated one by
one. Curation is fully described by what it keeps, and what has been curated stays as it is when the
same groups are applied again. -/

namespace SchemaPress

namespace Text

variable {α : Type} [BEq α] [LawfulBEq α]

/-- First occurrences stand in the order of their places. -/
theorem unique_idxOf (items : List α) :
    (unique items).Pairwise fun first second => items.idxOf first < items.idxOf second := by
  refine ((unique_pairwise items).and (unique_nodup items)).imp ?_
  rintro first second ⟨⟨before, after, rfl, unseen⟩, different⟩
  rw [List.idxOf_append_of_notMem unseen, List.idxOf_append]
  have further : 0 < (first :: after).idxOf second := by
    simp [different]
  split
  · rename_i seen
    have bound := List.idxOf_lt_length_of_mem seen
    omega
  · simpa [List.idxOf_cons] using further

omit [LawfulBEq α]

variable {items first second : List α}

theorem nodup_of_idxOf
    (ordered : first.Pairwise fun one other => items.idxOf one < items.idxOf other) :
    first.Nodup := by
  refine ordered.imp fun before => ?_
  rintro rfl
  exact Nat.lt_irrefl _ before

/-- A list in the order of places in another is known by its members. -/
theorem eq_of_idxOf
    (ordered : first.Pairwise fun one other => items.idxOf one < items.idxOf other)
    (orderly : second.Pairwise fun one other => items.idxOf one < items.idxOf other)
    (same : ∀ item, item ∈ first ↔ item ∈ second) : first = second := by
  refine List.Perm.eq_of_pairwise (fun one other _ _ before after => ?_) ordered orderly
    ((List.perm_ext_iff_of_nodup (nodup_of_idxOf ordered) (nodup_of_idxOf orderly)).mpr same)
  exact absurd before (Nat.lt_asymm after)

end Text

namespace Table

variable {β : Type} {table other : Table β} {key : String}

theorem get?_filter (keep : String → Bool) (table : Table β) (key : String) :
    get? (table.filter fun entry => keep entry.1) key =
      if keep key then get? table key else none := by
  induction table with
  | nil => simp [get?]
  | cons entry rest ih =>
    obtain ⟨name, value⟩ := entry
    rw [List.filter_cons]
    by_cases same : name = key
    · subst same
      by_cases kept : keep name = true
      · simp [kept, get?]
      · simp [kept, ih]
    · split <;> simp [get?, same, ih]

theorem has_iff : has table key = true ↔ key ∈ keys table := by
  rw [has, Option.isSome_iff_exists, mem_keys_iff]

theorem keys_filter (keep : String → Bool) (table : Table β) :
    keys (table.filter fun entry => keep entry.1) = (keys table).filter keep := by
  rw [keys, keys, List.filter_map]
  rfl

/-- A table with an entry for each key is known by its keys and by what is found under them. -/
theorem eq_of_get? (distinct : (keys table).Nodup) (sameKeys : keys table = keys other)
    (agree : ∀ key ∈ keys table, get? table key = get? other key) : table = other := by
  refine eq_of_keys sameKeys fun key value held inside found => ?_
  have here := get?_of_mem distinct inside
  have there := get?_of_mem (sameKeys ▸ distinct) found
  rw [agree key (mem_keys_of_mem inside), there] at here
  exact (Option.some.inj here).symm

end Table

namespace FieldGroup

/-- Letters list names: the names stand one after the other, and between two of them there is a
comma with all the blanks that follow it. -/
inductive Lists : List Char → List String → Prop where
  | last {name : List Char} (plain : ',' ∉ name) : Lists name [String.ofList name]
  | next {name blanks rest : List Char} {names : List String} (plain : ',' ∉ name)
      (blank : ∀ letter ∈ blanks, Text.isBlank letter = true)
      (solid : ∀ letter ∈ rest.head?, Text.isBlank letter = false) (later : Lists rest names) :
      Lists (name ++ ',' :: (blanks ++ rest)) (String.ofList name :: names)

section Names

theorem splitOn_append_of_not_mem {front letters first : List Char} {pieces : List (List Char)}
    (plain : ',' ∉ front) (cut : letters.splitOn ',' = first :: pieces) :
    (front ++ letters).splitOn ',' = (front ++ first) :: pieces := by
  induction front with
  | nil => exact cut
  | cons letter front ih =>
    have other : letter ≠ ',' := (List.ne_of_not_mem_cons plain).symm
    rw [List.cons_append, List.splitOn_cons_eq_if_modifyHead, if_neg (by simpa using other),
      ih (List.not_mem_of_not_mem_cons plain)]
    rfl

/-- The first piece begins where the letters begin. -/
theorem head?_of_splitOn {letters piece : List Char} {letter : Char} {pieces : List (List Char)}
    (cut : letters.splitOn ',' = (letter :: piece) :: pieces) : letters.head? = some letter := by
  cases letters with
  | nil => simp at cut
  | cons first rest =>
    rw [List.splitOn_cons_eq_if_modifyHead] at cut
    split at cut
    · simp at cut
    · cases others : rest.splitOn ',' with
      | nil => exact absurd others (List.splitOn_ne_nil _ _)
      | cons =>
        rw [others] at cut
        simp_all

/-- Between commas and the blanks after them stand the names that are listed. -/
theorem lists_of_splitOn {letters first : List Char} {pieces : List (List Char)}
    (cut : letters.splitOn ',' = first :: pieces) :
    Lists letters (String.ofList first ::
      pieces.map fun piece => String.ofList (piece.dropWhile Text.isBlank)) := by
  by_cases comma : ',' ∈ letters
  · obtain ⟨name, tail, isLetters, plain⟩ := List.eq_append_cons_of_mem comma
    -- Blanks are no commas, so the piece after the comma loses them and the other pieces stay.
    obtain ⟨blanks, rest, isTail, blank, solid⟩ : ∃ blanks rest, tail = blanks ++ rest ∧
        (∀ letter ∈ blanks, Text.isBlank letter = true) ∧
        ∀ letter ∈ rest.head?, Text.isBlank letter = false := by
      refine ⟨tail.takeWhile Text.isBlank, tail.dropWhile Text.isBlank,
        List.takeWhile_append_dropWhile.symm, fun _ inside => List.mem_takeWhile_imp inside, ?_⟩
      intro letter isFirst
      have first := List.head?_dropWhile_not Text.isBlank tail
      rwa [isFirst] at first
    have noComma : ',' ∉ blanks := fun inside => absurd (blank _ inside) (by decide)
    cases others : rest.splitOn ',' with
    | nil => exact absurd others (List.splitOn_ne_nil _ _)
    | cons next more =>
      have later := lists_of_splitOn others
      have kept : (blanks ++ next).dropWhile Text.isBlank = next := by
        rw [List.dropWhile_append_of_pos blank]
        cases next with
        | nil => rfl
        | cons letter =>
          exact List.dropWhile_cons_of_neg (by simp [solid letter (head?_of_splitOn others)])
      rw [isLetters, List.splitOn_append_cons_self, List.splitOn_eq_singleton plain, isTail,
        splitOn_append_of_not_mem noComma others, List.singleton_append] at cut
      obtain ⟨rfl, rfl⟩ := List.cons.inj cut
      rw [isLetters, isTail, List.map_cons, kept]
      exact .next plain blank solid later
  · rw [List.splitOn_eq_singleton comma] at cut
    obtain ⟨rfl, rfl⟩ := List.cons.inj cut
    exact .last comma
termination_by letters.length
decreasing_by
  simp only [isLetters, isTail, List.length_append, List.length_cons]
  omega

theorem lists_splitNames (list : String) : Lists list.toList (splitNames list) := by
  unfold splitNames
  split
  · rename_i cut
    exact absurd cut (List.splitOn_ne_nil _ _)
  · rename_i cut
    exact lists_of_splitOn cut

/-- Blanks before a comma belong to a name, and a name may be empty. -/
example : splitNames "a , b,,c" = ["a ", "b", "", "c"] := by decide +kernel

end Names

/-- A group is what a map says under the name of the group: its fields are the names that the keys
of the map list, one key after the other. -/
structure Describes (entry : String × Table Json) (group : FieldGroup) : Prop where
  name : group.name = entry.1
  fields : ∃ lists, List.Forall₂ (fun key names => Lists key.toList names)
    (Table.keys entry.2) lists ∧ group.fields = lists.flatten

/-- The groups that are read from a map of field groups. -/
def readFrom (groups : Table (Table Json)) : Except Failure (List FieldGroup) :=
  ofJson (.obj (Table.mapValues .obj groups))

/-- Every map of field groups describes groups, and these are read from it. -/
theorem exists_described (groups : Table (Table Json)) :
    ∃ described, List.Forall₂ Describes groups described ∧ readFrom groups = .ok described := by
  refine ⟨groups.map fun entry => ⟨entry.1, ((Table.keys entry.2).map splitNames).flatten⟩, ?_, ?_⟩
  · refine List.forall₂_map_right_iff.mpr (List.forall₂_same.mpr fun entry _ => ⟨rfl, _, ?_, rfl⟩)
    exact List.forall₂_map_right_iff.mpr (List.forall₂_same.mpr fun key _ => lists_splitNames key)
  · refine mapM_eq_ok.mpr ?_
    rw [Table.mapValues, List.forall₂_map_left_iff, List.forall₂_map_right_iff]
    refine List.forall₂_same.mpr fun entry _ => except_bind_eq_ok.mpr ⟨_, ?_, rfl⟩
    refine except_bind_eq_ok.mpr ⟨_, rfl, except_bind_eq_ok.mpr ⟨_, mapM_eq_ok.mpr ?_, rfl⟩⟩
    rw [List.forall₂_map_left_iff, List.forall₂_map_right_iff]
    exact List.forall₂_same.mpr fun key _ => rfl

section Selection

variable {groups : List FieldGroup} {properties : List (String × Schema)} {name : String}

/-- The fields that groups mention, one group after the other. -/
def mentions (groups : List FieldGroup) : List String :=
  groups.flatMap (·.fields)

theorem mem_select {entry : String × Schema} :
    entry ∈ select groups properties ↔
      entry.1 ∈ mentions groups ∧ Table.get? properties entry.1 = some entry.2 := by
  obtain ⟨name, schema⟩ := entry
  simp [select, ordering, mentions, List.mem_filterMap]

theorem keys_select :
    Table.keys (select groups properties) = (ordering groups).filter (Table.has properties) := by
  unfold select Table.keys
  induction ordering groups with
  | nil => rfl
  | cons name rest ih =>
    rw [List.filterMap_cons, List.filter_cons, Table.has]
    cases Table.get? properties name <;> simpa using ih

theorem keys_select_nodup : (Table.keys (select groups properties)).Nodup := by
  rw [keys_select]
  exact (Text.unique_nodup _).filter _

/-- What has been selected is all that the groups select from it. -/
theorem select_select (groups : List FieldGroup) (properties : List (String × Schema)) :
    select groups (select groups properties) = select groups properties := by
  have found {name : String} (mentioned : name ∈ ordering groups) :
      Table.get? (select groups properties) name = Table.get? properties name := by
    cases given : Table.get? properties name with
    | some schema =>
      exact Table.get?_of_mem keys_select_nodup
        (mem_select.mpr ⟨Text.mem_unique.mp mentioned, given⟩)
    | none =>
      refine Table.get?_of_not_mem fun kept => ?_
      rw [keys_select, List.mem_filter, Table.has, given] at kept
      exact Bool.false_ne_true kept.2
  refine List.filterMap_congr fun name mentioned => ?_
  rw [found mentioned]

/-- The fields that groups open with. -/
def openings (groups : List FieldGroup) : List String :=
  groups.filterMap (·.fields.head?)

/-- The name of the last group that opens with a field. -/
def lastOpenedBy (groups : List FieldGroup) (name : String) : Option String :=
  (groups.reverse.find? fun group => group.fields.head? = some name).map (·.name)

theorem headings_concat (groups : List FieldGroup) (group : FieldGroup) :
    headings (groups ++ [group]) = group.fields.head?.elim (headings groups) fun first =>
      Table.insert first group.name (headings groups) := by
  unfold headings Table.ofEntries Table.update
  rw [List.filterMap_append, List.foldl_append]
  cases opening : group.fields.head? <;> simp [opening]

theorem get?_headings : Table.get? (headings groups) name = lastOpenedBy groups name := by
  induction groups using List.reverseRecOn with
  | nil => rfl
  | append_singleton groups group ih =>
    rw [headings_concat, lastOpenedBy, List.reverse_append, List.reverse_singleton,
      List.singleton_append]
    by_cases opens : group.fields.head? = some name
    · rw [List.find?_cons_of_pos (by simpa using opens), opens, Option.elim, Table.get?_insert,
        if_pos rfl, Option.map_some]
    · rw [List.find?_cons_of_neg (by simpa using opens)]
      cases opening : group.fields.head? with
      | none => exact ih
      | some first =>
        have other : first ≠ name := fun same => opens (opening.trans (congrArg some same))
        rw [Option.elim, Table.get?_insert, if_neg other]
        exact ih

theorem keys_headings : Table.keys (headings groups) = Text.unique (openings groups) := by
  have empty : (Table.keys ([] : Table String)).Nodup := List.nodup_nil
  have opened : Table.keys (groups.filterMap fun group => group.fields.head?.map fun first =>
      (first, group.name)) = openings groups := by
    rw [Table.keys, List.map_filterMap]
    simp [openings, Function.comp_def]
  rw [headings, Table.ofEntries, Table.keys_update empty, opened]
  rfl

/-- What groups keep of the properties of an object: those that they mention, each once and as it
is, in the order of first mention. A heading stands on a property that is kept, and is the name of
the last group that opens with it. -/
structure Keeps (groups : List FieldGroup) (properties kept : List (String × Schema))
    (headings : Table String) : Prop where
  property : ∀ name schema, (name, schema) ∈ kept ↔
    name ∈ mentions groups ∧ Table.get? properties name = some schema
  ordered : (Table.keys kept).Pairwise fun first second =>
    (mentions groups).idxOf first < (mentions groups).idxOf second
  heading : ∀ name, Table.get? headings name =
    if name ∈ Table.keys kept then lastOpenedBy groups name else none
  headingsOrdered : (Table.keys headings).Pairwise fun first second =>
    (openings groups).idxOf first < (openings groups).idxOf second

variable {kept : List (String × Schema)} {given : Table String}

theorem keeps_select (groups : List FieldGroup) (properties : List (String × Schema)) :
    Keeps groups properties (select groups properties)
      ((headings groups).filter fun entry => Table.has (select groups properties) entry.1) where
  property _ _ := mem_select
  ordered := by
    rw [keys_select]
    exact (Text.unique_idxOf _).filter _
  heading name := by
    rw [Table.get?_filter, get?_headings]
    simp only [Table.has_iff]
  headingsOrdered := by
    rw [Table.keys_filter, keys_headings]
    exact (Text.unique_idxOf _).filter _

/-- What groups keep is settled by what they mention. -/
theorem Keeps.unique {other : List (String × Schema)} {others : Table String}
    (keeps : Keeps groups properties kept given) (again : Keeps groups properties other others) :
    kept = other ∧ given = others := by
  have sameKeys : Table.keys kept = Table.keys other := by
    refine Text.eq_of_idxOf keeps.ordered again.ordered fun name => ?_
    simp [Table.keys, keeps.property, again.property]
  have same : kept = other := by
    refine Table.eq_of_keys sameKeys fun name schema held inside found => ?_
    have here := ((keeps.property name schema).mp inside).2
    have there := ((again.property name held).mp found).2
    exact Option.some.inj (here.symm.trans there)
  subst same
  have agree : ∀ name, Table.get? given name = Table.get? others name := fun name =>
    (keeps.heading name).trans (again.heading name).symm
  refine ⟨rfl, Table.eq_of_get? (Text.nodup_of_idxOf keeps.headingsOrdered) ?_ fun name _ =>
    agree name⟩
  refine Text.eq_of_idxOf keeps.headingsOrdered again.headingsOrdered fun name => ?_
  rw [Table.mem_keys_iff, Table.mem_keys_iff, agree]

end Selection

end FieldGroup

/-- A list that is not worked off fails at one of its members. -/
theorem mapM_eq_error {α β : Type} {f : α → Except Failure β} {xs : List α} {failure : Failure}
    (failed : xs.mapM f = .error failure) : ∃ x ∈ xs, f x = .error failure := by
  induction xs with
  | nil => cases failed
  | cons x xs ih =>
    rw [List.mapM_cons, except_bind_eq_error] at failed
    rcases failed with here | ⟨_, _, failed⟩
    · exact ⟨x, List.mem_cons_self, here⟩
    · rcases except_bind_eq_error.mp failed with later | ⟨_, _, failed⟩
      · obtain ⟨other, inside, failed⟩ := ih later
        exact ⟨other, List.mem_cons_of_mem _ inside, failed⟩
      · cases failed

section Pairs

variable {α β : Type} {xs : List α} {ys : List β} {related paired : α → β → Prop}

theorem forall₂_congr_of_mem (same : ∀ x ∈ xs, ∀ y, related x y ↔ paired x y) :
    List.Forall₂ related xs ys ↔ List.Forall₂ paired xs ys := by
  induction xs generalizing ys with
  | nil => simp
  | cons x xs ih =>
    obtain ⟨here, later⟩ := List.forall_mem_cons.mp same
    simp only [List.forall₂_cons_left_iff, here, ih later]

theorem exists_forall₂_iff : (∃ ys, List.Forall₂ related xs ys) ↔ ∀ x ∈ xs, ∃ y, related x y := by
  constructor
  · rintro ⟨ys, all⟩ x inside
    obtain ⟨y, _, here⟩ := exists_of_mem_right all.flip x inside
    exact ⟨y, here⟩
  · intro each
    induction xs with
    | nil => exact ⟨[], .nil⟩
    | cons x xs ih =>
      obtain ⟨⟨y, here⟩, later⟩ := List.forall_mem_cons.mp each
      obtain ⟨ys, all⟩ := ih later
      exact ⟨y :: ys, .cons here all⟩

end Pairs

section Schemas

mutual

/-- The schemas below the combinations of a schema: the schema itself or, of a combination, those of
its members. -/
def Schema.leaves : Schema → List Schema
  | .combined _ _ members => memberLeaves members
  | schema => [schema]

/-- The schemas below the combinations of several schemas. -/
def memberLeaves : List Schema → List Schema
  | [] => []
  | schema :: rest => schema.leaves ++ memberLeaves rest

end

theorem mem_memberLeaves {leaf : Schema} {members : List Schema} :
    leaf ∈ memberLeaves members ↔ ∃ member ∈ members, leaf ∈ member.leaves := by
  induction members with
  | nil => simp [memberLeaves]
  | cons member rest ih => simp [memberLeaves, ih]

/-- What curation makes of a schema. A combination is one of the curated members; an object that has
properties keeps what the groups keep of them, and is the same in all other respects; an object
without properties stays as it is. -/
inductive Schema.Curates (groups : List FieldGroup) : Schema → Schema → Prop where
  | combined {info : Info} {combinator : Combinator} {members curated : List Schema}
      (each : List.Forall₂ (Curates groups) members curated) :
      Curates groups (.combined info combinator members) (.combined info combinator curated)
  | bare {info : Info} {required : List Json} {additional : Additional} {headings : Table String} :
      Curates groups (.object info [] required additional headings)
        (.object info [] required additional headings)
  | object {info : Info} {properties kept : List (String × Schema)} {required : List Json}
      {additional : Additional} {old headings : Table String} (some : properties ≠ [])
      (keeps : FieldGroup.Keeps groups properties kept headings) :
      Curates groups (.object info properties required additional old)
        (.object info kept required additional headings)

variable {groups : List FieldGroup} {schema curated : Schema}

theorem curateMembers_eq (groups : Except Failure (List FieldGroup)) (members : List Schema) :
    curateMembers groups members = members.mapM (Schema.curate groups) := by
  induction members with
  | nil => rfl
  | cons first rest ih =>
    rw [curateMembers, List.mapM_cons, ih]

theorem curate_combined {info : Info} {combinator : Combinator} {members : List Schema} :
    (Schema.combined info combinator members).curate (.ok groups) = .ok curated ↔
      ∃ others, List.Forall₂ (fun member other => member.curate (.ok groups) = .ok other)
        members others ∧ .combined info combinator others = curated := by
  rw [Schema.curate, curateMembers_eq, except_bind_eq_ok]
  simp only [mapM_eq_ok, except_pure_eq_ok]

/-- Curation gives what the groups describe, and nothing else. -/
theorem Schema.curate_eq_ok_iff :
    schema.curate (.ok groups) = .ok curated ↔ schema.Curates groups curated := by
  induction schema using Schema.induction generalizing curated with
  | combined info combinator members ih =>
    rw [curate_combined]
    constructor
    · rintro ⟨others, made, rfl⟩
      exact .combined ((forall₂_congr_of_mem fun member inside _ => ih member inside).mp made)
    · rintro (made | _ | _)
      exact ⟨_, (forall₂_congr_of_mem fun member inside _ => ih member inside).mpr made, rfl⟩
  | object info properties required additional headings =>
    cases properties with
    | nil =>
      constructor
      · intro done
        cases done
        exact .bare
      · rintro (_ | _ | ⟨some, _⟩)
        · rfl
        · exact absurd rfl some
    | cons first rest =>
      constructor
      · intro done
        cases done
        exact .object (List.cons_ne_nil _ _) (FieldGroup.keeps_select _ _)
      · rintro (_ | _ | ⟨_, keeps⟩)
        obtain ⟨rfl, rfl⟩ := keeps.unique (FieldGroup.keeps_select _ _)
        rfl
  | reference | array | scalar | unsupported =>
    refine iff_of_false ?_ ?_
    · intro done
      cases done
    · intro curates
      cases curates

/-- Curation succeeds exactly if there are nothing but objects below the combinations. -/
theorem Schema.exists_curate_iff :
    (∃ curated, schema.curate (.ok groups) = .ok curated) ↔
      ∀ leaf ∈ schema.leaves, leaf.IsObject := by
  induction schema using Schema.induction with
  | combined info combinator members ih =>
    have leaves : (∀ leaf ∈ (combined info combinator members).leaves, leaf.IsObject) ↔
        ∀ member ∈ members, ∀ leaf ∈ member.leaves, leaf.IsObject := by
      simp only [Schema.leaves, mem_memberLeaves]
      exact ⟨fun each member inside leaf isLeaf => each leaf ⟨member, inside, isLeaf⟩,
        fun each leaf ⟨member, inside, isLeaf⟩ => each member inside leaf isLeaf⟩
    rw [leaves, ← forall₂_congr ih, ← exists_forall₂_iff]
    simp [curate_combined]
  | object info properties required additional headings =>
    refine iff_of_true ?_ (by simp [Schema.leaves, IsObject])
    cases properties with
    | nil => exact ⟨_, rfl⟩
    | cons => exact ⟨_, rfl⟩
  | reference | array | scalar | unsupported =>
    refine iff_of_false ?_ (by simp [Schema.leaves, IsObject])
    rintro ⟨_, done⟩
    cases done

/-- Curation fails for no other reason than that a schema is no object. -/
theorem Schema.curate_eq_error {failure : Failure}
    (failed : schema.curate (.ok groups) = .error failure) : failure = .notObjectSchema := by
  induction schema using Schema.induction with
  | combined info combinator members ih =>
    rw [Schema.curate, curateMembers_eq, except_bind_eq_error] at failed
    rcases failed with failed | ⟨_, _, failed⟩
    · obtain ⟨member, inside, failed⟩ := mapM_eq_error failed
      exact ih member inside failed
    · cases failed
  | object info properties required additional headings =>
    cases properties with
    | nil => cases failed
    | cons => cases failed
  | reference | array | scalar | unsupported =>
    cases failed
    rfl

/-- What has been curated stays as it is. -/
theorem Schema.curate_curated (done : schema.curate (.ok groups) = .ok curated) :
    curated.curate (.ok groups) = .ok curated := by
  induction schema using Schema.induction generalizing curated with
  | combined info combinator members ih =>
    obtain ⟨others, each, rfl⟩ := curate_combined.mp done
    refine curate_combined.mpr ⟨others, List.forall₂_same.mpr fun other inside => ?_, rfl⟩
    obtain ⟨member, isMember, made⟩ := exists_of_mem_right each other inside
    exact ih member isMember made
  | object info properties required additional headings =>
    cases properties with
    | nil =>
      cases done
      rfl
    | cons first rest =>
      cases done
      have again := FieldGroup.select_select groups (first :: rest)
      cases kept : FieldGroup.select groups (first :: rest) with
      | nil => rfl
      | cons next more =>
        rw [kept] at again
        exact congrArg Except.ok (by rw [again])
  | reference | array | scalar | unsupported => cases done

/-- Curation by a map of field groups. It succeeds exactly if there are nothing but objects below
the combinations of a schema, and fails because of another schema else. It makes of the schema what
the groups describe, and nothing more of what it has made. -/
theorem Schema.curation_by_groups (groups : Table (Table Json)) (schema : Schema) :
    ((∃ curated, schema.curate (FieldGroup.readFrom groups) = .ok curated) ↔
      ∀ leaf ∈ schema.leaves, leaf.IsObject) ∧
    (schema.curate (FieldGroup.readFrom groups) = .error .notObjectSchema ↔
      ∃ leaf ∈ schema.leaves, ¬ leaf.IsObject) ∧
    (∃ described, List.Forall₂ FieldGroup.Describes groups described ∧
      ∀ curated, schema.curate (FieldGroup.readFrom groups) = .ok curated ↔
        schema.Curates described curated) ∧
    (schema.curate (FieldGroup.readFrom groups) >>= curate (FieldGroup.readFrom groups)) =
      schema.curate (FieldGroup.readFrom groups) := by
  obtain ⟨described, describes, isRead⟩ := FieldGroup.exists_described groups
  rw [isRead]
  have succeeds : (∃ curated, schema.curate (.ok described) = .ok curated) ↔ _ :=
    Schema.exists_curate_iff
  refine ⟨succeeds, ?_, ⟨described, describes, fun curated => curate_eq_ok_iff⟩, ?_⟩
  · have fails : (∃ leaf ∈ schema.leaves, ¬ leaf.IsObject) ↔
        ¬ ∃ curated, schema.curate (.ok described) = .ok curated := by
      rw [succeeds]
      simp
    rw [fails]
    constructor
    · rintro failed ⟨curated, done⟩
      cases failed.symm.trans done
    · intro failed
      cases done : schema.curate (.ok described) with
      | error failure => rw [curate_eq_error done]
      | ok curated => exact absurd ⟨curated, done⟩ failed
  · cases done : schema.curate (.ok described) with
    | error failure => rfl
    | ok curated => exact curate_curated done

end Schemas

end SchemaPress
