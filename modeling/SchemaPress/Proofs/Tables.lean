import Mathlib.Data.List.Forall2
import SchemaPress.Table
import SchemaPress.Text.Pieces

/-! What lookup, keys and updates of ordered tables have to do with each other, and lists without
repetitions. -/

namespace SchemaPress

namespace Text

variable {α β γ : Type} [BEq α] [LawfulBEq α] [BEq β] [LawfulBEq β]

@[simp]
theorem mem_unique {item : α} {items : List α} : item ∈ unique items ↔ item ∈ items :=
  List.mem_eraseDups

theorem unique_nodup (items : List α) : (unique items).Nodup := by
  match items with
  | [] => exact List.nodup_nil
  | first :: rest =>
    have shorter : (rest.filter fun item => !item == first).length < rest.length + 1 :=
      Nat.lt_succ_of_le (List.length_filter_le _ rest)
    rw [unique, List.eraseDups_cons, List.nodup_cons]
    refine ⟨?_, unique_nodup (rest.filter fun item => !item == first)⟩
    simp
termination_by items.length

omit [LawfulBEq α] in
theorem unique_cons (first : α) (rest : List α) :
    unique (first :: rest) = first :: unique (rest.filter fun item => !item == first) :=
  List.eraseDups_cons

theorem unique_of_nodup {items : List α} (distinct : items.Nodup) : unique items = items := by
  induction items with
  | nil => rfl
  | cons first rest ih =>
    obtain ⟨fresh, distinct⟩ := List.nodup_cons.mp distinct
    have kept : (rest.filter fun item => !item == first) = rest := by
      refine List.filter_eq_self.mpr fun item inside => ?_
      have different : item ≠ first := fun same => fresh (same ▸ inside)
      simpa using different
    rw [unique_cons, kept, ih distinct]

theorem unique_filter (keep : α → Bool) (items : List α) :
    unique (items.filter keep) = (unique items).filter keep := by
  match items with
  | [] => rfl
  | first :: rest =>
    have shorter : (rest.filter fun item => !item == first).length < rest.length + 1 :=
      Nat.lt_succ_of_le (List.length_filter_le _ rest)
    have later := unique_filter keep (rest.filter fun item => !item == first)
    rw [unique_cons]
    by_cases kept : keep first = true
    · rw [List.filter_cons_of_pos kept, List.filter_cons_of_pos kept, unique_cons, ← later]
      simp only [List.filter_filter, Bool.and_comm]
    · rw [List.filter_cons_of_neg kept, List.filter_cons_of_neg kept, ← later, List.filter_filter]
      congr 1
      refine List.filter_congr fun item _ => ?_
      by_cases same : item = first
      · simp [same, kept]
      · simp [same]
termination_by items.length

theorem unique_append (first second : List α) :
    unique (first ++ second) =
      unique first ++ (unique second).filter fun item => !first.elem item := by
  rw [← unique_filter]
  exact List.eraseDups_append

theorem unique_append_congr {first second first' second' : List α}
    (same : unique first = unique first') (same' : unique second = unique second') :
    unique (first ++ second) = unique (first' ++ second') := by
  rw [unique_append, unique_append, same, same']
  have members : ∀ item, first.elem item = first'.elem item := by
    intro item
    rw [Bool.eq_iff_iff, List.elem_iff, List.elem_iff, ← mem_unique, same, mem_unique]
  simp only [members]

/-- What has occurred before adds nothing. -/
theorem unique_append_cons {first : List α} {item : α} (known : item ∈ first) (rest : List α) :
    unique (first ++ item :: rest) = unique (first ++ rest) := by
  have dropped : (!first.elem item) = false := by simpa using known
  rw [unique_append, unique_append, ← unique_filter, ← unique_filter, List.filter_cons, dropped,
    if_neg Bool.false_ne_true]

/-- An item is added at the end unless it has occurred before. -/
theorem unique_concat [DecidableEq α] {items : List α} (distinct : items.Nodup) (item : α) :
    unique (items ++ [item]) = if item ∈ items then items else items ++ [item] := by
  by_cases known : item ∈ items
  · rw [if_pos known, unique_append_cons known, List.append_nil, unique_of_nodup distinct]
  · rw [if_neg known, unique_of_nodup]
    simpa [List.nodup_append, distinct] using fun other inside => ne_of_mem_of_not_mem inside known

@[simp]
theorem unique_unique (items : List α) : unique (unique items) = unique items :=
  unique_of_nodup (unique_nodup items)

theorem unique_unique_append (first second : List α) :
    unique (unique first ++ second) = unique (first ++ second) :=
  unique_append_congr (unique_unique first) rfl

omit [LawfulBEq α] in
/-- First occurrences stand in the order of the list. -/
theorem unique_sublist (items : List α) : (unique items).Sublist items := by
  match items with
  | [] => exact List.Sublist.refl _
  | first :: rest =>
    have shorter : (rest.filter fun item => !item == first).length < rest.length + 1 :=
      Nat.lt_succ_of_le (List.length_filter_le _ rest)
    rw [unique_cons]
    exact ((unique_sublist _).trans List.filter_sublist).cons_cons first
termination_by items.length

/-- First occurrences stand in the order in which things occur first. -/
theorem unique_pairwise (items : List α) :
    (unique items).Pairwise fun first second =>
      ∃ before after, items = before ++ first :: after ∧ second ∉ before := by
  induction items with
  | nil => exact List.Pairwise.nil
  | cons item rest ih =>
    rw [unique_cons, unique_filter, List.pairwise_cons]
    refine ⟨fun second _ => ⟨[], rest, rfl, List.not_mem_nil⟩, ?_⟩
    refine (ih.filter _).imp_of_mem fun _ inside => ?_
    rintro ⟨before, after, rfl, unseen⟩
    have different := List.of_mem_filter inside
    exact ⟨item :: before, after, rfl, by simpa [unseen] using different⟩

theorem unique_flatMap_congr {items : List γ} {f g : γ → List α}
    (same : ∀ item ∈ items, unique (f item) = unique (g item)) :
    unique (items.flatMap f) = unique (items.flatMap g) := by
  induction items with
  | nil => rfl
  | cons first rest ih =>
    rw [List.flatMap_cons, List.flatMap_cons]
    exact unique_append_congr (same first List.mem_cons_self)
      (ih fun item inside => same item (List.mem_cons_of_mem _ inside))

theorem unique_map {f : α → β} (injective : Function.Injective f) (items : List α) :
    unique (items.map f) = (unique items).map f := by
  match items with
  | [] => rfl
  | first :: rest =>
    have shorter : (rest.filter fun item => !item == first).length < rest.length + 1 :=
      Nat.lt_succ_of_le (List.length_filter_le _ rest)
    have later := unique_map injective (rest.filter fun item => !item == first)
    rw [List.map_cons, unique_cons, unique_cons, List.map_cons, ← later, List.filter_map]
    congr 3
    refine List.filter_congr fun item _ => ?_
    have agree : f item = f first ↔ item = first := ⟨fun same => injective same, congrArg f⟩
    rw [Function.comp_apply, Bool.not_inj_iff, Bool.eq_iff_iff, beq_iff_eq, beq_iff_eq, agree]
termination_by items.length

end Text

namespace Table

variable {β γ : Type} {table other : Table β} {key : String} {value : β}

theorem mem_keys_of_mem (member : (key, value) ∈ table) : key ∈ keys table :=
  List.mem_map_of_mem member

theorem mem_of_get? (found : get? table key = some value) : (key, value) ∈ table := by
  induction table with
  | nil => cases found
  | cons entry rest ih =>
    obtain ⟨first, held⟩ := entry
    rw [get?] at found
    split at found
    · rename_i same
      cases found
      exact same ▸ List.mem_cons_self
    · exact List.mem_cons_of_mem _ (ih found)

theorem get?_of_mem (distinct : (keys table).Nodup) (member : (key, value) ∈ table) :
    get? table key = some value := by
  induction table with
  | nil => cases member
  | cons entry rest ih =>
    obtain ⟨first, held⟩ := entry
    obtain ⟨fresh, distinct⟩ := List.nodup_cons.mp distinct
    rcases List.mem_cons.mp member with here | later
    · cases here
      rw [get?, if_pos rfl]
    · have different : first ≠ key := fun same => fresh (same ▸ mem_keys_of_mem later)
      rw [get?, if_neg different, ih distinct later]

theorem get?_of_not_mem (absent : key ∉ keys table) : get? table key = none := by
  cases found : get? table key with
  | none => rfl
  | some value => exact absurd (mem_keys_of_mem (mem_of_get? found)) absent

theorem mem_keys_iff : key ∈ keys table ↔ ∃ value, get? table key = some value := by
  constructor
  · intro inside
    cases found : get? table key with
    | some value => exact ⟨value, rfl⟩
    | none =>
      induction table with
      | nil => cases inside
      | cons entry rest ih =>
        rw [get?] at found
        split at found
        · cases found
        · rename_i other
          exact ih ((List.mem_cons.mp inside).resolve_left (Ne.symm other)) found
  · rintro ⟨value, found⟩
    exact mem_keys_of_mem (mem_of_get? found)

/-- Keys and values that are related pairwise are those of a table. -/
theorem forall₂_iff {holds : String → β → Prop} {names : List String} {found : List β} :
    List.Forall₂ holds names found ↔ ∃ table : Table β, keys table = names ∧
      values table = found ∧ ∀ entry ∈ table, holds entry.1 entry.2 := by
  constructor
  · intro each
    have sized := each.length_eq
    refine ⟨names.zip found, List.map_fst_zip (Nat.le_of_eq sized),
      List.map_snd_zip (Nat.le_of_eq sized.symm), ?_⟩
    rintro ⟨name, value⟩ inside
    exact List.forall₂_zip each inside
  · rintro ⟨table, rfl, rfl, each⟩
    refine List.forall₂_map_left_iff.mpr (List.forall₂_map_right_iff.mpr ?_)
    exact List.forall₂_same.mpr each

/-- Values for keys make up a table. -/
theorem exists_of_keys {holds : String → β → Prop} {names : List String}
    (each : ∀ name ∈ names, ∃ value, holds name value) :
    ∃ table : Table β, keys table = names ∧ ∀ entry ∈ table, holds entry.1 entry.2 := by
  induction names with
  | nil => exact ⟨[], rfl, nofun⟩
  | cons name rest ih =>
    obtain ⟨value, held⟩ := each name List.mem_cons_self
    obtain ⟨table, isKeys, others⟩ := ih fun name later => each name (List.mem_cons_of_mem _ later)
    refine ⟨(name, value) :: table, ?_, List.forall_mem_cons.mpr ⟨held, others⟩⟩
    rw [← isKeys]
    rfl

/-- What the values of a table give, taken in the order of its keys. -/
theorem flatMap_of_keys {α : Type} {path : α → String} {names : List α} (f : β → List γ)
    {g : α → List γ} (isKeys : keys table = names.map path)
    (each : ∀ name ∈ names, ∀ value, (path name, value) ∈ table → f value = g name) :
    (table.flatMap fun entry => f entry.2) = names.flatMap g := by
  induction names generalizing table with
  | nil =>
    obtain rfl : table = [] := List.map_eq_nil_iff.mp isKeys
    rfl
  | cons name rest ih =>
    obtain ⟨⟨_, value⟩, later, rfl, rfl, others⟩ := List.map_eq_cons_iff.mp isKeys
    have here := each name List.mem_cons_self value List.mem_cons_self
    rw [List.flatMap_cons, List.flatMap_cons, here, ih others]
    exact fun name inside value held =>
      each name (List.mem_cons_of_mem _ inside) value (List.mem_cons_of_mem _ held)

@[simp]
theorem keys_mapValues (f : β → γ) (table : Table β) : keys (mapValues f table) = keys table := by
  simp [keys, mapValues]

theorem get?_mapValues (f : β → γ) (table : Table β) (key : String) :
    get? (mapValues f table) key = (get? table key).map f := by
  induction table with
  | nil => rfl
  | cons entry rest ih =>
    simp only [mapValues, List.map_cons, get?] at ih ⊢
    split
    · rfl
    · exact ih

/-- Setting a key changes what is found under that key only. -/
theorem get?_insert (table : Table β) (key other : String) (value : β) :
    get? (insert key value table) other = if key = other then some value else get? table other := by
  induction table with
  | nil => rfl
  | cons entry rest ih =>
    obtain ⟨first, held⟩ := entry
    by_cases same : first = key
    · subst same
      simp only [insert, if_true, get?]
      split <;> rfl
    · simp only [insert, if_neg same, get?, ih]
      by_cases here : first = other
      · have different : key ≠ other := fun equal => same (here.trans equal.symm)
        simp [here, different]
      · simp [here]

theorem mem_of_insert {entry : String × β} (member : entry ∈ insert key value table) :
    entry = (key, value) ∨ entry ∈ table := by
  induction table with
  | nil => exact .inl (List.mem_singleton.mp member)
  | cons first rest ih =>
    rw [insert] at member
    split at member
    · rcases List.mem_cons.mp member with here | later
      · exact .inl here
      · exact .inr (List.mem_cons_of_mem _ later)
    · rcases List.mem_cons.mp member with here | later
      · exact .inr (here ▸ List.mem_cons_self)
      · exact (ih later).imp_right (List.mem_cons_of_mem _)

theorem mem_of_update {entry : String × β} (member : entry ∈ update table other) :
    entry ∈ table ∨ entry ∈ other := by
  induction other generalizing table with
  | nil => exact .inl member
  | cons first rest ih =>
    have member : entry ∈ update (insert first.1 first.2 table) rest := member
    rcases ih member with inside | later
    · rcases mem_of_insert inside with here | inside
      · exact .inr (here ▸ List.mem_cons_self)
      · exact .inl inside
    · exact .inr (List.mem_cons_of_mem _ later)

theorem mem_keys_insert {other : String} :
    other ∈ keys (insert key value table) ↔ other = key ∨ other ∈ keys table := by
  induction table with
  | nil => simp [insert, keys]
  | cons first rest ih =>
    rw [insert]
    split
    · rename_i same
      simp [keys, same]
    · simp only [keys, List.map_cons, List.mem_cons] at ih ⊢
      rw [ih]
      exact or_left_comm

theorem mem_keys_update {name : String} :
    name ∈ keys (update table other) ↔ name ∈ keys table ∨ name ∈ keys other := by
  induction other generalizing table with
  | nil => simp [update, keys]
  | cons first rest ih =>
    show name ∈ keys (update (insert first.1 first.2 table) rest) ↔ _
    rw [ih, mem_keys_insert]
    simp only [keys, List.map_cons, List.mem_cons]
    exact or_assoc.trans or_left_comm

theorem nodup_keys_insert (distinct : (keys table).Nodup) :
    (keys (insert key value table)).Nodup := by
  induction table with
  | nil => simp [insert, keys]
  | cons first rest ih =>
    obtain ⟨fresh, distinct⟩ := List.nodup_cons.mp distinct
    rw [insert]
    split
    · rename_i same
      exact List.nodup_cons.mpr ⟨same ▸ fresh, distinct⟩
    · rename_i different
      refine List.nodup_cons.mpr ⟨fun inside => ?_, ih distinct⟩
      rcases mem_keys_insert.mp inside with same | inside
      · exact different same
      · exact fresh inside

/-- A table that is updated still has an entry for each key. -/
theorem nodup_keys_update (distinct : (keys table).Nodup) :
    (keys (update table other)).Nodup := by
  induction other generalizing table with
  | nil => exact distinct
  | cons first rest ih => exact ih (nodup_keys_insert distinct)

theorem insert_of_not_mem (absent : key ∉ keys table) :
    insert key value table = table ++ [(key, value)] := by
  induction table with
  | nil => rfl
  | cons entry rest ih =>
    obtain ⟨first, held⟩ := entry
    have different : first ≠ key := (List.ne_of_not_mem_cons absent).symm
    rw [insert, if_neg different, ih (List.not_mem_of_not_mem_cons absent)]
    rfl

theorem keys_insert_of_mem (present : key ∈ keys table) :
    keys (insert key value table) = keys table := by
  induction table with
  | nil => cases present
  | cons first rest ih =>
    rw [insert]
    split
    · rename_i same
      rw [← same]
      rfl
    · rename_i different
      exact congrArg (first.1 :: ·) (ih ((List.mem_cons.mp present).resolve_left (Ne.symm different)))

/-- The keys of a table that is updated are the first occurrences of the keys of both. -/
theorem keys_update (distinct : (keys table).Nodup) :
    keys (update table other) = Text.unique (keys table ++ keys other) := by
  induction other generalizing table with
  | nil =>
    show keys table = Text.unique (keys table ++ [])
    rw [List.append_nil, Text.unique_of_nodup distinct]
  | cons first rest ih =>
    show keys (update (insert first.1 first.2 table) rest) = _
    rw [ih (nodup_keys_insert distinct)]
    show _ = Text.unique (keys table ++ first.1 :: keys rest)
    by_cases present : first.1 ∈ keys table
    · rw [keys_insert_of_mem present, Text.unique_append_cons present]
    · rw [insert_of_not_mem present]
      simp [keys]

/-- A table is known by its keys and by what stands under them. -/
theorem eq_of_keys (sameKeys : keys table = keys other)
    (agree : ∀ key value held, (key, value) ∈ table → (key, held) ∈ other → value = held) :
    table = other := by
  induction table generalizing other with
  | nil => exact (List.map_eq_nil_iff.mp sameKeys.symm).symm
  | cons first rest ih =>
    obtain ⟨⟨_, held⟩, later, rfl, rfl, others⟩ := List.map_eq_cons_iff.mp sameKeys.symm
    have same := agree first.1 first.2 held List.mem_cons_self List.mem_cons_self
    rw [ih others.symm fun key value held inside found =>
      agree key value held (List.mem_cons_of_mem _ inside) (List.mem_cons_of_mem _ found), ← same]

theorem mapValues_insert (f : β → γ) (table : Table β) (key : String) (value : β) :
    mapValues f (insert key value table) = insert key (f value) (mapValues f table) := by
  induction table with
  | nil => rfl
  | cons first rest ih =>
    simp only [mapValues, insert, List.map_cons] at ih ⊢
    split <;> simp [ih]

theorem mapValues_update (f : β → γ) (table other : Table β) :
    mapValues f (update table other) = update (mapValues f table) (mapValues f other) := by
  induction other generalizing table with
  | nil => rfl
  | cons first rest ih =>
    show mapValues f (update (insert first.1 first.2 table) rest) = _
    rw [ih, mapValues_insert]
    rfl

/-- Entries under new keys go to the end, in their order. -/
theorem update_of_disjoint (distinct : (keys other).Nodup)
    (apart : ∀ key ∈ keys other, key ∉ keys table) : update table other = table ++ other := by
  induction other generalizing table with
  | nil => exact (List.append_nil table).symm
  | cons entry rest ih =>
    obtain ⟨key, value⟩ := entry
    obtain ⟨fresh, distinct⟩ := List.nodup_cons.mp distinct
    have absent : key ∉ keys table := apart key List.mem_cons_self
    have added : update table ((key, value) :: rest) = update (table ++ [(key, value)]) rest := by
      rw [← insert_of_not_mem absent]
      rfl
    rw [added, ih distinct ?_, List.append_assoc]
    · rfl
    · intro later member
      have different : later ≠ key := fun same => fresh (same ▸ member)
      simpa [keys, different] using apart later (List.mem_cons_of_mem _ member)

theorem get?_update_of_not_mem (absent : key ∉ keys other) :
    get? (update table other) key = get? table key := by
  induction other generalizing table with
  | nil => rfl
  | cons entry rest ih =>
    have different : entry.1 ≠ key := (List.ne_of_not_mem_cons absent).symm
    show get? (update (insert entry.1 entry.2 table) rest) key = _
    rw [ih (List.not_mem_of_not_mem_cons absent), get?_insert, if_neg different]

/-- After an update, the entries that were set are found. -/
theorem get?_update_of_mem (table : Table β) (distinct : (keys other).Nodup)
    (member : (key, value) ∈ other) : get? (update table other) key = some value := by
  induction other generalizing table with
  | nil => cases member
  | cons entry rest ih =>
    obtain ⟨fresh, distinct⟩ := List.nodup_cons.mp distinct
    rcases List.mem_cons.mp member with rfl | member
    · show get? (update (insert key value table) rest) key = _
      rw [get?_update_of_not_mem fresh, get?_insert, if_pos rfl]
    · exact ih (insert entry.1 entry.2 table) distinct member

end Table

end SchemaPress
