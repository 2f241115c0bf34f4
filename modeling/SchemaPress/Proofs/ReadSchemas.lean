import Mathlib.Logic.Relation
import SchemaPress.Document
import SchemaPress.Proofs.Results
import SchemaPress.Proofs.Tables

/-! Which values can be read as schemas. What cannot be expressed is read as an unsupported schema,
and a constraint of a wrong type is dropped. But the members of a combination, the properties of an
object and the names that it requires are run through without a look at what they are: a value is
rejected exactly if one of these cannot be run through, in the value itself or in what is read
inside. -/

namespace SchemaPress

open Relation (ReflTransGen)

namespace Json

/-- The values right inside a value. -/
def parts : Json → List Json
  | .arr items => items
  | .obj entries => Table.values entries
  | _ => []

/-- Induction over a value and the values in it. -/
@[elab_as_elim]
theorem induction {motive : Json → Prop}
    (step : ∀ value, (∀ part ∈ value.parts, motive part) → motive value) (value : Json) :
    motive value := by
  refine @Json.rec motive (fun items => ∀ item ∈ items, motive item)
    (fun entries => ∀ value ∈ Table.values entries, motive value) (fun entry => motive entry.2)
    (step _ (List.forall_mem_nil _)) (fun _ => step _ (List.forall_mem_nil _))
    (fun _ => step _ (List.forall_mem_nil _)) (fun _ => step _ (List.forall_mem_nil _))
    (fun _ => step _ (List.forall_mem_nil _)) (fun _ each => step _ each)
    (fun _ each => step _ each) (List.forall_mem_nil _)
    (fun _ _ here later => List.forall_mem_cons.mpr ⟨here, later⟩) (List.forall_mem_nil _)
    (fun _ _ here later => List.forall_mem_cons.mpr ⟨here, later⟩) (fun _ _ held => held) value

/-- A value can be run through: it is a list, a text or an object. -/
def IsCollection : Json → Prop
  | .arr _ | .str _ | .obj _ => True
  | .null | .bool _ | .int _ | .double _ => False

/-- What an entry says that is not null, it is there to say. -/
theorem optional_eq {entries : Table Json} {key : String} {value : Json}
    (given : optional entries key = value) (some : value ≠ .null) :
    Table.get? entries key = .some value := by
  unfold optional at given
  cases found : Table.get? entries key with
  | none => simp [found, some.symm] at given
  | some other => simpa [found] using given

end Json

/-- A function that goes through entries until it comes to a key is a lookup of the key. -/
theorem Table.eq_elim_get? {β γ : Type} {absent : γ} {present : β → γ} {key : String}
    (scan : Table β → γ) (nil : scan [] = absent)
    (cons : ∀ name value rest, scan ((name, value) :: rest) =
      if name = key then present value else scan rest) (entries : Table β) :
    scan entries = (get? entries key).elim absent present := by
  induction entries with
  | nil => exact nil
  | cons entry rest ih =>
    rw [cons, get?]
    split
    · rfl
    · exact ih

section Settling

variable {α β : Type} {holds more : Prop}

/-- A computation comes to an end if a condition holds, and fails over a value of a wrong type if it
does not. -/
def Settles (holds : Prop) (x : Except Failure α) : Prop :=
  (holds ∧ ∃ a, x = .ok a) ∨ (¬ holds ∧ ∃ mismatch, x = .error (.mismatch mismatch))

theorem Settles.congr {x : Except Failure α} (settles : Settles holds x) (same : holds ↔ more) :
    Settles more x := by
  rwa [← propext same]

theorem settles_ok {a : α} (yes : holds) : Settles holds (.ok a : Except Failure α) :=
  .inl ⟨yes, a, rfl⟩

theorem settles_error {mismatch : Mismatch} (no : ¬ holds) :
    Settles holds (.error (.mismatch mismatch) : Except Failure α) :=
  .inr ⟨no, mismatch, rfl⟩

theorem Settles.bind {x : Except Failure α} {f : α → Except Failure β} (first : Settles holds x)
    (rest : ∀ a, Settles more (f a)) : Settles (holds ∧ more) (x >>= f) := by
  rcases first with ⟨here, a, rfl⟩ | ⟨fault, mismatch, rfl⟩
  · exact (rest a).congr (by simp [here])
  · exact settles_error fun both => fault both.1

theorem Settles.map {x : Except Failure α} (settles : Settles holds x) (f : α → β) :
    Settles holds (x >>= fun a => pure (f a)) :=
  (settles.bind fun _ => settles_ok trivial).congr (by simp)

theorem mapM_settles {f : α → Except Failure β} {wanted : α → Prop} {xs : List α}
    (each : ∀ x ∈ xs, Settles (wanted x) (f x)) : Settles (∀ x ∈ xs, wanted x) (xs.mapM f) := by
  induction xs with
  | nil => exact settles_ok (List.forall_mem_nil _)
  | cons x xs ih =>
    obtain ⟨here, later⟩ := List.forall_mem_cons.mp each
    rw [List.mapM_cons]
    exact (here.bind fun _ => (ih later).map _).congr (by simp)

theorem Settles.exists_iff {x : Except Failure α} (settles : Settles holds x) :
    (∃ a, x = .ok a) ↔ holds := by
  rcases settles with ⟨yes, isOk⟩ | ⟨no, mismatch, rfl⟩
  · exact iff_of_true isOk yes
  · refine iff_of_false ?_ no
    rintro ⟨_, isOk⟩
    cases isOk

theorem Settles.fails_iff {x : Except Failure α} (settles : Settles holds x) :
    (∃ mismatch, x = .error (.mismatch mismatch)) ↔ ¬ holds := by
  rcases settles with ⟨yes, a, rfl⟩ | ⟨no, isError⟩
  · refine iff_of_false ?_ (not_not_intro yes)
    rintro ⟨_, isError⟩
    cases isError
  · exact iff_of_true isError no

end Settling

namespace Schema

/-- An object is read as a combination. -/
def IsCombination (entries : Table Json) (combinator : Combinator) : Prop :=
  Table.get? entries "$ref" = none ∧ combinatorOf entries = some combinator

/-- An object is read by the type that it states. -/
def IsTyped (entries : Table Json) (type : TypeName) : Prop :=
  Table.get? entries "$ref" = none ∧ combinatorOf entries = none ∧
    TypeName.ofEntries entries = type

/-- The values right inside a value that are read as schemas. -/
inductive Reads : Json → Json → Prop where
  | member {entries : Table Json} {combinator : Combinator} {items : List Json} {item : Json}
      (combination : IsCombination entries combinator)
      (listed : Json.optional entries combinator.key = .arr items) (inside : item ∈ items) :
      Reads (.obj entries) item
  | items {entries : Table Json} {value : Json} (typed : IsTyped entries .array)
      (found : Table.get? entries "items" = some value) : Reads (.obj entries) value
  | property {entries properties : Table Json} {value : Json} (typed : IsTyped entries .object)
      (listed : Json.optional entries "properties" = .obj properties)
      (inside : value ∈ Table.values properties) : Reads (.obj entries) value
  | additional {entries : Table Json} {value : Json} (typed : IsTyped entries .object)
      (found : Table.get? entries "additionalProperties" = some value)
      (isObject : value.isObject = true) : Reads (.obj entries) value

/-- A value says something that cannot be run through: the members of a combination, the properties
of an object or the names that it requires are no collection, properties are no object, or a name is
a list or an object. Properties and required names may be absent or empty in any way. -/
inductive Malformed : Json → Prop where
  | members {entries : Table Json} {combinator : Combinator}
      (combination : IsCombination entries combinator)
      (fault : ¬ (Json.optional entries combinator.key).IsCollection) : Malformed (.obj entries)
  | properties {entries : Table Json} (typed : IsTyped entries .object)
      (given : (Json.optional entries "properties").isTruthy = true)
      (fault : (Json.optional entries "properties").isObject = false) : Malformed (.obj entries)
  | required {entries : Table Json} (typed : IsTyped entries .object)
      (given : (Json.optional entries "required").isTruthy = true)
      (fault : ¬ (Json.optional entries "required").IsCollection) : Malformed (.obj entries)
  | name {entries : Table Json} {names : List Json} {name : Json}
      (typed : IsTyped entries .object) (listed : Json.optional entries "required" = .arr names)
      (inside : name ∈ names) (fault : name.isKey = false) : Malformed (.obj entries)

/-- Something that is read in a value, at whatever depth, is malformed. -/
def Rejects (value : Json) : Prop :=
  ∃ inner, ReflTransGen Reads value inner ∧ Malformed inner

theorem rejects_iff {value : Json} :
    Rejects value ↔ Malformed value ∨ ∃ inner, Reads value inner ∧ Rejects inner := by
  constructor
  · rintro ⟨last, reached, malformed⟩
    rcases ReflTransGen.cases_head reached with rfl | ⟨inner, reads, reached⟩
    · exact .inl malformed
    · exact .inr ⟨inner, reads, last, reached, malformed⟩
  · rintro (malformed | ⟨inner, reads, last, reached, malformed⟩)
    · exact ⟨value, .refl, malformed⟩
    · exact ⟨last, .head reads reached, malformed⟩

theorem Reads.inside {value inner : Json} (reads : Reads value inner) :
    inner ∈ value.parts ∨ ∃ part ∈ value.parts, inner ∈ part.parts := by
  have held {entries : Table Json} {key : String} {value : Json}
      (found : Table.get? entries key = some value) : value ∈ (Json.obj entries).parts :=
    List.mem_map_of_mem (Table.mem_of_get? found)
  cases reads with
  | member _ listed inside => exact .inr ⟨_, held (Json.optional_eq listed (by simp)), inside⟩
  | items _ found => exact .inl (held found)
  | property _ listed inside => exact .inr ⟨_, held (Json.optional_eq listed (by simp)), inside⟩
  | additional _ found => exact .inl (held found)

/-- Induction over a value along what is read in it. -/
@[elab_as_elim]
theorem reads_induction {motive : Json → Prop}
    (step : ∀ value, (∀ inner, Reads value inner → motive inner) → motive value) (value : Json) :
    motive value := by
  -- What is read may stand two levels down, so the values right inside are carried along.
  suffices both : motive value ∧ ∀ part ∈ value.parts, motive part from both.1
  induction value using Json.induction with
  | step value ih =>
    refine ⟨step value fun inner reads => ?_, fun part inside => (ih part inside).1⟩
    rcases reads.inside with inside | ⟨part, inside, deeper⟩
    · exact (ih inner inside).1
    · exact (ih part inside).2 inner deeper

section Forms

variable {entries : Table Json} {combinator : Combinator} {type : TypeName}

theorem IsCombination.unique {other : Combinator} (combination : IsCombination entries combinator)
    (again : IsCombination entries other) : other = combinator :=
  Option.some.inj (again.2.symm.trans combination.2)

theorem IsCombination.not_typed (combination : IsCombination entries combinator) :
    ¬ IsTyped entries type := by
  intro typed
  cases combination.2.symm.trans typed.2.1

theorem IsTyped.unique {other : TypeName} (typed : IsTyped entries type)
    (again : IsTyped entries other) : other = type :=
  again.2.2.symm.trans typed.2.2

/-- What an object that is neither a combination nor an array nor an object says is never
rejected. -/
theorem not_rejects_other (noCombination : ∀ combinator, ¬ IsCombination entries combinator)
    (noArray : ¬ IsTyped entries .array) (noObject : ¬ IsTyped entries .object) :
    ¬ Rejects (.obj entries) := by
  intro rejected
  rcases rejects_iff.mp rejected with malformed | ⟨inner, reads, _⟩
  · cases malformed with
    | members combination => exact noCombination _ combination
    | properties typed | required typed | name typed => exact noObject typed
  · cases reads with
    | member combination => exact noCombination _ combination
    | items typed => exact noArray typed
    | property typed | additional typed => exact noObject typed

theorem not_rejects_combination (combination : IsCombination entries combinator) :
    ¬ Rejects (.obj entries) ↔ (Json.optional entries combinator.key).IsCollection ∧
      ∀ items, Json.optional entries combinator.key = .arr items →
        ∀ item ∈ items, ¬ Rejects item := by
  constructor
  · intro accepted
    constructor
    · by_contra fault
      exact accepted (rejects_iff.mpr (.inl (.members combination fault)))
    · exact fun items listed item inside rejected =>
        accepted (rejects_iff.mpr (.inr ⟨item, .member combination listed inside, rejected⟩))
  · rintro ⟨collection, each⟩ rejected
    rcases rejects_iff.mp rejected with malformed | ⟨inner, reads, rejected⟩
    · cases malformed with
      | members again fault =>
        obtain rfl := combination.unique again
        exact fault collection
      | properties typed | required typed | name typed => exact combination.not_typed typed
    · cases reads with
      | member again listed inside =>
        obtain rfl := combination.unique again
        exact each _ listed inner inside rejected
      | items typed | property typed | additional typed => exact combination.not_typed typed

theorem not_rejects_array (typed : IsTyped entries .array) :
    ¬ Rejects (.obj entries) ↔ ∀ value, Table.get? entries "items" = some value →
      ¬ Rejects value := by
  constructor
  · exact fun accepted value found rejected =>
      accepted (rejects_iff.mpr (.inr ⟨value, .items typed found, rejected⟩))
  · intro each rejected
    rcases rejects_iff.mp rejected with malformed | ⟨inner, reads, rejected⟩
    · cases malformed with
      | members combination => exact combination.not_typed typed
      | properties again | required again | name again => cases typed.unique again
    · cases reads with
      | member combination => exact combination.not_typed typed
      | items _ found => exact each inner found rejected
      | property again | additional again => cases typed.unique again

theorem not_rejects_object (typed : IsTyped entries .object) :
    ¬ Rejects (.obj entries) ↔
      (((Json.optional entries "properties").isTruthy = true →
          (Json.optional entries "properties").isObject = true) ∧
        ∀ properties, Json.optional entries "properties" = .obj properties →
          ∀ value ∈ Table.values properties, ¬ Rejects value) ∧
      (∀ value, Table.get? entries "additionalProperties" = some value →
        value.isObject = true → ¬ Rejects value) ∧
      ((Json.optional entries "required").isTruthy = true →
        (Json.optional entries "required").IsCollection) ∧
      ∀ names, Json.optional entries "required" = .arr names →
        ∀ name ∈ names, name.isKey = true := by
  constructor
  · intro accepted
    have sound : ¬ Malformed (.obj entries) := fun malformed =>
      accepted (rejects_iff.mpr (.inl malformed))
    have each : ∀ inner, Reads (.obj entries) inner → ¬ Rejects inner := fun inner reads rejected =>
      accepted (rejects_iff.mpr (.inr ⟨inner, reads, rejected⟩))
    refine ⟨⟨fun given => ?_, fun properties listed value inside =>
      each value (.property typed listed inside)⟩, fun value found isObject =>
      each value (.additional typed found isObject), fun given => ?_,
      fun names listed name inside => ?_⟩
    · by_contra fault
      exact sound (.properties typed given (by simpa using fault))
    · by_contra fault
      exact sound (.required typed given fault)
    · by_contra fault
      exact sound (.name typed listed inside (by simpa using fault))
  · rintro ⟨⟨isObject, properties⟩, additional, isCollection, areKeys⟩ rejected
    rcases rejects_iff.mp rejected with malformed | ⟨inner, reads, rejected⟩
    · cases malformed with
      | members combination => exact combination.not_typed typed
      | properties _ given fault => simp [isObject given] at fault
      | required _ given fault => exact fault (isCollection given)
      | name _ listed inside fault => simp [areKeys _ listed _ inside] at fault
    · cases reads with
      | member combination => exact combination.not_typed typed
      | items again => cases typed.unique again
      | property _ listed inside => exact properties _ listed inner inside rejected
      | additional _ found isObject => exact additional inner found isObject rejected

end Forms

section Reading

variable {path : String} {combinator : Combinator} {entries : Table Json} {items : List Json}

theorem membersOf_eq (isCombinator : combinatorOf entries = some combinator) :
    membersOf path combinator entries =
      members path combinator (Json.optional entries combinator.key) := by
  have given := List.find?_some isCombinator
  rw [Table.eq_elim_get? (membersOf path combinator) rfl (fun _ _ _ => rfl)]
  unfold Json.optional at given ⊢
  cases found : Table.get? entries combinator.key with
  | none => simp [found, Json.isNull] at given
  | some value => rfl

theorem propertiesOf_eq :
    propertiesOf path entries = properties path (Json.optional entries "properties") := by
  rw [Table.eq_elim_get? (propertiesOf path) rfl (fun _ _ _ => rfl), Json.optional]
  cases Table.get? entries "properties" with
  | none => rfl
  | some value => rfl

theorem membersFrom_settles (index : Nat)
    (each : ∀ item ∈ items, ∀ path, Settles (¬ Rejects item) (ofJson path item)) :
    Settles (∀ item ∈ items, ¬ Rejects item) (membersFrom path combinator index items) := by
  induction items generalizing index with
  | nil => exact settles_ok (List.forall_mem_nil _)
  | cons first rest ih =>
    obtain ⟨here, later⟩ := List.forall_mem_cons.mp each
    exact ((here _).bind fun _ => (ih (index + 1) later).map _).congr (by simp)

theorem propertyList_settles
    (each : ∀ value ∈ Table.values entries, ∀ path, Settles (¬ Rejects value) (ofJson path value)) :
    Settles (∀ value ∈ Table.values entries, ¬ Rejects value) (propertyList path entries) := by
  induction entries with
  | nil => exact settles_ok (List.forall_mem_nil _)
  | cons first rest ih =>
    obtain ⟨here, later⟩ := List.forall_mem_cons.mp each
    exact ((here _).bind fun _ => (ih later).map _).congr (by simp [Table.values])

theorem members_settles {value : Json} (each : ∀ items, value = .arr items →
      ∀ item ∈ items, ∀ path, Settles (¬ Rejects item) (ofJson path item)) :
    Settles (value.IsCollection ∧ ∀ items, value = .arr items → ∀ item ∈ items, ¬ Rejects item)
      (members path combinator value) := by
  cases value with
  | arr items => exact (membersFrom_settles 0 (each items rfl)).congr (by simp [Json.IsCollection])
  | str | obj => exact settles_ok (by simp [Json.IsCollection])
  | null | bool | int | double => exact settles_error fun both => both.1

theorem properties_settles {value : Json} (each : ∀ entries, value = .obj entries →
      ∀ value ∈ Table.values entries, ∀ path, Settles (¬ Rejects value) (ofJson path value)) :
    Settles ((value.isTruthy = true → value.isObject = true) ∧
        ∀ entries, value = .obj entries → ∀ value ∈ Table.values entries, ¬ Rejects value)
      (properties path value) := by
  cases value with
  | obj entries => exact (propertyList_settles (each entries rfl)).congr (by simp [Json.isObject])
  | null | bool | int | double | str | arr =>
    unfold properties
    split
    · rename_i given
      exact settles_error fun both => Bool.false_ne_true (both.1 given)
    · rename_i absent
      exact settles_ok (by simp [absent])

theorem asKeySet_settles (value : Json) :
    Settles (value.IsCollection ∧
      ∀ names, value = .arr names → ∀ name ∈ names, name.isKey = true) value.asKeySet := by
  have asKey (name : Json) : Settles (name.isKey = true) name.asKey := by
    unfold Json.asKey
    split
    · rename_i isKey
      exact settles_ok isKey
    · rename_i fault
      exact settles_error fault
  have keySet (names : List Json) : Settles (∀ name ∈ names, name.isKey = true)
      (do return (← names.mapM Json.asKey).foldl Json.addKey []) :=
    (mapM_settles fun name _ => asKey name).map _
  cases value with
  | arr names => exact (keySet names).congr (by simp [Json.IsCollection])
  | str | obj => exact (keySet _).congr (by simp [Json.IsCollection, Json.isKey])
  | null | bool | int | double => exact settles_error fun both => both.1

theorem requiredOf_settles :
    Settles (((Json.optional entries "required").isTruthy = true →
        (Json.optional entries "required").IsCollection) ∧
      ∀ names, Json.optional entries "required" = .arr names → ∀ name ∈ names, name.isKey = true)
      (requiredOf entries) := by
  unfold requiredOf
  dsimp only
  split
  · rename_i given
    exact (asKeySet_settles _).congr (by simp [given])
  · rename_i absent
    refine settles_ok ⟨fun given => absurd given absent, fun names isNames => ?_⟩
    have none : names = [] := by simpa [isNames, Json.isTruthy] using absent
    rw [none]
    exact List.forall_mem_nil _

theorem additionalOf_settles
    (each : ∀ value, Table.get? entries "additionalProperties" = some value →
      value.isObject = true → ∀ path, Settles (¬ Rejects value) (ofJson path value)) :
    Settles (∀ value, Table.get? entries "additionalProperties" = some value →
      value.isObject = true → ¬ Rejects value) (additionalOf path entries) := by
  rw [Table.eq_elim_get? (additionalOf path) rfl (fun _ _ _ => rfl)]
  cases found : Table.get? entries "additionalProperties" with
  | none => exact settles_ok (by simp)
  | some value =>
    rw [Option.elim]
    split
    · rename_i isObject
      exact ((each value found isObject _).map _).congr (by simp [isObject])
    · rename_i other
      exact settles_ok (by simp [other])

theorem arrayOf_settles {info : Info} {constraint : String → Json} (typed : IsTyped entries .array)
    (each : ∀ inner, Reads (.obj entries) inner →
      ∀ path, Settles (¬ Rejects inner) (ofJson path inner)) :
    Settles (¬ Rejects (.obj entries)) (arrayOf path info constraint entries) := by
  rw [Table.eq_elim_get? (arrayOf path info constraint) rfl (fun _ _ _ => rfl)]
  refine Settles.congr ?_ (not_rejects_array typed).symm
  cases found : Table.get? entries "items" with
  | none => exact settles_ok (by simp)
  | some value => exact ((each value (.items typed found) _).map _).congr (by simp)

theorem object_settles {info : Info} (typed : IsTyped entries .object)
    (each : ∀ inner, Reads (.obj entries) inner →
      ∀ path, Settles (¬ Rejects inner) (ofJson path inner)) :
    Settles (¬ Rejects (.obj entries)) (do
      let properties ← propertiesOf path entries
      let additional ← additionalOf path entries
      return Schema.object info properties (← requiredOf entries) additional []) := by
  refine Settles.congr ?_ (not_rejects_object typed).symm
  rw [propertiesOf_eq]
  refine (properties_settles fun properties listed value inside => ?_).bind fun _ =>
    (additionalOf_settles fun value found isObject => ?_).bind fun _ => requiredOf_settles.map _
  · exact each value (.property typed listed inside)
  · exact each value (.additional typed found isObject)

/-- Reading a value comes to an end unless the value is rejected. -/
theorem ofJson_settles (path : String) (value : Json) :
    Settles (¬ Rejects value) (ofJson path value) := by
  induction value using reads_induction generalizing path with
  | step value ih =>
    cases value with
    | obj entries =>
      unfold ofJson
      dsimp only
      split
      · rename_i ref isRef
        refine settles_ok (not_rejects_other ?_ ?_ ?_) <;> simp [IsCombination, IsTyped, isRef]
      · rename_i noRef
        split
        · rename_i combinator isCombinator
          have combination : IsCombination entries combinator := ⟨noRef, isCombinator⟩
          refine Settles.congr ?_ (not_rejects_combination combination).symm
          rw [membersOf_eq isCombinator]
          exact (members_settles fun items listed item inside =>
            ih item (.member combination listed inside)).map _
        · rename_i noCombinator
          have ofType {type : TypeName} (isType : TypeName.ofEntries entries = type) :
              IsTyped entries type := ⟨noRef, noCombinator, isType⟩
          split
          case h_3 isType => exact arrayOf_settles (ofType isType) ih
          case h_4 isType => exact object_settles (ofType isType) ih
          all_goals
            rename_i isType
            refine settles_ok (not_rejects_other ?_ ?_ ?_) <;>
              simp [IsCombination, IsTyped, noCombinator, isType]
    | null | bool | int | double | str | arr =>
      refine settles_ok fun rejected => ?_
      rcases rejects_iff.mp rejected with malformed | ⟨inner, reads, _⟩
      · cases malformed
      · cases reads

end Reading

end Schema

namespace Definitions

variable {schemas : Table Json}

theorem ofEntries_settles (schemas : Table Json) :
    Settles (∀ value ∈ Table.values schemas, ¬ Schema.Rejects value) (ofEntries schemas) := by
  induction schemas with
  | nil => exact settles_ok (List.forall_mem_nil _)
  | cons first rest ih =>
    exact ((Schema.ofJson_settles _ first.2).bind fun _ => ih.map _).congr (by simp [Table.values])

theorem keys_ofEntries {table : Definitions} (read : ofEntries schemas = .ok table) :
    Table.keys table = Table.keys schemas := by
  induction schemas generalizing table with
  | nil =>
    cases read
    rfl
  | cons first rest ih =>
    obtain ⟨schema, _, read⟩ := except_bind_eq_ok.mp read
    obtain ⟨others, later, read⟩ := except_bind_eq_ok.mp read
    cases read
    exact congrArg (first.1 :: ·) (ih later)

/-- A document with a definition that is rejected is not read. -/
theorem ofJson_of_rejects {entries : Table Json}
    (isSchemas : Document.schemasOf entries = .ok schemas)
    (rejected : ∃ value ∈ Table.values schemas, Schema.Rejects value) :
    ∃ failure, Document.ofJson (.obj entries) = .error failure := by
  cases read : Document.ofJson (.obj entries) with
  | error failure => exact ⟨failure, rfl⟩
  | ok document =>
    unfold Document.ofJson at read
    dsimp only at read
    split at read
    · cases read
    · split at read
      · obtain ⟨_, same, read⟩ := except_bind_eq_ok.mp read
        cases isSchemas.symm.trans same
        obtain ⟨title, _, read⟩ := except_bind_eq_ok.mp read
        obtain ⟨version, _, read⟩ := except_bind_eq_ok.mp read
        obtain ⟨table, isTable, _⟩ := except_bind_eq_ok.mp read
        obtain ⟨value, inside, rejected⟩ := rejected
        have each := (ofEntries_settles schemas).exists_iff.mp ⟨table, isTable⟩
        exact absurd rejected (each value inside)
      · cases read

/-- Reading definitions. A value is read as a schema, at whatever path, unless it is rejected.
Definitions are read under their ids if none of them is rejected; else reading them fails over a
value of a wrong type, and a document with these definitions is not read at all. -/
theorem read_unless_rejected (schemas : Table Json) :
    (∀ path value, (∃ schema, Schema.ofJson path value = .ok schema) ↔ ¬ Schema.Rejects value) ∧
    ((∃ table, ofEntries schemas = .ok table ∧ Table.keys table = Table.keys schemas) ↔
      ∀ value ∈ Table.values schemas, ¬ Schema.Rejects value) ∧
    ((∃ mismatch, ofEntries schemas = .error (.mismatch mismatch)) ↔
      ∃ value ∈ Table.values schemas, Schema.Rejects value) ∧
    ((∃ value ∈ Table.values schemas, Schema.Rejects value) →
      ∀ entries, Document.schemasOf entries = .ok schemas →
        ∃ failure, Document.ofJson (.obj entries) = .error failure) := by
  have settles := ofEntries_settles schemas
  refine ⟨fun path value => (Schema.ofJson_settles path value).exists_iff, ?_, ?_,
    fun rejected entries isSchemas => ofJson_of_rejects isSchemas rejected⟩
  · rw [← settles.exists_iff]
    exact exists_congr fun table => and_iff_left_of_imp keys_ofEntries
  · rw [settles.fails_iff]
    simp

/-- Two definitions, of which the second states a number where its members should stand. -/
def straying : Table Json :=
  [("Good", .obj [("type", .str "string")]), ("Bad", .obj [("allOf", .int 5)])]

/-- A definition that is malformed stops the reading of its document. -/
theorem malformed_definition_stops_reading :
    Schema.ofJson (Reference.ofId "Bad") (.obj [("allOf", .int 5)]) = .error (.mismatch .type) ∧
      ofEntries straying = .error (.mismatch .type) ∧
      Document.ofJson (.obj [("openapi", .str "3.1.0"),
        ("components", .obj [("schemas", .obj straying)])]) = .error (.mismatch .type) :=
  ⟨rfl, rfl, rfl⟩

end Definitions

end SchemaPress
