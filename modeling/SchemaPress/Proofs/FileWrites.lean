import Mathlib.Data.List.Nodup
import Mathlib.Data.List.Perm.Subperm
import SchemaPress.Files.Write
import SchemaPress.Proofs.LexicalPlaces

/-! What writing a file does to a file tree. A writer that succeeds leaves the content at its place;
besides, directories were added above it where there was nothing. What goes wrong is the writing,
unless the place cannot be named. -/

namespace SchemaPress

/-- A place leads through another one: the beginning of it without its last name, or a shorter one,
leads there. -/
def Place.LeadsThrough (place other : Place) : Prop :=
  ∃ above, above <+: place.dropLast ∧ other = lexical above

namespace FileTree

variable {tree before between after : FileTree} {place other : Place} {entry : FileEntry}

theorem entryAt?_append (fresh : tree.entryAt? place = none) :
    entryAt? (tree ++ [(place, entry)]) other =
      if place = other then some entry else tree.entryAt? other := by
  induction tree with
  | nil => rfl
  | cons first rest ih =>
    obtain ⟨taken, held⟩ := first
    rw [entryAt?] at fresh
    split at fresh
    · cases fresh
    · rename_i different
      rw [List.cons_append, entryAt?, entryAt?, ih fresh]
      by_cases same : place = other
      · simp [same, same ▸ different]
      · simp [same]

theorem entryAt?_map :
    entryAt? (tree.map fun held => if held.1 = place then (place, entry) else held) other =
      if place = other then (tree.entryAt? place).map fun _ => entry else tree.entryAt? other := by
  induction tree with
  | nil => simp [entryAt?]
  | cons first rest ih =>
    obtain ⟨taken, held⟩ := first
    by_cases same : taken = place
    · subst same
      simp only [List.map_cons, if_true, entryAt?, ih]
      by_cases here : taken = other <;> simp [here]
    · simp only [List.map_cons, if_neg same, entryAt?, ih]
      by_cases here : place = other
      · subst here
        simp [same]
      · simp [here]

/-- Setting a place changes what is there, and nothing else. -/
theorem get?_set (named : place ≠ []) :
    get? (tree.set place entry) other = if place = other then some entry else tree.get? other := by
  have found : entryAt? (tree.set place entry) other =
      if place = other then some entry else tree.entryAt? other := by
    unfold set
    split
    · rename_i present
      rw [entryAt?_map, Option.map_eq_some_iff.mpr ⟨_, Option.some_get present |>.symm, rfl⟩]
    · rename_i absent
      exact entryAt?_append (Option.not_isSome_iff_eq_none.mp absent)
  cases other with
  | nil => simp [get?, named]
  | cons => simp [get?, found]

theorem get?_erase :
    get? (tree.erase place) other =
      if place = other ∧ other ≠ [] then none else tree.get? other := by
  have found : entryAt? (tree.erase place) other =
      if place = other then none else tree.entryAt? other := by
    induction tree with
    | nil => simp [erase, entryAt?]
    | cons first rest ih =>
      obtain ⟨taken, held⟩ := first
      by_cases same : taken = place
      · subst same
        have dropped : erase taken ((taken, held) :: rest) = erase taken rest := by simp [erase]
        rw [dropped, ih, entryAt?]
        by_cases here : taken = other <;> simp [here]
      · have kept : erase place ((taken, held) :: rest) = (taken, held) :: erase place rest := by
          simp [erase, same]
        rw [kept, entryAt?, entryAt?, ih]
        by_cases here : place = other
        · subst here
          simp [same]
        · simp [here]
  cases other with
  | nil => simp [get?]
  | cons => simp [get?, found]

/-- Of two trees, the second is the first with directories added at some places where there was
nothing. -/
def AddsDirectories (places : Place → Prop) (before after : FileTree) : Prop :=
  ∀ place, after.get? place = before.get? place ∨
    before.get? place = none ∧ after.get? place = some .directory ∧ places place

variable {places : Place → Prop}

theorem AddsDirectories.refl (tree : FileTree) : AddsDirectories places tree tree :=
  fun _ => .inl rfl

theorem AddsDirectories.trans (first : AddsDirectories places before between)
    (second : AddsDirectories places between after) : AddsDirectories places before after := by
  intro place
  rcases first place with same | ⟨none, made, allowed⟩
  · rw [← same]
    exact second place
  · rcases second place with same | ⟨still, _, _⟩
    · exact .inr ⟨none, same.trans made, allowed⟩
    · exact absurd (still.symm.trans made) nofun

/-- What is the same everywhere has no directories added. -/
theorem AddsDirectories.congr (adds : AddsDirectories places before between)
    (same : ∀ other, after.get? other = between.get? other) :
    AddsDirectories places before after := by
  intro place
  rw [same]
  exact adds place

theorem addsDirectories_append (fresh : tree.get? place = none) (allowed : places place) :
    AddsDirectories places tree (tree ++ [(place, .directory)]) := by
  intro other
  cases place with
  | nil => cases fresh
  | cons name rest =>
    have added : entryAt? (tree ++ [(name :: rest, .directory)]) other = _ := entryAt?_append fresh
    cases other with
    | nil => exact .inl rfl
    | cons =>
      show entryAt? _ _ = entryAt? _ _ ∨ entryAt? _ _ = none ∧ entryAt? _ _ = _ ∧ _
      rw [added]
      split
      · rename_i same
        exact .inr ⟨same ▸ fresh, rfl, same ▸ allowed⟩
      · exact .inl rfl

/-- A failure of the file system. -/
def IsFault (failure : Failure) : Prop :=
  failure.kind = .file

theorem walk_fault {here : Place} {failure : Failure}
    (failed : tree.walk here place = .error failure) : IsFault failure := by
  induction place generalizing here with
  | nil => cases failed
  | cons name rest ih =>
    rw [walk] at failed
    split at failed
    · cases failed
      rfl
    · cases failed
      rfl
    · split at failed
      · exact ih failed
      · split at failed
        · cases failed
          rfl
        · exact ih failed

theorem locate_fault {failure : Failure} (nameable : place.isUnnameable = false)
    (failed : tree.locate place = .error failure) : IsFault failure := by
  rw [locate, nameable] at failed
  split at failed
  · contradiction
  · split at failed
    · cases failed
      rfl
    · exact walk_fault failed

section Directories

variable {expected : Failure → Prop} {faults : WriteFaults} {isRetry : Bool}

theorem check_ends {step : WriteStep} (fails : ∀ failure, IsFault failure → expected failure) :
    (faults.check step).Ends (AddsDirectories places) expected := by
  unfold WriteFaults.check
  split
  · exact Action.ends_throw .refl (fails _ rfl)
  · exact Action.ends_pure .refl ()

theorem makeDirectory_ends (fails : ∀ failure, IsFault failure → expected failure)
    (unlocated : ∀ (tree : FileTree) failure, tree.locate place = .error failure →
      expected failure) (allowed : places place.lexical) :
    (makeDirectory faults place isRetry).Ends (AddsDirectories places) expected := by
  refine .bind .trans (check_ends fails) fun _ => ?_
  refine Action.ends_of_cases (fun before _ after done => ?_) fun before failure after failed => ?_
  · obtain ⟨_, _, read, done⟩ := Action.yields_bind.mp done
    obtain ⟨rfl, rfl⟩ := Action.yields_get.mp read
    obtain ⟨target, _, located, done⟩ := Action.yields_bind.mp done
    obtain ⟨isTarget, rfl⟩ := Action.yields_lift.mp located
    split at done
    · exact absurd done Action.not_yields_throw_bind
    · rename_i fresh
      obtain rfl := Action.yields_set.mp done
      exact addsDirectories_append (Option.not_isSome_iff_eq_none.mp fresh)
        (locate_lexical isTarget ▸ allowed)
  · rcases Action.fails_bind.mp failed with read | ⟨_, _, read, failed⟩
    · exact absurd read Action.not_fails_get
    obtain ⟨rfl, rfl⟩ := Action.yields_get.mp read
    rcases Action.fails_bind.mp failed with lost | ⟨target, _, located, failed⟩
    · obtain ⟨fault, rfl⟩ := Action.fails_lift.mp lost
      exact ⟨.refl _, unlocated _ _ fault⟩
    obtain ⟨_, rfl⟩ := Action.yields_lift.mp located
    split at failed
    · obtain ⟨rfl, rfl⟩ := Action.fails_throw_bind.mp failed
      exact ⟨.refl _, fails _ rfl⟩
    · exact absurd failed Action.not_fails_set

/-- That a directory cannot be made does not matter if it is there. -/
theorem settleDirectory_ends {failure : Failure} (isExpected : expected failure) :
    (settleDirectory place failure).Ends (AddsDirectories places) expected := by
  unfold settleDirectory
  split
  · exact Action.ends_throw .refl isExpected
  · refine .bind .trans (Action.ends_get .refl) fun tree => ?_
    split
    · exact Action.ends_pure .refl ()
    · exact Action.ends_throw .refl isExpected

theorem ensureDirectory_ends (fails : ∀ failure, IsFault failure → expected failure)
    (unlocated : ∀ (tree : FileTree) failure, tree.locate place = .error failure →
      expected failure) (allowed : places place.lexical) :
    (ensureDirectory faults place isRetry).Ends (AddsDirectories places) expected :=
  .recover .trans (makeDirectory_ends fails unlocated allowed) fun _ isExpected =>
    settleDirectory_ends isExpected

/-- Making directories adds directories only, and those only where one of them leads, whatever goes
wrong; besides faults of the file system that is what goes wrong in locating one of them. -/
theorem makeDirectories_ends {names : List String}
    (fails : ∀ failure, IsFault failure → expected failure)
    (unlocated : ∀ above, above <:+ names → ∀ (tree : FileTree) failure,
      tree.locate above.reverse = .error failure → expected failure)
    (allowed : ∀ above, above <:+ names → places (Place.lexical above.reverse)) :
    (makeDirectoriesWith faults names).Ends (AddsDirectories places) expected := by
  induction names with
  | nil =>
    exact ensureDirectory_ends fails (unlocated [] List.suffix_rfl) (allowed [] List.suffix_rfl)
  | cons name above ih =>
    have here := unlocated _ List.suffix_rfl
    have place := allowed _ List.suffix_rfl
    have wider (other : List String) (shorter : other <:+ above) : other <:+ name :: above :=
      shorter.trans (List.suffix_cons name above)
    have higher := ih (fun other shorter => unlocated other (wider other shorter))
      fun other shorter => allowed other (wider other shorter)
    refine .attempt_bind .trans (makeDirectory_ends fails here place) (fun _ => ?_)
      fun failure isExpected => ?_
    · exact Action.ends_pure .refl ()
    · split
      · contradiction
      · exact .bind .trans higher fun _ => ensureDirectory_ends fails here place
      · rename_i isFailure
        cases isFailure
        exact settleDirectory_ends isExpected

/-- Before something is written at a place, directories are added above it only. -/
theorem makeDirectories_leaves (faults : WriteFaults) (place : Place) (tree : FileTree) :
    AddsDirectories place.LeadsThrough tree
      ((makeDirectoriesWith faults place.dropLast.reverse).run tree).2 := by
  have ends : (makeDirectoriesWith faults place.dropLast.reverse).Ends
      (AddsDirectories place.LeadsThrough) fun _ => True := by
    refine makeDirectories_ends (fun _ _ => trivial) (fun _ _ _ _ _ => trivial) ?_
    intro above shorter
    refine ⟨above.reverse, ?_, rfl⟩
    rw [← List.reverse_suffix, List.reverse_reverse]
    exact shorter
  exact ends.leaves tree

end Directories

theorem nameable_above (nameable : place.isUnnameable = false) :
    Place.isUnnameable place.dropLast.reverse = false := by
  rw [Place.isUnnameable, List.any_reverse, List.any_eq_false]
  intro name inside
  exact List.any_eq_false.mp nameable name (List.dropLast_subset place inside)

/-- A place is reached in the same way as long as there are still all directories. -/
theorem walk_mono (kept : ∀ other, before.get? other = some .directory →
      after.get? other = some .directory) {here target : Place}
    (walked : before.walk here place = .ok target) : after.walk here place = .ok target := by
  induction place generalizing here with
  | nil => exact walked
  | cons name rest ih =>
    rw [walk] at walked ⊢
    split at walked
    · cases walked
    · cases walked
    · rename_i isDirectory
      rw [kept here isDirectory]
      dsimp only
      split at walked
      · rename_i up
        rw [if_pos up]
        exact ih walked
      · rename_i down
        rw [if_neg down]
        split at walked
        · cases walked
        · rename_i fits
          rw [if_neg fits]
          exact ih walked

theorem locate_mono (kept : ∀ other, before.get? other = some .directory →
      after.get? other = some .directory) {target : Place}
    (located : before.locate place = .ok target) : after.locate place = .ok target := by
  rw [locate] at located ⊢
  split at located
  · cases located
  · split at located
    · cases located
    · rename_i nameable fits
      rw [if_neg nameable, if_neg fits]
      exact walk_mono kept located

theorem fileTarget_ok {target : Place} (found : tree.fileTarget place = .ok target) :
    tree.locate place = .ok target ∧ tree.get? target ≠ some .directory := by
  obtain ⟨located, isLocated, found⟩ := except_bind_eq_ok.mp found
  split at found
  · cases found
  · rename_i free
    cases found
    exact ⟨isLocated, free⟩

/-- A content was written to a place: it is there now, and besides, directories were added where
there was nothing. -/
structure Wrote (before : FileTree) (place : Place) (content : String) (after : FileTree) :
    Prop where
  content : after.content? place = some content
  elsewhere : ∃ target, after.locate place = .ok target ∧ ∀ other, other ≠ target →
    after.get? other = before.get? other ∨
      before.get? other = none ∧ after.get? other = some .directory

/-- A tree is another one with a file where a place leads. -/
def Puts (between : FileTree) (place : Place) (content : String) (after : FileTree) : Prop :=
  ∃ target, after.locate place = .ok target ∧ ∀ other, after.get? other =
    if target = other then some (.file content) else between.get? other

/-- Setting the target of a place puts a file there, if the target was found in a tree with no other
directories than there are. -/
theorem puts_of_target {content : String} {target : Place}
    (found : tree.fileTarget place = .ok target)
    (kept : ∀ other, tree.get? other = some .directory → between.get? other = some .directory)
    (isSet : ∀ other, after.get? other =
      if target = other then some (.file content) else between.get? other) :
    between.Puts place content after := by
  obtain ⟨located, free⟩ := fileTarget_ok found
  refine ⟨target, locate_mono ?_ located, isSet⟩
  intro other isDirectory
  have different : target ≠ other := fun same => free (same ▸ isDirectory)
  rw [isSet, if_neg different]
  exact kept other isDirectory

/-- A file that is put at a place is written there, whatever directories were added before. -/
theorem Puts.wrote {content : String} (puts : between.Puts place content after)
    (added : AddsDirectories places before between) : before.Wrote place content after := by
  obtain ⟨target, reached, isSet⟩ := puts
  constructor
  · have here : after.get? target = some (.file content) := by rw [isSet, if_pos rfl]
    simp only [content?, reached, here]
  · refine ⟨target, reached, fun other different => ?_⟩
    rw [isSet, if_neg (Ne.symm different)]
    exact (added other).imp_right fun ⟨fresh, made, _⟩ => ⟨fresh, made⟩

/-- The number in the name of a temporary file can be read back. -/
theorem temporaryName_injective (target : String) : Function.Injective (temporaryName target) := by
  have padded : ∀ number count, Nat.ofDigitChars 10
      (List.replicate count '0' ++ Nat.toDigits 10 number) 0 = number := by
    intro number count
    rw [Nat.ofDigitChars_append, Nat.ofDigitChars_replicate_zero, Nat.mul_zero,
      Nat.ofDigitChars_ten_toDigits]
  intro first second same
  simp only [temporaryName, String.append_left_inj, String.append_right_inj] at same
  rw [← padded first, String.ofList_inj.mp same, padded second]

theorem mem_of_entryAt? (taken : (tree.entryAt? place).isSome = true) :
    place ∈ tree.map Prod.fst := by
  induction tree with
  | nil => cases taken
  | cons first rest ih =>
    rw [entryAt?] at taken
    split at taken
    · rename_i same
      exact same ▸ List.mem_cons_self
    · exact List.mem_cons_of_mem _ (ih taken)

/-- There is nothing at the place of a temporary file: of more places than there are entries, one is
free. -/
theorem temporaryPlace_fresh (tree : FileTree) (directory : Place) (target : String) :
    tree.get? (tree.temporaryPlace directory target) = none := by
  let placeOf := fun number => directory ++ [temporaryName target number]
  let places := (List.range (tree.length + 1)).map placeOf
  show tree.get? ((places.find? fun place => (tree.get? place).isNone).getD directory) = none
  cases found : places.find? fun place => (tree.get? place).isNone with
  | some place =>
    have free := List.find?_some found
    exact Option.isNone_iff_eq_none.mp free
  | none =>
    have injective : Function.Injective placeOf := fun first second same =>
      temporaryName_injective target (List.singleton_inj.mp (List.append_cancel_left same))
    have distinct : places.Nodup := List.nodup_range.map injective
    have taken : places ⊆ tree.map Prod.fst := by
      intro place inside
      obtain ⟨number, _, rfl⟩ := List.mem_map.mp inside
      have occupied := List.find?_eq_none.mp found _ inside
      refine mem_of_entryAt? (Option.isSome_iff_ne_none.mpr ?_)
      simpa [get?, placeOf] using occupied
    have crowded := (distinct.subperm taken).length_le
    simp only [places, List.length_map, List.length_range] at crowded
    omega

end FileTree

/-- All that can go wrong when something is written to a place is the writing. -/
def Writer.FileFaultsAt (writer : Writer) (place : Place) : Prop :=
  ∀ code before failure after, (writer place code).Fails before failure after → failure.kind = .file

namespace Writer

variable {before after : FileTree} {place : Place} {content : String}

theorem named_of_fileTarget {tree : FileTree} {target : Place}
    (found : tree.fileTarget place = .ok target) : target ≠ [] := by
  obtain ⟨_, free⟩ := FileTree.fileTarget_ok found
  exact fun top => free (top ▸ rfl)

theorem direct_wrote (done : (direct place content).Yields before () after) :
    before.Wrote place content after := by
  obtain ⟨_, between, made, done⟩ := Action.yields_bind.mp done
  obtain ⟨_, _, read, done⟩ := Action.yields_bind.mp done
  obtain ⟨rfl, rfl⟩ := Action.yields_get.mp read
  obtain ⟨target, _, lifted, done⟩ := Action.yields_bind.mp done
  obtain ⟨found, rfl⟩ := Action.yields_lift.mp lifted
  obtain rfl := Action.yields_set.mp done
  have puts : between.Puts place content (between.set target (.file content)) :=
    FileTree.puts_of_target found (fun _ isDirectory => isDirectory)
      fun _ => FileTree.get?_set (named_of_fileTarget found)
  exact puts.wrote (made.2 ▸ FileTree.makeDirectories_leaves .none place before)

theorem createTemporary_yields {temporary : Place}
    (done : (createTemporary place).Yields before temporary after) :
    before.get? temporary = none ∧ after = before.set temporary (.file "") := by
  obtain ⟨_, _, read, done⟩ := Action.yields_bind.mp done
  obtain ⟨rfl, rfl⟩ := Action.yields_get.mp read
  obtain ⟨directory, _, lifted, done⟩ := Action.yields_bind.mp done
  obtain ⟨_, rfl⟩ := Action.yields_lift.mp lifted
  dsimp only at done
  split at done
  · exact absurd done Action.not_yields_throw_bind
  split at done
  · exact absurd done Action.not_yields_throw_bind
  obtain ⟨_, _, isSet, done⟩ := Action.yields_bind.mp done
  obtain rfl := Action.yields_set.mp isSet
  obtain ⟨rfl, rfl⟩ := Action.yields_pure.mp done
  exact ⟨FileTree.temporaryPlace_fresh _ _ _, rfl⟩

theorem check_yields {faults : WriteFaults} {step : WriteStep}
    (done : (faults.check step).Yields before () after) :
    faults.fault? step = none ∧ before = after := by
  unfold WriteFaults.check at done
  split at done
  · exact absurd done Action.not_yields_throw
  · rename_i noFault
    exact ⟨noFault, (Action.yields_pure.mp done).2⟩

theorem fill_yields {faults : WriteFaults} {temporary : Place}
    (done : (fill faults temporary content).Yields before () after) :
    faults.fault? .fill = none ∧ before.set temporary (.file content) = after := by
  unfold fill at done
  split at done
  · rename_i noFault
    exact ⟨noFault, Action.yields_modify.mp done⟩
  · obtain ⟨_, _, _, thrown⟩ := Action.yields_bind.mp done
    exact absurd thrown Action.not_yields_throw

/-- A temporary file that takes the place of the target leaves nothing behind. -/
theorem replace_puts {between : FileTree} {temporary : Place}
    (fresh : between.get? temporary = none)
    (done : (replace temporary place).Yields
      ((between.set temporary (.file "")).set temporary (.file content)) () after) :
    between.Puts place content after := by
  obtain ⟨_, _, read, done⟩ := Action.yields_bind.mp done
  obtain ⟨rfl, rfl⟩ := Action.yields_get.mp read
  obtain ⟨target, _, lifted, done⟩ := Action.yields_bind.mp done
  obtain ⟨found, rfl⟩ := Action.yields_lift.mp lifted
  have named := named_of_fileTarget found
  have notTop : temporary ≠ [] := by
    rintro rfl
    cases fresh
  have filled : ∀ other, FileTree.get? ((between.set temporary (.file "")).set temporary
      (.file content)) other = if temporary = other then some (.file content)
        else between.get? other := by
    intro other
    rw [FileTree.get?_set notTop, FileTree.get?_set notTop]
    split <;> rfl
  rw [filled, if_pos rfl] at done
  obtain rfl := Action.yields_set.mp done
  refine FileTree.puts_of_target found (fun other isDirectory => ?_) fun other => ?_
  · rw [filled] at isDirectory
    split at isDirectory
    · cases isDirectory
    · exact isDirectory
  · rw [FileTree.get?_set named, FileTree.get?_erase, filled]
    by_cases same : temporary = other
    · subst same
      simp [notTop, fresh]
    · simp [same]

/-- After a failure the temporary file is removed, but the failure stays. -/
theorem cleanup_not_yields {temporary : Place} {failure : Failure} : ¬ (do
    modify (FileTree.erase temporary)
    throw failure : Action FileTree Unit).Yields before () after := by
  intro done
  obtain ⟨_, _, _, thrown⟩ := Action.yields_bind.mp done
  exact Action.not_yields_throw thrown

/-- If an atomic write succeeds, none of its own steps was to fail, and once there are directories
it puts the content at the place. -/
theorem atomicWith_puts {faults : WriteFaults}
    (done : (atomicWith faults place content).Yields before () after) :
    (∀ step ∈ [WriteStep.createTemporary, .fill, .replace], faults.fault? step = none) ∧
      ((FileTree.makeDirectoriesWith faults place.dropLast.reverse).run before).2.Puts place content
        after := by
  obtain ⟨_, between, made, done⟩ := Action.yields_bind.mp done
  obtain ⟨_, _, checked, done⟩ := Action.yields_bind.mp done
  obtain ⟨creates, rfl⟩ := check_yields checked
  obtain ⟨temporary, _, created, done⟩ := Action.yields_bind.mp done
  obtain ⟨fresh, rfl⟩ := createTemporary_yields created
  obtain ⟨_, _, moved, noted⟩ := Action.yields_bind.mp done
  obtain rfl := Action.yields_record.mp noted
  have moved := (Action.yields_recover fun _ _ => cleanup_not_yields).mp moved
  obtain ⟨_, _, filled, moved⟩ := Action.yields_bind.mp moved
  obtain ⟨fills, rfl⟩ := fill_yields filled
  obtain ⟨_, _, checked, moved⟩ := Action.yields_bind.mp moved
  obtain ⟨replaces, rfl⟩ := check_yields checked
  refine ⟨by simp [creates, fills, replaces], ?_⟩
  rw [made.2]
  exact replace_puts fresh moved

/-- If an atomic write succeeds, the content is at the place. -/
theorem atomicWith_wrote {faults : WriteFaults}
    (done : (atomicWith faults place content).Yields before () after) :
    before.Wrote place content after :=
  (atomicWith_puts done).2.wrote (FileTree.makeDirectories_leaves faults place before)

/-- The writer of the settings writes what it says it wrote. -/
theorem of_wrote {isAtomic : Bool}
    (done : (Writer.of isAtomic place content).Yields before () after) :
    before.Wrote place content after := by
  cases isAtomic with
  | false => exact direct_wrote done
  | true => exact atomicWith_wrote done

section Faults

/-- An action fails only as the file system does. -/
abbrev Faulting {α : Type} (action : Action FileTree α) : Prop :=
  action.Ends (fun _ _ => True) FileTree.IsFault

theorem Faulting.bind {α β : Type} {x : Action FileTree α} {f : α → Action FileTree β}
    (first : Faulting x) (rest : ∀ a, Faulting (f a)) : Faulting (x >>= f) :=
  Action.Ends.bind (fun _ _ => trivial) first rest

theorem makeDirectories_faulting (faults : WriteFaults) {above : List String}
    (nameable : Place.isUnnameable above = false) :
    Faulting (FileTree.makeDirectoriesWith faults above) := by
  have ends : (FileTree.makeDirectoriesWith faults above).Ends
      (FileTree.AddsDirectories fun _ => True) FileTree.IsFault := by
    refine FileTree.makeDirectories_ends (fun _ fault => fault) (fun other shorter tree failure
      failed => FileTree.locate_fault ?_ failed) fun _ _ => trivial
    rw [Place.isUnnameable, List.any_reverse, List.any_eq_false]
    exact fun name inside => List.any_eq_false.mp nameable name (shorter.subset inside)
  exact ⟨fun _ => trivial, ends.fails⟩

theorem fileTarget_faulting (nameable : place.isUnnameable = false) (tree : FileTree) :
    Faulting (liftM (tree.fileTarget place)) := by
  refine Action.ends_lift (fun _ => trivial) fun failure failed => ?_
  rcases except_bind_eq_error.mp failed with unlocated | ⟨target, _, occupied⟩
  · exact FileTree.locate_fault nameable unlocated
  · split at occupied <;> cases occupied
    rfl

theorem check_faulting (faults : WriteFaults) (step : WriteStep) :
    Faulting (faults.check step) := by
  unfold WriteFaults.check
  split
  · exact Action.ends_throw (fun _ => trivial) rfl
  · exact Action.ends_pure (fun _ => trivial) ()

theorem fill_faulting (faults : WriteFaults) (temporary : Place) :
    Faulting (fill faults temporary content) := by
  unfold fill
  split
  · exact Action.ends_modify fun _ => trivial
  · exact Faulting.bind (Action.ends_modify fun _ => trivial) fun _ =>
      Action.ends_throw (fun _ => trivial) rfl

theorem nameable_last (nameable : place.isUnnameable = false) :
    ((place.getLast?).getD "").toList.contains '\x00' = false := by
  cases last : place.getLast? with
  | none => rfl
  | some name =>
    have clean := List.any_eq_false.mp nameable name (List.mem_of_getLast? last)
    simpa using clean

theorem createTemporary_faulting (nameable : place.isUnnameable = false) :
    Faulting (createTemporary place) := by
  have above : Place.isUnnameable place.dropLast = false := by
    have reversed := FileTree.nameable_above nameable
    rwa [Place.isUnnameable, List.any_reverse] at reversed
  refine .bind (Action.ends_get fun _ => trivial) fun tree => ?_
  refine .bind (Action.ends_lift (fun _ => trivial) fun _ failed =>
    FileTree.locate_fault above failed) fun directory => ?_
  dsimp only
  rw [if_neg (Bool.eq_false_iff.mp (nameable_last nameable))]
  split
  · exact .bind (Action.ends_throw (fun _ => trivial) rfl) fun _ => by
      refine .bind (Action.ends_set fun _ => trivial) fun _ => ?_
      exact Action.ends_pure (fun _ => trivial) _
  · refine .bind (Action.ends_set fun _ => trivial) fun _ => ?_
    exact Action.ends_pure (fun _ => trivial) _

theorem replace_faulting (nameable : place.isUnnameable = false) (temporary : Place) :
    Faulting (replace temporary place) := by
  refine .bind (Action.ends_get fun _ => trivial) fun tree => ?_
  refine .bind (fileTarget_faulting nameable tree) fun target => ?_
  split
  · exact Action.ends_set fun _ => trivial
  · exact Action.ends_throw (fun _ => trivial) rfl

theorem atomicWith_faulting (nameable : place.isUnnameable = false) (faults : WriteFaults) :
    Faulting (atomicWith faults place content) := by
  refine .bind (makeDirectories_faulting faults (FileTree.nameable_above nameable))
    fun _ => ?_
  refine .bind (check_faulting faults _) fun _ => ?_
  refine .bind (createTemporary_faulting nameable) fun temporary => ?_
  refine .bind (.recover (fun _ _ => trivial) ?_ fun failure fault => ?_)
    fun _ => Action.ends_record (fun _ => trivial) _ _
  · refine Faulting.bind (fill_faulting faults temporary) fun _ => ?_
    refine Faulting.bind (check_faulting faults _) fun _ => ?_
    exact replace_faulting nameable temporary
  · refine Faulting.bind (Action.ends_modify fun _ => trivial) fun _ => ?_
    exact Action.ends_throw (fun _ => trivial) fault

theorem direct_faulting (nameable : place.isUnnameable = false) :
    Faulting (direct place content) := by
  refine .bind (makeDirectories_faulting .none (FileTree.nameable_above nameable))
    fun _ => ?_
  refine .bind (Action.ends_get fun _ => trivial) fun tree => ?_
  refine .bind (fileTarget_faulting nameable tree) fun target => ?_
  exact Action.ends_set fun _ => trivial

/-- The writer of the settings fails only in writing if the place can be named. -/
theorem of_fileFaultsAt (isAtomic : Bool) (nameable : place.isUnnameable = false) :
    (Writer.of isAtomic).FileFaultsAt place := by
  intro content before failure after failed
  cases isAtomic with
  | false => exact (direct_faulting nameable).fails _ _ _ failed
  | true => exact (atomicWith_faulting nameable _).fails _ _ _ failed

end Faults

end Writer

end SchemaPress
