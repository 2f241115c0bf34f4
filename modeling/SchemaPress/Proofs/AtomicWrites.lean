import SchemaPress.Proofs.OutputPlaces

/-! Atomic writes are done as a whole or not at all. Whichever steps fail on their own, and whatever
the file tree does not allow, a write that succeeds leaves its content at the place, and a write that
fails leaves no file other than before; in both cases only directories that lead to the place were
added. Without faults, a write succeeds if the directory is there and the place is free for it. -/

namespace SchemaPress

namespace FileTree

variable {tree before between after : FileTree} {place : Place} {content : String}
  {faults : WriteFaults} {isRetry : Bool}

/-- A content has been written at a place, and nothing else has changed but that directories were
added that lead there. -/
structure Written (before : FileTree) (place : Place) (content : String) (after : FileTree) :
    Prop where
  content : after.content? place = some content
  elsewhere : ∀ other, other ≠ place.lexical → after.get? other = before.get? other ∨
    before.get? other = none ∧ after.get? other = some .directory ∧ place.LeadsThrough other

theorem Puts.written (puts : between.Puts place content after)
    (added : AddsDirectories place.LeadsThrough before between) :
    before.Written place content after := by
  refine ⟨(puts.wrote added).content, ?_⟩
  obtain ⟨target, reached, isSet⟩ := puts
  intro other different
  rw [isSet, locate_lexical reached, if_neg (Ne.symm different)]
  exact added other

/-- A place is free for an atomic write: its directory is there, it is no directory itself, and the
name of the temporary file is not too long. -/
structure IsFree (tree : FileTree) (place : Place) : Prop where
  directory : ∃ directory, tree.locate place.dropLast = .ok directory ∧
    tree.get? directory = some .directory ∧
    directory.text.utf8ByteSize + 1 + ((place.getLast?).getD "").utf8ByteSize + temporaryExtra ≤
      pathLimit
  name : ((place.getLast?).getD "").utf8ByteSize + temporaryExtra ≤ nameLimit
  target : ∃ target, tree.fileTarget place = .ok target

theorem isDirectory_iff : tree.isDirectory place = true ↔
    ∃ directory, tree.locate place = .ok directory ∧ tree.get? directory = some .directory := by
  unfold isDirectory
  split
  · rename_i directory located
    simp [located]
  · rename_i failure located
    simp [located]

theorem check_calm {step : WriteStep} (calm : faults.fault? step = none) :
    (faults.check step).Yields tree () tree := by
  rw [WriteFaults.check, calm]
  exact Action.yields_pure.mpr ⟨rfl, rfl⟩

/-- A directory that is there cannot be made. -/
theorem makeDirectory_occupied (calm : ∀ step, faults.fault? step = none)
    (isThere : tree.isDirectory place = true) :
    (makeDirectory faults place isRetry).Fails tree (.file .occupied) tree := by
  obtain ⟨directory, located, isDirectory⟩ := isDirectory_iff.mp isThere
  refine Action.fails_bind.mpr (.inr ⟨_, _, check_calm (calm _), ?_⟩)
  refine Action.fails_bind.mpr (.inr ⟨_, _, Action.yields_get.mpr ⟨rfl, rfl⟩, ?_⟩)
  refine Action.fails_bind.mpr (.inr ⟨_, _, Action.yields_lift.mpr ⟨located, rfl⟩, ?_⟩)
  rw [isDirectory]
  exact Action.fails_throw_bind.mpr ⟨rfl, rfl⟩

theorem settleDirectory_yields (isThere : tree.isDirectory place = true) :
    (settleDirectory place (.file .occupied)).Yields tree () tree := by
  refine Action.yields_bind.mpr ⟨_, _, Action.yields_get.mpr ⟨rfl, rfl⟩, ?_⟩
  rw [isThere, if_pos (by rfl)]
  exact Action.yields_pure.mpr ⟨rfl, rfl⟩

/-- Where there is a directory, there are none to be made. -/
theorem makeDirectories_yields (calm : ∀ step, faults.fault? step = none) {names : List String}
    (isThere : tree.isDirectory names.reverse = true) :
    (makeDirectoriesWith faults names).Yields tree () tree := by
  have occupied : (makeDirectory faults names.reverse false).Fails tree (.file .occupied) tree :=
    makeDirectory_occupied calm isThere
  cases names with
  | nil => exact Action.yields_recover_of_fails occupied (settleDirectory_yields isThere)
  | cons name above =>
    refine Action.yields_bind.mpr ⟨_, _, Action.fails_of_attempt.mpr occupied, ?_⟩
    exact settleDirectory_yields isThere

theorem nameable_of_locate {target : Place} (located : tree.locate place = .ok target) :
    place.isUnnameable = false := by
  rw [locate] at located
  split at located
  · cases located
  · rename_i nameable
    exact Bool.of_not_eq_true nameable

/-- A target that is free stays so when files are added elsewhere or in its place. -/
theorem fileTarget_set {target : Place} (temporary : Place) (held : String)
    (notDirectory : tree.get? temporary ≠ some .directory)
    (found : tree.fileTarget place = .ok target) :
    fileTarget (tree.set temporary (.file held)) place = .ok target := by
  have named : temporary ≠ [] := fun top => notDirectory (top ▸ rfl)
  obtain ⟨located, free⟩ := fileTarget_ok found
  refine except_bind_eq_ok.mpr ⟨target, locate_mono (fun other isDirectory => ?_) located, ?_⟩
  · have different : temporary ≠ other := fun same => notDirectory (same ▸ isDirectory)
    rw [get?_set named, if_neg different]
    exact isDirectory
  · split
    · rename_i isDirectory
      rw [get?_set named] at isDirectory
      split at isDirectory
      · cases isDirectory
      · exact absurd isDirectory free
    · rfl

end FileTree

namespace Writer

open FileTree

variable {before after : FileTree} {place : Place} {content : String} {faults : WriteFaults}

/-- There is a temporary file for a place that is free. -/
theorem createTemporary_of_free (free : before.IsFree place) :
    ∃ temporary, (createTemporary place).Yields before temporary
      (before.set temporary (.file "")) := by
  obtain ⟨directory, located, _, short⟩ := free.directory
  obtain ⟨target, found⟩ := free.target
  have nameable := nameable_of_locate (fileTarget_ok found).1
  have named := free.name
  refine ⟨before.temporaryPlace directory ((place.getLast?).getD ""), ?_⟩
  refine Action.yields_bind.mpr ⟨before, before, Action.yields_get.mpr ⟨rfl, rfl⟩, ?_⟩
  refine Action.yields_bind.mpr ⟨directory, before, Action.yields_lift.mpr ⟨located, rfl⟩, ?_⟩
  dsimp only
  rw [if_neg (Bool.eq_false_iff.mp (nameable_last nameable)), if_neg (by simp; omega)]
  refine Action.yields_bind.mpr ⟨(), _, Action.yields_set.mpr rfl, ?_⟩
  exact Action.yields_pure.mpr ⟨rfl, rfl⟩

theorem fill_calm {tree : FileTree} {temporary : Place} (calm : faults.fault? .fill = none) :
    (fill faults temporary content).Yields tree () (tree.set temporary (.file content)) := by
  rw [fill, calm]
  exact Action.yields_modify.mpr rfl

/-- A file that is there can be moved to a target that is free. -/
theorem replace_of_free {temporary target : Place} {tree : FileTree} {entry : FileEntry}
    (found : tree.fileTarget place = .ok target) (isThere : tree.get? temporary = some entry) :
    ∃ after, (replace temporary place).Yields tree () after := by
  refine ⟨(tree.erase temporary).set target entry, ?_⟩
  refine Action.yields_bind.mpr ⟨tree, tree, Action.yields_get.mpr ⟨rfl, rfl⟩, ?_⟩
  refine Action.yields_bind.mpr ⟨target, tree, Action.yields_lift.mpr ⟨found, rfl⟩, ?_⟩
  rw [isThere]
  exact Action.yields_set.mpr rfl

/-- Without faults, a write to a place that is free succeeds. -/
theorem atomicWith_of_free (calm : ∀ step, faults.fault? step = none) (free : before.IsFree place) :
    ∃ after, (atomicWith faults place content).Yields before () after := by
  obtain ⟨directory, located, isDirectory, _⟩ := free.directory
  have isThere : before.isDirectory place.dropLast.reverse.reverse = true := by
    rw [List.reverse_reverse]
    exact isDirectory_iff.mpr ⟨directory, located, isDirectory⟩
  obtain ⟨temporary, created⟩ := createTemporary_of_free free
  obtain ⟨target, found⟩ := free.target
  have fresh := (createTemporary_yields created).1
  have named : temporary ≠ [] := by
    rintro rfl
    cases fresh
  have empty : FileTree.get? (before.set temporary (.file "")) temporary = some (.file "") := by
    rw [get?_set named, if_pos rfl]
  have filled : FileTree.get? ((before.set temporary (.file "")).set temporary (.file content))
      temporary = some (.file content) := by
    rw [get?_set named, if_pos rfl]
  have found := fileTarget_set temporary "" (by simp [fresh]) found
  have found := fileTarget_set temporary content (by simp [empty]) found
  obtain ⟨after, moved⟩ := replace_of_free found filled
  refine ⟨after, ?_⟩
  refine Action.yields_bind.mpr ⟨(), before, makeDirectories_yields calm isThere, ?_⟩
  refine Action.yields_bind.mpr ⟨(), before, check_calm (calm _), ?_⟩
  refine Action.yields_bind.mpr ⟨temporary, _, created, ?_⟩
  refine Action.yields_bind.mpr ⟨(), _, ?_, Action.yields_record.mpr rfl⟩
  refine (Action.yields_recover fun _ _ => cleanup_not_yields).mpr ?_
  refine Action.yields_bind.mpr ⟨(), _, fill_calm (calm _), ?_⟩
  exact Action.yields_bind.mpr ⟨(), _, check_calm (calm _), moved⟩

/-- An atomic write is done as a whole or not at all, whichever steps fail, and it is done if none
fails and the place is free. -/
theorem atomic_all_or_nothing (faults : WriteFaults) (place : Place) (content : String)
    (before : FileTree) :
    ((∃ after, (atomicWith faults place content).Yields before () after ∧
        (∀ step ∈ [WriteStep.createTemporary, .fill, .replace], faults.fault? step = none) ∧
        before.Written place content after) ∨
      ∃ failure after, (atomicWith faults place content).Fails before failure after ∧
        before.AddsDirectories place.LeadsThrough after) ∧
    ((∀ step, faults.fault? step = none) → before.IsFree place →
      ∃ after, (atomicWith faults place content).Yields before () after) := by
  refine ⟨?_, atomicWith_of_free⟩
  rcases Action.yields_or_fails (atomicWith faults place content) before with
    ⟨_, after, done⟩ | ⟨failure, after, failed⟩
  · left
    obtain ⟨calm, puts⟩ := atomicWith_puts done
    exact ⟨after, done, calm, puts.written (makeDirectories_leaves faults place before)⟩
  · right
    exact ⟨failure, after, failed, atomicWith_fails failed⟩

/-- A directory with a module and an index. -/
def settledTree : FileTree :=
  [(["out"], .directory), (["out", "Order.ts"], .file "old"), (["out", "index.ts"], .file "index")]

theorem atomic_all_or_nothing_settled :
    settledTree.IsFree ["out", "Order.ts"] ∧
      ∃ after, (atomicWith .none ["out", "Order.ts"] "new").Yields settledTree () after :=
  have free : settledTree.IsFree ["out", "Order.ts"] :=
    ⟨⟨["out"], by rfl, by rfl, by decide +kernel⟩, by decide +kernel, ["out", "Order.ts"], by rfl⟩
  ⟨free, (atomic_all_or_nothing .none ["out", "Order.ts"] "new" settledTree).2 (fun _ => rfl) free⟩

end Writer

end SchemaPress
