import SchemaPress.Proofs.BestEffort
import SchemaPress.Proofs.LexicalPlaces

/-! Where output goes. However writing the modules of a document ends, files are changed only at the
places that the output directory and the ids lead to; besides, directories are added. A temporary
file is gone afterwards, also if its target could not be written. -/

namespace SchemaPress

namespace FileTree

variable {before between after : FileTree} {places others : List Place} {place : Place}
  {content : String}

/-- Of two trees, the second is the first with files written at some places at most, and with
directories added where there was nothing. -/
def WritesAt (places : List Place) (before after : FileTree) : Prop :=
  ∀ place, after.get? place = before.get? place ∨
    before.get? place = none ∧ after.get? place = some .directory ∨
    place ∈ places ∧ ∃ content, after.get? place = some (.file content)

theorem WritesAt.refl (places : List Place) (tree : FileTree) : WritesAt places tree tree :=
  fun _ => .inl rfl

theorem WritesAt.trans (first : WritesAt places before between)
    (second : WritesAt places between after) : WritesAt places before after := by
  intro place
  rcases second place with same | ⟨none, made⟩ | written
  · rw [same]
    exact first place
  · rcases first place with same | ⟨_, made'⟩ | ⟨_, _, written⟩
    · exact .inr (.inl ⟨same ▸ none, made⟩)
    · exact absurd (none.symm.trans made') nofun
    · exact absurd (none.symm.trans written) nofun
  · exact .inr (.inr written)

theorem WritesAt.mono (included : places ⊆ others) (writes : WritesAt places before after) :
    WritesAt others before after :=
  fun place => (writes place).imp_right (Or.imp_right fun ⟨inside, written⟩ =>
    ⟨included inside, written⟩)

theorem AddsDirectories.writesAt {allowed : Place → Prop}
    (adds : AddsDirectories allowed before after) (places : List Place) :
    WritesAt places before after :=
  fun place => (adds place).imp_right fun ⟨fresh, made, _⟩ => .inl ⟨fresh, made⟩

theorem Wrote.written (wrote : before.Wrote place content after) :
    after.get? place.lexical = some (.file content) := by
  obtain ⟨target, located, _⟩ := wrote.elsewhere
  have found := wrote.content
  simp only [content?, located] at found
  rw [← locate_lexical located]
  split at found
  · rename_i isFile
    rw [isFile, Option.some.inj found]
  · cases found

theorem Wrote.writesAt (wrote : before.Wrote place content after) :
    WritesAt [place.lexical] before after := by
  obtain ⟨target, located, elsewhere⟩ := wrote.elsewhere
  obtain rfl := locate_lexical located
  intro other
  by_cases same : other = place.lexical
  · subst same
    exact .inr (.inr ⟨List.mem_cons_self, content, wrote.written⟩)
  · exact (elsewhere other same).imp_right .inl

/-- A file stays a file. -/
theorem WritesAt.file (writes : WritesAt places before after)
    (isFile : ∃ content, before.get? place = some (.file content)) :
    ∃ content, after.get? place = some (.file content) := by
  obtain ⟨content, isFile⟩ := isFile
  rcases writes place with same | ⟨none, _⟩ | ⟨_, written⟩
  · exact ⟨content, same.trans isFile⟩
  · exact absurd (none.symm.trans isFile) nofun
  · exact written

end FileTree

namespace Writer

variable {before after : FileTree} {place : Place} {content : String} {failure : Failure}

theorem direct_fails (failed : (direct place content).Fails before failure after) :
    FileTree.AddsDirectories place.LeadsThrough before after := by
  have made := FileTree.makeDirectories_leaves .none place before
  rcases Action.fails_bind.mp failed with early | ⟨_, _, ⟨_, rfl⟩, failed⟩
  · exact early.2 ▸ made
  rcases Action.fails_bind.mp failed with read | ⟨_, _, read, failed⟩
  · exact absurd read Action.not_fails_get
  obtain ⟨rfl, rfl⟩ := Action.yields_get.mp read
  rcases Action.fails_bind.mp failed with lifted | ⟨_, _, _, failed⟩
  · exact (Action.fails_lift.mp lifted).2 ▸ made
  · exact absurd failed Action.not_fails_set

theorem check_fails {faults : WriteFaults} {step : WriteStep}
    (failed : (faults.check step).Fails before failure after) : before = after := by
  unfold WriteFaults.check at failed
  split at failed
  · exact (Action.fails_throw.mp failed).2
  · exact absurd failed Action.not_fails_pure

theorem createTemporary_fails (failed : (createTemporary place).Fails before failure after) :
    before = after := by
  rcases Action.fails_bind.mp failed with read | ⟨_, _, read, failed⟩
  · exact absurd read Action.not_fails_get
  obtain ⟨rfl, rfl⟩ := Action.yields_get.mp read
  rcases Action.fails_bind.mp failed with lifted | ⟨_, _, lifted, failed⟩
  · exact (Action.fails_lift.mp lifted).2
  obtain ⟨_, rfl⟩ := Action.yields_lift.mp lifted
  dsimp only at failed
  split at failed
  · exact (Action.fails_throw_bind.mp failed).2
  split at failed
  · exact (Action.fails_throw_bind.mp failed).2
  · rcases Action.fails_bind.mp failed with isSet | ⟨_, _, _, failed⟩
    · exact absurd isSet Action.not_fails_set
    · exact absurd failed Action.not_fails_pure

theorem replace_fails {temporary : Place}
    (failed : (replace temporary place).Fails before failure after) : before = after := by
  rcases Action.fails_bind.mp failed with read | ⟨_, _, read, failed⟩
  · exact absurd read Action.not_fails_get
  obtain ⟨rfl, rfl⟩ := Action.yields_get.mp read
  rcases Action.fails_bind.mp failed with lifted | ⟨_, _, lifted, failed⟩
  · exact (Action.fails_lift.mp lifted).2
  obtain ⟨_, rfl⟩ := Action.yields_lift.mp lifted
  split at failed
  · exact absurd failed Action.not_fails_set
  · exact (Action.fails_throw.mp failed).2

/-- Filling a temporary file changes nothing else, also if it fails. -/
theorem fill_leaves (faults : WriteFaults) {temporary other : Place} (named : temporary ≠ [])
    (different : temporary ≠ other) (tree : FileTree) :
    FileTree.get? ((fill faults temporary content).run tree).2 other = tree.get? other := by
  have filled (held : FileEntry) : FileTree.get? (tree.set temporary held) other =
      tree.get? other := by
    rw [FileTree.get?_set named, if_neg different]
  unfold fill
  split
  · exact filled _
  · exact filled _

/-- An atomic write that fails once there is a temporary file has changed nothing else. -/
theorem fill_fails {faults : WriteFaults} {temporary : Place} (named : temporary ≠ [])
    (failed : (do
      fill faults temporary content
      faults.check .replace
      replace temporary place : Action FileTree Unit).Fails
        (before.set temporary (.file "")) failure after) :
    ∀ other, temporary ≠ other → after.get? other = before.get? other := by
  intro other different
  have created : FileTree.get? (before.set temporary (.file "")) other = before.get? other := by
    rw [FileTree.get?_set named, if_neg different]
  have filled : FileTree.get? ((fill faults temporary content).run
      (before.set temporary (.file ""))).2 other = _ := fill_leaves faults named different _
  rw [created] at filled
  rcases Action.fails_bind.mp failed with unfilled | ⟨_, _, ⟨_, rfl⟩, failed⟩
  · exact unfilled.2 ▸ filled
  rcases Action.fails_bind.mp failed with checked | ⟨_, _, checked, failed⟩
  · exact check_fails checked ▸ filled
  obtain ⟨_, rfl⟩ := check_yields checked
  exact replace_fails failed ▸ filled

/-- An atomic write that fails leaves the directories that were made before and nothing else, no
temporary file in particular. -/
theorem atomicWith_fails {faults : WriteFaults}
    (failed : (atomicWith faults place content).Fails before failure after) :
    FileTree.AddsDirectories place.LeadsThrough before after := by
  have made := FileTree.makeDirectories_leaves faults place before
  rcases Action.fails_bind.mp failed with early | ⟨_, between, ⟨_, isBetween⟩, failed⟩
  · exact early.2 ▸ made
  rw [isBetween] at made
  rcases Action.fails_bind.mp failed with checked | ⟨_, _, checked, failed⟩
  · exact check_fails checked ▸ made
  obtain ⟨_, rfl⟩ := check_yields checked
  rcases Action.fails_bind.mp failed with uncreated | ⟨temporary, _, created, failed⟩
  · exact createTemporary_fails uncreated ▸ made
  obtain ⟨fresh, rfl⟩ := createTemporary_yields created
  have named : temporary ≠ [] := by
    rintro rfl
    cases fresh
  rcases Action.fails_bind.mp failed with unmoved | ⟨_, _, _, noted⟩
  · obtain ⟨original, left, unfilled, handled⟩ := Action.fails_recover.mp unmoved
    have kept := fill_fails named unfilled
    rcases Action.fails_bind.mp handled with erased | ⟨_, _, erased, thrown⟩
    · exact absurd erased Action.not_fails_modify
    obtain rfl := Action.yields_modify.mp erased
    obtain ⟨_, rfl⟩ := Action.fails_throw.mp thrown
    refine made.congr fun other => ?_
    rw [FileTree.get?_erase]
    by_cases same : temporary = other
    · subst same
      rw [if_pos ⟨rfl, named⟩, fresh]
    · rw [if_neg fun both => same both.1, kept other same]
  · exact absurd noted Action.not_fails_record

/-- However the writer of the settings ends, it has written at the place at most. -/
theorem of_ends (isAtomic : Bool) (place : Place) (content : String) :
    (Writer.of isAtomic place content).Ends (FileTree.WritesAt [place.lexical]) fun _ => True := by
  refine Action.ends_of_cases (fun _ _ _ done => (of_wrote done).writesAt) ?_
  intro before failure after failed
  cases isAtomic with
  | false => exact ⟨(direct_fails failed).writesAt _, trivial⟩
  | true => exact ⟨(atomicWith_fails failed).writesAt _, trivial⟩

end Writer

namespace Workspace

variable {α : Type} {places : List Place} {directory : Place} {outputs : Table String}
  {before after : Workspace}

/-- Files are written at some places at most, whatever happens to the compiler. -/
def WritesAt (places : List Place) (before after : Workspace) : Prop :=
  before.files.WritesAt places after.files

theorem WritesAt.refl (workspace : Workspace) : WritesAt places workspace workspace :=
  FileTree.WritesAt.refl places workspace.files

theorem WritesAt.trans {between : Workspace} (first : WritesAt places before between)
    (second : WritesAt places between after) : WritesAt places before after :=
  FileTree.WritesAt.trans first second

theorem withFiles_ends {x : Action FileTree α}
    (ends : x.Ends (FileTree.WritesAt places) fun _ => True) :
    (withFiles x).Ends (WritesAt places) fun _ => True :=
  ⟨fun before => ends.leaves before.files, fun _ _ _ _ => trivial⟩

theorem withCompiler_ends (x : Action Compiler α) :
    (withCompiler x).Ends (WritesAt places) fun _ => True :=
  ⟨fun before => .refl before, fun _ _ _ _ => trivial⟩

/-- However writing modules ends, files are written at their places at most. -/
theorem writeEach_ends {isAtomic : Bool}
    (listed : ∀ path ∈ Table.keys outputs, (directory.join path).lexical ∈ places) :
    (writeEach (.of isAtomic) directory outputs).Ends (WritesAt places) fun _ => True := by
  refine writeEach_ends_of .refl .trans (fun path inside code => withFiles_ends ?_)
    fun _ _ => withCompiler_ends _
  have ends := Writer.of_ends isAtomic (directory.join path) code
  refine ⟨fun before => (ends.leaves before).mono ?_, fun _ _ _ _ => trivial⟩
  exact List.cons_subset.mpr ⟨listed path inside, List.nil_subset _⟩

/-- What writing modules says was written are places of modules, and there is a file at each. -/
theorem writeEach_written {isAtomic : Bool} {written : List Place}
    (done : (writeEach (.of isAtomic) directory outputs).Yields before written after) :
    ∀ place ∈ written, (∃ path ∈ Table.keys outputs, place = directory.join path) ∧
      ∃ content, after.files.get? place.lexical = some (.file content) := by
  induction outputs generalizing before written with
  | nil =>
    obtain ⟨rfl, _⟩ := Action.yields_pure.mp done
    exact List.forall_mem_nil _
  | cons entry others ih =>
    obtain ⟨path, code⟩ := entry
    have later : ∀ {between : Workspace} {places : List Place},
        (writeEach (.of isAtomic) directory others).Yields between places after →
        ∀ place ∈ places, (∃ path' ∈ Table.keys ((path, code) :: others),
          place = directory.join path') ∧
          ∃ content, after.files.get? place.lexical = some (.file content) := by
      intro between places done place inside
      obtain ⟨⟨path', listed, isPlace⟩, written⟩ := ih done place inside
      exact ⟨⟨path', List.mem_cons_of_mem _ listed, isPlace⟩, written⟩
    obtain ⟨outcome, _, attempted, done⟩ := Action.yields_bind.mp done
    cases outcome with
    | ok _ =>
      obtain ⟨well, isBetween⟩ := Action.yields_attempt.mp attempted
      obtain ⟨files, wrote, rfl⟩ := Action.yields_within.mp ⟨well, isBetween⟩
      obtain ⟨_, _, noted, done⟩ := Action.yields_bind.mp done
      obtain rfl := Action.yields_record.mp noted
      obtain ⟨places, _, rest, done⟩ := Action.yields_bind.mp done
      obtain ⟨rfl, rfl⟩ := Action.yields_pure.mp done
      refine List.forall_mem_cons.mpr ⟨⟨⟨path, List.mem_cons_self, rfl⟩, ?_⟩, later rest⟩
      have ends := (writeEach_ends fun _ listed => List.mem_map_of_mem listed :
        (writeEach (.of isAtomic) directory others).Ends (WritesAt ((Table.keys others).map
          fun path => (directory.join path).lexical)) fun _ => True)
      exact (rest.2 ▸ ends.leaves _).file ⟨code, (Writer.of_wrote wrote).written⟩
    | error failure =>
      dsimp only at done
      split at done
      · exact absurd done Action.not_yields_throw_bind
      · obtain ⟨_, _, _, done⟩ := Action.yields_bind.mp done
        split at done
        · exact absurd done Action.not_yields_throw_bind
        · obtain ⟨_, _, _, done⟩ := Action.yields_bind.mp done
          obtain ⟨_, _, _, rest⟩ := Action.yields_bind.mp done
          exact later rest

theorem write_of_compiled {compiler next : Compiler} {files : FileTree}
    (compiled : Compiler.compile.Yields compiler outputs next) (directory : Place) :
    ((write none directory).run ⟨compiler, files⟩).1.result =
        ((writeEach (writer ⟨next, files⟩) directory outputs).run ⟨next, files⟩).1.result ∧
      ((write none directory).run ⟨compiler, files⟩).2 =
        ((writeEach (writer ⟨next, files⟩) directory outputs).run ⟨next, files⟩).2 := by
  have read : (withCompiler Compiler.compile).Yields ⟨compiler, files⟩ outputs ⟨next, files⟩ :=
    Action.yields_within.mpr ⟨next, compiled, rfl⟩
  have state : (get : Action Workspace Workspace).Yields ⟨next, files⟩ ⟨next, files⟩
    ⟨next, files⟩ := Action.yields_get.mpr ⟨rfl, rfl⟩
  have started := Action.run_bind_of_yields (f := fun outputs => do
    writeEach (← get).writer directory outputs) read
  have continued := Action.run_bind_of_yields (f := fun workspace : Workspace =>
    writeEach workspace.writer directory outputs) state
  exact ⟨started.1.trans continued.1, started.2.trans continued.2⟩

end Workspace

namespace Compiler

variable {workingDir : List String} {document : Document} {settings : Settings}
  {formatter : Option Formatter} {shell : Shell} {bundleName barrel : Json}

theorem Basis.defined_of_path
    (basis : (new workingDir document (.plain .oneToOne bundleName barrel) settings formatter
      shell).Basis) {path : String} (listed : path ∈ basis.paths) :
    ∃ id ∈ Table.keys document.schemas, modulePath id = path := by
  have planned := (Plan.resolve_plain_oneToOne bundleName barrel _ _).symm.trans basis.resolved
  obtain ⟨runtime, modules, isRuntime, isModules, laid⟩ := Plan.allModules_ok basis.listed
  rw [← Except.ok.inj planned] at isRuntime isModules
  cases isRuntime
  cases isModules
  rw [paths, ← Table.keys_mapValues some, laid, Table.mem_keys_update] at listed
  rcases listed with none | listed
  · cases none
  · rw [Table.keys_mapValues, Plan.keys_bundledTable, OrderEntry.ids_unflagged] at listed
    exact List.mem_map.mp listed

/-- However writing the modules of a document ends, if there is one for each definition: files are
written only where the ids lead to, and each module that is said to be written is there. -/
theorem write_plain (bundleName : Json) (directory : Place) (files : FileTree) :
    let run := (Workspace.write none directory).run
      ⟨new workingDir document (.plain .oneToOne bundleName (.bool false)) settings formatter
        shell, files⟩
    files.WritesAt ((Table.keys document.schemas).map (moduleFile directory)) run.2.files ∧
    ∀ written, run.1.result = .ok written → ∀ place ∈ written,
      ∃ id ∈ Table.keys document.schemas, place = directory.join (modulePath id) ∧
        ∃ content, run.2.files.get? (moduleFile directory id) = some (.file content) := by
  obtain ⟨basis⟩ : Nonempty (new workingDir document (.plain .oneToOne bundleName (.bool false))
    settings formatter shell).Basis := exists_basis (Plan.usable_plain _ _ _)
  have compiled := basis.compiles_unbarrelled (.inr ⟨rfl, rfl⟩)
  have paths : ∀ path ∈ Table.keys basis.outcomes.yielded,
      ∃ id ∈ Table.keys document.schemas, modulePath id = path := fun path inside =>
    basis.defined_of_path (basis.keys_outcomes ▸ basis.outcomes.divided.left_sublist.subset inside)
  obtain ⟨isResult, isState⟩ := Workspace.write_of_compiled compiled directory
  intro run
  constructor
  · have listed : ∀ path ∈ Table.keys basis.outcomes.yielded,
        (directory.join path).lexical ∈
          (Table.keys document.schemas).map (moduleFile directory) := by
      intro path inside
      obtain ⟨id, defined, rfl⟩ := paths path inside
      exact List.mem_map_of_mem defined
    rw [isState]
    exact (Workspace.writeEach_ends listed).leaves _
  · intro written done place inside
    obtain ⟨⟨path, isPath, rfl⟩, isFile⟩ :=
      Workspace.writeEach_written ⟨isResult.symm.trans done, rfl⟩ place inside
    obtain ⟨id, defined, rfl⟩ := paths path isPath
    rw [isState]
    exact ⟨id, defined, rfl, isFile⟩

/-- Where the modules of a document are written if there is one for each definition. Whatever goes
wrong, files are written only where the ids lead to from the output directory, and each module that
is said to be written is there. All modules go inside any output directory exactly if no id leads
above it; if two ids do not, they share a file exactly if they lead to the same place below the
directory. So without slashes in ids all modules have files of their own in the directory. -/
theorem output_inside_iff (workingDir : List String) (document : Document) (bundleName : Json)
    (settings : Settings) (formatter : Option Formatter) (shell : Shell) :
    (∀ (directory : Place) (files : FileTree),
      let run := (Workspace.write none directory).run
        ⟨new workingDir document (.plain .oneToOne bundleName (.bool false)) settings formatter
          shell, files⟩
      files.WritesAt ((Table.keys document.schemas).map (moduleFile directory)) run.2.files ∧
      ∀ written, run.1.result = .ok written → ∀ place ∈ written,
        ∃ id ∈ Table.keys document.schemas, place = directory.join (modulePath id) ∧
          ∃ content, run.2.files.get? (moduleFile directory id) = some (.file content)) ∧
    ((∀ directory : Place, ∀ id ∈ Table.keys document.schemas,
        directory.lexical.Inside (moduleFile directory id)) ↔
      ∀ id ∈ Table.keys document.schemas, (moduleBelow? id).isSome = true) ∧
    (∀ id ∈ Table.keys document.schemas, ∀ other ∈ Table.keys document.schemas,
      (moduleBelow? id).isSome = true → (moduleBelow? other).isSome = true →
      ∀ directory : Place, moduleFile directory id = moduleFile directory other ↔
        moduleBelow? id = moduleBelow? other) ∧
    ((∀ id ∈ Table.keys document.schemas, '/' ∉ id.toList) →
      ∀ directory : Place, ∀ id ∈ Table.keys document.schemas,
        directory.lexical.Inside (moduleFile directory id) ∧
        ∀ other ∈ Table.keys document.schemas, other ≠ id →
          moduleFile directory other ≠ moduleFile directory id) := by
  refine ⟨write_plain bundleName, ?_, ?_, ?_⟩
  · constructor
    · intro inside id defined
      exact moduleFile_inside_iff.mp fun directory => inside directory id defined
    · intro below directory id defined
      exact moduleFile_inside_iff.mpr (below id defined) directory
  · intro id _ other _ below below' directory
    exact moduleFile_eq_iff below below' directory
  · intro plain directory id defined
    have below := moduleBelow?_of_no_slash (plain id defined)
    have contained : (moduleBelow? id).isSome = true := by rw [below, Option.isSome_some]
    refine ⟨moduleFile_inside_iff.mpr contained directory, fun other isOther different same => ?_⟩
    have below' := moduleBelow?_of_no_slash (plain other isOther)
    have contained' : (moduleBelow? other).isSome = true := by rw [below', Option.isSome_some]
    have shared := (moduleFile_eq_iff contained' contained directory).mp same
    rw [below, below', Option.some.injEq, List.singleton_inj, String.append_left_inj] at shared
    exact different shared

/-- Writes what a document compiles to. -/
abbrev writeOut (document : Document) : Logged (List Place) × Workspace :=
  (Workspace.write none ["out"]).run ⟨plainly .oneToOne document, []⟩

/-- A document with scalars of one type each. -/
def scalarDocument (entries : Table ScalarKind) : Document :=
  ⟨"Scalars", "1", Table.mapValues (fun kind =>
    .scalar ⟨"", .null, .null, false, none, []⟩ { kind }) entries⟩

/-- Two ids with slashes, of which one leads up, but not above the output directory. -/
def nestedDocument : Document :=
  scalarDocument [("a/b", .string), ("c/../d", .number)]

theorem output_inside_iff_nested :
    (writeOut nestedDocument).1.result =
        .ok [["out", "a", "b.ts"], ["out", "c", "..", "d.ts"]] ∧
      (∀ id ∈ ["a/b", "c/../d"], Place.Inside ["out"] (moduleFile ["out"] id)) ∧
      moduleFile ["out"] "a/b" ≠ moduleFile ["out"] "c/../d" ∧
      ∃ content, (writeOut nestedDocument).2.files.get? (Place.lexical ["out", "c", "..", "d.ts"]) =
        some (.file content) := by
  have written : (writeOut nestedDocument).1.result =
      .ok [["out", "a", "b.ts"], ["out", "c", "..", "d.ts"]] :=
    eq_ok_of_toOption (by decide +kernel)
  have files : ∀ document places, (writeOut document).1.result = .ok places → ∀ place ∈ places,
      ∃ content, (writeOut document).2.files.get? place.lexical = some (.file content) := by
    intro document places done place inside
    obtain ⟨id, _, rfl, isFile⟩ :=
      ((output_inside_iff [] document (.str "bundle") {} none {}).1 ["out"] []).2 places done place
        inside
    exact isFile
  have inside := (output_inside_iff [] nestedDocument (.str "bundle") {} none {}).2.1
  have shared := (output_inside_iff [] nestedDocument (.str "bundle") {} none {}).2.2.1
  have below : ∀ id ∈ ["a/b", "c/../d"], (moduleBelow? id).isSome = true := by decide +kernel
  have different : moduleBelow? "a/b" ≠ moduleBelow? "c/../d" := by decide +kernel
  refine ⟨written, inside.mpr below ["out"], fun same => different ?_, ?_⟩
  · exact (shared "a/b" (by decide) "c/../d" (by decide) (below _ (by decide))
      (below _ (by decide)) ["out"]).mp same
  · exact files nestedDocument _ written ["out", "c", "..", "d.ts"] (by decide)

/-- An id that leads above the output directory, and two that lead to the same place in it. -/
def strayDocument : Document :=
  scalarDocument [("../escape", .string), ("a/b", .string), ("a//b", .number)]

/-- A module may be written outside of the output directory, and two modules may be written to the
same file. -/
theorem modules_stray_and_collide :
    (writeOut strayDocument).1.result =
        .ok [["out", "..", "escape.ts"], ["out", "a", "b.ts"], ["out", "a", "b.ts"]] ∧
      moduleFile ["out"] "../escape" = ["escape.ts"] ∧
      ((writeOut strayDocument).2.files.get? ["escape.ts"]).isSome = true ∧
      ¬ Place.Inside ["out"] ["escape.ts"] ∧
      moduleFile ["out"] "a/b" = ["out", "a", "b.ts"] ∧
      moduleFile ["out"] "a//b" = ["out", "a", "b.ts"] := by
  refine ⟨eq_ok_of_toOption (by decide +kernel), by decide +kernel, by decide +kernel, ?_,
    by decide +kernel, by decide +kernel⟩
  rintro ⟨below, _, same⟩
  exact absurd (List.cons.inj same).1 (by decide)

end Compiler

end SchemaPress
