import SchemaPress.Proofs.BestEffort

/-! Runs of a bundle. Writing a bundle writes one file, or it fails at one stage: the order of the
definitions, the code of a module, the formatting of the text, or the writing. Until the writing,
nothing happens to the files. A failure is reported with its cause, except that failures of the
formatter that are not rejections, and failures of the writer that are not those of the file system,
are passed on as they are. -/

namespace SchemaPress

/-- Where a bundle can fail. -/
inductive Stage where
  | analysis
  | generation (path : String)
  | formatting (path : String)
  | writing (place : Place)

namespace Stage

/-- Whether a stage gives a failure as the cause of its own. -/
def Wraps : Stage → Failure → Prop
  | .analysis, _ | .generation _, _ => True
  | .formatting _, cause => cause.kind = .formatter
  | .writing _, cause => cause.kind = .file

/-- What a stage reports if something fails in it. -/
def report : Stage → Failure → Failure
  | .analysis, cause => .unknownOrder cause
  | .generation path, cause => .ungenerated path cause
  | .formatting path, cause => if cause.kind = .formatter then .unformatted path cause else cause
  | .writing place, cause => if cause.kind = .file then .unwritten place.text cause else cause

theorem report_of_wraps {stage : Stage} {cause : Failure} (wraps : stage.Wraps cause) :
    (stage.report cause).kind = .generation ∧ (stage.report cause).cause? = some cause := by
  cases stage with
  | analysis | generation => exact ⟨rfl, rfl⟩
  | formatting path =>
    have rejected : cause.kind = .formatter := wraps
    rw [report, if_pos rejected]
    exact ⟨rfl, rfl⟩
  | writing place =>
    have unwritten : cause.kind = .file := wraps
    rw [report, if_pos unwritten]
    exact ⟨rfl, rfl⟩

theorem report_of_not_wraps {stage : Stage} {cause : Failure} (escapes : ¬ stage.Wraps cause) :
    stage.report cause = cause := by
  cases stage with
  | analysis | generation => exact absurd trivial escapes
  | formatting path =>
    have other : ¬ cause.kind = .formatter := escapes
    rw [report, if_neg other]
  | writing place =>
    have other : ¬ cause.kind = .file := escapes
    rw [report, if_neg other]

end Stage

/-- An order cannot be found only because the dependents of a definition are not known. -/
theorem Definitions.order_error {table : Definitions} {failure : Failure}
    (failed : table.order = .error failure) : failure.kind = .dependencyAnalysis := by
  have unknown : ∀ (dependents : Adjacency) (table : Definitions) (failure : Failure),
      table.addDependents dependents = .error failure → failure.kind = .dependencyAnalysis := by
    intro dependents table
    induction table generalizing dependents with
    | nil => exact fun _ failed => nomatch failed
    | cons entry rest ih =>
      intro failure failed
      rw [addDependents] at failed
      split at failed
      · cases failed
        rfl
      · exact ih _ failure failed
  cases found : table.dependents with
  | error cause =>
    rw [order, found] at failed
    cases failed
    exact unknown [] table _ found
  | ok dependents =>
    rw [order, found] at failed
    cases failed

/-- The command of settings is a list of words. -/
def FormatSettings.Worded (settings : FormatSettings) : Prop :=
  ∃ words : List String, settings.command.elements = .ok (words.map .str)

namespace Formatting

variable {formatting before after : Formatting} {cause : Failure}

/-- A formatter is one that settings can ask for: none, or the external one. -/
def Configured (formatting : Formatting) : Prop :=
  formatting.formatter = .plain ∨
    ∃ settings available?, formatting.formatter = .prettier settings available? ∧ settings.Worded

/-- The program of a formatter could not be started. -/
def Unstarted (cause : Failure) : Prop :=
  cause = .file .missing ∨ cause = .file .denied

theorem not_fails_start {call : Call} : ¬ (start call).Fails before cause after :=
  fun failed => nomatch failed.1

theorem commandText_words (words : List String) :
    commandText (words.map .str) = .ok (Text.join " " words) := by
  refine except_bind_eq_ok.mpr ⟨words, mapM_eq_ok.mpr ?_, rfl⟩
  rw [List.forall₂_map_left_iff, List.forall₂_same]
  exact fun _ _ => rfl

/-- All that can go wrong in probing is that the program may not be run. -/
theorem probe_fails {settings : FormatSettings} (worded : settings.Worded)
    (failed : (probe settings).Fails before cause after) : Unstarted cause := by
  obtain ⟨words, isWords⟩ := worded
  rcases Action.fails_bind.mp failed with unread | ⟨command, _, read, failed⟩
  · cases isWords.symm.trans (Action.fails_lift.mp unread).1
  obtain ⟨isCommand, rfl⟩ := Action.yields_lift.mp read
  cases isWords.symm.trans isCommand
  rcases Action.fails_bind.mp failed with unstarted | ⟨outcome, between, _, failed⟩
  · exact absurd unstarted not_fails_start
  rcases Action.fails_bind.mp failed with denied | ⟨available, _, _, failed⟩
  · obtain ⟨denied, _⟩ := Action.fails_lift.mp denied
    cases outcome <;> cases denied
    exact .inr rfl
  rcases Action.fails_bind.mp failed with unkept | ⟨_, _, _, failed⟩
  · exact absurd unkept Action.not_fails_modify
  -- The warning quotes the command, whose words are texts.
  split at failed
  · exact absurd failed Action.not_fails_pure
  · rcases Action.fails_bind.mp failed with unworded | ⟨_, _, _, failed⟩
    · cases (commandText_words words).symm.trans (Action.fails_lift.mp unworded).1
    rcases Action.fails_bind.mp failed with unnoted | ⟨_, _, _, failed⟩
    · exact absurd unnoted Action.not_fails_record
    · exact absurd failed Action.not_fails_pure

theorem isAvailable_fails (configured : formatting.Configured)
    (failed : isAvailable.Fails formatting cause after) : Unstarted cause := by
  rcases Action.fails_bind.mp failed with unread | ⟨_, _, read, failed⟩
  · exact absurd unread Action.not_fails_get
  obtain ⟨rfl, rfl⟩ := Action.yields_get.mp read
  rcases configured with plain | ⟨settings, available?, isPrettier, worded⟩
  · rw [plain] at failed
    exact absurd failed Action.not_fails_pure
  · rw [isPrettier] at failed
    cases available? with
    | none => exact probe_fails worded failed
    | some available => exact absurd failed Action.not_fails_pure

/-- A process that was started formats the code or rejects it. -/
theorem formatted_error {outcome : Outcome} (failed : formatted outcome = .error cause) :
    cause.kind = .formatter ∨ Unstarted cause := by
  unfold formatted at failed
  split at failed <;> cases failed
  · exact .inl rfl
  · exact .inr (.inl rfl)
  · exact .inr (.inr rfl)
  · exact .inl rfl

/-- A configured formatter rejects code, or its program could not be started. -/
theorem format_escapes {settings : FormatSettings} {code : String}
    (configured : formatting.Configured) (worded : settings.Worded)
    (failed : (format code settings).Fails formatting cause after) :
    cause.kind = .formatter ∨ Unstarted cause := by
  have probing : ∀ cause after, isAvailable.Fails formatting cause after → Unstarted cause :=
    fun _ _ => isAvailable_fails configured
  rcases Action.fails_bind.mp failed with unread | ⟨_, _, read, failed⟩
  · exact absurd unread Action.not_fails_get
  obtain ⟨rfl, rfl⟩ := Action.yields_get.mp read
  rcases configured with plain | ⟨own, available?, isPrettier, _⟩
  · rw [plain] at failed
    exact absurd failed Action.not_fails_pure
  rw [isPrettier] at failed
  rcases Action.fails_bind.mp failed with unprobed | ⟨available, _, _, failed⟩
  · exact .inr (probing _ _ unprobed)
  split at failed
  · obtain ⟨words, isWords⟩ := worded
    have commanded : ∃ command, commandFor settings = .ok command :=
      ⟨_, except_bind_eq_ok.mpr ⟨_, isWords, rfl⟩⟩
    rcases Action.fails_bind.mp failed with unworded | ⟨_, _, _, failed⟩
    · obtain ⟨command, isCommand⟩ := commanded
      cases isCommand.symm.trans (Action.fails_lift.mp unworded).1
    rcases Action.fails_bind.mp failed with unstarted | ⟨outcome, _, _, failed⟩
    · exact absurd unstarted not_fails_start
    · exact formatted_error (Action.fails_lift.mp failed).1
  · exact absurd failed Action.not_fails_pure

end Formatting

namespace Compiler

variable {compiler : Compiler}

/-- What the modules of a bundle are generated from. -/
structure Outline (compiler : Compiler) where
  order : List OrderEntry
  plan : Plan
  generator : Generator
  ordered : compiler.document.schemas.order = .ok order
  resolved : compiler.plan.resolve (Table.keys compiler.document.schemas) order = .ok plan
  prepared : Generator.ofPlan compiler.workingDir compiler.document.schemas plan
    (fun id => standsBefore (order.map OrderEntry.id) (.str id)) = .ok generator
  bundleName : plan.bundleName = compiler.plan.bundleName

theorem exists_outline (usable : compiler.plan.Usable) {order : List OrderEntry}
    (ordered : compiler.document.schemas.order = .ok order) : Nonempty compiler.Outline := by
  obtain ⟨entries, resolved, still⟩ := usable.resolve (Table.keys compiler.document.schemas) order
  obtain ⟨generator, prepared, _⟩ := still.prepared compiler.workingDir compiler.document.schemas
    fun id => standsBefore (order.map OrderEntry.id) (.str id)
  exact ⟨⟨order, _, generator, ordered, resolved, prepared, rfl⟩⟩

theorem order_fails {cause : Failure} (remembers : compiler.Remembers)
    (unordered : compiler.document.schemas.order = .error cause) :
    order.Fails compiler cause compiler := by
  refine Action.fails_bind.mpr (.inr ⟨_, _, Action.yields_get.mpr ⟨rfl, rfl⟩, ?_⟩)
  split
  · rename_i known isKnown
    cases (remembers known isKnown).symm.trans unordered
  · exact Action.fails_bind.mpr (.inl (Action.fails_lift.mpr ⟨unordered, rfl⟩))

/-- Without an order there is no bundle. -/
theorem compileBundle_unordered {cause : Failure} (remembers : compiler.Remembers)
    (bundled : compiler.plan.method = .bundled)
    (unordered : compiler.document.schemas.order = .error cause) :
    compileBundle.Fails compiler (Stage.analysis.report cause) compiler := by
  have sought : orderForMethod.Fails compiler cause compiler := by
    refine Action.fails_bind.mpr (.inr ⟨_, _, Action.yields_get.mpr ⟨rfl, rfl⟩, ?_⟩)
    rw [if_pos bundled]
    exact order_fails remembers unordered
  have unplanned : resolvedPlan.Fails compiler cause compiler :=
    Action.fails_bind.mpr (.inl sought)
  refine Action.fails_bind.mpr (.inl (Action.fails_recover.mpr ⟨_, _, unplanned, ?_⟩))
  rw [if_pos (Definitions.order_error unordered)]
  exact Action.fails_throw.mpr ⟨rfl, rfl⟩

/-- The modules of a bundle are all generated, or the first that is not ends it. -/
theorem bundleModules_cases (generator : Generator) (paths : List String) :
    (∃ modules, List.Forall₂ (fun path module => (generator.generate path).result = .ok module)
      paths modules) ∨
    ∃ path ∈ paths, ∃ cause, (generator.generate path).result = .error cause ∧
      ∀ compiler, (bundleModules generator paths).Fails compiler (.ungenerated path cause)
        compiler := by
  induction paths with
  | nil => exact .inl ⟨[], .nil⟩
  | cons path rest ih =>
    have noted : ∀ compiler : Compiler, (Action.record .info ("Generating module: " ++ path)).Yields
        compiler () compiler := fun _ => Action.yields_record.mpr rfl
    cases generated : (generator.generate path).result with
    | error cause =>
      refine .inr ⟨path, List.mem_cons_self, cause, generated, fun compiler => ?_⟩
      refine Action.fails_bind.mpr (.inr ⟨_, _, noted compiler, ?_⟩)
      refine Action.fails_bind.mpr (.inr ⟨_, _, Action.yields_attempt.mpr ⟨generated, rfl⟩, ?_⟩)
      exact Action.fails_throw.mpr ⟨rfl, rfl⟩
    | ok module =>
      rcases ih with ⟨modules, each⟩ | ⟨other, inside, cause, failed, fails⟩
      · exact .inl ⟨module :: modules, .cons generated each⟩
      · refine .inr ⟨other, List.mem_cons_of_mem _ inside, cause, failed, fun compiler => ?_⟩
        refine Action.fails_bind.mpr (.inr ⟨_, _, noted compiler, ?_⟩)
        refine Action.fails_bind.mpr (.inr ⟨_, _, Action.yields_attempt.mpr ⟨generated, rfl⟩, ?_⟩)
        exact Action.fails_bind.mpr (.inl (fails compiler))

/-- Once a bundle is outlined, its modules are generated and its text is formatted. -/
theorem Outline.fails (outline : compiler.Outline) {failure : Failure} {after : Compiler}
    (remembers : compiler.Remembers) (bundled : compiler.plan.method = .bundled)
    (failed : (bundleModules outline.generator (Table.keys outline.generator.modules)).Fails
      { compiler with order? := some outline.order } failure after) :
    compileBundle.Fails compiler failure after := by
  have planned := (resolvedPlan_bundled remembers bundled).mpr
    ⟨_, outline.ordered, outline.resolved, rfl⟩
  have set := (generator_bundled rfl (remembers_order outline.ordered) bundled).mpr
    ⟨outline.prepared, rfl⟩
  refine Action.fails_bind.mpr (.inr ⟨_, _,
    (Action.yields_recover fun _ _ => Action.not_yields_throw).mpr planned, ?_⟩)
  refine Action.fails_bind.mpr (.inr ⟨_, _, set, ?_⟩)
  exact Action.fails_bind.mpr (.inl failed)

/-- A text that cannot be formatted is no bundle. -/
theorem Bundle.fails (bundle : compiler.Bundle) {cause : Failure} {formatting : Formatting}
    (remembers : compiler.Remembers) (bundled : compiler.plan.method = .bundled)
    (failed : (Formatting.format bundle.code compiler.settings.format).Fails compiler.formatting
      cause formatting) :
    compileBundle.Fails compiler
      ((Stage.formatting (modulePath bundle.plan.bundleName.display)).report cause)
      { compiler with order? := some bundle.order, formatting } := by
  have planned := (resolvedPlan_bundled remembers bundled).mpr
    ⟨_, bundle.ordered, bundle.resolved, rfl⟩
  have set := (generator_bundled rfl (remembers_order bundle.ordered) bundled).mpr
    ⟨bundle.prepared, rfl⟩
  rw [Bundle.code, Bundle.marks, Bundle.sections, ← bundleText_values] at failed
  have unformatted : (format (bundleText compiler.header (Table.values bundle.modules))).Fails
      { compiler with order? := some bundle.order } cause
      { compiler with order? := some bundle.order, formatting } :=
    format_fails.mpr ⟨formatting, failed, rfl⟩
  refine Action.fails_bind.mpr (.inr ⟨_, _,
    (Action.yields_recover fun _ _ => Action.not_yields_throw).mpr planned, ?_⟩)
  refine Action.fails_bind.mpr (.inr ⟨_, _, set, ?_⟩)
  refine Action.fails_bind.mpr (.inr ⟨_, _,
    bundleModules_yields.mpr ⟨bundle.each_generated, rfl⟩, ?_⟩)
  refine Action.fails_bind.mpr (.inr ⟨_, _, Action.yields_get.mpr ⟨rfl, rfl⟩, ?_⟩)
  refine Action.fails_bind.mpr (.inl (Action.fails_recover.mpr
    ⟨_, _, Action.fails_bind.mpr (.inl unformatted), ?_⟩))
  exact Action.fails_bind.mpr (.inl (Action.fails_throw.mpr ⟨rfl, rfl⟩))

theorem compile_fails {failure : Failure} {after : Compiler}
    (bundled : compiler.plan.method = .bundled)
    (failed : compileBundle.Fails { compiler with failures := [] } failure after) :
    compile.Fails compiler failure after := by
  refine Action.fails_bind.mpr (.inr ⟨_, _, Action.yields_get.mpr ⟨rfl, rfl⟩, ?_⟩)
  refine Action.fails_bind.mpr (.inr ⟨(), _, Action.yields_record.mpr rfl, ?_⟩)
  refine Action.fails_bind.mpr (.inr ⟨(), _, Action.yields_modify.mpr rfl, ?_⟩)
  refine Action.fails_bind.mpr (.inr ⟨_, _, Action.yields_get.mpr ⟨rfl, rfl⟩, ?_⟩)
  rwa [if_pos bundled]

/-- A stage before the writing, and what goes wrong there. -/
inductive StopsAt (compiler : Compiler) : Stage → Failure → Prop where
  | analysis {cause : Failure} (unordered : compiler.document.schemas.order = .error cause) :
      StopsAt compiler .analysis cause
  | generation {cause : Failure} {path : String} (outline : compiler.Outline)
      (listed : path ∈ Table.keys outline.generator.modules)
      (ungenerated : (outline.generator.generate path).result = .error cause) :
      StopsAt compiler (.generation path) cause
  | formatting {cause : Failure} {after : Formatting} (bundle : compiler.Bundle)
      (unformatted : (Formatting.format bundle.code compiler.settings.format).Fails
        compiler.formatting cause after) :
      StopsAt compiler (.formatting (modulePath compiler.plan.bundleName.display)) cause

/-- Compiling a bundle gives its text under one path, or ends at a stage. -/
theorem compileBundle_cases (remembers : compiler.Remembers)
    (bundled : compiler.plan.method = .bundled) (usable : compiler.plan.Usable) :
    (∃ (bundle : compiler.Bundle) (text : String) (formatting : Formatting),
      bundle.Prints [(modulePath compiler.plan.bundleName.display, text)] ∧
      compileBundle.Yields compiler [(modulePath compiler.plan.bundleName.display, text)]
        { compiler with order? := some bundle.order, formatting }) ∨
    ∃ stage cause after, compiler.StopsAt stage cause ∧
      compileBundle.Fails compiler (stage.report cause) after := by
  cases ordered : compiler.document.schemas.order with
  | error cause =>
    exact .inr ⟨.analysis, cause, _, .analysis ordered,
      compileBundle_unordered remembers bundled ordered⟩
  | ok order =>
    obtain ⟨outline⟩ := exists_outline usable ordered
    rcases bundleModules_cases outline.generator (Table.keys outline.generator.modules) with
      ⟨modules, each⟩ | ⟨path, listed, cause, ungenerated, fails⟩
    · obtain ⟨modules, paths, rfl, generated⟩ := Table.forall₂_iff.mp each
      let bundle : compiler.Bundle := ⟨outline.order, outline.plan, outline.generator, modules,
        outline.ordered, outline.resolved, outline.prepared, paths, generated⟩
      have named : bundle.plan.bundleName = compiler.plan.bundleName := outline.bundleName
      rw [← named]
      rcases Action.yields_or_fails (Formatting.format bundle.code compiler.settings.format)
        compiler.formatting with ⟨text, formatting, formatted⟩ | ⟨cause, formatting, unformatted⟩
      · exact .inl ⟨bundle, text, formatting, ⟨text, formatting, formatted, rfl⟩,
          bundle.compiles formatted remembers bundled⟩
      · have failed := bundle.fails remembers bundled unformatted
        rw [named] at failed
        exact .inr ⟨_, cause, _, .formatting bundle unformatted, failed⟩
    · exact .inr ⟨.generation path, cause, _, .generation outline listed ungenerated,
        outline.fails remembers bundled (fails _)⟩

/-- The failures of earlier runs have no part in what a bundle is. -/
def Bundle.ofCleared (bundle : Bundle { compiler with failures := [] }) : compiler.Bundle where
  order := bundle.order
  plan := bundle.plan
  generator := bundle.generator
  modules := bundle.modules
  ordered := bundle.ordered
  resolved := bundle.resolved
  prepared := bundle.prepared
  paths := bundle.paths
  generated := bundle.generated

/-- Nor have they in where a bundle ends. -/
theorem StopsAt.of_cleared {stage : Stage} {cause : Failure}
    (stopped : StopsAt { compiler with failures := [] } stage cause) :
    compiler.StopsAt stage cause := by
  cases stopped with
  | analysis unordered => exact .analysis unordered
  | generation outline listed ungenerated =>
    exact .generation ⟨outline.order, outline.plan, outline.generator, outline.ordered,
      outline.resolved, outline.prepared, outline.bundleName⟩ listed ungenerated
  | formatting bundle unformatted => exact .formatting bundle.ofCleared unformatted

theorem compile_bundle_cases (remembers : compiler.Remembers)
    (bundled : compiler.plan.method = .bundled) (usable : compiler.plan.Usable) :
    (∃ (bundle : compiler.Bundle) (text : String) (formatting : Formatting),
      bundle.Prints [(modulePath compiler.plan.bundleName.display, text)] ∧
      compile.Yields compiler [(modulePath compiler.plan.bundleName.display, text)]
        { compiler with failures := [], order? := some bundle.order, formatting }) ∨
    ∃ stage cause after, compiler.StopsAt stage cause ∧
      compile.Fails compiler (stage.report cause) after := by
  have remembers : Remembers { compiler with failures := [] } := remembers
  rcases compileBundle_cases remembers bundled usable with
    ⟨bundle, text, formatting, prints, done⟩ | ⟨stage, cause, after, stopped, failed⟩
  · refine .inl ⟨bundle.ofCleared, text, formatting, prints, compile_yields.mpr ?_⟩
    rwa [if_pos bundled]
  · exact .inr ⟨stage, cause, after, stopped.of_cleared, compile_fails bundled failed⟩

end Compiler

namespace Workspace

variable {workspace : Workspace} {writer : Writer} {directory : Place} {path text : String}
  {files : FileTree}

theorem writeEach_one_yields
    (written : (writer (directory.join path) text).Yields workspace.files () files) :
    (writeEach writer directory [(path, text)]).Yields workspace [directory.join path]
      { workspace with files } := by
  have within : (withFiles (writer (directory.join path) text)).Yields workspace ()
      { workspace with files } := Action.yields_within.mpr ⟨files, written, rfl⟩
  refine Action.yields_bind.mpr ⟨_, _, Action.yields_attempt.mpr within, ?_⟩
  refine Action.yields_bind.mpr ⟨(), _, Action.yields_record.mpr rfl, ?_⟩
  exact Action.yields_bind.mpr ⟨[], _, Action.yields_pure.mpr ⟨rfl, rfl⟩,
    Action.yields_pure.mpr ⟨rfl, rfl⟩⟩

/-- A bundle that cannot be written is given up. -/
theorem writeEach_one_fails {cause : Failure}
    (bundled : workspace.compiler.plan.method = .bundled)
    (unwritten : (writer (directory.join path) text).Fails workspace.files cause files) :
    (writeEach writer directory [(path, text)]).Fails workspace
      ((Stage.writing (directory.join path)).report cause) { workspace with files } := by
  have within : (withFiles (writer (directory.join path) text)).Fails workspace cause
      { workspace with files } := Action.fails_within.mpr ⟨files, unwritten, rfl⟩
  refine Action.fails_bind.mpr (.inr ⟨_, _, Action.yields_attempt.mpr within, ?_⟩)
  dsimp only
  by_cases isFile : cause.kind = .file
  · rw [Stage.report, if_pos isFile, if_neg (not_not_intro isFile)]
    refine Action.fails_bind.mpr (.inr ⟨_, _, Action.yields_get.mpr ⟨rfl, rfl⟩, ?_⟩)
    rw [if_pos bundled]
    exact Action.fails_bind.mpr (.inl (Action.fails_throw.mpr ⟨rfl, rfl⟩))
  · rw [Stage.report, if_neg isFile, if_pos isFile]
    exact Action.fails_bind.mpr (.inl (Action.fails_throw.mpr ⟨rfl, rfl⟩))

/-- A stage at which writing a bundle to a place ends, what goes wrong there, and the files then.
The files are not touched before the text is there. -/
inductive StopsAt (workspace : Workspace) (writer : Writer) (place : Place) :
    Stage → Failure → FileTree → Prop where
  | compiling {stage : Stage} {cause : Failure} (stopped : workspace.compiler.StopsAt stage cause) :
      StopsAt workspace writer place stage cause workspace.files
  | writing {cause : Failure} {files : FileTree} {path text : String}
      (bundle : workspace.compiler.Bundle) (prints : bundle.Prints [(path, text)])
      (unwritten : (writer place text).Fails workspace.files cause files) :
      StopsAt workspace writer place (.writing place) cause files

/-- Writing a bundle writes the one text, or ends at a stage. -/
theorem write_bundle_cases (remembers : workspace.compiler.Remembers)
    (bundled : workspace.compiler.plan.method = .bundled)
    (usable : workspace.compiler.plan.Usable) (writer? : Option Writer) (directory : Place) :
    let path := modulePath workspace.compiler.plan.bundleName.display
    let place := directory.join path
    let writer := writer?.getD workspace.writer
    (∃ (bundle : workspace.compiler.Bundle) (text : String) (after : Workspace),
      (write writer? directory).Yields workspace [place] after ∧
      bundle.Prints [(path, text)] ∧
      (writer place text).Yields workspace.files () after.files) ∨
    ∃ stage cause after, (write writer? directory).Fails workspace (stage.report cause) after ∧
      workspace.StopsAt writer place stage cause after.files := by
  intro path place writer
  rcases Compiler.compile_bundle_cases remembers bundled usable with
    ⟨bundle, text, formatting, prints, done⟩ | ⟨stage, cause, after, stopped, failed⟩
  · let between : Workspace := { workspace with compiler := { workspace.compiler with
      failures := [], order? := some bundle.order, formatting } }
    have compiled : (withCompiler Compiler.compile).Yields workspace [(path, text)] between :=
      Action.yields_within.mpr ⟨_, done, rfl⟩
    -- Compiling leaves the settings and the plan as they are, and so the writer and the method.
    rcases Action.yields_or_fails (writer place text) workspace.files with
      ⟨_, files, written⟩ | ⟨cause, files, unwritten⟩
    · refine .inl ⟨bundle, text, { between with files }, ?_, prints, written⟩
      refine Action.yields_bind.mpr ⟨_, _, compiled, ?_⟩
      refine Action.yields_bind.mpr ⟨_, _, Action.yields_get.mpr ⟨rfl, rfl⟩, ?_⟩
      exact writeEach_one_yields written
    · refine .inr ⟨.writing place, cause, { between with files }, ?_,
        .writing bundle prints unwritten⟩
      refine Action.fails_bind.mpr (.inr ⟨_, _, compiled, ?_⟩)
      refine Action.fails_bind.mpr (.inr ⟨_, _, Action.yields_get.mpr ⟨rfl, rfl⟩, ?_⟩)
      exact writeEach_one_fails bundled unwritten
  · refine .inr ⟨stage, cause, { workspace with compiler := after }, ?_, .compiling stopped⟩
    exact Action.fails_bind.mpr (.inl (Action.fails_within.mpr ⟨after, failed, rfl⟩))

theorem StopsAt.untouched {place : Place} {stage : Stage} {cause : Failure}
    (stopped : workspace.StopsAt writer place stage cause files) (early : stage ≠ .writing place) :
    files = workspace.files := by
  cases stopped with
  | compiling => rfl
  | writing => exact absurd rfl early

/-- With the formatter and the writer of the settings, what is passed on as it is comes from a
formatter that could not be started, or from a place that no file can have. -/
theorem StopsAt.escapes {place : Place} {stage : Stage} {cause : Failure}
    (stopped : workspace.StopsAt workspace.writer place stage cause files)
    (configured : workspace.compiler.formatting.Configured)
    (worded : workspace.compiler.settings.format.Worded) (escapes : ¬ stage.Wraps cause) :
    (stage = .formatting (modulePath workspace.compiler.plan.bundleName.display) ∧
      Formatting.Unstarted cause) ∨ stage = .writing place ∧ place.isUnnameable = true := by
  cases stopped with
  | compiling stopped =>
    cases stopped with
    | analysis | generation => exact absurd trivial escapes
    | formatting bundle unformatted =>
      have rejectedOr := Formatting.format_escapes configured worded unformatted
      exact .inl ⟨rfl, rejectedOr.resolve_left escapes⟩
  | writing bundle prints unwritten =>
    refine .inr ⟨rfl, ?_⟩
    by_contra nameable
    exact escapes (Writer.of_fileFaultsAt _ (Bool.not_eq_true _ ▸ nameable) _ _ _ _ unwritten)

/-- A bundle is written to one file, whose place is returned, or writing ends at one stage. Before
the last stage no file is touched. What is reported has what went wrong as its cause, except that a
formatter's failure to run and a writer's failure for other reasons than the file system's are
passed on; with the formatter and the writer of the settings, these are a program that could not be
started and a place that no file can have. -/
theorem bundle_written_or_stopped (workspace : Workspace)
    (remembers : workspace.compiler.Remembers)
    (bundled : workspace.compiler.plan.method = .bundled)
    (usable : workspace.compiler.plan.Usable) (writer? : Option Writer) (directory : Place) :
    let path := modulePath workspace.compiler.plan.bundleName.display
    let place := directory.join path
    let writer := writer?.getD workspace.writer
    (∃ (bundle : workspace.compiler.Bundle) (text : String) (after : Workspace),
      (write writer? directory).Yields workspace [place] after ∧
      bundle.Prints [(path, text)] ∧
      (writer place text).Yields workspace.files () after.files ∧
      (writer? = none → workspace.files.Wrote place text after.files)) ∨
    ∃ stage cause after, (write writer? directory).Fails workspace (stage.report cause) after ∧
      workspace.StopsAt writer place stage cause after.files ∧
      (stage ≠ .writing place → after.files = workspace.files) ∧
      (stage.Wraps cause →
        (stage.report cause).kind = .generation ∧ (stage.report cause).cause? = some cause) ∧
      (¬ stage.Wraps cause → stage.report cause = cause) ∧
      (writer? = none → workspace.compiler.formatting.Configured →
        workspace.compiler.settings.format.Worded → ¬ stage.Wraps cause →
        (stage = .formatting path ∧ Formatting.Unstarted cause) ∨
          stage = .writing place ∧ place.isUnnameable = true) := by
  intro path place writer
  rcases write_bundle_cases remembers bundled usable writer? directory with
    ⟨bundle, text, after, done, prints, written⟩ | ⟨stage, cause, after, failed, stopped⟩
  · refine .inl ⟨bundle, text, after, done, prints, written, ?_⟩
    rintro rfl
    exact Writer.of_wrote written
  · refine .inr ⟨stage, cause, after, failed, stopped, stopped.untouched, Stage.report_of_wraps,
      Stage.report_of_not_wraps, ?_⟩
    rintro rfl
    exact stopped.escapes

/-- The workspace for a bundle that goes through the external formatter, whose processes end as
given. -/
abbrev formattedBundle (document : Document) (script : List Outcome) : Workspace :=
  ⟨.new [] document (.plain .bundled (.str "bundle") (.bool false))
    { format := { enabled := .bool true } } none { script }, []⟩

/-- The kinds of the failure of a result and of its cause. -/
def failureKinds {α : Type} : Except Failure α → Option (Kind × Option Kind)
  | .ok _ => none
  | .error failure => some (failure.kind, failure.cause?.map Failure.kind)

/-- The processes of a formatter that can be run but rejects the code. -/
def rejecting : List Outcome :=
  [.exited 0 "" "", .exited 2 "" "unexpected token"]

theorem bundle_written_or_stopped_rejected :
    ∃ failure cause after, (write none ["out"]).Fails
        (formattedBundle Compiler.entwinedDocument rejecting) failure after ∧
      failure.kind = .generation ∧ failure.cause? = some cause ∧ cause.kind = .formatter ∧
      after.files = [] := by
  have anywhere : ∀ document script,
      (∃ after, (write none ["out"]).Yields (formattedBundle document script)
        [Place.join ["out"] (modulePath "bundle")] after) ∨
      ∃ (stage : Stage) (cause : Failure) (after : Workspace),
        (write none ["out"]).Fails (formattedBundle document script) (stage.report cause) after ∧
        (stage ≠ .writing (Place.join ["out"] (modulePath "bundle")) → after.files = []) ∧
        (stage.Wraps cause →
          (stage.report cause).kind = .generation ∧ (stage.report cause).cause? = some cause) ∧
        (¬ stage.Wraps cause → stage.report cause = cause ∧ Formatting.Unstarted cause) := by
    intro document script
    have worded : FormatSettings.Worded { enabled := .bool true } :=
      ⟨["npx", "--no-install", "prettier"], rfl⟩
    have nameable : (Place.join ["out"] (modulePath "bundle")).isUnnameable = false := by
      decide +kernel
    rcases bundle_written_or_stopped (formattedBundle document script) Compiler.new_remembers rfl
        (Plan.usable_plain _ _ _) none ["out"] with
      ⟨_, _, after, done, _⟩ | ⟨stage, cause, after, failed, _, untouched, wrapped, passed, escapes⟩
    · exact .inl ⟨after, done⟩
    · refine .inr ⟨stage, cause, after, failed, untouched, wrapped, fun other => ⟨passed other, ?_⟩⟩
      rcases escapes rfl (.inr ⟨_, _, rfl, worded⟩) worded other with
        ⟨_, unstarted⟩ | ⟨_, unnameable⟩
      · exact unstarted
      · cases nameable.symm.trans unnameable
  have kinds : failureKinds ((write none ["out"]).run
      (formattedBundle Compiler.entwinedDocument rejecting)).1.result =
      some (.generation, some .formatter) := by decide +kernel
  rcases anywhere Compiler.entwinedDocument rejecting with
    ⟨after, done⟩ | ⟨stage, cause, after, failed, untouched, wrapped, passed⟩
  · rw [done.1] at kinds
    cases kinds
  rw [failed.1] at kinds
  have ⟨kind, causeKind⟩ := Prod.mk.inj (Option.some.inj kinds)
  by_cases wraps : stage.Wraps cause
  · have isCause := (wrapped wraps).2
    rw [isCause] at causeKind
    have rejected : cause.kind = .formatter := Option.some.inj causeKind
    refine ⟨_, cause, after, failed, kind, isCause, rejected, untouched ?_⟩
    rintro rfl
    cases rejected.symm.trans wraps
  · obtain ⟨isCause, unstarted⟩ := passed wraps
    rw [isCause] at kind
    rcases unstarted with rfl | rfl <;> cases kind

/-- How writing the bundle of a document ends, and the files that it leaves. -/
def ending (document : Document) (script : List Outcome) : Option (Kind × Option Kind) × FileTree :=
  let ended := (write none ["out"]).run (formattedBundle document script)
  (failureKinds ended.1.result, ended.2.files)

/-- If the formatter's program may not be run, or is gone when it is to format, the bundle ends with
that failure itself and not with one that it caused. -/
theorem unstarted_formatter_passed_on :
    ending Compiler.entwinedDocument [.denied] = (some (.file, none), []) ∧
      ending Compiler.entwinedDocument [.exited 0 "" "", .missing] = (some (.file, none), []) ∧
      ending Compiler.entwinedDocument [.exited 0 "" "", .denied] = (some (.file, none), []) := by
  decide +kernel

end Workspace

end SchemaPress
