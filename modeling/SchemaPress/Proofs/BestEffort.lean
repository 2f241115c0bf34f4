import Mathlib.Data.List.Perm.Basic
import SchemaPress.Proofs.FileWrites
import SchemaPress.Proofs.Strategies
import SchemaPress.Proofs.UsablePlans
import SchemaPress.Workspace

/-! Best effort. Compiling module by module comes to its end whatever fails, and accounts for every
module of the plan: its text is among the outputs, or its failure is noted. Writing goes on in the
same way, so that in the end every module was written by a call of its own or has a failure. -/

namespace SchemaPress

/-- Two lists share out the members of a third, each in its order. -/
structure Divided (whole left right : List String) : Prop where
  left_sublist : left.Sublist whole
  right_sublist : right.Sublist whole
  all : (left ++ right).Perm whole

theorem Divided.mem_left {whole left right : List String} (divided : Divided whole left right)
    (distinct : whole.Nodup) {key : String} : key ∈ left ↔ key ∈ whole ∧ key ∉ right := by
  obtain ⟨_, _, apart⟩ := List.nodup_append.mp (divided.all.nodup_iff.mpr distinct)
  rw [← divided.all.mem_iff, List.mem_append]
  constructor
  · exact fun inside => ⟨.inl inside, fun other => apart key inside key other rfl⟩
  · rintro ⟨inside | inside, outside⟩
    · exact inside
    · exact absurd inside outside

/-- What came of several things, by key. -/
abbrev Outcomes (α : Type) := Table (Except Failure α)

/-- The outcome of a key is recorded: there is a value under it, or else a failure, and never
both. -/
def Recorded {α : Type} (values : Table α) (failures : Table Failure) (key : String) :
    Except Failure α → Prop
  | .ok value => Table.get? values key = some value ∧ Table.get? failures key = none
  | .error failure => Table.get? values key = none ∧ Table.get? failures key = some failure

namespace Outcomes

variable {α : Type} {key : String}

/-- The values among outcomes. -/
def yielded : Outcomes α → Table α
  | [] => []
  | (key, .ok value) :: rest => (key, value) :: yielded rest
  | (_, .error _) :: rest => yielded rest

/-- The failures among outcomes. -/
def failed : Outcomes α → Table Failure
  | [] => []
  | (_, .ok _) :: rest => failed rest
  | (key, .error failure) :: rest => (key, failure) :: failed rest

theorem mem_yielded {value : α} {outcomes : Outcomes α} :
    (key, value) ∈ yielded outcomes ↔ (key, .ok value) ∈ outcomes := by
  induction outcomes with
  | nil => simp [yielded]
  | cons entry rest ih =>
    obtain ⟨other, _ | _⟩ := entry <;> simp [yielded, ih]

theorem mem_failed {failure : Failure} {outcomes : Outcomes α} :
    (key, failure) ∈ failed outcomes ↔ (key, .error failure) ∈ outcomes := by
  induction outcomes with
  | nil => simp [failed]
  | cons entry rest ih =>
    obtain ⟨other, _ | _⟩ := entry <;> simp [failed, ih]

theorem mem_keys_yielded {outcomes : Outcomes α} :
    key ∈ Table.keys (yielded outcomes) ↔ ∃ value, (key, .ok value) ∈ outcomes := by
  simp [Table.keys, mem_yielded]

/-- Values and failures share out the keys of outcomes. -/
theorem divided (outcomes : Outcomes α) :
    Divided (Table.keys outcomes) (Table.keys (yielded outcomes))
      (Table.keys (failed outcomes)) := by
  induction outcomes with
  | nil => exact ⟨.slnil, .slnil, .nil⟩
  | cons entry rest ih =>
    obtain ⟨key, failure | value⟩ := entry
    · exact ⟨ih.left_sublist.cons key, ih.right_sublist.cons_cons key,
        List.perm_middle.trans (ih.all.cons key)⟩
    · exact ⟨ih.left_sublist.cons_cons key, ih.right_sublist.cons key, ih.all.cons key⟩

theorem recorded {outcomes : Outcomes α} (distinct : (Table.keys outcomes).Nodup)
    {outcome : Except Failure α} (member : (key, outcome) ∈ outcomes) :
    Recorded (yielded outcomes) (failed outcomes) key outcome := by
  have shared := divided outcomes
  cases outcome with
  | ok value =>
    have inside := mem_yielded.mpr member
    refine ⟨Table.get?_of_mem (distinct.sublist shared.left_sublist) inside, ?_⟩
    exact Table.get?_of_not_mem ((shared.mem_left distinct).mp (Table.mem_keys_of_mem inside)).2
  | error failure =>
    have inside := mem_failed.mpr member
    refine ⟨Table.get?_of_not_mem fun other => ?_,
      Table.get?_of_mem (distinct.sublist shared.right_sublist) inside⟩
    exact ((shared.mem_left distinct).mp other).2 (Table.mem_keys_of_mem inside)

/-- If what came out well is taken further, a key has a failure in the end if and only if it did not
come out well the second time. -/
theorem mem_keys_failures {β : Type} {first : Outcomes α} {second : Outcomes β}
    (distinct : (Table.keys first).Nodup)
    (continued : Table.keys second = Table.keys first.yielded) (inside : key ∈ Table.keys first) :
    key ∈ Table.keys (Table.update first.failed second.failed) ↔
      key ∉ Table.keys second.yielded := by
  have before : key ∈ Table.keys first.yielded ↔ _ := (divided first).mem_left distinct
  have still : (Table.keys second).Nodup :=
    continued ▸ distinct.sublist (divided first).left_sublist
  rw [Table.mem_keys_update, (divided second).mem_left still, continued, before]
  tauto

end Outcomes

namespace Action

variable {σ α : Type}

/-- What comes of actions that are run one after the other whatever fails, and the state in the
end. -/
def inTurn : Table (Action σ α) → σ → Outcomes α × σ
  | [], state => ([], state)
  | (key, action) :: rest, state =>
    let (x, next) := action.run state
    let (later, last) := inTurn rest next
    ((key, x.result) :: later, last)

variable {actions : Table (Action σ α)} {state last : σ}

theorem inTurn_cons {key : String} {action : Action σ α} {outcomes : Outcomes α}
    (ran : inTurn ((key, action) :: actions) state = (outcomes, last)) :
    ∃ outcome next later, action.attempt.Yields state outcome next ∧
      inTurn actions next = (later, last) ∧ outcomes = (key, outcome) :: later := by
  cases ran
  exact ⟨_, _, _, yields_attempt.mpr ⟨rfl, rfl⟩, rfl, rfl⟩

@[simp]
theorem keys_inTurn (actions : Table (Action σ α)) (state : σ) :
    Table.keys (inTurn actions state).1 = Table.keys actions := by
  induction actions generalizing state with
  | nil => rfl
  | cons entry rest ih => exact congrArg (entry.1 :: ·) (ih _)

/-- Actions that leave the state as it is come out as each of them does alone. -/
theorem inTurn_still (still : ∀ entry ∈ actions, (entry.2.run state).2 = state) :
    inTurn actions state = (Table.mapValues (fun action => (action.run state).1.result) actions,
      state) := by
  induction actions with
  | nil => rfl
  | cons entry rest ih =>
    obtain ⟨here, later⟩ := List.forall_mem_cons.mp still
    simp only [inTurn, here, ih later]
    rfl

end Action

/-- A formatter is a function: what it makes of a code depends on the code alone, and it stays as it
is. -/
def Formatting.Computes (formatting : Formatting) (print : String → Except Failure String) : Prop :=
  ∀ code settings, ((format code settings).run formatting).1.result = print code ∧
    ((format code settings).run formatting).2 = formatting

theorem Formatting.computes_plain {formatting : Formatting}
    (plain : formatting.formatter = .plain) : formatting.Computes .ok := by
  intro code settings
  have done : (format code settings).Yields formatting code formatting :=
    (format_plain plain).mpr ⟨rfl, rfl⟩
  exact done

/-- The text of a module, as it is formatted. -/
def Generator.textOf (generator : Generator) (header : Option String) (settings : FormatSettings)
    (path : String) : Action Formatting String := do
  let module ← generator.generate path
  Formatting.format (module.render header) settings

theorem Generator.textOf_still {generator : Generator} {formatting : Formatting}
    {print : String → Except Failure String} (computes : formatting.Computes print)
    (header : Option String) (settings : FormatSettings) (path : String) :
    ((generator.textOf header settings path).run formatting).2 = formatting := by
  rcases Action.yields_or_fails (generator.textOf header settings path) formatting with
    ⟨text, after, done⟩ | ⟨failure, after, failed⟩
  · obtain ⟨module, _, ⟨_, rfl⟩, formatted⟩ := Action.yields_bind.mp done
    exact done.2.trans (formatted.2.symm.trans (computes _ _).2)
  · rcases Action.fails_bind.mp failed with ungenerated | ⟨module, _, ⟨_, rfl⟩, unformatted⟩
    · exact failed.2.trans ungenerated.2.symm
    · exact failed.2.trans (unformatted.2.symm.trans (computes _ _).2)

namespace Compiler

variable {compiler : Compiler} {generator : Generator} {header : Option String}

/-- What comes of a module changes nothing but the state of the formatter. -/
theorem compileModule_attempt {path : String} {outcome : Except Failure String}
    {formatting : Formatting}
    (attempted : (generator.textOf header compiler.settings.format path).attempt.Yields
      compiler.formatting outcome formatting) :
    (compileModule generator header path).attempt.Yields compiler outcome
      { compiler with formatting } := by
  cases outcome with
  | ok text =>
    obtain ⟨module, _, ⟨generated, rfl⟩, formatted⟩ :=
      Action.yields_bind.mp (Action.yields_attempt.mp attempted)
    exact Action.yields_attempt.mpr
      (compileModule_yields.mpr ⟨module, formatting, generated, formatted, rfl⟩)
  | error failure =>
    rw [Action.fails_of_attempt] at attempted ⊢
    rcases Action.fails_bind.mp attempted with
      ⟨ungenerated, rfl⟩ | ⟨module, _, ⟨generated, rfl⟩, unformatted⟩
    · exact Action.fails_bind.mpr (.inl ⟨ungenerated, rfl⟩)
    · exact Action.fails_bind.mpr
        (.inr ⟨module, _, ⟨generated, rfl⟩, format_fails.mpr ⟨formatting, unformatted, rfl⟩⟩)

/-- Compiling one module after the other comes to its end, yields the texts there are and notes the
failures. -/
theorem compileEach_outcomes {paths : List String} {outcomes : Outcomes String}
    {formatting : Formatting}
    (ran : Action.inTurn
      (paths.map fun path => (path, generator.textOf header compiler.settings.format path))
      compiler.formatting = (outcomes, formatting)) :
    (compileEach generator header paths).Yields compiler outcomes.yielded
      { compiler with failures := Table.update compiler.failures outcomes.failed, formatting } := by
  induction paths generalizing compiler outcomes with
  | nil =>
    cases ran
    exact Action.yields_pure.mpr ⟨rfl, rfl⟩
  | cons path rest ih =>
    obtain ⟨outcome, next, later, attempted, others, rfl⟩ := Action.inTurn_cons ran
    refine Action.yields_bind.mpr ⟨(), compiler, Action.yields_record.mpr rfl, ?_⟩
    refine Action.yields_bind.mpr ⟨_, _, compileModule_attempt attempted, ?_⟩
    cases outcome with
    | ok text =>
      have compiled : (compileEach generator header rest).Yields
          { compiler with formatting := next } _ _ := ih others
      exact Action.yields_bind.mpr ⟨_, _, compiled, Action.yields_pure.mpr ⟨rfl, rfl⟩⟩
    | error failure =>
      have compiled : (compileEach generator header rest).Yields
          { compiler with
            formatting := next
            failures := Table.insert path failure compiler.failures } _ _ := ih others
      refine Action.yields_bind.mpr ⟨(), _, Action.yields_record.mpr rfl, ?_⟩
      exact Action.yields_bind.mpr ⟨(), _, Action.yields_modify.mpr rfl, compiled⟩

/-- What a compilation module by module starts from: the plan with its modules resolved, and the
generator for all modules that the plan lists. -/
structure Basis (compiler : Compiler) where
  plan : Plan
  generator : Generator
  resolved : compiler.plan.resolve (Table.keys compiler.document.schemas) [] = .ok plan
  listed : plan.allModules = .ok generator.modules
  prepared : Generator.ofPlan compiler.workingDir compiler.document.schemas plan
    (fun _ _ => .ok true) = .ok generator
  distinct : (Table.keys generator.modules).Nodup
  method : plan.method = compiler.plan.method
  barrel : plan.barrel = compiler.plan.barrel

theorem exists_basis (usable : compiler.plan.Usable) : Nonempty compiler.Basis := by
  obtain ⟨entries, resolved, still⟩ := usable.resolve (Table.keys compiler.document.schemas) []
  obtain ⟨generator, prepared, listed, distinct⟩ := still.prepared compiler.workingDir
    compiler.document.schemas fun _ _ => .ok true
  exact ⟨⟨_, generator, resolved, listed, prepared, distinct, rfl, rfl⟩⟩

namespace Basis

variable (basis : compiler.Basis)

/-- The paths of all modules, in the order of the plan. -/
def paths : List String :=
  Table.keys basis.generator.modules

/-- The text of a module, with the comment that the settings ask for. -/
def textOf (path : String) : Action Formatting String :=
  basis.generator.textOf compiler.separateHeader compiler.settings.format path

/-- What comes of all modules, each with the formatter as the one before left it, and the formatter
in the end. -/
def run : Outcomes String × Formatting :=
  Action.inTurn (basis.paths.map fun path => (path, basis.textOf path)) compiler.formatting

/-- What comes of all modules. -/
def outcomes : Outcomes String :=
  basis.run.1

@[simp]
theorem keys_outcomes : Table.keys basis.outcomes = basis.paths := by
  rw [outcomes, run, Action.keys_inTurn, Table.keys, List.map_map]
  exact List.map_id _

theorem distinct_outcomes : (Table.keys basis.outcomes).Nodup :=
  basis.keys_outcomes.symm ▸ basis.distinct

/-- Whatever comes of its modules, compiling module by module succeeds: with the texts there are,
to which the module that exports the others is added, and with the failures noted. -/
theorem compiles (separate : compiler.plan.method ≠ .bundled) :
    compile.Yields compiler
      (if compiler.plan.method = .oneToOne && compiler.plan.barrel.isTruthy then
        Table.insert barrelPath (ModuleText.renderBarrel basis.paths) basis.outcomes.yielded
      else basis.outcomes.yielded)
      { compiler with failures := basis.outcomes.failed, formatting := basis.run.2 } := by
  have none : Table.update [] basis.outcomes.failed = basis.outcomes.failed := by
    refine Table.update_of_disjoint ?_ fun _ _ => List.not_mem_nil
    exact basis.distinct_outcomes.sublist basis.outcomes.divided.right_sublist
  have each : (compileEach basis.generator compiler.separateHeader basis.paths).Yields
      { compiler with failures := [] } basis.outcomes.yielded
      { compiler with
        failures := Table.update [] basis.outcomes.failed
        formatting := basis.run.2 } := compileEach_outcomes rfl
  rw [none] at each
  refine compile_yields.mpr ?_
  rw [if_neg separate]
  have separate : { compiler with failures := [] }.plan.method ≠ .bundled := separate
  refine (compileModules_yields separate).mpr
    ⟨basis.plan, basis.generator, _, basis.resolved, basis.prepared, each, ?_⟩
  rw [basis.method, basis.barrel]
  rfl

end Basis

/-- After compiling, the outcome of a module is on record: its text is among the outputs, or its
failure is noted. -/
def Records (compiler : Compiler) (path : String) (outcome : Except Failure String) : Prop :=
  ∃ outputs, (compile.run compiler).1.result = .ok outputs ∧
    Recorded outputs (compile.run compiler).2.failures path outcome

/-- Under a formatter that is a function, the outcome of a module is the one it has alone. -/
theorem Basis.outcome_alone (basis : compiler.Basis) {print : String → Except Failure String}
    (computes : compiler.formatting.Computes print) {path : String} (listed : path ∈ basis.paths) :
    (path, ((basis.textOf path).run compiler.formatting).1.result) ∈ basis.outcomes := by
  have still : ∀ entry ∈ basis.paths.map fun path => (path, basis.textOf path),
      (entry.2.run compiler.formatting).2 = compiler.formatting := by
    intro entry inside
    obtain ⟨path, _, rfl⟩ := List.mem_map.mp inside
    exact Generator.textOf_still computes _ _ path
  rw [outcomes, run, Action.inTurn_still still]
  exact List.mem_map_of_mem (List.mem_map_of_mem listed)

/-- The plan has no barrel: it is custom, or says that there is none. -/
def Unbarrelled (compiler : Compiler) : Prop :=
  compiler.plan.method = .custom ∨
    compiler.plan.method = .oneToOne ∧ compiler.plan.barrel.isTruthy = false

theorem Unbarrelled.separate (unbarrelled : compiler.Unbarrelled) :
    compiler.plan.method ≠ .bundled := by
  rcases unbarrelled with custom | ⟨single, _⟩
  · simp [custom]
  · simp [single]

theorem Basis.compiles_unbarrelled (basis : compiler.Basis) (unbarrelled : compiler.Unbarrelled) :
    compile.Yields compiler basis.outcomes.yielded
      { compiler with failures := basis.outcomes.failed, formatting := basis.run.2 } := by
  have none : ¬ (decide (compiler.plan.method = .oneToOne) && compiler.plan.barrel.isTruthy) =
      true := by
    rcases unbarrelled with custom | ⟨_, none⟩
    · simp [custom]
    · simp [none]
  have compiled := basis.compiles unbarrelled.separate
  rwa [if_neg none] at compiled

theorem Basis.records (basis : compiler.Basis) (unbarrelled : compiler.Unbarrelled)
    {print : String → Except Failure String} (computes : compiler.formatting.Computes print)
    {path : String} (listed : path ∈ basis.paths) :
    compiler.Records path ((basis.textOf path).run compiler.formatting).1.result := by
  obtain ⟨compiled, isAfter⟩ := basis.compiles_unbarrelled unbarrelled
  refine ⟨_, compiled, ?_⟩
  rw [isAfter]
  exact Outcomes.recorded basis.distinct_outcomes (basis.outcome_alone computes listed)

end Compiler

namespace Workspace

/-- What comes of writing modules into a directory, each by a call of its own on the files that the
call before left, and the files in the end. -/
def calls (writer : Writer) (directory : Place) (outputs : Table String) (files : FileTree) :
    Outcomes Unit × FileTree :=
  Action.inTurn (outputs.map fun entry => (entry.1, writer (directory.join entry.1) entry.2)) files

theorem keys_calls (writer : Writer) (directory : Place) (outputs : Table String)
    (files : FileTree) :
    Table.keys (calls writer directory outputs files).1 = Table.keys outputs := by
  rw [calls, Action.keys_inTurn, Table.keys, List.map_map]
  rfl

theorem writeEach_calls {writer : Writer} {directory : Place} {outputs : Table String}
    {workspace : Workspace} {outcomes : Outcomes Unit} {files : FileTree}
    (separate : workspace.compiler.plan.method ≠ .bundled)
    (faults : ∀ path ∈ Table.keys outputs, writer.FileFaultsAt (directory.join path))
    (called : calls writer directory outputs workspace.files = (outcomes, files)) :
    (writeEach writer directory outputs).Yields workspace
      ((Table.keys outcomes.yielded).map directory.join)
      { compiler := { workspace.compiler with
          failures := Table.update workspace.compiler.failures outcomes.failed }, files } := by
  induction outputs generalizing workspace outcomes with
  | nil =>
    cases called
    exact Action.yields_pure.mpr ⟨rfl, rfl⟩
  | cons entry rest ih =>
    obtain ⟨path, code⟩ := entry
    obtain ⟨here, faults⟩ := List.forall_mem_cons.mp faults
    obtain ⟨outcome, next, later, attempted, others, rfl⟩ := Action.inTurn_cons called
    have tried : (withFiles (writer (directory.join path) code)).attempt.Yields workspace outcome
        { workspace with files := next } := by
      obtain ⟨isOutcome, rfl⟩ := Action.yields_attempt.mp attempted
      exact Action.yields_attempt.mpr ⟨isOutcome, rfl⟩
    refine Action.yields_bind.mpr ⟨_, _, tried, ?_⟩
    cases outcome with
    | ok done =>
      have written : (writeEach writer directory rest).Yields
          { workspace with files := next } _ _ := ih separate faults others
      refine Action.yields_bind.mpr ⟨(), _, Action.yields_record.mpr rfl, ?_⟩
      exact Action.yields_bind.mpr ⟨_, _, written, Action.yields_pure.mpr ⟨rfl, rfl⟩⟩
    | error failure =>
      have isFile : failure.kind = .file := here code _ _ _ (Action.fails_of_attempt.mp attempted)
      have written : (writeEach writer directory rest).Yields
          { compiler := { workspace.compiler with
              failures := Table.insert path failure workspace.compiler.failures }
            files := next } _ _ := ih separate faults others
      dsimp only
      rw [if_neg (not_not_intro isFile)]
      refine Action.yields_bind.mpr ⟨_, _, Action.yields_get.mpr ⟨rfl, rfl⟩, ?_⟩
      rw [if_neg separate]
      refine Action.yields_bind.mpr ⟨(), _, Action.yields_record.mpr rfl, ?_⟩
      refine Action.yields_bind.mpr ⟨(), _, ?_, written⟩
      exact Action.yields_within.mpr ⟨_, Action.yields_modify.mpr rfl, rfl⟩

/-- What holds between a workspace and the one that trying to write a module or noting a failure
leaves, holds for writing modules, however it ends. -/
theorem writeEach_ends_of {related : Workspace → Workspace → Prop}
    (refl : ∀ workspace, related workspace workspace)
    (trans : ∀ {a b c}, related a b → related b c → related a c)
    {writer : Writer} {directory : Place} {outputs : Table String}
    (tried : ∀ path ∈ Table.keys outputs, ∀ code,
      (withFiles (writer (directory.join path) code)).Ends related fun _ => True)
    (noted : ∀ path failure,
      (withCompiler (Compiler.fail path failure)).Ends related fun _ => True) :
    (writeEach writer directory outputs).Ends related fun _ => True := by
  induction outputs with
  | nil => exact Action.ends_pure refl []
  | cons entry others ih =>
    obtain ⟨path, code⟩ := entry
    obtain ⟨here, tried⟩ := List.forall_mem_cons.mp tried
    have rest := ih tried
    refine .attempt_bind @trans (here code) (fun _ => ?_) fun failure _ => ?_
    · refine .bind @trans (Action.ends_record refl _ _) fun _ => ?_
      exact .bind @trans rest fun _ => Action.ends_pure refl _
    · have goesOn : (do
          Action.record .error ("Failed to write to file: " ++ (directory.join path).text ++ ": " ++
            failure.shown)
          withCompiler (Compiler.fail path failure)
          writeEach writer directory others : Action Workspace (List Place)).Ends related
            fun _ => True := by
        refine .bind @trans (Action.ends_record refl _ _) fun _ => ?_
        exact .bind @trans (noted path failure) fun _ => rest
      dsimp only
      split
      · refine .bind @trans (Action.ends_throw refl trivial) fun _ => ?_
        refine .bind @trans (Action.ends_get refl) fun workspace => ?_
        split
        · exact .bind @trans (Action.ends_throw refl trivial) fun _ => goesOn
        · exact goesOn
      · refine .bind @trans (Action.ends_get refl) fun workspace => ?_
        split
        · exact .bind @trans (Action.ends_throw refl trivial) fun _ => goesOn
        · exact goesOn

/-- Writing module by module comes to its end if only the writing can go wrong: all calls are made,
and those that failed are noted. -/
theorem write_calls {compiler : Compiler} (basis : compiler.Basis)
    (separate : compiler.plan.method ≠ .bundled) {outputs : Table String}
    (compiled : Compiler.compile.Yields compiler outputs
      { compiler with failures := basis.outcomes.failed, formatting := basis.run.2 })
    {writer? : Option Writer} {directory : Place} {files : FileTree}
    (faults : ∀ path ∈ Table.keys outputs,
      (writer?.getD (writer ⟨compiler, files⟩)).FileFaultsAt (directory.join path))
    {outcomes : Outcomes Unit} {left : FileTree}
    (called : calls (writer?.getD (writer ⟨compiler, files⟩)) directory outputs files =
      (outcomes, left)) :
    (write writer? directory).Yields ⟨compiler, files⟩
      ((Table.keys outcomes.yielded).map directory.join)
      { compiler := { compiler with
          failures := Table.update basis.outcomes.failed outcomes.failed
          formatting := basis.run.2 }
        files := left } := by
  refine Action.yields_bind.mpr ⟨_, _, Action.yields_within.mpr ⟨_, compiled, rfl⟩, ?_⟩
  refine Action.yields_bind.mpr ⟨_, _, Action.yields_get.mpr ⟨rfl, rfl⟩, ?_⟩
  exact writeEach_calls separate faults called

end Workspace

/-- Compiling module by module, with any formatter that is a function, succeeds and shares out the
modules of the plan between outputs and failures, each in the order of the plan. The outcome of a
module is the one that compiling it alone has. When the outputs are then written, every module was
written by a call of its own, or else has a failure. -/
theorem Compiler.best_effort_accounts_for_every_module {compiler : Compiler}
    {print : String → Except Failure String}
    (unbarrelled : compiler.Unbarrelled)
    (usable : compiler.plan.Usable) (computes : compiler.formatting.Computes print) :
    ∃ (basis : compiler.Basis) (outputs : Table String),
      (compile.run compiler).1.result = .ok outputs ∧
      Divided basis.paths (Table.keys outputs) (Table.keys (compile.run compiler).2.failures) ∧
      (∀ path ∈ basis.paths, compiler.Records path
        ((compileModule basis.generator compiler.separateHeader path).run compiler).1.result) ∧
      ∀ (writer? : Option Writer) (directory : Place) (files : FileTree),
        let writer := writer?.getD (Workspace.writer ⟨compiler, files⟩)
        let calls := Workspace.calls writer directory outputs files
        (∀ path ∈ basis.paths, writer.FileFaultsAt (directory.join path)) →
        ∃ written after,
          (Workspace.write writer? directory).Yields ⟨compiler, files⟩ written after ∧
          written = (Table.keys calls.1.yielded).map directory.join ∧ after.files = calls.2 ∧
          ∀ path ∈ basis.paths,
            ((path, .ok ()) ∈ calls.1 ∧ directory.join path ∈ written ∧
                path ∉ Table.keys after.compiler.failures) ∨
              ((path, .ok ()) ∉ calls.1 ∧ path ∈ Table.keys after.compiler.failures) := by
  obtain ⟨basis⟩ := exists_basis usable
  have compiled := basis.compiles_unbarrelled unbarrelled
  have shared := basis.outcomes.divided
  refine ⟨basis, basis.outcomes.yielded, compiled.1, ?_, ?_, ?_⟩
  · rw [compiled.2]
    exact basis.keys_outcomes ▸ shared
  · intro path listed
    have alone := Action.yields_attempt.mp (compileModule_attempt
      (Action.yields_attempt.mpr ⟨rfl, rfl⟩) : (compileModule basis.generator
        compiler.separateHeader path).attempt.Yields compiler _ _)
    rw [alone.1]
    exact basis.records unbarrelled computes listed
  · intro writer? directory files writer calls faults
    have wrote := Workspace.write_calls basis unbarrelled.separate compiled
      (fun path inside => faults path (basis.keys_outcomes ▸ shared.left_sublist.subset inside)) rfl
    refine ⟨_, _, wrote, rfl, rfl, fun path listed => ?_⟩
    have continued : Table.keys calls.1 = Table.keys basis.outcomes.yielded :=
      Workspace.keys_calls _ _ _ _
    have accounted := Outcomes.mem_keys_failures basis.distinct_outcomes continued
      (basis.keys_outcomes.symm ▸ listed)
    by_cases well : (path, .ok ()) ∈ calls.1
    · have inside : path ∈ Table.keys calls.1.yielded := Outcomes.mem_keys_yielded.mpr ⟨(), well⟩
      exact .inl ⟨well, List.mem_map_of_mem inside, fun failed => accounted.mp failed inside⟩
    · refine .inr ⟨well, accounted.mpr fun inside => ?_⟩
      obtain ⟨_, done⟩ := Outcomes.mem_keys_yielded.mp inside
      exact well done

/-- A document with a definition that has no code between two that have. -/
def sundryDocument : Document :=
  ⟨"Sundry", "1", [("A", Definitions.linking ["B"]),
    ("B", .unsupported ⟨"", .null, .null, false, none, []⟩ "not"), ("C", Definitions.linking [])]⟩

/-- A writer that may not write to one place. -/
def Writer.denying (denied : Place) : Writer := fun place content =>
  if place = denied then throw (.file .denied) else modify (FileTree.set place (.file content))

theorem Writer.denying_fileFaultsAt (denied place : Place) :
    (denying denied).FileFaultsAt place := by
  intro code before failure after failed
  rw [denying] at failed
  split at failed
  · obtain ⟨rfl, _⟩ := Action.fails_throw.mp failed
    rfl
  · exact absurd failed Action.not_fails_modify

/-- Writes what a document compiles to where one file may not be written. -/
abbrev writeDenied (document : Document) : Logged (List Place) × Workspace :=
  (Workspace.write (some (.denying ["out", "C.ts"])) ["out"]).run
    ⟨Compiler.plainly .oneToOne document, []⟩

theorem Compiler.best_effort_accounts_for_every_module_sundry :
    ∃ (basis : (plainly .oneToOne sundryDocument).Basis) (outputs : Table String),
      (compile.run (plainly .oneToOne sundryDocument)).1.result = .ok outputs ∧
      Divided basis.paths (Table.keys outputs) ["./B.ts"] ∧
      (writeDenied sundryDocument).1.result = .ok [["out", "A.ts"]] ∧
      Table.keys (writeDenied sundryDocument).2.compiler.failures = ["./B.ts", "./C.ts"] ∧
      ∀ path ∈ basis.paths, path ∈ ["./B.ts", "./C.ts"] ↔
        (path, .ok ()) ∉ (Workspace.calls (.denying ["out", "C.ts"]) ["out"] outputs []).1 := by
  have anywhere : ∀ document, ∃ (basis : (plainly .oneToOne document).Basis)
      (outputs : Table String),
      (compile.run (plainly .oneToOne document)).1.result = .ok outputs ∧
      Divided basis.paths (Table.keys outputs)
        (Table.keys (compile.run (plainly .oneToOne document)).2.failures) ∧
      ∀ path ∈ basis.paths, path ∈ Table.keys (writeDenied document).2.compiler.failures ↔
        (path, .ok ()) ∉ (Workspace.calls (.denying ["out", "C.ts"]) ["out"] outputs []).1 := by
    intro document
    obtain ⟨basis, outputs, compiled, divided, _, writes⟩ :=
      best_effort_accounts_for_every_module (.inr ⟨rfl, rfl⟩) (Plan.usable_plain _ _ _)
        (Formatting.computes_plain rfl : (plainly .oneToOne document).formatting.Computes .ok)
    obtain ⟨_, after, done, _, _, accounted⟩ := writes (some (.denying ["out", "C.ts"])) ["out"] []
      fun _ _ => Writer.denying_fileFaultsAt _ _
    refine ⟨basis, outputs, compiled, divided, fun path listed => ?_⟩
    rw [writeDenied, done.2]
    rcases accounted path listed with ⟨well, _, none⟩ | ⟨ill, failed⟩
    · exact ⟨fun failed => absurd failed none, fun ill => absurd well ill⟩
    · exact ⟨fun _ => ill, fun _ => failed⟩
  have failures : Table.keys (compile.run (plainly .oneToOne sundryDocument)).2.failures =
      ["./B.ts"] := by decide +kernel
  have failuresAfter : Table.keys (writeDenied sundryDocument).2.compiler.failures =
      ["./B.ts", "./C.ts"] := by decide +kernel
  obtain ⟨basis, outputs, compiled, divided, accounted⟩ := anywhere sundryDocument
  rw [failures] at divided
  rw [failuresAfter] at accounted
  exact ⟨basis, outputs, compiled, divided, eq_ok_of_toOption (by decide +kernel), failuresAfter,
    accounted⟩

end SchemaPress
