import SchemaPress.Proofs.Bundles

/-! Compilation module by module. A failure of one module is noted and the others are compiled all
the same; if none was noted, all modules were generated, and what is printed are their texts. -/

namespace SchemaPress

theorem Table.insert_ne_nil {β : Type} (key : String) (value : β) (table : Table β) :
    insert key value table ≠ [] := by
  cases table with
  | nil => exact List.cons_ne_nil _ _
  | cons entry rest =>
    rw [insert]
    split <;> exact List.cons_ne_nil _ _

namespace Compiler

variable {compiler after : Compiler} {plan : Plan} {generator : Generator} {outputs : Table String}
  {header : Option String} {path : String}

/-- Texts are modules as they are formatted, one after the other, each with the formatter in the
state that the one before left it in. -/
def Printed (settings : FormatSettings) (header : Option String) :
    Formatting → Table GeneratedModule → Table String → Prop
  | _, [], [] => True
  | formatting, (path, module) :: modules, (other, text) :: texts =>
    path = other ∧ ∃ next,
      (Formatting.format (module.render header) settings).Yields formatting text next ∧
        Printed settings header next modules texts
  | _, _, _ => False

/-- What modules that are compiled one by one are made from: the plan, and all its modules by path,
as they are generated. Every definition counts as declared before every other. -/
structure Separate (compiler : Compiler) where
  plan : Plan
  generator : Generator
  modules : Table GeneratedModule
  resolved : compiler.plan.resolve (Table.keys compiler.document.schemas) [] = .ok plan
  prepared : Generator.ofPlan compiler.workingDir compiler.document.schemas plan
    (fun _ _ => .ok true) = .ok generator
  paths : Table.keys modules = Table.keys generator.modules
  generated : ∀ entry ∈ modules, (generator.generate entry.1).result = .ok entry.2

/-- The comment that each module starts with, if the settings ask for one. -/
def separateHeader (compiler : Compiler) : Option String :=
  if compiler.settings.output.addComment.isTruthy then some compiler.header else none

/-- Outputs are the texts of all modules, with a module that exports the others if the plan has
one. -/
def Separate.Prints (separate : compiler.Separate) (outputs : Table String) : Prop :=
  ∃ texts, Printed compiler.settings.format compiler.separateHeader compiler.formatting
      separate.modules texts ∧
    outputs = if separate.plan.method = .oneToOne && separate.plan.barrel.isTruthy then
      Table.insert barrelPath (ModuleText.renderBarrel (Table.keys separate.generator.modules)) texts
    else texts

theorem orderForMethod_separate (separate : compiler.plan.method ≠ .bundled)
    {entries : List OrderEntry} :
    orderForMethod.Yields compiler entries after ↔ entries = [] ∧ after = compiler := by
  constructor
  · intro done
    obtain ⟨_, _, read, done⟩ := Action.yields_bind.mp done
    obtain ⟨rfl, rfl⟩ := Action.yields_get.mp read
    rw [if_neg separate] at done
    obtain ⟨rfl, rfl⟩ := Action.yields_pure.mp done
    exact ⟨rfl, rfl⟩
  · rintro ⟨rfl, rfl⟩
    refine Action.yields_bind.mpr ⟨_, _, Action.yields_get.mpr ⟨rfl, rfl⟩, ?_⟩
    rw [if_neg separate]
    exact Action.yields_pure.mpr ⟨rfl, rfl⟩

theorem resolvedPlan_separate (separate : compiler.plan.method ≠ .bundled) :
    resolvedPlan.Yields compiler plan after ↔
      compiler.plan.resolve (Table.keys compiler.document.schemas) [] = .ok plan ∧
        after = compiler := by
  rw [resolvedPlan_yields]
  simp only [orderForMethod_separate separate]
  constructor
  · rintro ⟨_, ⟨rfl, rfl⟩, resolved⟩
    exact ⟨resolved, rfl⟩
  · rintro ⟨resolved, rfl⟩
    exact ⟨[], ⟨rfl, rfl⟩, resolved⟩

theorem generator_separate (separate : compiler.plan.method ≠ .bundled) {made : Generator} :
    (Compiler.generator plan).Yields compiler made after ↔
      Generator.ofPlan compiler.workingDir compiler.document.schemas plan
        (fun _ _ => .ok true) = .ok made ∧ after = compiler := by
  have always : (fun id => isBefore compiler.plan.method [] (.str id)) = fun _ _ => .ok true := by
    funext id other
    rw [isBefore, if_neg separate]
  rw [generator_yields]
  simp only [orderForMethod_separate separate]
  constructor
  · rintro ⟨_, ⟨rfl, rfl⟩, prepared⟩
    exact ⟨always ▸ prepared, rfl⟩
  · rintro ⟨prepared, rfl⟩
    exact ⟨[], ⟨rfl, rfl⟩, always ▸ prepared⟩

/-- The text of a module is its rendering as it is formatted. -/
theorem compileModule_yields {text : String} :
    (compileModule generator header path).Yields compiler text after ↔
      ∃ module formatting, (generator.generate path).result = .ok module ∧
        (Formatting.format (module.render header) compiler.settings.format).Yields
          compiler.formatting text formatting ∧ { compiler with formatting } = after := by
  constructor
  · intro done
    obtain ⟨module, _, made, done⟩ := Action.yields_bind.mp done
    obtain ⟨generated, rfl⟩ := made
    obtain ⟨formatting, formatted, isAfter⟩ := format_yields.mp done
    exact ⟨module, formatting, generated, formatted, isAfter⟩
  · rintro ⟨module, formatting, generated, formatted, isAfter⟩
    refine Action.yields_bind.mpr ⟨module, compiler, ⟨generated, rfl⟩, ?_⟩
    exact format_yields.mpr ⟨formatting, formatted, isAfter⟩

/-- If no failure is noted at the end, none was at the start, and all modules were generated and
printed. -/
theorem compileEach_complete {paths : List String}
    (done : (compileEach generator header paths).Yields compiler outputs after)
    (complete : after.failures = []) :
    compiler.failures = [] ∧ ∃ modules, Table.keys modules = paths ∧
      (∀ entry ∈ modules, (generator.generate entry.1).result = .ok entry.2) ∧
      Printed compiler.settings.format header compiler.formatting modules outputs := by
  induction paths generalizing compiler outputs with
  | nil =>
    obtain ⟨rfl, rfl⟩ := Action.yields_pure.mp done
    exact ⟨complete, [], rfl, nofun, trivial⟩
  | cons path rest ih =>
    obtain ⟨_, _, noted, done⟩ := Action.yields_bind.mp done
    obtain rfl := Action.yields_record.mp noted
    obtain ⟨result, between, attempted, done⟩ := Action.yields_bind.mp done
    cases result with
    | ok text =>
      obtain ⟨module, formatting, generated, formatted, rfl⟩ :=
        compileModule_yields.mp (Action.yields_attempt.mp attempted)
      obtain ⟨texts, _, later, ended⟩ := Action.yields_bind.mp done
      obtain ⟨rfl, rfl⟩ := Action.yields_pure.mp ended
      obtain ⟨none, modules, isPaths, each, printed⟩ := ih later
      refine ⟨none, (path, module) :: modules, by rw [← isPaths]; rfl, ?_, rfl, formatting,
        formatted, printed⟩
      exact List.forall_mem_cons.mpr ⟨generated, each⟩
    | error failure =>
      obtain ⟨_, _, noted, done⟩ := Action.yields_bind.mp done
      obtain rfl := Action.yields_record.mp noted
      obtain ⟨_, _, failed, done⟩ := Action.yields_bind.mp done
      obtain rfl := Action.yields_modify.mp failed
      -- A failure that is noted stays.
      exact absurd (ih done).1 (Table.insert_ne_nil path failure between.failures)

/-- Without a formatter, modules are compiled to the end whatever fails, and no failure is noted if
all of them are generated. -/
theorem compileEach_plain {paths : List String} (plain : compiler.formatting.formatter = .plain) :
    ∃ outputs after, (compileEach generator header paths).Yields compiler outputs after ∧
      ((∀ path ∈ paths, ∃ module, (generator.generate path).result = .ok module) →
        after.failures = compiler.failures) := by
  induction paths generalizing compiler with
  | nil => exact ⟨[], compiler, Action.yields_pure.mpr ⟨rfl, rfl⟩, fun _ => rfl⟩
  | cons path rest ih =>
    have noted : ∀ level text, (Action.record level text).Yields compiler () compiler :=
      fun _ _ => Action.yields_record.mpr rfl
    cases generated : (generator.generate path).result with
    | ok module =>
      have compiled : (compileModule generator header path).Yields compiler (module.render header)
          compiler := compileModule_yields.mpr
        ⟨module, compiler.formatting, generated, (Formatting.format_plain plain).mpr ⟨rfl, rfl⟩,
          rfl⟩
      obtain ⟨outputs, after, later, kept⟩ := ih plain
      refine ⟨(path, module.render header) :: outputs, after, ?_, fun each => ?_⟩
      · refine Action.yields_bind.mpr ⟨_, _, noted _ _, ?_⟩
        refine Action.yields_bind.mpr ⟨_, _, Action.yields_attempt.mpr compiled, ?_⟩
        exact Action.yields_bind.mpr ⟨_, _, later, Action.yields_pure.mpr ⟨rfl, rfl⟩⟩
      · exact kept fun path inside => each path (List.mem_cons_of_mem _ inside)
    | error failure =>
      have failed : (compileModule generator header path).attempt.Yields compiler
          (.error failure) compiler :=
        Action.attempt_bind_of_error (Action.yields_attempt.mpr ⟨generated, rfl⟩)
      obtain ⟨outputs, after, later, _⟩ : ∃ outputs after, (compileEach generator header rest).Yields
          { compiler with failures := Table.insert path failure compiler.failures } outputs after ∧
            _ := ih plain
      refine ⟨outputs, after, ?_, fun each => ?_⟩
      · refine Action.yields_bind.mpr ⟨_, _, noted _ _, ?_⟩
        refine Action.yields_bind.mpr ⟨_, _, failed, ?_⟩
        refine Action.yields_bind.mpr ⟨_, _, noted _ _, ?_⟩
        exact Action.yields_bind.mpr ⟨(), _, Action.yields_modify.mpr rfl, later⟩
      · obtain ⟨module, isModule⟩ := each path List.mem_cons_self
        cases generated.symm.trans isModule

/-- The modules of a plan are compiled one by one; the module that exports the others is added to
what came of them. -/
theorem compileModules_yields (separate : compiler.plan.method ≠ .bundled) :
    compileModules.Yields compiler outputs after ↔ ∃ plan generator texts,
      compiler.plan.resolve (Table.keys compiler.document.schemas) [] = .ok plan ∧
      Generator.ofPlan compiler.workingDir compiler.document.schemas plan
        (fun _ _ => .ok true) = .ok generator ∧
      (compileEach generator compiler.separateHeader (Table.keys generator.modules)).Yields compiler
        texts after ∧
      outputs = if plan.method = .oneToOne && plan.barrel.isTruthy then
        Table.insert barrelPath (ModuleText.renderBarrel (Table.keys generator.modules)) texts
      else texts := by
  constructor
  · intro yielded
    obtain ⟨plan, _, planned, yielded⟩ := Action.yields_bind.mp yielded
    obtain ⟨generator, _, set, yielded⟩ := Action.yields_bind.mp yielded
    obtain ⟨_, _, read, done⟩ := Action.yields_bind.mp yielded
    obtain ⟨resolved, rfl⟩ := (resolvedPlan_separate separate).mp planned
    obtain ⟨prepared, rfl⟩ := (generator_separate separate).mp set
    obtain ⟨rfl, rfl⟩ := Action.yields_get.mp read
    obtain ⟨texts, _, each, done⟩ := Action.yields_bind.mp done
    refine ⟨plan, generator, texts, resolved, prepared, ?_⟩
    split at done
    · rename_i barrel
      obtain ⟨_, _, noted, done⟩ := Action.yields_bind.mp done
      obtain rfl := Action.yields_record.mp noted
      obtain ⟨rfl, rfl⟩ := Action.yields_pure.mp done
      exact ⟨each, by rw [if_pos barrel]⟩
    · rename_i barrel
      obtain ⟨rfl, rfl⟩ := Action.yields_pure.mp done
      exact ⟨each, by rw [if_neg barrel]⟩
  · rintro ⟨plan, generator, texts, resolved, prepared, each, rfl⟩
    refine Action.yields_bind.mpr ⟨_, _, (resolvedPlan_separate separate).mpr ⟨resolved, rfl⟩, ?_⟩
    refine Action.yields_bind.mpr ⟨_, _, (generator_separate separate).mpr ⟨prepared, rfl⟩, ?_⟩
    refine Action.yields_bind.mpr ⟨_, _, Action.yields_get.mpr ⟨rfl, rfl⟩, ?_⟩
    refine Action.yields_bind.mpr ⟨_, _, each, ?_⟩
    split
    · exact Action.yields_bind.mpr
        ⟨(), _, Action.yields_record.mpr rfl, Action.yields_pure.mpr ⟨rfl, rfl⟩⟩
    · exact Action.yields_pure.mpr ⟨rfl, rfl⟩

/-- If no failure was noted in the end, the outputs are those of modules that were all generated. -/
theorem compile_separate (separate : compiler.plan.method ≠ .bundled)
    (compiled : (compile.run compiler).1.result = .ok outputs)
    (complete : (compile.run compiler).2.failures = []) :
    ∃ separate : compiler.Separate, separate.Prints outputs := by
  have done := compile_yields.mp ⟨compiled, rfl⟩
  rw [if_neg separate] at done
  have separate : { compiler with failures := [] }.plan.method ≠ .bundled := separate
  obtain ⟨plan, generator, texts, resolved, prepared, each, isOutputs⟩ :=
    (compileModules_yields separate).mp done
  obtain ⟨_, modules, paths, generated, printed⟩ := compileEach_complete each complete
  exact ⟨⟨plan, generator, modules, resolved, prepared, paths, generated⟩, texts, printed, isOutputs⟩

/-- Without a formatter, compiling module by module succeeds once there is a generator, and notes no
failure if all modules are generated. -/
theorem compile_unformatted (separate : compiler.plan.method ≠ .bundled)
    (plain : compiler.formatting.formatter = .plain)
    (resolved : compiler.plan.resolve (Table.keys compiler.document.schemas) [] = .ok plan)
    (prepared : Generator.ofPlan compiler.workingDir compiler.document.schemas plan
      (fun _ _ => .ok true) = .ok generator) :
    (∃ outputs, (compile.run compiler).1.result = .ok outputs) ∧
      ((∀ path ∈ Table.keys generator.modules, ∃ module,
        (generator.generate path).result = .ok module) →
          (compile.run compiler).2.failures = []) := by
  obtain ⟨texts, after, each, kept⟩ : ∃ texts after,
      (compileEach generator compiler.separateHeader (Table.keys generator.modules)).Yields
        { compiler with failures := [] } texts after ∧ _ := compileEach_plain plain
  have done := compile_yields.mpr (by
    rw [if_neg separate]
    have separate : { compiler with failures := [] }.plan.method ≠ .bundled := separate
    exact (compileModules_yields separate).mpr
      ⟨plan, generator, texts, resolved, prepared, each, rfl⟩)
  obtain ⟨compiled, rfl⟩ := done
  exact ⟨⟨_, compiled⟩, kept⟩

end Compiler

end SchemaPress
