import SchemaPress.Proofs.BundleRuns

/-! Drafts. What a compilation generates does not depend on the formatter. It is a draft, whose
texts are handed to the formatter one after the other, each once; what the compilation ends with
follows from the formatter's answers. -/

namespace SchemaPress

/-- One text that is handed to a formatter: the text, the formatter's answer, and the processes that
it started for it, with how each of them ended. -/
structure Exchange where
  text : String
  answer : Except Failure String
  processes : List (Call × Outcome)

/-- Processes with how they end by a script. Beyond the script no program exists. -/
def endings (script : List Outcome) : List Call → List (Call × Outcome)
  | [] => []
  | call :: rest => (call, script.headD .missing) :: endings script.tail rest

/-- The processes that were started since an earlier time, with how they ended. -/
def Shell.since (before after : Shell) : List (Call × Outcome) :=
  endings before.script (after.calls.drop before.calls.length)

namespace Formatting

variable {settings : FormatSettings}

/-- Hands one text to the formatter. -/
def exchange (settings : FormatSettings) (text : String) (formatting : Formatting) :
    Exchange × Formatting :=
  let ended := (format text settings).run formatting
  (⟨text, ended.1.result, formatting.shell.since ended.2.shell⟩, ended.2)

/-- Hands texts to the formatter, one after the other, whatever becomes of them. -/
def converse (settings : FormatSettings) : List String → Formatting → List Exchange × Formatting
  | [], formatting => ([], formatting)
  | text :: rest, formatting =>
    let here := exchange settings text formatting
    let later := converse settings rest here.2
    (here.1 :: later.1, later.2)

/-- The formatter's answers to texts that it is handed one after the other. -/
def answers (settings : FormatSettings) (texts : List String) (formatting : Formatting) :
    List (Except Failure String) :=
  (converse settings texts formatting).1.map Exchange.answer

theorem converse_append (first second : List String) (formatting : Formatting) :
    converse settings (first ++ second) formatting =
      let before := converse settings first formatting
      let after := converse settings second before.2
      (before.1 ++ after.1, after.2) := by
  induction first generalizing formatting with
  | nil => rfl
  | cons text rest ih =>
    simp only [List.cons_append, converse, ih]

@[simp]
theorem converse_texts (texts : List String) (formatting : Formatting) :
    (converse settings texts formatting).1.map Exchange.text = texts := by
  induction texts generalizing formatting with
  | nil => rfl
  | cons text rest ih => exact congrArg (text :: ·) (ih _)

end Formatting

/-- What a compilation generates before anything is formatted: nothing, since something failed; for
modules by path their texts, or why there is none, and the module that exports the others if there
is to be one; or the text of a bundle. -/
inductive Draft where
  | stopped (failure : Failure)
  | modules (paths : List String) (textOf : String → Except Failure String)
      (barrel? : Option String)
  | bundle (path text : String)

/-- What a compilation ends with: its outputs or its failure, and the failures of modules that it
notes. -/
abbrev Results := Except Failure (Table String) × Table Failure

namespace Draft

/-- The texts that are handed to the formatter, in order: those of all modules that have one, or
that of the bundle. -/
def texts : Draft → List String
  | .stopped _ => []
  | .modules paths textOf _ => paths.filterMap fun path => (textOf path).toOption
  | .bundle _ text => [text]

/-- What comes of modules. A module with a text comes out as the formatter answers. -/
def answered (textOf : String → Except Failure String) :
    List String → List (Except Failure String) → Outcomes String
  | [], _ => []
  | path :: rest, answers =>
    match textOf path with
    | .ok text => (path, answers.headD (.ok text)) :: answered textOf rest answers.tail
    | .error failure => (path, .error failure) :: answered textOf rest answers

/-- What a draft becomes by the formatter's answers to its texts. -/
def conclude : Draft → List (Except Failure String) → Results
  | .stopped failure, _ => (.error failure, [])
  | .modules paths textOf barrel?, answers =>
    let outcomes := answered textOf paths answers
    (.ok (barrel?.elim outcomes.yielded fun barrel =>
      Table.insert Compiler.barrelPath barrel outcomes.yielded),
      Table.update [] outcomes.failed)
  | .bundle path text, answers =>
    match answers.headD (.ok text) with
    | .ok text => (.ok [(path, text)], [])
    | .error failure => (.error ((Stage.formatting path).report failure), [])

theorem conclude_bundle_failures (path text : String) (answers : List (Except Failure String)) :
    (conclude (.bundle path text) answers).2 = [] := by
  rw [conclude]
  split <;> rfl

/-- The draft that is made, or the failure to make one. -/
def ofResult : Except Failure Draft → Draft
  | .ok draft => draft
  | .error failure => .stopped failure

end Draft

namespace Compiler

variable {compiler after : Compiler}

/-- What a compilation ends with. -/
def results (compiler : Compiler) : Results :=
  ((compile.run compiler).1.result, (compile.run compiler).2.failures)

/-- The text of a generated module, if it was generated. -/
def moduleText (generator : Generator) (header : Option String) (path : String) :
    Except Failure String :=
  (fun module => module.render header) <$> (generator.generate path).result

/-- What is generated module by module. -/
def separateDraft (compiler : Compiler) : Except Failure Draft := do
  let plan ← compiler.plan.resolve (Table.keys compiler.document.schemas) []
  let generator ← Generator.ofPlan compiler.workingDir compiler.document.schemas plan
    fun _ _ => .ok true
  let paths := Table.keys generator.modules
  return .modules paths (moduleText generator compiler.separateHeader)
    (if plan.method = .oneToOne && plan.barrel.isTruthy then some (ModuleText.renderBarrel paths)
    else none)

/-- The order that a bundle follows: the one that is known, or that of the document. -/
def bundleOrder (compiler : Compiler) : Except Failure (List OrderEntry) :=
  compiler.order?.elim compiler.document.schemas.order .ok

/-- The order and the plan of a bundle. -/
def bundlePlan (compiler : Compiler) : Except Failure (List OrderEntry × Plan) := do
  let order ← compiler.bundleOrder
  return (order, ← compiler.plan.resolve (Table.keys compiler.document.schemas) order)

/-- What is generated for a bundle. The first module that cannot be generated ends it. -/
def bundleDraft (compiler : Compiler) : Except Failure Draft := do
  let (order, plan) ← compiler.bundlePlan.mapError fun failure =>
    if failure.kind = .dependencyAnalysis then .unknownOrder failure else failure
  let generator ← Generator.ofPlan compiler.workingDir compiler.document.schemas plan
    fun id => standsBefore (order.map OrderEntry.id) (.str id)
  let modules ← (Table.keys generator.modules).mapM fun path =>
    (generator.generate path).result.mapError (.ungenerated path)
  return .bundle (modulePath plan.bundleName.display) (bundleText compiler.header modules)

/-- What compiling generates. -/
def draft (compiler : Compiler) : Draft :=
  .ofResult (if compiler.plan.method = .bundled then compiler.bundleDraft
    else compiler.separateDraft)

/-- What compiling hands to the formatter, with the answers, and the formatter then. -/
def conversation (compiler : Compiler) : List Exchange × Formatting :=
  Formatting.converse compiler.settings.format compiler.draft.texts compiler.formatting

/-- A computation ends as a draft does by the formatter's answers to its texts. -/
def EndsAs (compiler : Compiler) (action : Action Compiler (Table String)) (draft : Draft) : Prop :=
  let settings := compiler.settings.format
  let results := draft.conclude (Formatting.answers settings draft.texts compiler.formatting)
  ∃ order?, action.attempt.Yields compiler results.1
    { compiler with
      order?
      failures := results.2
      formatting := (Formatting.converse settings draft.texts compiler.formatting).2 }

/-- What comes of modules that are formatted in turn is what the formatter answers to their texts.
-/
theorem inTurn_textOf (generator : Generator) (header : Option String) (settings : FormatSettings)
    (paths : List String) (formatting : Formatting) :
    let texts := paths.filterMap fun path => (moduleText generator header path).toOption
    Action.inTurn (paths.map fun path => (path, generator.textOf header settings path)) formatting =
      (Draft.answered (moduleText generator header) paths
        (Formatting.answers settings texts formatting),
        (Formatting.converse settings texts formatting).2) := by
  induction paths generalizing formatting with
  | nil => rfl
  | cons path rest ih =>
    cases generated : (generator.generate path).result with
    | error failure =>
      have ungenerated : (generator.textOf header settings path).attempt.Yields formatting
          (.error failure) formatting :=
        Action.attempt_bind_of_error (Action.yields_attempt.mpr ⟨generated, rfl⟩)
      obtain ⟨isResult, isState⟩ := Action.yields_attempt.mp ungenerated
      have noText : moduleText generator header path = .error failure := by
        rw [moduleText, generated]
        rfl
      simp only [List.map_cons, Action.inTurn, isResult, isState, ih, List.filterMap_cons, noText,
        Draft.answered, Except.toOption]
    | ok module =>
      have made : (Action.ofLogged (generator.generate path)).Yields formatting module formatting :=
        ⟨generated, rfl⟩
      have formatted : (generator.textOf header settings path).attempt.Yields formatting
          ((Formatting.format (module.render header) settings).run formatting).1.result
          ((Formatting.format (module.render header) settings).run formatting).2 :=
        Action.attempt_bind_of_ok made (Action.yields_attempt.mpr ⟨rfl, rfl⟩)
      obtain ⟨isResult, isState⟩ := Action.yields_attempt.mp formatted
      have isText : moduleText generator header path = .ok (module.render header) := by
        rw [moduleText, generated]
        rfl
      simp only [List.map_cons, Action.inTurn, isResult, isState, ih, List.filterMap_cons, isText,
        Draft.answered, Except.toOption]
      rfl

theorem orderForMethod_of_bundled (bundled : compiler.plan.method = .bundled)
    {order : List OrderEntry} (known : compiler.bundleOrder = .ok order) :
    orderForMethod.Yields compiler order { compiler with order? := some order } := by
  rw [orderForMethod_bundled bundled]
  refine Action.yields_bind.mpr ⟨_, _, Action.yields_get.mpr ⟨rfl, rfl⟩, ?_⟩
  cases remembered : compiler.order? with
  | some entries =>
    rw [bundleOrder, remembered] at known
    cases known
    exact Action.yields_pure.mpr ⟨rfl, by rw [← remembered]⟩
  | none =>
    rw [bundleOrder, remembered] at known
    refine Action.yields_bind.mpr ⟨_, _, Action.yields_lift.mpr ⟨known, rfl⟩, ?_⟩
    refine Action.yields_bind.mpr ⟨(), _, Action.yields_set.mpr rfl, ?_⟩
    exact Action.yields_pure.mpr ⟨rfl, rfl⟩

theorem orderForMethod_unordered (bundled : compiler.plan.method = .bundled) {failure : Failure}
    (unknown : compiler.bundleOrder = .error failure) :
    orderForMethod.Fails compiler failure compiler := by
  refine Action.fails_bind.mpr (.inr ⟨_, _, Action.yields_get.mpr ⟨rfl, rfl⟩, ?_⟩)
  rw [if_pos bundled]
  refine Action.fails_bind.mpr (.inr ⟨_, _, Action.yields_get.mpr ⟨rfl, rfl⟩, ?_⟩)
  cases remembered : compiler.order? with
  | some entries =>
    rw [bundleOrder, remembered] at unknown
    cases unknown
  | none =>
    rw [bundleOrder, remembered] at unknown
    exact Action.fails_bind.mpr (.inl (Action.fails_lift.mpr ⟨unknown, rfl⟩))

/-- Once the order is there, resolving the plan ends as the plan says. -/
theorem resolvedPlan_attempt {order : List OrderEntry}
    (ordered : orderForMethod.Yields compiler order after) :
    resolvedPlan.attempt.Yields compiler
      (after.plan.resolve (Table.keys after.document.schemas) order) after := by
  refine Action.attempt_bind_of_ok ordered ?_
  exact Action.attempt_bind_of_ok (Action.yields_get.mpr ⟨rfl, rfl⟩) (Action.attempt_lift _ _)

theorem generator_attempt {order : List OrderEntry} (plan : Plan)
    (ordered : orderForMethod.Yields compiler order after) :
    (generator plan).attempt.Yields compiler
      (Generator.ofPlan after.workingDir after.document.schemas plan fun id =>
        isBefore after.plan.method order (.str id)) after := by
  refine Action.attempt_bind_of_ok ordered ?_
  exact Action.attempt_bind_of_ok (Action.yields_get.mpr ⟨rfl, rfl⟩) (Action.attempt_lift _ _)

/-- Formatting ends as the formatter does. -/
theorem format_attempt (code : String) :
    (format code).attempt.Yields compiler
      ((Formatting.format code compiler.settings.format).run compiler.formatting).1.result
      { compiler with formatting :=
        ((Formatting.format code compiler.settings.format).run compiler.formatting).2 } := by
  rw [Action.yields_attempt]
  rcases Action.yields_or_fails (Formatting.format code compiler.settings.format)
    compiler.formatting with ⟨text, formatting, done⟩ | ⟨failure, formatting, failed⟩
  · rw [done.1, done.2]
    exact format_yields.mpr ⟨formatting, done, rfl⟩
  · rw [failed.1, failed.2]
    exact format_fails.mpr ⟨formatting, failed, rfl⟩

/-- The modules of a bundle come out as they are generated; the first that is not ends it. -/
theorem bundleModules_attempt (generator : Generator) (paths : List String) :
    (bundleModules generator paths).attempt.Yields compiler
      (paths.mapM fun path => (generator.generate path).result.mapError (.ungenerated path))
      compiler := by
  induction paths with
  | nil => exact Action.yields_attempt.mpr ⟨rfl, rfl⟩
  | cons path rest ih =>
    refine Action.attempt_bind_of_ok (a := ()) (Action.yields_record.mpr rfl) ?_
    cases generated : (generator.generate path).result with
    | error failure =>
      refine Action.attempt_bind_of_ok (Action.yields_attempt.mpr ⟨generated, rfl⟩) ?_
      rw [List.mapM_cons, generated]
      exact Action.yields_attempt.mpr ⟨rfl, rfl⟩
    | ok module =>
      refine Action.attempt_bind_of_ok (Action.yields_attempt.mpr ⟨generated, rfl⟩) ?_
      rw [List.mapM_cons, generated]
      have further := Action.attempt_map (module :: ·) ih
      rwa [map_eq_pure_bind] at further

theorem endsAs_stopped {action : Action Compiler (Table String)} {failure : Failure}
    {order? : Option (List OrderEntry)} (cleared : compiler.failures = [])
    (failed : action.attempt.Yields compiler (.error failure) { compiler with order? }) :
    compiler.EndsAs action (.stopped failure) := by
  rw [cleared] at failed
  exact ⟨order?, failed⟩

/-- The module that exports the others is added to what came of them. -/
theorem elim_barrel (wanted : Bool) (barrel : String) (texts : Table String) :
    (if wanted then some barrel else none).elim texts (fun barrel =>
      Table.insert barrelPath barrel texts) =
      if wanted then Table.insert barrelPath barrel texts else texts := by
  cases wanted <;> rfl

/-- Compiling module by module ends as its draft. -/
theorem compileModules_endsAs (separate : compiler.plan.method ≠ .bundled)
    (cleared : compiler.failures = []) :
    compiler.EndsAs compileModules (.ofResult compiler.separateDraft) := by
  have ordered : orderForMethod.Yields compiler [] compiler :=
    (orderForMethod_separate separate).mpr ⟨rfl, rfl⟩
  have planned := resolvedPlan_attempt ordered
  cases resolved : compiler.plan.resolve (Table.keys compiler.document.schemas) [] with
  | error failure =>
    have undrafted : compiler.separateDraft = .error failure :=
      except_bind_eq_error.mpr (.inl resolved)
    rw [resolved] at planned
    rw [undrafted]
    exact endsAs_stopped cleared (Action.attempt_bind_of_error planned)
  | ok plan =>
    rw [resolved] at planned
    have set := generator_attempt plan ordered
    have always : (fun id => isBefore compiler.plan.method [] (.str id)) = fun _ _ => .ok true := by
      funext id other
      rw [isBefore, if_neg separate]
    rw [always] at set
    cases prepared : Generator.ofPlan compiler.workingDir compiler.document.schemas plan
      (fun _ _ => .ok true) with
    | error failure =>
      have undrafted : compiler.separateDraft = .error failure :=
        except_bind_eq_error.mpr (.inr ⟨plan, resolved, except_bind_eq_error.mpr (.inl prepared)⟩)
      rw [prepared] at set
      have failed : compileModules.attempt.Yields compiler (.error failure) compiler := by
        refine Action.attempt_bind_of_ok (Action.yields_attempt.mp planned) ?_
        exact Action.attempt_bind_of_error set
      rw [undrafted]
      exact endsAs_stopped cleared failed
    | ok generator =>
      have drafted : compiler.separateDraft = .ok _ :=
        except_bind_eq_ok.mpr ⟨plan, resolved, except_bind_eq_ok.mpr ⟨generator, prepared, rfl⟩⟩
      have each := compileEach_outcomes (inTurn_textOf generator compiler.separateHeader
        compiler.settings.format (Table.keys generator.modules) compiler.formatting)
      have compiled := (compileModules_yields separate).mpr
        ⟨plan, generator, _, resolved, prepared, each, rfl⟩
      rw [cleared, ← elim_barrel] at compiled
      rw [drafted]
      exact ⟨compiler.order?, Action.yields_attempt.mpr compiled⟩

theorem compileBundle_unplanned {failure : Failure}
    (unplanned : resolvedPlan.Fails compiler failure after) :
    compileBundle.attempt.Yields compiler
      (.error (if failure.kind = .dependencyAnalysis then .unknownOrder failure else failure))
      after := by
  rw [Action.fails_of_attempt]
  refine Action.fails_bind.mpr (.inl (Action.fails_recover.mpr ⟨_, _, unplanned, ?_⟩))
  exact Action.fails_throw.mpr ⟨rfl, rfl⟩

/-- Once the modules of a bundle are there, it ends as formatting its text does. -/
theorem compileBundle_generated {between : Compiler} {plan : Plan} {made : Generator}
    {modules : List GeneratedModule} (planned : resolvedPlan.Yields compiler plan between)
    (set : (generator plan).Yields between made between)
    (generated : (bundleModules made (Table.keys made.modules)).Yields between modules between) :
    let path := modulePath plan.bundleName.display
    let code := bundleText between.header modules
    let ended := (Formatting.format code between.settings.format).run between.formatting
    compileBundle.attempt.Yields compiler ((Draft.bundle path code).conclude [ended.1.result]).1
      { between with formatting := ended.2 } := by
  intro path code ended
  refine Action.attempt_bind_of_ok
    ((Action.yields_recover fun _ _ => Action.not_yields_throw).mpr planned) ?_
  refine Action.attempt_bind_of_ok set ?_
  refine Action.attempt_bind_of_ok generated ?_
  refine Action.attempt_bind_of_ok (Action.yields_get.mpr ⟨rfl, rfl⟩) ?_
  have formatted := Action.yields_attempt.mp (format_attempt code : (format code).attempt.Yields
    between ended.1.result { between with formatting := ended.2 })
  cases answer : ended.1.result with
  | ok text =>
    rw [answer] at formatted
    refine Action.attempt_bind_of_ok ((Action.yields_recover fun _ _ =>
      Action.not_yields_throw_bind).mpr (Action.yields_bind.mpr
        ⟨_, _, formatted, Action.yields_pure.mpr ⟨rfl, rfl⟩⟩)) ?_
    exact Action.yields_attempt.mpr ⟨rfl, rfl⟩
  | error failure =>
    rw [answer] at formatted
    refine Action.attempt_bind_of_error (Action.fails_of_attempt.mpr (Action.fails_recover.mpr
      ⟨_, _, Action.fails_bind.mpr (.inl formatted), ?_⟩))
    exact Action.fails_bind.mpr (.inl (Action.fails_throw.mpr ⟨rfl, rfl⟩))

/-- Once a bundle is planned, what is left is to generate its modules and to format its text. -/
theorem compileBundle_planned {order : List OrderEntry} {plan : Plan}
    (bundled : compiler.plan.method = .bundled) (cleared : compiler.failures = [])
    (known : compiler.bundleOrder = .ok order)
    (resolved : compiler.plan.resolve (Table.keys compiler.document.schemas) order = .ok plan) :
    compiler.EndsAs compileBundle (.ofResult compiler.bundleDraft) := by
  let between : Compiler := { compiler with order? := some order }
  have planned : resolvedPlan.Yields compiler plan between := by
    have ended := resolvedPlan_attempt (orderForMethod_of_bundled bundled known)
    rw [resolved] at ended
    exact Action.yields_attempt.mp ended
  have still : between.plan.method = .bundled := bundled
  have remembered : orderForMethod.Yields between order between :=
    orderForMethod_of_bundled still rfl
  have set := generator_attempt plan remembered
  have byOrder : (fun id => isBefore compiler.plan.method order (.str id)) =
      fun id => standsBefore (order.map OrderEntry.id) (.str id) := by
    funext id other
    rw [isBefore, if_pos bundled]
  have isPlan : compiler.bundlePlan = .ok (order, plan) :=
    except_bind_eq_ok.mpr ⟨order, known, except_bind_eq_ok.mpr ⟨plan, resolved, rfl⟩⟩
  cases prepared : Generator.ofPlan compiler.workingDir compiler.document.schemas plan
    (fun id => standsBefore (order.map OrderEntry.id) (.str id)) with
  | error failure =>
    have undrafted : compiler.bundleDraft = .error failure :=
      except_bind_eq_error.mpr
        (.inr ⟨_, congrArg _ isPlan, except_bind_eq_error.mpr (.inl prepared)⟩)
    rw [byOrder, prepared] at set
    have failed : compileBundle.attempt.Yields compiler (.error failure) between := by
      refine Action.attempt_bind_of_ok
        ((Action.yields_recover fun _ _ => Action.not_yields_throw).mpr planned) ?_
      exact Action.attempt_bind_of_error set
    rw [undrafted]
    exact endsAs_stopped cleared failed
  | ok made =>
    rw [byOrder, prepared] at set
    have set := Action.yields_attempt.mp set
    have generated : (bundleModules made (Table.keys made.modules)).attempt.Yields between _ _ :=
      bundleModules_attempt made (Table.keys made.modules)
    cases each : (Table.keys made.modules).mapM fun path =>
      (made.generate path).result.mapError (Failure.ungenerated path) with
    | error failure =>
      have undrafted : compiler.bundleDraft = .error failure :=
        except_bind_eq_error.mpr (.inr ⟨_, congrArg _ isPlan, except_bind_eq_error.mpr
          (.inr ⟨made, prepared, except_bind_eq_error.mpr (.inl each)⟩)⟩)
      rw [each] at generated
      have failed : compileBundle.attempt.Yields compiler (.error failure) between := by
        refine Action.attempt_bind_of_ok
          ((Action.yields_recover fun _ _ => Action.not_yields_throw).mpr planned) ?_
        exact Action.attempt_bind_of_ok set (Action.attempt_bind_of_error generated)
      rw [undrafted]
      exact endsAs_stopped cleared failed
    | ok modules =>
      have drafted : compiler.bundleDraft = .ok _ :=
        except_bind_eq_ok.mpr ⟨_, congrArg _ isPlan, except_bind_eq_ok.mpr
          ⟨made, prepared, except_bind_eq_ok.mpr ⟨modules, each, rfl⟩⟩⟩
      rw [each] at generated
      have ended := compileBundle_generated planned set (Action.yields_attempt.mp generated)
      rw [drafted]
      refine ⟨some order, ?_⟩
      dsimp only [Draft.ofResult]
      rw [Draft.conclude_bundle_failures, ← cleared]
      exact ended

/-- Compiling a bundle ends as its draft. -/
theorem compileBundle_endsAs (bundled : compiler.plan.method = .bundled)
    (cleared : compiler.failures = []) :
    compiler.EndsAs compileBundle (.ofResult compiler.bundleDraft) := by
  cases known : compiler.bundleOrder with
  | error failure =>
    have unresolved : compiler.bundlePlan = .error failure :=
      except_bind_eq_error.mpr (.inl known)
    have undrafted : compiler.bundleDraft = .error _ :=
      except_bind_eq_error.mpr (.inl (congrArg _ unresolved))
    have unplanned : resolvedPlan.Fails compiler failure compiler :=
      Action.fails_bind.mpr (.inl (orderForMethod_unordered bundled known))
    rw [undrafted]
    exact endsAs_stopped cleared (compileBundle_unplanned unplanned)
  | ok order =>
    cases resolved : compiler.plan.resolve (Table.keys compiler.document.schemas) order with
    | error failure =>
      have unresolved : compiler.bundlePlan = .error failure :=
        except_bind_eq_error.mpr (.inr ⟨order, known, except_bind_eq_error.mpr (.inl resolved)⟩)
      have undrafted : compiler.bundleDraft = .error _ :=
        except_bind_eq_error.mpr (.inl (congrArg _ unresolved))
      have unplanned := Action.yields_attempt.mp
        (resolvedPlan_attempt (orderForMethod_of_bundled bundled known))
      rw [resolved] at unplanned
      rw [undrafted]
      exact endsAs_stopped cleared (compileBundle_unplanned unplanned)
    | ok plan => exact compileBundle_planned bundled cleared known resolved

/-- Compiling ends as the draft by the formatter's answers to its texts. All texts are handed over,
in order, and nothing else is. -/
theorem compile_endsAs (compiler : Compiler) : compiler.EndsAs compile compiler.draft := by
  have started : ∀ {result after}, (if compiler.plan.method = .bundled then compileBundle
      else compileModules).attempt.Yields { compiler with failures := [] } result after →
      compile.attempt.Yields compiler result after := by
    intro result after ended
    refine Action.attempt_bind_of_ok (Action.yields_get.mpr ⟨rfl, rfl⟩) ?_
    refine Action.attempt_bind_of_ok (a := ()) (Action.yields_record.mpr rfl) ?_
    refine Action.attempt_bind_of_ok (a := ()) (Action.yields_modify.mpr rfl) ?_
    exact Action.attempt_bind_of_ok (Action.yields_get.mpr ⟨rfl, rfl⟩) ended
  by_cases bundled : compiler.plan.method = .bundled
  · have still : { compiler with failures := [] }.plan.method = .bundled := bundled
    obtain ⟨order?, ended⟩ := compileBundle_endsAs still rfl
    rw [if_pos bundled] at started
    rw [draft, if_pos bundled]
    exact ⟨order?, started ended⟩
  · have still : { compiler with failures := [] }.plan.method ≠ .bundled := bundled
    obtain ⟨order?, ended⟩ := compileModules_endsAs still rfl
    rw [if_neg bundled] at started
    rw [draft, if_neg bundled]
    exact ⟨order?, started ended⟩

/-- What compiling ends with follows from the formatter's answers. -/
def Concludes (compiler : Compiler) : Prop :=
  compiler.results = compiler.draft.conclude (compiler.conversation.1.map Exchange.answer)

theorem concludes (compiler : Compiler) : compiler.Concludes := by
  obtain ⟨order?, ended⟩ := compiler.compile_endsAs
  obtain ⟨isResult, isState⟩ := Action.yields_attempt.mp ended
  rw [Concludes, results, isResult, isState]
  rfl

end Compiler

end SchemaPress
