import SchemaPress.Proofs.FormatterProtocol

/-! Formatters that cannot be run. If the program of the external formatter does not exist or takes
too long, everything comes out as without a formatter. A program that may not be run is no such
case: each text for which it is probed fails. -/

namespace SchemaPress

namespace Outcome

/-- Whether a process fails to run: its program does not exist or may not be run, or it takes too
long. -/
def isUnrun : Outcome → Bool
  | .exited _ _ _ => false
  | .missing | .denied | .timedOut => true

/-- Whether the program of a process may not be run. -/
def isDenied : Outcome → Bool
  | .denied => true
  | _ => false

end Outcome

namespace Draft

variable {textOf : String → Except Failure String} {paths : List String}
  {answers : List (Except Failure String)} {failure : Failure}

/-- Modules whose texts come back as they are come out as they were generated. -/
theorem answered_unchanged (textOf : String → Except Failure String) (paths : List String) :
    answered textOf paths ((paths.filterMap fun path => (textOf path).toOption).map .ok) =
      paths.map fun path => (path, textOf path) := by
  induction paths with
  | nil => rfl
  | cons path rest ih =>
    cases generated : textOf path with
    | error failure =>
      rw [List.filterMap_cons, generated, answered, generated, List.map_cons, generated]
      exact congrArg (_ :: ·) ih
    | ok text =>
      rw [List.filterMap_cons, generated, answered, generated, List.map_cons, generated]
      exact congrArg (_ :: ·) ih

/-- If the first answer is a failure, then a module that was generated has failed. -/
theorem answered_failed (nonempty : (paths.filterMap fun path => (textOf path).toOption) ≠ []) :
    ∃ path text, textOf path = .ok text ∧
      (path, .error failure) ∈ answered textOf paths (.error failure :: answers) := by
  induction paths with
  | nil => exact absurd rfl nonempty
  | cons path rest ih =>
    cases generated : textOf path with
    | ok text =>
      refine ⟨path, text, generated, ?_⟩
      rw [answered, generated]
      exact List.mem_cons_self
    | error reason =>
      rw [List.filterMap_cons, generated] at nonempty
      obtain ⟨other, text, isText, failed⟩ := ih nonempty
      refine ⟨other, text, isText, ?_⟩
      rw [answered, generated]
      exact List.mem_cons_of_mem _ failed

/-- A failure among the first answers shows in the results. -/
theorem conclude_failed {draft : Draft} (nonempty : draft.texts ≠ []) :
    draft.conclude (.error failure :: answers) ≠ draft.conclude (draft.texts.map .ok) := by
  intro same
  cases draft with
  | stopped => exact nonempty rfl
  | bundle => cases congrArg Prod.fst same
  | modules paths textOf barrel? =>
    obtain ⟨path, text, isText, failed⟩ := answered_failed nonempty
    have noted : path ∈ Table.keys (Table.update []
        (Outcomes.failed (answered textOf paths (.error failure :: answers)))) :=
      Table.mem_keys_update.mpr (.inr (List.mem_map_of_mem (Outcomes.mem_failed.mpr failed)))
    have same : Table.update [] _ = Table.update [] _ := congrArg Prod.snd same
    rw [same, texts, answered_unchanged, Table.mem_keys_update] at noted
    rcases noted with none | noted
    · cases none
    obtain ⟨⟨_, reason⟩, listed, rfl⟩ := List.mem_map.mp noted
    obtain ⟨_, _, isEntry⟩ := List.mem_map.mp (Outcomes.mem_failed.mp listed)
    obtain ⟨rfl, isError⟩ := Prod.mk.inj isEntry
    cases isText.symm.trans isError

end Draft

namespace Formatting

variable {own settings : FormatSettings} {last : Option Bool} {exchange : Exchange}
  {trace : List Exchange}

/-- The plain formatter answers with the texts themselves. -/
theorem converse_plain (settings : FormatSettings) (texts : List String) {formatting : Formatting}
    (plain : formatting.formatter = .plain) :
    (converse settings texts formatting).1.map Exchange.answer = texts.map .ok := by
  induction texts with
  | nil => rfl
  | cons text rest ih =>
    have passed : (format text settings).Yields formatting text formatting :=
      (format_plain plain).mpr ⟨rfl, rfl⟩
    have here : exchange settings text formatting = (⟨text, .ok text, []⟩, formatting) :=
      exchange_eq (Action.yields_attempt.mpr passed) rfl
    rw [converse, here, List.map_cons, List.map_cons, ih]

theorem worded_of_commandText {words : List Json} {text : String}
    (listed : own.command.elements = .ok words) (joined : commandText words = .ok text) :
    own.Worded := by
  obtain ⟨texts, mapped, _⟩ := except_bind_eq_ok.mp joined
  refine ⟨texts, listed.trans (congrArg Except.ok ?_)⟩
  have spelled := mapM_eq_ok.mp mapped
  refine List.forall₂_eq_eq_eq ▸ (List.forall₂_map_right_iff.mpr (spelled.imp ?_))
  intro word text isText
  cases word <;> cases isText
  rfl

/-- A probe that finds the formatter was run. -/
theorem not_isUnrun_of_probed {outcome : Outcome} (found : probed outcome = .ok true) :
    outcome.isUnrun = false := by
  cases outcome with
  | exited => rfl
  | missing | timedOut | denied => cases found

theorem not_isDenied_of_probed {outcome : Outcome} {available : Bool}
    (settled : probed outcome = .ok available) : outcome.isDenied = false := by
  cases outcome with
  | exited | missing | timedOut => rfl
  | denied => cases settled

/-- If no process is run, the texts for which the program was denied fail, and all later ones are
passed on. -/
theorem Steps.answers_of_unrun (worded : own.Worded) (steps : Steps own settings none trace last)
    (unrun : ∀ process ∈ trace.flatMap Exchange.processes, process.2.isUnrun) :
    let denied := (trace.flatMap Exchange.processes).countP (·.2.isDenied)
    trace.map Exchange.answer = List.replicate denied (.error (.file .denied)) ++
      ((trace.map Exchange.text).drop denied).map .ok := by
  induction trace with
  | nil => rfl
  | cons here later ih =>
    cases steps with
    | cons step steps =>
      cases step with
      | unlisted text failed =>
        obtain ⟨words, isWords⟩ := worded
        cases isWords.symm.trans failed
      | denied text listed =>
        have others := ih steps fun process inside => unrun process (List.mem_cons_of_mem _ inside)
        simp only [List.flatMap_cons, List.singleton_append, List.map_cons] at others ⊢
        rw [List.countP_cons_of_pos rfl, others]
        rfl
      | absent text listed ended =>
        obtain ⟨quiet, passed⟩ := steps.passed
        have unchanged : later.map Exchange.answer = (later.map Exchange.text).map .ok := by
          rw [List.map_map]
          exact List.map_congr_left fun other inside => (passed other inside).2
        have undenied := not_isDenied_of_probed ended
        simp [quiet, undenied, commandText_worded worded listed, unchanged]
      | found listed ended sends =>
        have ran := unrun _ List.mem_cons_self
        cases (not_isUnrun_of_probed ended).symm.trans ran

/-- If no process is run and the command is no list of words, the first text fails. -/
theorem Step.fails_of_unworded (unworded : ¬ own.Worded)
    (step : Step own settings none exchange last)
    (unrun : ∀ process ∈ exchange.processes, process.2.isUnrun) :
    ∃ failure, exchange.answer = .error failure := by
  cases step with
  | unlisted | denied => exact ⟨_, rfl⟩
  | @absent text words listed outcome ended =>
    cases joined : commandText words with
    | error failure => exact ⟨failure, rfl⟩
    | ok command => exact absurd (worded_of_commandText listed joined) unworded
  | found listed ended sends =>
    have ran := unrun _ List.mem_cons_self
    cases (not_isUnrun_of_probed ended).symm.trans ran

/-- If no process is run, the first text fails unless the command is a list of words and no process
was denied. -/
theorem Steps.first_fails (steps : Steps own settings none trace last) (nonempty : trace ≠ [])
    (unrun : ∀ process ∈ trace.flatMap Exchange.processes, process.2.isUnrun)
    (faulty : ¬ (own.Worded ∧
      ∀ process ∈ trace.flatMap Exchange.processes, ¬ process.2.isDenied)) :
    ∃ failure answers, trace.map Exchange.answer = .error failure :: answers := by
  by_cases worded : own.Worded
  · have denied : ∃ process ∈ trace.flatMap Exchange.processes, process.2.isDenied := by
      by_contra undenied
      exact faulty ⟨worded, fun process inside denied => undenied ⟨process, inside, denied⟩⟩
    obtain ⟨more, isCount⟩ := Nat.exists_eq_add_one.mpr (List.countP_pos_iff.mpr denied)
    have isAnswers := steps.answers_of_unrun worded unrun
    rw [isCount] at isAnswers
    exact ⟨_, _, isAnswers⟩
  · cases steps with
    | nil => exact absurd rfl nonempty
    | cons step _ =>
      obtain ⟨failure, failed⟩ := step.fails_of_unworded worded fun process inside =>
        unrun process (List.mem_flatMap.mpr ⟨_, List.mem_cons_self, inside⟩)
      exact ⟨failure, _, congrArg (· :: _) failed⟩

end Formatting

/-- The settings without a formatter. -/
def Settings.unformatted (settings : Settings) : Settings :=
  { settings with format := { settings.format with enabled := .bool false } }

namespace Compiler

/-- The processes that a compilation starts, with how they end. -/
def processes (compiler : Compiler) : List (Call × Outcome) :=
  compiler.conversation.1.flatMap Exchange.processes

/-- A compilation without a formatter ends as its draft is. -/
theorem results_plain {compiler : Compiler} (plain : compiler.formatting.formatter = .plain) :
    compiler.results = compiler.draft.conclude (compiler.draft.texts.map .ok) := by
  rw [compiler.concludes, conversation, Formatting.converse_plain _ _ plain]

/-- What a compilation comes to if every process that it starts fails to run. It ends as without a
formatter exactly if nothing is formatted, or the formatter's command is a list of words and no
process was denied. With such a command the texts fail for which a process was denied, and all
others come out as they are. -/
theorem unrun_formatter_harmless_iff (workingDir : List String) (document : Document) (plan : Plan)
    (settings : Settings) (shell : Shell) (enabled : settings.format.enabled.isTruthy) :
    let formatted := new workingDir document plan settings none shell
    let plain := new workingDir document plan settings.unformatted none shell
    (∀ process ∈ formatted.processes, process.2.isUnrun) →
      (formatted.results = plain.results ↔ formatted.draft.texts = [] ∨
        settings.format.Worded ∧ ∀ process ∈ formatted.processes, ¬ process.2.isDenied) ∧
      (settings.format.Worded →
        let denied := formatted.processes.countP (·.2.isDenied)
        formatted.results = plain.draft.conclude
          (List.replicate denied (.error (.file .denied)) ++
            (plain.draft.texts.drop denied).map .ok)) := by
  intro formatted plain unrun
  have isPrettier : formatted.formatting.formatter = .prettier settings.format none :=
    if_pos enabled
  have isPlain : plain.results = formatted.draft.conclude (formatted.draft.texts.map .ok) :=
    results_plain rfl
  have isResults : formatted.results = formatted.draft.conclude _ := formatted.concludes
  have isTexts : formatted.conversation.1.map Exchange.text = formatted.draft.texts :=
    Formatting.converse_texts _ _
  obtain ⟨last, steps, _⟩ : ∃ last, Formatting.Steps settings.format settings.format none
      formatted.conversation.1 last ∧ _ :=
    Formatting.converse_steps isPrettier formatted.draft.texts
  have isAnswers : settings.format.Worded → _ := fun worded => steps.answers_of_unrun worded unrun
  rw [isTexts] at isAnswers
  refine ⟨⟨fun same => or_iff_not_imp_left.mpr fun nonempty => ?_, ?_⟩, fun worded => ?_⟩
  · -- A failure of the first text would show.
    by_contra faulty
    have exchanged : formatted.conversation.1 ≠ [] := fun silent =>
      nonempty (isTexts.symm.trans (congrArg _ silent))
    obtain ⟨failure, answers, failed⟩ := steps.first_fails exchanged unrun faulty
    rw [isResults, isPlain, failed] at same
    exact Draft.conclude_failed nonempty same
  · rintro (nothing | ⟨worded, undenied⟩)
    · have silent : formatted.conversation.1 = [] := List.map_eq_nil_iff.mp (isTexts.trans nothing)
      rw [isResults, isPlain, silent, nothing]
      rfl
    · have uncounted : formatted.processes.countP (·.2.isDenied) = 0 :=
        List.countP_eq_zero.mpr undenied
      rw [isResults, isPlain, isAnswers worded, ← processes, uncounted]
      rfl
  · rw [isResults, isAnswers worded]
    rfl

/-- Settings that ask for the external formatter. -/
def externally : Settings :=
  { format := { enabled := .bool true } }

/-- The compiler for a document under settings, with processes that end as given. -/
abbrev scripted (settings : Settings) (method : Method) (document : Document)
    (script : List Outcome) : Compiler :=
  new [] document (.plain method (.str "bundle") (.bool false)) settings none { script }

theorem unrun_formatter_harmless_iff_late :
    (scripted externally .oneToOne entwinedDocument [.timedOut]).results =
        (scripted externally.unformatted .oneToOne entwinedDocument [.timedOut]).results ∧
      (scripted externally .oneToOne entwinedDocument [.denied, .missing]).results ≠
        (scripted externally.unformatted .oneToOne entwinedDocument
          [.denied, .missing]).results := by
  have anywhere : ∀ document script,
      ((scripted externally .oneToOne document script).processes.all (·.2.isUnrun)) →
      ((scripted externally .oneToOne document script).results =
          (scripted externally.unformatted .oneToOne document script).results ↔
        (scripted externally .oneToOne document script).draft.texts = [] ∨
          (scripted externally .oneToOne document script).processes.any (·.2.isDenied) =
            false) := by
    intro document script unrun
    have worded : externally.format.Worded := ⟨["npx", "--no-install", "prettier"], rfl⟩
    rw [(unrun_formatter_harmless_iff [] document _ externally _ rfl
      (List.all_eq_true.mp unrun)).1, List.any_eq_false, and_iff_right worded]
  have handed : (scripted externally .oneToOne entwinedDocument [.denied, .missing]).draft.texts ≠
      [] := List.isEmpty_eq_false_iff.mp (by decide +kernel)
  refine ⟨(anywhere _ _ (by decide +kernel)).mpr (.inr (by decide +kernel)), fun same => ?_⟩
  have undenied := ((anywhere _ _ (by decide +kernel)).mp same).resolve_left handed
  revert undenied
  decide +kernel

/-- If the formatter's program may not be run, the first module fails, and a bundle ends. -/
theorem denied_formatter_fails :
    Table.keys (scripted externally .oneToOne entwinedDocument [.denied]).results.2 = ["./A.ts"] ∧
      Table.keys (scripted externally.unformatted .oneToOne entwinedDocument
        [.denied]).results.2 = [] ∧
      Workspace.failureKinds (scripted externally .bundled entwinedDocument [.denied]).results.1 =
        some (.file, none) := by
  decide +kernel

end Compiler

end SchemaPress
