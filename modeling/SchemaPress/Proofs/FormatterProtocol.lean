import SchemaPress.Proofs.Drafts

/-! The protocol of the external formatter over whole sessions. The formatter is probed at the first
text that it is handed, and again only as long as its program may not be run. Once a probe has come
to an end, it is never repeated: either every text is passed on as it is and no process is started
any more, or every text starts exactly one process that reads it. -/

namespace SchemaPress

/-- Whether a process exits without a fault. -/
def Outcome.isSuccess : Outcome → Bool
  | .exited 0 _ _ => true
  | _ => false

/-- The options that a formatting process is started with. -/
def FormatSettings.options (settings : FormatSettings) : List Json :=
  [.str "--stdin-filepath", .str "generated.ts", .str "--print-width",
    .str settings.printWidth.display, .str "--trailing-comma", settings.trailingComma] ++
    (if settings.singleQuote.isTruthy then [.str "--single-quote"] else []) ++
    (if settings.semi.isTruthy then [] else [.str "--no-semi"])

/-- Whether a process asks a program for its version. -/
def Call.isProbe : Call → Bool
  | ⟨command, none⟩ => match command.getLast? with
    | some (.str word) => word == "--version"
    | _ => false
  | ⟨_, some _⟩ => false

theorem Call.input_of_isProbe {call : Call} (isProbe : call.isProbe) : call.input = none := by
  obtain ⟨command, _ | text⟩ := call
  · rfl
  · cases isProbe

/-- The processes of an exchange that read something. -/
def Exchange.formattings (exchange : Exchange) : List Call :=
  (exchange.processes.map Prod.fst).filter fun call => call.input.isSome

/-- The processes of an exchange as the protocol sees them: whether each is a probe, and whether it
succeeds. -/
def Exchange.protocol (exchange : Exchange) : List (Bool × Bool) :=
  exchange.processes.map fun process => (process.1.isProbe, process.2.isSuccess)

/-- A probe reads nothing. -/
theorem Exchange.formattings_probe {exchange : Exchange} {probe : Call} {outcome : Outcome}
    {started : List (Call × Outcome)} (isProbe : probe.isProbe)
    (first : exchange.processes = (probe, outcome) :: started) :
    exchange.formattings = (started.map Prod.fst).filter fun call => call.input.isSome := by
  simp [formattings, first, Call.input_of_isProbe isProbe]

namespace Shell

variable {before between after : Shell} {processes : List (Call × Outcome)}

/-- Processes were started one after the other, and ended as they did. -/
def Ran : Shell → List (Call × Outcome) → Shell → Prop
  | before, [], after => before = after
  | before, (call, outcome) :: rest, after =>
    (before.start call).1 = outcome ∧ Ran (before.start call).2 rest after

theorem start_eq (call : Call) (shell : Shell) :
    shell.start call =
      (shell.script.headD .missing, ⟨shell.script.tail, shell.calls ++ [call]⟩) := by
  obtain ⟨script, calls⟩ := shell
  cases script <;> rfl

theorem Ran.append {others : List (Call × Outcome)} (first : before.Ran processes between)
    (second : between.Ran others after) : before.Ran (processes ++ others) after := by
  induction processes generalizing before with
  | nil =>
    obtain rfl : before = between := first
    exact second
  | cons process rest ih => exact ⟨first.1, ih first.2⟩

theorem Ran.calls_eq (ran : before.Ran processes after) :
    after.calls = before.calls ++ processes.map Prod.fst := by
  induction processes generalizing before with
  | nil =>
    obtain rfl : before = after := ran
    simp
  | cons process rest ih =>
    rw [ih ran.2, start_eq]
    simp

theorem Ran.endings_eq (ran : before.Ran processes after) :
    endings before.script (processes.map Prod.fst) = processes := by
  induction processes generalizing before with
  | nil => rfl
  | cons process rest ih =>
    obtain ⟨call, outcome⟩ := process
    obtain ⟨ended, later⟩ := ran
    have others := ih later
    rw [start_eq] at ended others
    obtain rfl : before.script.headD .missing = outcome := ended
    exact congrArg (_ :: ·) others

theorem Ran.since_eq (ran : before.Ran processes after) : before.since after = processes := by
  rw [since, ran.calls_eq, List.drop_left]
  exact ran.endings_eq

end Shell

namespace Formatting

variable {own settings : FormatSettings} {formatting after : Formatting} {text : String}

/-- What an available formatter does with a text: it starts a process that reads the text, or fails
since it has no command. -/
inductive Sends (settings : FormatSettings) (text : String) :
    Except Failure String → List (Call × Outcome) → Prop where
  | commanded {command : List Json} (isCommand : commandFor settings = .ok command)
      (outcome : Outcome) :
      Sends settings text (formatted outcome) [(⟨command, some text⟩, outcome)]
  | uncommanded {failure : Failure} (failed : commandFor settings = .error failure) :
      Sends settings text (.error failure) []

/-- One exchange with the external formatter, from what is known of it before to what is known
after. -/
inductive Step (own settings : FormatSettings) : Option Bool → Exchange → Option Bool → Prop where
  | passed (text : String) : Step own settings (some false) ⟨text, .ok text, []⟩ (some false)
  | sent {text : String} {answer : Except Failure String} {processes : List (Call × Outcome)}
      (sends : Sends settings text answer processes) :
      Step own settings (some true) ⟨text, answer, processes⟩ (some true)
  | unlisted (text : String) {failure : Failure} (failed : own.command.elements = .error failure) :
      Step own settings none ⟨text, .error failure, []⟩ none
  | denied (text : String) {words : List Json} (listed : own.command.elements = .ok words) :
      Step own settings none ⟨text, .error (.file .denied),
        [(⟨words ++ [.str "--version"], none⟩, .denied)]⟩ none
  | absent (text : String) {words : List Json} (listed : own.command.elements = .ok words)
      {outcome : Outcome} (ended : probed outcome = .ok false) :
      Step own settings none ⟨text, (fun _ => text) <$> commandText words,
        [(⟨words ++ [.str "--version"], none⟩, outcome)]⟩ (some false)
  | found {text : String} {words : List Json} (listed : own.command.elements = .ok words)
      {outcome : Outcome} (ended : probed outcome = .ok true) {answer : Except Failure String}
      {processes : List (Call × Outcome)} (sends : Sends settings text answer processes) :
      Step own settings none ⟨text, answer,
        (⟨words ++ [.str "--version"], none⟩, outcome) :: processes⟩ (some true)

theorem yields_start (call : Call) :
    (start call).Yields formatting (formatting.shell.start call).1
      { formatting with shell := (formatting.shell.start call).2 } :=
  ⟨rfl, rfl⟩

theorem exchange_eq {answer : Except Failure String} {processes : List (Call × Outcome)}
    (ended : (format text settings).attempt.Yields formatting answer after)
    (ran : formatting.shell.Ran processes after.shell) :
    exchange settings text formatting = (⟨text, answer, processes⟩, after) := by
  obtain ⟨isAnswer, isAfter⟩ := Action.yields_attempt.mp ended
  rw [exchange, isAnswer, isAfter, ran.since_eq]

/-- Starts the process that formats a text. -/
def send (settings : FormatSettings) (text : String) : Action Formatting String := do
  let command ← commandFor settings
  formatted (← start ⟨command, some text⟩)

theorem send_attempt (settings : FormatSettings) (text : String) (formatting : Formatting) :
    ∃ answer processes after, (send settings text).attempt.Yields formatting answer after ∧
      Sends settings text answer processes ∧ formatting.shell.Ran processes after.shell ∧
      after.formatter = formatting.formatter := by
  cases isCommand : commandFor settings with
  | error failure =>
    refine ⟨_, [], formatting, ?_, .uncommanded isCommand, rfl, rfl⟩
    exact Action.attempt_bind_of_error (Action.yields_attempt.mpr ⟨isCommand, rfl⟩)
  | ok command =>
    let call : Call := ⟨command, some text⟩
    refine ⟨_, _, { formatting with shell := (formatting.shell.start call).2 }, ?_,
      .commanded isCommand (formatting.shell.start call).1, ⟨rfl, rfl⟩, rfl⟩
    refine Action.attempt_bind_of_ok (Action.yields_lift.mpr ⟨isCommand, rfl⟩) ?_
    exact Action.attempt_bind_of_ok (yields_start call) (Action.attempt_lift _ _)

/-- A text is formatted or passed on as the external formatter is found to be. -/
theorem format_asked {available? : Option Bool}
    (isPrettier : formatting.formatter = .prettier own available?) {available : Bool}
    {between : Formatting} {answer : Except Failure String}
    (asked : isAvailable.Yields formatting available between)
    (ended : (if available then send settings text else pure text).attempt.Yields between answer
      after) :
    (format text settings).attempt.Yields formatting answer after := by
  refine Action.attempt_bind_of_ok (Action.yields_get.mpr ⟨rfl, rfl⟩) ?_
  rw [isPrettier]
  exact Action.attempt_bind_of_ok asked ended

theorem format_unasked {available? : Option Bool}
    (isPrettier : formatting.formatter = .prettier own available?) {failure : Failure}
    (failed : isAvailable.attempt.Yields formatting (.error failure) after) :
    (format text settings).attempt.Yields formatting (.error failure) after := by
  refine Action.attempt_bind_of_ok (Action.yields_get.mpr ⟨rfl, rfl⟩) ?_
  rw [isPrettier]
  exact Action.attempt_bind_of_error failed

/-- Once the formatter is known, it is not asked again. -/
theorem isAvailable_known {available : Bool}
    (known : formatting.formatter = .prettier own (some available)) :
    isAvailable.Yields formatting available formatting := by
  refine Action.yields_bind.mpr ⟨_, _, Action.yields_get.mpr ⟨rfl, rfl⟩, ?_⟩
  rw [known]
  exact Action.yields_pure.mpr ⟨rfl, rfl⟩

theorem isAvailable_unknown (unknown : formatting.formatter = .prettier own none)
    {available : Except Failure Bool}
    (probed : (probe own).attempt.Yields formatting available after) :
    isAvailable.attempt.Yields formatting available after := by
  refine Action.attempt_bind_of_ok (Action.yields_get.mpr ⟨rfl, rfl⟩) ?_
  rw [unknown]
  exact probed

/-- A probe that comes to its end is remembered before anything else can fail. -/
theorem probe_settled {words : List Json} (listed : own.command.elements = .ok words)
    {available : Bool}
    (ended : probed (formatting.shell.start ⟨words ++ [.str "--version"], none⟩).1 =
      .ok available) :
    (probe own).attempt.Yields formatting
      (if available then .ok true else (fun _ => false) <$> commandText words)
      ⟨.prettier own (some available),
        (formatting.shell.start ⟨words ++ [.str "--version"], none⟩).2⟩ := by
  refine Action.attempt_bind_of_ok (Action.yields_lift.mpr ⟨listed, rfl⟩) ?_
  refine Action.attempt_bind_of_ok (yields_start _) ?_
  refine Action.attempt_bind_of_ok (Action.yields_lift.mpr ⟨ended, rfl⟩) ?_
  refine Action.attempt_bind_of_ok (a := ()) (Action.yields_modify.mpr rfl) ?_
  cases available with
  | true => exact Action.yields_attempt.mpr ⟨rfl, rfl⟩
  | false =>
    cases worded : commandText words with
    | error failure =>
      exact Action.attempt_bind_of_error (Action.yields_attempt.mpr ⟨rfl, rfl⟩)
    | ok command =>
      refine Action.attempt_bind_of_ok (Action.yields_lift.mpr ⟨rfl, rfl⟩) ?_
      refine Action.attempt_bind_of_ok (a := ()) (Action.yields_record.mpr rfl) ?_
      exact Action.yields_attempt.mpr ⟨rfl, rfl⟩

/-- A program that may not be run is asked again at the next text. -/
theorem probe_denied {words : List Json} (listed : own.command.elements = .ok words)
    (ended : (formatting.shell.start ⟨words ++ [.str "--version"], none⟩).1 = .denied) :
    (probe own).attempt.Yields formatting (.error (.file .denied))
      { formatting with
        shell := (formatting.shell.start ⟨words ++ [.str "--version"], none⟩).2 } := by
  refine Action.attempt_bind_of_ok (Action.yields_lift.mpr ⟨listed, rfl⟩) ?_
  refine Action.attempt_bind_of_ok (yields_start _) ?_
  refine Action.attempt_bind_of_error (Action.yields_attempt.mpr ⟨?_, rfl⟩)
  show probed _ = _
  rw [ended]
  rfl

theorem probed_error {outcome : Outcome} {failure : Failure}
    (unsettled : probed outcome = .error failure) : outcome = .denied := by
  cases outcome with
  | exited | missing | timedOut => cases unsettled
  | denied => rfl

/-- An exchange with a formatter of which nothing is known. -/
theorem exchange_unknown (unknown : formatting.formatter = .prettier own none) (text : String) :
    ∃ next, (exchange settings text formatting).2.formatter = .prettier own next ∧
      Step own settings none (exchange settings text formatting).1 next ∧
      formatting.shell.Ran (exchange settings text formatting).1.processes
        (exchange settings text formatting).2.shell := by
  cases listed : own.command.elements with
  | error failure =>
    have unprobed : (probe own).attempt.Yields formatting (.error failure) formatting :=
      Action.attempt_bind_of_error (Action.yields_attempt.mpr ⟨listed, rfl⟩)
    have still : formatting.shell.Ran [] formatting.shell := rfl
    rw [exchange_eq (format_unasked unknown (isAvailable_unknown unknown unprobed)) still]
    exact ⟨none, unknown, .unlisted text listed, rfl⟩
  | ok words =>
    let call : Call := ⟨words ++ [.str "--version"], none⟩
    let outcome := (formatting.shell.start call).1
    let shell := (formatting.shell.start call).2
    have ran : formatting.shell.Ran [(call, outcome)] shell := ⟨rfl, rfl⟩
    cases isOutcome : probed outcome with
    | error failure =>
      have isDenied : outcome = .denied := probed_error isOutcome
      have ran : formatting.shell.Ran [(call, .denied)] shell := ⟨isDenied, rfl⟩
      have denied := isAvailable_unknown unknown (probe_denied listed isDenied)
      rw [exchange_eq (format_unasked unknown denied) ran]
      exact ⟨none, unknown, .denied text listed, ran⟩
    | ok available =>
      have settled := isAvailable_unknown unknown (probe_settled listed isOutcome)
      cases available with
      | true =>
        have asked := Action.yields_attempt.mp settled
        obtain ⟨answer, processes, after, sent, sends, later, same⟩ := send_attempt settings text
          ⟨.prettier own (some true), shell⟩
        rw [exchange_eq (format_asked unknown asked sent) (ran.append later)]
        exact ⟨_, same, .found listed isOutcome sends, ran.append later⟩
      | false =>
        have ended : (format text settings).attempt.Yields formatting
            ((fun _ => text) <$> commandText words) ⟨.prettier own (some false), shell⟩ := by
          cases worded : commandText words with
          | error failure =>
            rw [worded] at settled
            exact format_unasked unknown settled
          | ok command =>
            rw [worded] at settled
            exact format_asked unknown (Action.yields_attempt.mp settled)
              (Action.yields_attempt.mpr ⟨rfl, rfl⟩)
        rw [exchange_eq ended ran]
        exact ⟨_, rfl, .absent text listed isOutcome, ran⟩

/-- Every exchange with the external formatter is a step of its protocol. -/
theorem exchange_step {available? : Option Bool}
    (isPrettier : formatting.formatter = .prettier own available?) (text : String) :
    ∃ next, (exchange settings text formatting).2.formatter = .prettier own next ∧
      Step own settings available? (exchange settings text formatting).1 next ∧
      formatting.shell.Ran (exchange settings text formatting).1.processes
        (exchange settings text formatting).2.shell := by
  rcases available? with _ | _ | _
  · exact exchange_unknown isPrettier text
  · have passes : (format text settings).attempt.Yields formatting (.ok text) formatting :=
      format_asked isPrettier (isAvailable_known isPrettier) (Action.yields_attempt.mpr ⟨rfl, rfl⟩)
    have still : formatting.shell.Ran [] formatting.shell := rfl
    rw [exchange_eq passes still]
    exact ⟨_, isPrettier, .passed text, rfl⟩
  · obtain ⟨answer, processes, after, sent, sends, ran, same⟩ :=
      send_attempt settings text formatting
    rw [exchange_eq (format_asked isPrettier (isAvailable_known isPrettier) sent) ran]
    exact ⟨_, same.trans isPrettier, .sent sends, ran⟩

/-- Exchanges one after the other, each from what is known after the one before. -/
inductive Steps (own settings : FormatSettings) :
    Option Bool → List Exchange → Option Bool → Prop where
  | nil (available? : Option Bool) : Steps own settings available? [] available?
  | cons {first next last : Option Bool} {here : Exchange} {later : List Exchange}
      (step : Step own settings first here next) (steps : Steps own settings next later last) :
      Steps own settings first (here :: later) last

/-- Handing texts over is to take the steps of the protocol. -/
theorem converse_steps {available? : Option Bool}
    (isPrettier : formatting.formatter = .prettier own available?) (texts : List String) :
    ∃ last, Steps own settings available? (converse settings texts formatting).1 last ∧
      formatting.shell.Ran ((converse settings texts formatting).1.flatMap Exchange.processes)
        (converse settings texts formatting).2.shell := by
  induction texts generalizing formatting available? with
  | nil => exact ⟨available?, .nil available?, rfl⟩
  | cons text rest ih =>
    obtain ⟨next, still, step, ran⟩ := exchange_step isPrettier text
    obtain ⟨last, steps, later⟩ := ih still
    exact ⟨last, .cons step steps, ran.append later⟩

section Steps

variable {first last : Option Bool} {exchange : Exchange} {earlier later : List Exchange}

theorem Steps.split (steps : Steps own settings first (earlier ++ exchange :: later) last) :
    ∃ here next, Steps own settings first earlier here ∧ Step own settings here exchange next ∧
      Steps own settings next later last := by
  induction earlier generalizing first with
  | nil =>
    cases steps with
    | cons step steps => exact ⟨_, _, .nil first, step, steps⟩
  | cons before earlier ih =>
    cases steps with
    | cons step steps =>
      obtain ⟨here, next, before, rest⟩ := ih steps
      exact ⟨here, next, .cons step before, rest⟩

theorem Step.before_none {first : Option Bool} (step : Step own settings first exchange none) :
    first = none ∧ exchange.formattings = [] := by
  cases step with
  | unlisted | denied => exact ⟨rfl, rfl⟩

/-- As long as nothing is known of the formatter, nothing is sent to it. -/
theorem Steps.before_none (steps : Steps own settings first earlier none) :
    first = none ∧ ∀ other ∈ earlier, other.formattings = [] := by
  induction earlier generalizing first with
  | nil =>
    cases steps
    exact ⟨rfl, List.forall_mem_nil _⟩
  | cons here earlier ih =>
    cases steps with
    | cons step steps =>
      obtain ⟨rfl, others⟩ := ih steps
      obtain ⟨isFirst, unsent⟩ := step.before_none
      exact ⟨isFirst, List.forall_mem_cons.mpr ⟨unsent, others⟩⟩

/-- A formatter that is known not to be there starts nothing and passes everything on. -/
theorem Steps.passed (steps : Steps own settings (some false) later last) :
    later.flatMap Exchange.processes = [] ∧
      ∀ other ∈ later, other.formattings = [] ∧ other.answer = .ok other.text := by
  induction later with
  | nil => exact ⟨rfl, List.forall_mem_nil _⟩
  | cons here later ih =>
    cases steps with
    | cons step steps =>
      cases step
      obtain ⟨quiet, others⟩ := ih steps
      exact ⟨quiet, List.forall_mem_cons.mpr ⟨⟨rfl, rfl⟩, others⟩⟩

/-- A formatter that is known to be there is sent everything. -/
theorem Steps.sent (steps : Steps own settings (some true) later last) :
    ∀ other ∈ later, Sends settings other.text other.answer other.processes := by
  induction later with
  | nil => exact List.forall_mem_nil _
  | cons here later ih =>
    cases steps with
    | cons step steps =>
      cases step with
      | sent sends => exact List.forall_mem_cons.mpr ⟨sends, ih steps⟩

end Steps

theorem Sends.not_probe {answer : Except Failure String} {processes : List (Call × Outcome)}
    (sends : Sends settings text answer processes) :
    ∀ process ∈ processes, ¬ process.1.isProbe := by
  cases sends with
  | uncommanded => exact List.forall_mem_nil _
  | commanded =>
    intro process inside isProbe
    obtain rfl := List.mem_singleton.mp inside
    cases isProbe

theorem Sends.started {answer : Except Failure String} {processes : List (Call × Outcome)}
    (sends : Sends settings text answer processes) {command : List Json}
    (isCommand : commandFor settings = .ok command) :
    processes.map Prod.fst = [⟨command, some text⟩] := by
  cases sends with
  | uncommanded failed => cases isCommand.symm.trans failed
  | commanded same =>
    cases isCommand.symm.trans same
    rfl

/-- A command that is a list of words can be quoted. -/
theorem commandText_worded (worded : own.Worded) {words : List Json}
    (listed : own.command.elements = .ok words) (text : String) :
    (fun _ => text) <$> commandText words = .ok text := by
  obtain ⟨texts, isTexts⟩ := worded
  cases isTexts.symm.trans listed
  rw [commandText_words]
  rfl

/-- A formatting process is started with the words of the command and the options. -/
theorem commandFor_ok {words : List Json} (listed : settings.command.elements = .ok words) :
    commandFor settings = .ok (words ++ settings.options) := by
  refine except_bind_eq_ok.mpr ⟨words, listed, ?_⟩
  rw [FormatSettings.options, ← List.append_assoc, ← List.append_assoc]
  rfl

theorem isSuccess_of_probed {outcome : Outcome} {available : Bool}
    (settled : probed outcome = .ok available) : outcome.isSuccess = available := by
  cases outcome with
  | exited code =>
    obtain rfl := Except.ok.inj settled
    by_cases zero : code = 0
    · subst zero
      rfl
    · rw [Outcome.isSuccess]
      · simp [zero]
      · intro _ _ same
        exact zero (Outcome.exited.inj same).1
  | missing | timedOut =>
    obtain rfl := Except.ok.inj settled
    rfl
  | denied => cases settled

/-- A probe that comes to an end settles what is known of the formatter: that there is none, and the
text is passed on; or that there is one, and the text is sent to it. -/
inductive Settled (own settings : FormatSettings) (probe : Call) (outcome : Outcome)
    (exchange : Exchange) : Bool → Prop where
  | absent {words : List Json} (listed : own.command.elements = .ok words)
      (isProbe : probe = ⟨words ++ [.str "--version"], none⟩)
      (alone : exchange.processes = [(probe, outcome)])
      (passed : exchange.answer = (fun _ => exchange.text) <$> commandText words) :
      Settled own settings probe outcome exchange false
  | found {words : List Json} (listed : own.command.elements = .ok words)
      (isProbe : probe = ⟨words ++ [.str "--version"], none⟩)
      {started : List (Call × Outcome)} (first : exchange.processes = (probe, outcome) :: started)
      (sends : Sends settings exchange.text exchange.answer started) :
      Settled own settings probe outcome exchange true

theorem Step.settled {first next : Option Bool} {exchange : Exchange} {probe : Call}
    {outcome : Outcome} (step : Step own settings first exchange next)
    (inside : (probe, outcome) ∈ exchange.processes) (isProbe : probe.isProbe)
    (completed : outcome ≠ .denied) :
    first = none ∧ next = some outcome.isSuccess ∧
      Settled own settings probe outcome exchange outcome.isSuccess := by
  cases step with
  | passed | unlisted => cases inside
  | sent sends => exact absurd isProbe (sends.not_probe _ inside)
  | denied text listed =>
    cases List.mem_singleton.mp inside
    exact absurd rfl completed
  | absent text listed ended =>
    cases List.mem_singleton.mp inside
    rw [isSuccess_of_probed ended]
    exact ⟨rfl, rfl, .absent listed rfl rfl rfl⟩
  | found listed ended sends =>
    rcases List.mem_cons.mp inside with same | inside
    · cases same
      rw [isSuccess_of_probed ended]
      exact ⟨rfl, rfl, .found listed rfl rfl sends⟩
    · exact absurd isProbe (sends.not_probe _ inside)

end Formatting

namespace Workspace

variable {workspace : Workspace}

/-- What a workspace is asked for. -/
inductive Request where
  | compile
  | write (writer? : Option Writer) (directory : Place)

/-- Serves a request. -/
def Request.serve : Request → Action Workspace Unit
  | .compile => do
    let _ ← withCompiler Compiler.compile
  | .write writer? directory => do
    let _ ← Workspace.write writer? directory

/-- The workspace after requests, whatever became of them. -/
def after (workspace : Workspace) : List Request → Workspace
  | [] => workspace
  | request :: rest => after (request.serve.run workspace).2 rest

/-- The texts that requests hand to the formatter: for each of them those of the draft that it is
compiled from. -/
def handed (workspace : Workspace) : List Request → List String
  | [] => []
  | request :: rest =>
    workspace.compiler.draft.texts ++ handed (request.serve.run workspace).2 rest

/-- What passes between requests and the formatter. -/
def exchanges (workspace : Workspace) : List Request → List Exchange
  | [] => []
  | request :: rest =>
    workspace.compiler.conversation.1 ++ exchanges (request.serve.run workspace).2 rest

/-- The formatter and the settings of a workspace are kept. -/
structure KeepsFormatter (before after : Workspace) : Prop where
  formatting : after.compiler.formatting = before.compiler.formatting
  settings : after.compiler.settings = before.compiler.settings

theorem KeepsFormatter.refl (workspace : Workspace) : workspace.KeepsFormatter workspace :=
  ⟨rfl, rfl⟩

theorem KeepsFormatter.trans {first second third : Workspace}
    (before : first.KeepsFormatter second) (after : second.KeepsFormatter third) :
    first.KeepsFormatter third :=
  ⟨after.formatting.trans before.formatting, after.settings.trans before.settings⟩

theorem writeEach_keepsFormatter (writer : Writer) (directory : Place) (outputs : Table String) :
    (writeEach writer directory outputs).Ends KeepsFormatter fun _ => True :=
  writeEach_ends_of .refl .trans (fun _ _ _ => ⟨fun _ => ⟨rfl, rfl⟩, fun _ _ _ _ => trivial⟩)
    fun _ _ => ⟨fun _ => ⟨rfl, rfl⟩, fun _ _ _ _ => trivial⟩

/-- However compiling ends in a workspace, the texts of the draft were handed to the formatter. -/
theorem compile_leaves (workspace : Workspace) : ∃ result between,
    (withCompiler Compiler.compile).attempt.Yields workspace result between ∧
      between.compiler.formatting = workspace.compiler.conversation.2 ∧
      between.compiler.settings = workspace.compiler.settings := by
  obtain ⟨order?, ended⟩ := workspace.compiler.compile_endsAs
  obtain ⟨isResult, isState⟩ := Action.yields_attempt.mp ended
  exact ⟨_, ⟨_, workspace.files⟩, Action.yields_attempt.mpr
    ⟨isResult, congrArg (Workspace.mk · workspace.files) isState⟩, rfl, rfl⟩

/-- However a request ends, the texts of the draft were handed to the formatter, and the settings
are as before. -/
theorem serve_formatter (request : Request) (workspace : Workspace) :
    (request.serve.run workspace).2.compiler.formatting = workspace.compiler.conversation.2 ∧
      (request.serve.run workspace).2.compiler.settings = workspace.compiler.settings := by
  obtain ⟨result, between, compiled, isFormatting, isSettings⟩ := compile_leaves workspace
  cases request with
  | compile =>
    have served := (Action.yields_attempt.mp (Action.attempt_map (fun _ => ()) compiled)).2
    rw [← isFormatting, ← isSettings, ← served]
    exact ⟨rfl, rfl⟩
  | write writer? directory =>
    obtain ⟨last, wrote, kept⟩ : ∃ last,
        (∃ result, (Workspace.write writer? directory).attempt.Yields workspace result last) ∧
        between.KeepsFormatter last := by
      cases result with
      | error failure => exact ⟨between, ⟨_, Action.attempt_bind_of_error compiled⟩, .refl between⟩
      | ok outputs =>
        refine ⟨_, ⟨_, Action.attempt_bind_of_ok (Action.yields_attempt.mp compiled)
          (Action.attempt_bind_of_ok (Action.yields_get.mpr ⟨rfl, rfl⟩)
            (Action.yields_attempt.mpr ⟨rfl, rfl⟩))⟩, ?_⟩
        exact (writeEach_keepsFormatter _ directory outputs).leaves between
    obtain ⟨_, wrote⟩ := wrote
    have served := (Action.yields_attempt.mp (Action.attempt_map (fun _ => ()) wrote)).2
    rw [← isFormatting, ← isSettings, ← kept.formatting, ← kept.settings, ← served]
    exact ⟨rfl, rfl⟩

/-- A session hands its texts to the formatter as if one after the other. -/
theorem converse_handed (workspace : Workspace) (requests : List Request) :
    Formatting.converse workspace.compiler.settings.format (workspace.handed requests)
      workspace.compiler.formatting =
      (workspace.exchanges requests, (workspace.after requests).compiler.formatting) := by
  induction requests generalizing workspace with
  | nil => rfl
  | cons request rest ih =>
    obtain ⟨isFormatting, isSettings⟩ := serve_formatter request workspace
    have later := ih (request.serve.run workspace).2
    rw [isFormatting, isSettings] at later
    rw [handed, Formatting.converse_append]
    simp only [exchanges, after]
    rw [← Compiler.conversation, later]

theorem exchanges_texts (workspace : Workspace) (requests : List Request) :
    (workspace.exchanges requests).map Exchange.text = workspace.handed requests := by
  have session := congrArg (fun ended => ended.1.map Exchange.text)
    (converse_handed workspace requests)
  simpa using session.symm

/-- A session takes the steps of the external formatter's protocol. -/
theorem session_steps {own : FormatSettings} {available? : Option Bool}
    (isPrettier : workspace.compiler.formatting.formatter = .prettier own available?)
    (requests : List Request) :
    ∃ last, Formatting.Steps own workspace.compiler.settings.format available?
        (workspace.exchanges requests) last ∧
      workspace.compiler.formatting.shell.Ran
        ((workspace.exchanges requests).flatMap Exchange.processes)
        (workspace.after requests).compiler.formatting.shell := by
  have taken : ∃ last, Formatting.Steps own workspace.compiler.settings.format available? _ last ∧
      _ := Formatting.converse_steps isPrettier (workspace.handed requests)
  rwa [converse_handed] at taken

/-- The external formatter over a whole session. What passes between requests and the formatter are
the texts of the drafts, and all processes of the session are started for one of them; what each
request compiles to follows from the answers. Once a probe has come to an end other than that the
program may not be run, no process is a probe any more. If it found no formatter, no process is
started any more, and the texts are answered by themselves; if it found one, each text from then on
starts exactly one process, which reads it. A probe has the words of the formatter's command and
asks for the version; a formatting process has the words of the settings' command and the
options. -/
theorem formatter_probed_once (workspace : Workspace) (requests : List Request)
    {own : FormatSettings} {available? : Option Bool}
    (isPrettier : workspace.compiler.formatting.formatter = .prettier own available?) :
    let settings := workspace.compiler.settings.format
    let trace := workspace.exchanges requests
    trace.map Exchange.text = workspace.handed requests ∧
    workspace.compiler.formatting.shell.Ran (trace.flatMap Exchange.processes)
      (workspace.after requests).compiler.formatting.shell ∧
    (∀ prior, prior <+: requests → (workspace.after prior).compiler.Concludes) ∧
    ∀ earlier exchange later probe outcome, trace = earlier ++ exchange :: later →
      (probe, outcome) ∈ exchange.processes → probe.isProbe → outcome ≠ .denied →
      (∃ words, own.command.elements = .ok words ∧ probe = ⟨words ++ [.str "--version"], none⟩) ∧
      (∃ started, exchange.processes = (probe, outcome) :: started ∧
        ∀ process ∈ started ++ later.flatMap Exchange.processes, ¬ process.1.isProbe) ∧
      (outcome.isSuccess = false →
        exchange.processes = [(probe, outcome)] ∧ later.flatMap Exchange.processes = [] ∧
        (∀ other ∈ trace, other.formattings = []) ∧
        (∀ other ∈ later, other.answer = .ok other.text) ∧
        (own.Worded → exchange.answer = .ok exchange.text)) ∧
      (outcome.isSuccess = true → settings.command = own.command ∨ settings.Worded →
        ∃ words, settings.command.elements = .ok words ∧
          Formatting.commandFor settings = .ok (words ++ settings.options) ∧
          exchange.processes.map Prod.fst = probe :: exchange.formattings ∧
          (∀ other ∈ later, other.processes.map Prod.fst = other.formattings) ∧
          ∀ other ∈ exchange :: later,
            other.formattings = [⟨words ++ settings.options, some other.text⟩]) := by
  intro settings trace
  obtain ⟨last, steps, ran⟩ := session_steps isPrettier requests
  refine ⟨exchanges_texts workspace requests, ran, fun _ _ => Compiler.concludes _, ?_⟩
  intro earlier exchange later probe outcome isTrace inside isProbe completed
  have isTrace : workspace.exchanges requests = earlier ++ exchange :: later := isTrace
  rw [isTrace] at steps
  obtain ⟨here, next, before, step, rest⟩ := steps.split
  obtain ⟨rfl, rfl, settled⟩ := step.settled inside isProbe completed
  generalize outcome.isSuccess = available at settled rest ⊢
  cases settled with
  | absent listed isCall alone passed =>
    obtain ⟨quiet, unsent⟩ := rest.passed
    have neverSent : ∀ other ∈ earlier ++ exchange :: later, other.formattings = [] :=
      List.forall_mem_append.mpr ⟨before.before_none.2, List.forall_mem_cons.mpr
        ⟨Exchange.formattings_probe isProbe alone, fun other inLater => (unsent other inLater).1⟩⟩
    rw [← isTrace] at neverSent
    rw [quiet]
    exact ⟨⟨_, listed, isCall⟩, ⟨[], alone, List.forall_mem_nil _⟩, fun _ => ⟨alone, rfl, neverSent,
      fun other inLater => (unsent other inLater).2,
      fun worded => passed.trans (Formatting.commandText_worded worded listed _)⟩,
      Bool.noConfusion⟩
  | found listed isCall first sends =>
    have sent := rest.sent
    refine ⟨⟨_, listed, isCall⟩,
      ⟨_, first, List.forall_mem_append.mpr ⟨sends.not_probe, ?_⟩⟩, Bool.noConfusion,
      fun _ commanded => ?_⟩
    · intro process started
      obtain ⟨other, inLater, inside⟩ := List.mem_flatMap.mp started
      exact (sent other inLater).not_probe process inside
    · obtain ⟨words, isWords⟩ : ∃ words, settings.command.elements = .ok words := by
        rcases commanded with same | ⟨texts, isTexts⟩
        · exact ⟨_, same ▸ listed⟩
        · exact ⟨_, isTexts⟩
      have isCommand := Formatting.commandFor_ok isWords
      have here := sends.started isCommand
      have formatted : exchange.formattings =
          [⟨words ++ settings.options, some exchange.text⟩] := by
        rw [Exchange.formattings_probe isProbe first, here]
        rfl
      have others : ∀ other ∈ later, other.formattings =
          [⟨words ++ settings.options, some other.text⟩] := by
        intro other inLater
        rw [Exchange.formattings, (sent other inLater).started isCommand]
        rfl
      refine ⟨words, isWords, isCommand, ?_, fun other inLater => ?_,
        List.forall_mem_cons.mpr ⟨formatted, others⟩⟩
      · rw [first, List.map_cons, here, formatted]
      · rw [(sent other inLater).started isCommand, others other inLater]

/-- A formatter whose program may not be run at first, and then formats once. -/
def admitting : List Outcome :=
  [.denied, .exited 0 "" "", .exited 0 "formatted" ""]

/-- The command of a formatting process if nothing else is set. -/
def usualCommand : List Json :=
  ["npx", "--no-install", "prettier", "--stdin-filepath", "generated.ts", "--print-width", "100",
    "--trailing-comma", "all", "--single-quote"].map .str

theorem formatter_probed_once_admitted :
    ∃ denied exchange later, (formattedBundle Compiler.entwinedDocument admitting).exchanges
        [.compile, .compile, .write none ["out"]] = [denied, exchange, later] ∧
      exchange.processes.map Prod.fst =
        [⟨["npx", "--no-install", "prettier", "--version"].map .str, none⟩,
          ⟨usualCommand, some exchange.text⟩] ∧
      later.processes.map Prod.fst = [⟨usualCommand, some later.text⟩] := by
  have evaluated : ((formattedBundle Compiler.entwinedDocument admitting).exchanges
      [.compile, .compile, .write none ["out"]]).map Exchange.protocol =
      [[(true, false)], [(true, true), (false, true)], [(false, false)]] := by decide +kernel
  have anywhere : ∀ document script requests denied exchange later probe outcome started,
      (formattedBundle document script).exchanges requests = [denied, exchange, later] →
      exchange.processes = (probe, outcome) :: started → probe.isProbe → outcome.isSuccess →
      exchange.processes.map Prod.fst =
        [⟨["npx", "--no-install", "prettier", "--version"].map .str, none⟩,
          ⟨usualCommand, some exchange.text⟩] ∧
      later.processes.map Prod.fst = [⟨usualCommand, some later.text⟩] := by
    intro document script requests denied exchange later probe outcome started isTrace first isProbe
      succeeded
    have completed : outcome ≠ .denied := by
      rintro rfl
      cases succeeded
    obtain ⟨_, _, _, protocol⟩ :=
      formatter_probed_once (formattedBundle document script) requests rfl
    obtain ⟨⟨_, listed, rfl⟩, _, _, sent⟩ := protocol [denied] exchange [later] probe outcome
      isTrace (first ▸ List.mem_cons_self) isProbe completed
    obtain ⟨_, worded, _, here, there, all⟩ := sent succeeded (.inl rfl)
    cases listed
    cases worded
    rw [here, there later (List.mem_singleton_self _), all exchange List.mem_cons_self,
      all later (List.mem_cons_of_mem _ (List.mem_singleton_self _))]
    exact ⟨rfl, rfl⟩
  obtain ⟨denied, rest, isTrace, _, evaluated⟩ := List.map_eq_cons_iff.mp evaluated
  obtain ⟨exchange, rest, rfl, ended, evaluated⟩ := List.map_eq_cons_iff.mp evaluated
  obtain ⟨later, rest, rfl, _, evaluated⟩ := List.map_eq_cons_iff.mp evaluated
  obtain rfl := List.map_eq_nil_iff.mp evaluated
  obtain ⟨⟨probe, outcome⟩, started, first, isFirst, _⟩ := List.map_eq_cons_iff.mp ended
  obtain ⟨isProbe, succeeded⟩ := Prod.mk.inj isFirst
  exact ⟨denied, exchange, later, isTrace,
    anywhere _ _ _ _ _ _ _ _ _ isTrace first isProbe succeeded⟩

end Workspace

end SchemaPress
