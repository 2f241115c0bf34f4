import Mathlib.Data.List.Forall2
import SchemaPress.Action

/-! When computations succeed, and how they fail. A sequence of computations succeeds if and only if
each of them does, with the values that the later ones are given, and fails as the first of them
that fails; what they log has no part in it. -/

namespace SchemaPress

variable {σ τ α β : Type}

theorem except_bind_eq_ok {x : Except Failure α} {f : α → Except Failure β} {b : β} :
    x >>= f = .ok b ↔ ∃ a, x = .ok a ∧ f a = .ok b := by
  cases x with
  | error failure =>
    constructor
    · intro done
      cases done
    · rintro ⟨_, done, _⟩
      cases done
  | ok a =>
    constructor
    · exact fun done => ⟨a, rfl, done⟩
    · rintro ⟨_, done, rest⟩
      cases done
      exact rest

theorem except_bind_eq_error {x : Except Failure α} {f : α → Except Failure β}
    {failure : Failure} :
    x >>= f = .error failure ↔ x = .error failure ∨ ∃ a, x = .ok a ∧ f a = .error failure := by
  cases x <;> simp [bind, Except.bind]

theorem except_map_eq_ok {x : Except Failure α} {f : α → β} {b : β} :
    f <$> x = .ok b ↔ ∃ a, x = .ok a ∧ f a = b := by
  cases x <;> simp [Functor.map, Except.map]

theorem except_pure_eq_ok {a b : α} : (pure a : Except Failure α) = .ok b ↔ a = b :=
  ⟨Except.ok.inj, congrArg _⟩

theorem exists_of_isOk {x : Except Failure α} (ok : x.isOk = true) : ∃ a, x = .ok a := by
  cases x with
  | error failure => cases ok
  | ok a => exact ⟨a, rfl⟩

theorem eq_ok_of_toOption {x : Except Failure α} {a : α} (found : x.toOption = some a) :
    x = .ok a := by
  cases x with
  | error failure => cases found
  | ok b => exact congrArg Except.ok (Option.some.inj found)

/-- A list is worked off successfully if and only if each of its members is. -/
theorem mapM_eq_ok {f : α → Except Failure β} {xs : List α} {ys : List β} :
    xs.mapM f = .ok ys ↔ List.Forall₂ (fun x y => f x = .ok y) xs ys := by
  constructor
  · intro mapped
    induction xs generalizing ys with
    | nil =>
      cases mapped
      exact .nil
    | cons x xs ih =>
      rw [List.mapM_cons] at mapped
      obtain ⟨first, here, mapped⟩ := except_bind_eq_ok.mp mapped
      obtain ⟨others, later, mapped⟩ := except_bind_eq_ok.mp mapped
      cases mapped
      exact .cons here (ih later)
  · intro each
    induction each with
    | nil => rfl
    | cons here _ ih =>
      rw [List.mapM_cons, here, ih]
      rfl

theorem mapM_congr {f g : α → Except Failure β} {xs : List α} (same : ∀ x ∈ xs, f x = g x) :
    xs.mapM f = xs.mapM g := by
  induction xs with
  | nil => rfl
  | cons x xs ih =>
    obtain ⟨here, later⟩ := List.forall_mem_cons.mp same
    rw [List.mapM_cons, List.mapM_cons, here, ih later]

/-- A state that is carried through a list comes to its end if no member of the list can fail. -/
theorem foldlM_ok {f : β → α → Except Failure β} {xs : List α}
    (each : ∀ x ∈ xs, ∀ state, ∃ next, f state x = .ok next) (start : β) :
    ∃ last, xs.foldlM f start = .ok last := by
  induction xs generalizing start with
  | nil => exact ⟨start, rfl⟩
  | cons x xs ih =>
    obtain ⟨next, here⟩ := each x List.mem_cons_self start
    obtain ⟨last, later⟩ := ih (fun y inside => each y (List.mem_cons_of_mem x inside)) next
    refine ⟨last, ?_⟩
    rw [List.foldlM_cons, here]
    exact later

theorem exists_of_mem_right {paired : α → β → Prop} {xs : List α} {ys : List β}
    (all : List.Forall₂ paired xs ys) : ∀ y ∈ ys, ∃ x ∈ xs, paired x y := by
  induction all with
  | nil => exact fun _ member => nomatch member
  | cons here _ ih =>
    intro y member
    rcases List.mem_cons.mp member with rfl | member
    · exact ⟨_, List.mem_cons_self, here⟩
    · obtain ⟨x, inside, related⟩ := ih y member
      exact ⟨x, List.mem_cons_of_mem _ inside, related⟩

/-- Something is to be found in one of two lists exactly if it is in the other, if that is so for
each pair. -/
theorem exists_mem_iff {paired : α → β → Prop} {xs : List α} {ys : List β} {p : α → Prop}
    {q : β → Prop} (all : List.Forall₂ paired xs ys) (each : ∀ x y, paired x y → (q y ↔ p x)) :
    (∃ y ∈ ys, q y) ↔ ∃ x ∈ xs, p x := by
  constructor
  · rintro ⟨y, inside, found⟩
    obtain ⟨x, isPartner, related⟩ := exists_of_mem_right all y inside
    exact ⟨x, isPartner, (each x y related).mp found⟩
  · rintro ⟨x, inside, found⟩
    obtain ⟨y, isPartner, related⟩ := exists_of_mem_right all.flip x inside
    exact ⟨y, isPartner, (each x y related).mpr found⟩

namespace Logged

theorem result_bind (x : Logged α) (f : α → Logged β) :
    (x >>= f).result = x.result >>= fun a => (f a).result := by
  obtain ⟨log, result⟩ := x
  cases result <;> rfl

theorem bind_eq_ok {x : Logged α} {f : α → Logged β} {b : β} :
    (x >>= f).result = .ok b ↔ ∃ a, x.result = .ok a ∧ (f a).result = .ok b := by
  rw [result_bind]
  exact except_bind_eq_ok

/-- What follows a computation has to agree only on the value there is. -/
theorem bind_congr_ok {x : Logged α} {f g : α → Logged β}
    (same : ∀ a, x.result = .ok a → f a = g a) : x >>= f = x >>= g := by
  obtain ⟨log, result⟩ := x
  cases result with
  | error failure => rfl
  | ok a =>
    show Logged.bind _ f = Logged.bind _ g
    simp only [Logged.bind, same a rfl]

/-- If two computations agree up to a map, and what follows them does, so do both together. -/
theorem result_bind_map {x y : Logged α} {f g : α → Logged β} {φ : α → α} {ψ : β → β}
    (first : x.result = φ <$> y.result) (rest : ∀ a, (f (φ a)).result = ψ <$> (g a).result) :
    (x >>= f).result = ψ <$> (y >>= g).result := by
  rw [result_bind, result_bind, first]
  simp only [bind_map_left, map_bind, rest]

theorem result_bind_same {x : Logged α} {f g : α → Logged β} {ψ : β → β}
    (rest : ∀ a, (f a).result = ψ <$> (g a).result) :
    (x >>= f).result = ψ <$> (x >>= g).result :=
  result_bind_map (id_map _).symm rest

theorem pure_eq_ok {a b : α} : (pure a : Logged α).result = .ok b ↔ a = b :=
  except_pure_eq_ok

@[simp]
theorem result_lift (x : Except Failure α) : (liftM x : Logged α).result = x :=
  rfl

theorem throw_ne_ok {failure : Failure} {a : α} :
    (throw failure : Logged α).result ≠ .ok a :=
  fun h => nomatch h

end Logged

namespace Action

/-- From a state, an action yields a value and leaves a state. -/
def Yields (action : Action σ α) (before : σ) (a : α) (after : σ) : Prop :=
  (action.run before).1.result = .ok a ∧ (action.run before).2 = after

variable {before after : σ}

theorem yields_bind {x : Action σ α} {f : α → Action σ β} {b : β} :
    (x >>= f).Yields before b after ↔
      ∃ a between, x.Yields before a between ∧ (f a).Yields between b after := by
  show (Action.bind x f).Yields before b after ↔ _
  simp only [Yields, run, Action.bind]
  obtain ⟨⟨log, result⟩, state⟩ := x before
  cases result with
  | error failure =>
    constructor
    · rintro ⟨done, _⟩
      cases done
    · rintro ⟨_, _, ⟨done, _⟩, _⟩
      cases done
  | ok a =>
    constructor
    · exact fun done => ⟨a, state, ⟨rfl, rfl⟩, done⟩
    · rintro ⟨other, between, ⟨same, rfl⟩, rest⟩
      cases same
      exact rest

/-- What follows an action that yields a value decides how the sequence ends. -/
theorem run_bind_of_yields {x : Action σ α} {f : α → Action σ β} {a : α} {between : σ}
    (done : x.Yields before a between) :
    ((x >>= f).run before).1.result = ((f a).run between).1.result ∧
      ((x >>= f).run before).2 = ((f a).run between).2 := by
  obtain ⟨isResult, rfl⟩ := done
  show ((Action.bind x f).run before).1.result = _ ∧ ((Action.bind x f).run before).2 = _
  simp only [run, Action.bind] at isResult ⊢
  generalize x before = outcome at isResult ⊢
  obtain ⟨⟨log, result⟩, state⟩ := outcome
  cases isResult
  exact ⟨rfl, rfl⟩

theorem yields_pure {a b : α} :
    (pure a : Action σ α).Yields before b after ↔ a = b ∧ before = after := by
  constructor
  · rintro ⟨same, rfl⟩
    exact ⟨Except.ok.inj same, rfl⟩
  · rintro ⟨rfl, rfl⟩
    exact ⟨rfl, rfl⟩

theorem yields_get {state : σ} :
    (get : Action σ σ).Yields before state after ↔ before = state ∧ before = after := by
  constructor
  · rintro ⟨same, rfl⟩
    exact ⟨Except.ok.inj same, rfl⟩
  · rintro ⟨rfl, rfl⟩
    exact ⟨rfl, rfl⟩

theorem yields_set {state : σ} {u : Unit} :
    (set state : Action σ Unit).Yields before u after ↔ state = after := by
  constructor
  · rintro ⟨_, rfl⟩
    rfl
  · rintro rfl
    exact ⟨rfl, rfl⟩

theorem yields_modify {f : σ → σ} {u : Unit} :
    (modify f : Action σ Unit).Yields before u after ↔ f before = after := by
  constructor
  · rintro ⟨_, rfl⟩
    rfl
  · rintro rfl
    exact ⟨rfl, rfl⟩

theorem yields_lift {x : Except Failure α} {a : α} :
    (liftM x : Action σ α).Yields before a after ↔ x = .ok a ∧ before = after :=
  Iff.rfl

theorem yields_record {level : Level} {text : String} {u : Unit} :
    (record level text : Action σ Unit).Yields before u after ↔ before = after := by
  constructor
  · rintro ⟨_, rfl⟩
    rfl
  · rintro rfl
    exact ⟨rfl, rfl⟩

theorem not_yields_throw {failure : Failure} {a : α} :
    ¬ (throw failure : Action σ α).Yields before a after :=
  fun h => nomatch h.1

theorem not_yields_throw_bind {failure : Failure} {f : α → Action σ β} {b : β} :
    ¬ (throw failure >>= f).Yields before b after := by
  intro done
  obtain ⟨_, _, thrown, _⟩ := yields_bind.mp done
  exact not_yields_throw thrown

/-- An action that is attempted succeeds with its own result. -/
theorem yields_attempt {x : Action σ α} {result : Except Failure α} :
    x.attempt.Yields before result after ↔
      (x.run before).1.result = result ∧ (x.run before).2 = after := by
  constructor
  · rintro ⟨same, left⟩
    exact ⟨Except.ok.inj same, left⟩
  · rintro ⟨same, left⟩
    exact ⟨congrArg Except.ok same, left⟩

/-- If an action fails, nothing that would have followed it happens. -/
theorem attempt_bind_of_error {x : Action σ α} {f : α → Action σ β} {failure : Failure}
    (failed : x.attempt.Yields before (.error failure) after) :
    (x >>= f).attempt.Yields before (.error failure) after := by
  rw [yields_attempt] at failed ⊢
  change (Action.bind x f before).1.result = _ ∧ (Action.bind x f before).2 = _
  simp only [run, Action.bind] at failed ⊢
  generalize x before = outcome at failed ⊢
  obtain ⟨⟨log, result⟩, state⟩ := outcome
  cases result with
  | error other =>
    obtain ⟨same, left⟩ := failed
    cases same
    exact ⟨rfl, left⟩
  | ok a =>
    obtain ⟨same, _⟩ := failed
    cases same

/-- If an action yields a value, what follows decides how the sequence ends. -/
theorem attempt_bind_of_ok {x : Action σ α} {f : α → Action σ β} {a : α} {between : σ}
    {result : Except Failure β} (done : x.Yields before a between)
    (rest : (f a).attempt.Yields between result after) :
    (x >>= f).attempt.Yields before result after := by
  obtain ⟨sameResult, sameState⟩ := run_bind_of_yields (f := f) done
  rw [yields_attempt] at rest ⊢
  exact ⟨sameResult.trans rest.1, sameState.trans rest.2⟩

theorem attempt_lift (x : Except Failure α) (state : σ) :
    (liftM x : Action σ α).attempt.Yields state x state :=
  yields_attempt.mpr ⟨rfl, rfl⟩

/-- An action whose value is only passed on in another form ends in the same way. -/
theorem attempt_map {x : Action σ α} {result : Except Failure α} (f : α → β)
    (ended : x.attempt.Yields before result after) :
    (x >>= fun a => pure (f a)).attempt.Yields before (f <$> result) after := by
  cases result with
  | error failure => exact attempt_bind_of_error ended
  | ok a => exact attempt_bind_of_ok (yields_attempt.mp ended) (yields_attempt.mpr ⟨rfl, rfl⟩)

/-- An action whose failures are only replaced by failures yields what it yields without that. -/
theorem yields_recover {x : Action σ α} {replace : Failure → Action σ α} {a : α}
    (fails : ∀ failure state, ¬ (replace failure).Yields state a after) :
    (tryCatch x replace).Yields before a after ↔ x.Yields before a after := by
  change (recover x replace).Yields before a after ↔ _
  simp only [Yields, run, recover]
  generalize x before = outcome
  obtain ⟨⟨log, result⟩, state⟩ := outcome
  cases result with
  | error failure =>
    constructor
    · exact fun done => absurd done (fails failure state)
    · rintro ⟨done, _⟩
      cases done
  | ok a => exact Iff.rfl

theorem yields_within {view : σ → τ} {update : τ → σ → σ} {x : Action τ α} {a : α} :
    (x.within view update).Yields before a after ↔
      ∃ part, x.Yields (view before) a part ∧ update part before = after := by
  constructor
  · rintro ⟨same, left⟩
    exact ⟨_, ⟨same, rfl⟩, left⟩
  · rintro ⟨part, ⟨same, rfl⟩, left⟩
    exact ⟨same, left⟩

/-- From a state, an action fails and leaves a state. -/
def Fails (action : Action σ α) (before : σ) (failure : Failure) (after : σ) : Prop :=
  (action.run before).1.result = .error failure ∧ (action.run before).2 = after

variable {failure : Failure}

theorem yields_or_fails (x : Action σ α) (before : σ) :
    (∃ a after, x.Yields before a after) ∨ ∃ failure after, x.Fails before failure after := by
  cases ended : (x.run before).1.result with
  | ok a => exact .inl ⟨a, _, ended, rfl⟩
  | error failure => exact .inr ⟨failure, _, ended, rfl⟩

/-- A sequence fails where its first action does, or else where what follows does. -/
theorem fails_bind {x : Action σ α} {f : α → Action σ β} :
    (x >>= f).Fails before failure after ↔ x.Fails before failure after ∨
      ∃ a between, x.Yields before a between ∧ (f a).Fails between failure after := by
  show (Action.bind x f).Fails before failure after ↔ _
  simp only [Fails, Yields, run, Action.bind]
  obtain ⟨⟨log, result⟩, state⟩ := x before
  cases result with
  | error other => simp
  | ok a => simp

theorem not_fails_pure {a : α} : ¬ (pure a : Action σ α).Fails before failure after :=
  fun failed => nomatch failed.1

theorem not_fails_get : ¬ (get : Action σ σ).Fails before failure after :=
  fun failed => nomatch failed.1

theorem not_fails_set {state : σ} : ¬ (set state : Action σ Unit).Fails before failure after :=
  fun failed => nomatch failed.1

theorem not_fails_modify {f : σ → σ} : ¬ (modify f : Action σ Unit).Fails before failure after :=
  fun failed => nomatch failed.1

theorem not_fails_record {level : Level} {text : String} :
    ¬ (record level text : Action σ Unit).Fails before failure after :=
  fun failed => nomatch failed.1

theorem not_fails_attempt {x : Action σ α} : ¬ x.attempt.Fails before failure after :=
  fun failed => nomatch failed.1

theorem fails_throw {thrown : Failure} :
    (throw thrown : Action σ α).Fails before failure after ↔ thrown = failure ∧ before = after := by
  constructor
  · rintro ⟨same, rfl⟩
    exact ⟨Except.error.inj same, rfl⟩
  · rintro ⟨rfl, rfl⟩
    exact ⟨rfl, rfl⟩

theorem fails_throw_bind {thrown : Failure} {f : α → Action σ β} :
    (throw thrown >>= f).Fails before failure after ↔ thrown = failure ∧ before = after := by
  rw [fails_bind, fails_throw]
  refine or_iff_left ?_
  rintro ⟨_, _, done, _⟩
  exact not_yields_throw done

theorem fails_lift {x : Except Failure α} :
    (liftM x : Action σ α).Fails before failure after ↔ x = .error failure ∧ before = after :=
  Iff.rfl

theorem fails_of_attempt {x : Action σ α} :
    x.attempt.Yields before (.error failure) after ↔ x.Fails before failure after :=
  yields_attempt

/-- An action whose failures are dealt with fails where dealing with one does. -/
theorem fails_recover {x : Action σ α} {handle : Failure → Action σ α} :
    (tryCatch x handle).Fails before failure after ↔
      ∃ original between, x.Fails before original between ∧
        (handle original).Fails between failure after := by
  change (recover x handle).Fails before failure after ↔ _
  simp only [Fails, run, recover]
  obtain ⟨⟨log, result⟩, state⟩ := x before
  cases result with
  | error original => simp
  | ok a => simp

/-- An action whose failure is dealt with yields what dealing with it yields. -/
theorem yields_recover_of_fails {x : Action σ α} {handle : Failure → Action σ α} {a : α} {between : σ}
    (failed : x.Fails before failure between) (handled : (handle failure).Yields between a after) :
    (tryCatch x handle).Yields before a after := by
  change (recover x handle).Yields before a after
  simp only [Fails, Yields, run, recover] at failed handled ⊢
  generalize x before = outcome at failed ⊢
  obtain ⟨⟨log, result⟩, state⟩ := outcome
  obtain ⟨isResult, rfl⟩ := failed
  cases isResult
  exact handled

theorem fails_within {view : σ → τ} {update : τ → σ → σ} {x : Action τ α} :
    (x.within view update).Fails before failure after ↔
      ∃ part, x.Fails (view before) failure part ∧ update part before = after := by
  constructor
  · rintro ⟨same, left⟩
    exact ⟨_, ⟨same, rfl⟩, left⟩
  · rintro ⟨part, ⟨same, rfl⟩, left⟩
    exact ⟨same, left⟩

/-- However an action ends, it leaves a state that is related to the one before, and if it fails,
then in an expected way. -/
structure Ends (action : Action σ α) (related : σ → σ → Prop) (expected : Failure → Prop) :
    Prop where
  leaves : ∀ before, related before (action.run before).2
  fails : ∀ before failure after, action.Fails before failure after → expected failure

section Ends

variable {related : σ → σ → Prop} {expected : Failure → Prop}

theorem ends_of_cases {x : Action σ α}
    (yields : ∀ before a after, x.Yields before a after → related before after)
    (fails : ∀ before failure after, x.Fails before failure after →
      related before after ∧ expected failure) : x.Ends related expected where
  leaves before := by
    rcases yields_or_fails x before with ⟨a, after, done⟩ | ⟨failure, after, failed⟩
    · exact done.2 ▸ yields before a after done
    · exact failed.2 ▸ (fails before failure after failed).1
  fails before failure after failed := (fails before failure after failed).2

theorem Ends.bind (trans : ∀ {a b c}, related a b → related b c → related a c) {x : Action σ α}
    {f : α → Action σ β} (first : x.Ends related expected)
    (rest : ∀ a, (f a).Ends related expected) : (x >>= f).Ends related expected := by
  refine ends_of_cases (fun before b after done => ?_) fun before failure after failed => ?_
  · obtain ⟨a, between, ⟨_, rfl⟩, _, rfl⟩ := yields_bind.mp done
    exact trans (first.leaves before) ((rest a).leaves _)
  · rcases fails_bind.mp failed with failed | ⟨a, between, ⟨_, rfl⟩, failed⟩
    · exact ⟨failed.2 ▸ first.leaves before, first.fails before failure after failed⟩
    · exact ⟨failed.2 ▸ trans (first.leaves before) ((rest a).leaves _),
        (rest a).fails _ failure after failed⟩

theorem ends_lift (refl : ∀ a, related a a) {x : Except Failure α}
    (fails : ∀ failure, x = .error failure → expected failure) :
    (liftM x : Action σ α).Ends related expected where
  leaves before := refl before
  fails _ failure _ failed := fails failure failed.1

theorem ends_pure (refl : ∀ a, related a a) (a : α) :
    (pure a : Action σ α).Ends related expected :=
  ends_of_cases (fun _ _ _ done => (yields_pure.mp done).2 ▸ refl _)
    fun _ _ _ failed => absurd failed not_fails_pure

theorem ends_get (refl : ∀ a, related a a) : (get : Action σ σ).Ends related expected :=
  ends_of_cases (fun _ _ _ done => (yields_get.mp done).2 ▸ refl _)
    fun _ _ _ failed => absurd failed not_fails_get

theorem ends_set {state : σ} (leaves : ∀ before, related before state) :
    (set state : Action σ Unit).Ends related expected :=
  ends_of_cases (fun before _ _ done => yields_set.mp done ▸ leaves before)
    fun _ _ _ failed => absurd failed not_fails_set

theorem ends_modify {f : σ → σ} (leaves : ∀ before, related before (f before)) :
    (modify f : Action σ Unit).Ends related expected :=
  ends_of_cases (fun before _ _ done => yields_modify.mp done ▸ leaves before)
    fun _ _ _ failed => absurd failed not_fails_modify

theorem ends_record (refl : ∀ a, related a a) (level : Level) (text : String) :
    (record level text : Action σ Unit).Ends related expected :=
  ends_of_cases (fun _ _ _ done => yields_record.mp done ▸ refl _)
    fun _ _ _ failed => absurd failed not_fails_record

theorem ends_throw (refl : ∀ a, related a a) (isExpected : expected failure) :
    (throw failure : Action σ α).Ends related expected := by
  refine ends_of_cases (fun _ _ _ done => absurd done not_yields_throw) fun _ _ _ failed => ?_
  obtain ⟨rfl, rfl⟩ := fails_throw.mp failed
  exact ⟨refl _, isExpected⟩

/-- An action that is attempted leaves it to what follows to deal with its failure. -/
theorem Ends.attempt_bind (trans : ∀ {a b c}, related a b → related b c → related a c)
    {x : Action σ α} {f : Except Failure α → Action σ β} (tried : x.Ends related expected)
    (well : ∀ a, (f (.ok a)).Ends related expected)
    (ill : ∀ failure, expected failure → (f (.error failure)).Ends related expected) :
    (x.attempt >>= f).Ends related expected := by
  have rest : ∀ before result after, x.attempt.Yields before result after →
      related before after ∧ (f result).Ends related expected := by
    intro before result after attempted
    have left := (yields_attempt.mp attempted).2 ▸ tried.leaves before
    cases result with
    | ok a => exact ⟨left, well a⟩
    | error failure =>
      exact ⟨left, ill failure (tried.fails _ _ _ (fails_of_attempt.mp attempted))⟩
  refine ends_of_cases (fun before b after done => ?_) fun before failure after failed => ?_
  · obtain ⟨result, between, attempted, later⟩ := yields_bind.mp done
    obtain ⟨left, ends⟩ := rest before result between attempted
    exact trans left (later.2 ▸ ends.leaves between)
  · rcases fails_bind.mp failed with never | ⟨result, between, attempted, later⟩
    · exact absurd never not_fails_attempt
    · obtain ⟨left, ends⟩ := rest before result between attempted
      exact ⟨trans left (later.2 ▸ ends.leaves between), ends.fails _ _ _ later⟩

theorem Ends.recover (trans : ∀ {a b c}, related a b → related b c → related a c)
    {x : Action σ α} {handle : Failure → Action σ α} (tried : x.Ends related expected)
    (ill : ∀ failure, expected failure → (handle failure).Ends related expected) :
    (tryCatch x handle).Ends related expected where
  leaves before := by
    show related before (Action.recover x handle before).2
    have left : related before (x before).2 := tried.leaves before
    have fails : ∀ failure, (x before).1.result = .error failure → expected failure :=
      fun failure failed => tried.fails before failure _ ⟨failed, rfl⟩
    simp only [Action.recover]
    generalize x before = outcome at left fails ⊢
    obtain ⟨⟨log, result⟩, state⟩ := outcome
    cases result with
    | ok a => exact left
    | error failure => exact trans left ((ill failure (fails failure rfl)).leaves state)
  fails before failure after failed := by
    obtain ⟨original, between, inner, handled⟩ := fails_recover.mp failed
    exact (ill original (tried.fails _ _ _ inner)).fails _ _ _ handled

end Ends

end Action

end SchemaPress
