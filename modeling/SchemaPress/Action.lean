import SchemaPress.Log

/-!
Actions: computations that log and may fail, on a state. What a failed action did to the state and
what it logged is kept.
-/

namespace SchemaPress

/-- A computation on a state that logs and may fail. -/
def Action (σ α : Type) : Type :=
  σ → Logged α × σ

namespace Action

variable {σ τ α β : Type}

/-- Runs an action from a state. -/
def run (action : Action σ α) (state : σ) : Logged α × σ :=
  action state

/-- A computation that has nothing to do with the state. -/
def ofLogged (x : Logged α) : Action σ α :=
  fun state => (x, state)

/-- Continues with the value of an action unless it failed. -/
def bind (x : Action σ α) (f : α → Action σ β) : Action σ β := fun state =>
  match x state with
  | (⟨log, .error failure⟩, state) => (⟨log, .error failure⟩, state)
  | (⟨log, .ok a⟩, state) =>
    let (y, state) := f a state
    (⟨log ++ y.log, y.result⟩, state)

instance : Monad (Action σ) where
  pure a := ofLogged (pure a)
  bind := bind

/-- Continues after a failure. -/
def recover (x : Action σ α) (handle : Failure → Action σ α) : Action σ α := fun state =>
  match x state with
  | (⟨log, .error failure⟩, state) =>
    let (y, state) := handle failure state
    (⟨log ++ y.log, y.result⟩, state)
  | (⟨log, .ok a⟩, state) => (⟨log, .ok a⟩, state)

instance : MonadExceptOf Failure (Action σ) where
  throw failure := ofLogged (throw failure)
  tryCatch := recover

instance : MonadLift Logged (Action σ) where
  monadLift := ofLogged

instance : MonadLift (Except Failure) (Action σ) where
  monadLift x := ofLogged (.ofExcept x)

instance : MonadStateOf σ (Action σ) where
  get := fun state => (pure state, state)
  set state := fun _ => (pure (), state)
  modifyGet f := fun state =>
    let (a, state) := f state
    (pure a, state)

/-- Logs one record. -/
def record (level : Level) (text : String) : Action σ Unit :=
  ofLogged (Logged.record level text)

/-- An action on a part of the state. -/
def within (view : σ → τ) (update : τ → σ → σ) (action : Action τ α) : Action σ α := fun state =>
  let (x, part) := action (view state)
  (x, update part state)

/-- The result of an action, which then does not fail. -/
def attempt (action : Action σ α) : Action σ (Except Failure α) := fun state =>
  let (x, state) := action state
  (⟨x.log, .ok x.result⟩, state)

end Action

end SchemaPress
