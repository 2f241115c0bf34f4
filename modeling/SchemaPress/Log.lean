import SchemaPress.Failure

/-!
Log records, and computations that log. A `Logged` computation yields its records beside its
result, so the records of a computation that fails are kept.
-/

namespace SchemaPress

/-- How important a record is. -/
inductive Level where
  | debug
  | info
  | warning
  | error
  deriving DecidableEq, Repr

namespace Level

/-- The name of a level. -/
def name : Level → String
  | .debug => "DEBUG"
  | .info => "INFO"
  | .warning => "WARNING"
  | .error => "ERROR"

/-- The rank of a level; a more important level has a higher one. -/
def rank : Level → Nat
  | .debug => 10
  | .info => 20
  | .warning => 30
  | .error => 40

/-- The least level that the command line shows: only problems when silent, everything when
verbose. Silence wins. -/
def threshold (silent verbose : Bool) : Level :=
  if silent then .warning else if verbose then .debug else .info

end Level

/-- One message of the log. -/
structure Record where
  level : Level
  text : String
  deriving DecidableEq, Repr

namespace Record

/-- The line that the command line prints for a record: progress as it is, the rest with its
level. -/
def line (record : Record) : String :=
  if record.level = .info then record.text ++ "\n"
  else record.level.name ++ ": " ++ record.text ++ "\n"

/-- The lines of the records that pass the threshold and satisfy a condition on the level. -/
def lines (threshold : Level) (wanted : Level → Bool) (records : List Record) : String :=
  String.join ((records.filter fun record =>
    threshold.rank ≤ record.level.rank && wanted record.level).map line)

/-- What the command line prints to standard output: the records below a warning. -/
def progress (threshold : Level) (records : List Record) : String :=
  lines threshold (fun level => level.rank < Level.warning.rank) records

/-- What the command line prints to standard error: warnings and errors. -/
def problems (threshold : Level) (records : List Record) : String :=
  lines threshold (fun level => Level.warning.rank ≤ level.rank) records

end Record

/-- A result with the records logged on the way to it. -/
structure Logged (α : Type) where
  log : List Record
  result : Except Failure α

namespace Logged

variable {α β : Type}

/-- A result without records. -/
def ofExcept (result : Except Failure α) : Logged α := ⟨[], result⟩

/-- Continues with the value of a computation unless it failed. -/
def bind (x : Logged α) (f : α → Logged β) : Logged β :=
  match x.result with
  | .error failure => ⟨x.log, .error failure⟩
  | .ok a =>
    let y := f a
    ⟨x.log ++ y.log, y.result⟩

instance : Monad Logged where
  pure a := ⟨[], .ok a⟩
  bind := bind

instance : MonadExceptOf Failure Logged where
  throw failure := ⟨[], .error failure⟩
  tryCatch x handle :=
    match x.result with
    | .error failure =>
      let y := handle failure
      ⟨x.log ++ y.log, y.result⟩
    | .ok _ => x

instance : MonadLift (Except Failure) Logged where
  monadLift := ofExcept

/-- Logs one record. -/
def record (level : Level) (text : String) : Logged Unit := ⟨[⟨level, text⟩], .ok ()⟩

end Logged

end SchemaPress
