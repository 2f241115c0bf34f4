import SchemaPress.Json.Basic

/-!
External programs. How the processes of a run end is given beforehand, in order; the processes
that were started are kept.

Two kinds of faults are not represented. What a process writes is text, so there is no output that
cannot be decoded. And a call is kept with the words that it is given, whether or not a system could
start it: no fault arises from a command without a program or from words that are no texts.
-/

namespace SchemaPress

/-- How a process ends: it exits, its program does not exist or may not be run, or it takes too
long. -/
inductive Outcome where
  | exited (code : Int) (output problems : String)
  | missing
  | denied
  | timedOut

/-- A process: its command with arguments, and what it reads. -/
structure Call where
  command : List Json
  input : Option String

/-- The processes of a run: how the next ones end, and those that were started, in order. -/
structure Shell where
  script : List Outcome := []
  calls : List Call := []

/-- Starts a process. Beyond the script no program exists. -/
def Shell.start (call : Call) (shell : Shell) : Outcome × Shell :=
  match shell.script with
  | [] => (.missing, { shell with calls := shell.calls ++ [call] })
  | outcome :: script => (outcome, { script, calls := shell.calls ++ [call] })

end SchemaPress
