import SchemaPress.Text.Pieces

/-!
Options on a command line. Long options start with two dashes and may have their value after an
equals sign; short options start with one and may be put together. Two dashes alone end the
options.
-/

namespace SchemaPress.CommandLine

/-- An option: its key, its long name, its short name, and whether it has a value. -/
structure OptionSpec where
  key : String
  long : String
  short : Option Char := none
  hasValue : Bool := false

/-- What an argument with options sets: options with their values, and possibly an option whose
value is the next argument. -/
structure Setting where
  set : List (String × String) := []
  pending : Option String := none

/-- What a command line sets, and its other arguments. -/
structure Arguments where
  options : List (String × String) := []
  others : List String := []

/-- A command line with more options set. -/
def Arguments.withOptions (options : List (String × String)) (arguments : Arguments) : Arguments :=
  { arguments with options := options ++ arguments.options }

/-- The value that an option was set to last. -/
def Arguments.value? (arguments : Arguments) (key : String) : Option String :=
  arguments.options.reverse.lookup key

/-- Whether an option was set. -/
def Arguments.isSet (arguments : Arguments) (key : String) : Bool :=
  (arguments.value? key).isSome

/-- The name and the value of a long option that has its value after an equals sign. -/
def splitEquals (cs : List Char) : List Char × Option (List Char) :=
  let name := cs.takeWhile (· ≠ '=')
  (name, if name.length < cs.length then some (cs.drop (name.length + 1)) else none)

/-- What short options that are put together set. -/
def shortSetting? (specs : List OptionSpec) : List Char → Option Setting
  | [] => some {}
  | c :: rest =>
    match specs.find? fun spec => spec.short = some c with
    | none => none
    | some spec =>
      if spec.hasValue then
        some (if rest.isEmpty then { pending := some spec.key }
          else { set := [(spec.key, String.ofList rest)] })
      else (shortSetting? specs rest).map fun setting =>
        { setting with set := (spec.key, "") :: setting.set }

/-- What a long option sets. -/
def longSetting? (spec : OptionSpec) (value : Option (List Char)) : Option Setting :=
  match spec.hasValue, value with
  | true, some value => some { set := [(spec.key, String.ofList value)] }
  | true, none => some { pending := some spec.key }
  | false, some _ => none
  | false, none => some { set := [(spec.key, "")] }

/-- What an argument that starts with a dash sets. -/
def setting? (specs : List OptionSpec) (argument : String) : Option Setting :=
  let cs := argument.toList
  let (name, value) := splitEquals cs
  match specs.find? fun spec => spec.long = String.ofList name with
  | some spec => longSetting? spec value
  | none => if Text.startsWith argument "--" then none else shortSetting? specs (cs.drop 1)

/-- Whether an argument is an option. -/
def isOption (argument : String) : Bool :=
  Text.startsWith argument "-" && argument ≠ "-"

/-- Reads a command line. Options either may stand anywhere or have to come first. -/
def read? (specs : List OptionSpec) (anywhere : Bool) : List String → Option Arguments
  | [] => some {}
  | argument :: rest =>
    if argument = "--" then some { others := rest }
    else if isOption argument then
      match setting? specs argument with
      | none => none
      | some ⟨set, none⟩ => (read? specs anywhere rest).map (.withOptions set)
      | some ⟨set, some key⟩ =>
        match rest with
        | [] => none
        | value :: rest => (read? specs anywhere rest).map (.withOptions (set ++ [(key, value)]))
    else if anywhere then
      (read? specs anywhere rest).map fun arguments =>
        { arguments with others := argument :: arguments.others }
    else some { others := argument :: rest }

end SchemaPress.CommandLine
