import SchemaPress.Failure

/-!
Paths of modules and the relative paths between them. A path that does not start with a slash is
taken from a working directory, and a relative path says how to get from one directory to a
module.
-/

namespace SchemaPress.ModulePath

/-- The components of a path, as they stand between its slashes. -/
def components (path : String) : List String :=
  Text.splitOn '/' path

/-- Whether a path starts at the top. -/
def isAbsolute (path : String) : Bool :=
  Text.startsWith path "/"

/-- Takes one component of a path, given the directories above it with the innermost first:
nothing and a dot stay, two dots go up but not above the top. -/
def enter (above : List String) (component : String) : List String :=
  if component = "" || component = "." then above
  else if component = ".." then above.drop 1
  else component :: above

/-- The directories of a path from the top, starting in a directory. -/
def normalize (start : List String) (components : List String) : List String :=
  (components.foldl enter start.reverse).reverse

/-- Where a path leads from a working directory, as directories from the top. -/
def resolve (workingDir : List String) (isAbsolute : Bool) (components : List String) :
    List String :=
  normalize (if isAbsolute then [] else workingDir) components

/-- What two lists have after their longest common beginning. -/
def dropCommon : List String → List String → List String × List String
  | a :: as, b :: bs => if a = b then dropCommon as bs else (a :: as, b :: bs)
  | as, bs => (as, bs)

/-- The way from one directory to a place: up as often as needed, then down. -/
def wayTo (start target : List String) : List String :=
  let (up, down) := dropCommon start target
  up.map (fun _ => "..") ++ down

/-- The path of a module as seen from the directory of another. It starts with a dot. An empty
path leads nowhere. -/
def relative (workingDir : List String) (importer imported : String) : Except Failure String :=
  if imported.isEmpty then .error (.mismatch .value)
  else
    let start := resolve workingDir (isAbsolute importer) (components importer).dropLast
    let target := resolve workingDir (isAbsolute imported) (components imported)
    let way := wayTo start target
    let path := if way.isEmpty then "." else Text.join "/" way
    .ok (if Text.startsWith path "." then path else "./" ++ path)

end SchemaPress.ModulePath
