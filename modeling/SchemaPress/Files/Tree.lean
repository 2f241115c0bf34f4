import SchemaPress.Action

/-!
File trees. A place is a list of names from the top; `..` in it goes up, once the directory before
it is known to exist. The top is always a directory.
-/

namespace SchemaPress

/-- A place in a file tree, by names from the top. -/
abbrev Place := List String

namespace Place

/-- The place that a path leads to from a directory. A path that starts with a slash starts at the
top; empty components and dots do not count, and two dots are kept. -/
def join (directory : Place) (path : String) : Place :=
  let names := (Text.splitOn '/' path).filter fun name => name ≠ "" && name ≠ "."
  if Text.startsWith path "/" then names else directory ++ names

/-- The text of a place. -/
def text (place : Place) : String :=
  "/" ++ Text.join "/" place

/-- Whether a place has a name that no file can have. -/
def isUnnameable (place : Place) : Bool :=
  place.any fun name => name.toList.contains '\x00'

end Place

/-- What is at a place. -/
inductive FileEntry where
  | directory
  | file (content : String)
  deriving DecidableEq, Repr

/-- Directories and files by place. -/
abbrev FileTree := List (Place × FileEntry)

namespace FileTree

/-- The length in bytes that a name may have. -/
def nameLimit : Nat := 255

/-- The length in bytes that the text of a place may have. -/
def pathLimit : Nat := 4095

/-- The entry at a place. -/
def entryAt? : FileTree → Place → Option FileEntry
  | [], _ => none
  | (other, entry) :: rest, place => if other = place then some entry else entryAt? rest place

/-- What is at a place without `..`. -/
def get? (tree : FileTree) (place : Place) : Option FileEntry :=
  if place.isEmpty then some .directory else tree.entryAt? place

/-- The tree with an entry at a place. -/
def set (place : Place) (entry : FileEntry) (tree : FileTree) : FileTree :=
  if (tree.entryAt? place).isSome then
    tree.map fun other => if other.1 = place then (place, entry) else other
  else tree ++ [(place, entry)]

/-- The tree without what is at a place. -/
def erase (place : Place) (tree : FileTree) : FileTree :=
  tree.filter fun other => other.1 ≠ place

/-- The place without `..` that a place leads to from a directory. Everything on the way has to be
a directory; what it leads to need not exist. -/
def walk (tree : FileTree) (here : Place) : Place → Except Failure Place
  | [] => .ok here
  | name :: rest =>
    match tree.get? here with
    | none => .error (.file .missing)
    | some (.file _) => .error (.file .notDirectory)
    | some .directory =>
      if name = ".." then walk tree here.dropLast rest
      else if nameLimit < name.utf8ByteSize then .error (.file .nameTooLong)
      else walk tree (here ++ [name]) rest

/-- The place without `..` that a place leads to from the top. -/
def locate (tree : FileTree) (place : Place) : Except Failure Place :=
  if place.isUnnameable then .error (.mismatch .value)
  else if pathLimit < place.text.utf8ByteSize then .error (.file .nameTooLong)
  else walk tree [] place

/-- Whether a place leads to a directory. -/
def isDirectory (tree : FileTree) (place : Place) : Bool :=
  match tree.locate place with
  | .ok place => tree.get? place = some .directory
  | .error _ => false

/-- The content of the file that a place leads to. -/
def content? (tree : FileTree) (place : Place) : Option String :=
  match tree.locate place with
  | .ok place => match tree.get? place with
    | some (.file content) => some content
    | _ => none
  | .error _ => none

/-- What is below a place: the texts of the relative paths in order, each with the content of a
file. -/
def below (tree : FileTree) (place : Place) : List (String × Option String) :=
  let entries := tree.filterMap fun (other, entry) =>
    if place.isPrefixOf other && other ≠ place then
      some (Text.join "/" (other.drop place.length), match entry with
        | .directory => none
        | .file content => some content)
    else none
  entries.mergeSort fun a b => a.1 ≤ b.1

/-- The tree with directories at a place and everything above it. -/
def withDirectories (tree : FileTree) (place : Place) : FileTree :=
  (List.range place.length).foldl (fun tree depth =>
    let above := place.take (depth + 1)
    if (tree.entryAt? above).isSome then tree else tree ++ [(above, .directory)]) tree

end FileTree

end SchemaPress
