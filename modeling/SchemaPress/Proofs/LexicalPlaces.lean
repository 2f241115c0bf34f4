import Mathlib.Data.Fintype.EquivFin
import SchemaPress.Files.Tree
import SchemaPress.Plan.Resolve
import SchemaPress.Proofs.Results

/-! Where paths lead. What a place leads to in a file tree, if it leads anywhere, can be read off
its names: two dots drop the name before them. So the file of a module is a matter of the output
directory and of the id of the definition, which goes into the path as it is. The file lies inside
every directory exactly if the names in the id never lead above it, and then two ids have different
files exactly if their names lead to different places below it. -/

namespace SchemaPress

namespace Place

/-- Takes one name of a place: two dots go up, but not above the top. -/
def enter (here : Place) (name : String) : Place :=
  if name = ".." then here.dropLast else here ++ [name]

/-- The place without `..` that a place leads to, going by the names alone. -/
def lexical (place : Place) : Place :=
  place.foldl enter []

/-- A place below a directory, both without `..`. -/
def Inside (directory place : Place) : Prop :=
  ∃ below, below ≠ [] ∧ place = directory ++ below

/-- Where names lead below a directory, from a place below it on, unless they lead above the
directory. -/
def descend (below : Place) : List String → Option Place
  | [] => some below
  | name :: rest =>
    if name = ".." then
      if below = [] then none else descend below.dropLast rest
    else descend (below ++ [name]) rest

variable {directory below final : Place} {names : List String}

theorem foldl_enter_of_descend (descends : descend below names = some final) :
    names.foldl enter (directory ++ below) = directory ++ final := by
  induction names generalizing below with
  | nil =>
    cases descends
    rfl
  | cons name rest ih =>
    rw [descend] at descends
    rw [List.foldl_cons, enter]
    split at descends
    · rename_i up
      split at descends
      · cases descends
      · rename_i lower
        rw [if_pos up, List.dropLast_append_of_ne_nil lower]
        exact ih descends
    · rename_i down
      rw [if_neg down, List.append_assoc]
      exact ih descends

theorem lexical_append (directory : Place) (names : List String) :
    lexical (directory ++ names) = names.foldl enter directory.lexical := by
  rw [lexical, List.foldl_append, lexical]

/-- Names that never lead above a directory lead to the same place below every directory. -/
theorem lexical_append_of_descend (descends : descend [] names = some final) :
    lexical (directory ++ names) = directory.lexical ++ final := by
  rw [lexical_append, ← List.append_nil directory.lexical]
  simpa using foldl_enter_of_descend descends

theorem not_mem_foldl_enter {name : String} {here : Place} (outside : name ∉ here)
    (other : name ∉ names) : name ∉ names.foldl enter here := by
  induction names generalizing here with
  | nil => exact outside
  | cons first rest ih =>
    simp only [List.mem_cons, not_or] at other
    refine ih ?_ other.2
    rw [enter]
    split
    · exact fun inside => outside (List.dropLast_subset here inside)
    · simpa using ⟨outside, other.1⟩

/-- Names that lead above a directory do not lead back to it if its name is not among them. -/
theorem not_mem_of_descend_none {name : String} (climbs : descend below names = none)
    (other : name ∉ names) : name ∉ names.foldl enter (name :: below) := by
  induction names generalizing below with
  | nil => cases climbs
  | cons first rest ih =>
    simp only [List.mem_cons, not_or] at other
    rw [descend] at climbs
    rw [List.foldl_cons, enter]
    split at climbs
    · rename_i up
      rw [if_pos up]
      split at climbs
      · rename_i top
        subst top
        exact not_mem_foldl_enter List.not_mem_nil other.2
      · rename_i lower
        rw [List.dropLast_cons_of_ne_nil lower]
        exact ih climbs other.2
    · rename_i down
      rw [if_neg down]
      exact ih climbs other.2

/-- Names lead inside every directory exactly if they never lead above it, and to some place below
it. -/
theorem inside_iff_descends :
    (∀ directory : Place, Inside directory.lexical (lexical (directory ++ names))) ↔
      ∃ below, below ≠ [] ∧ descend [] names = some below := by
  constructor
  · intro inside
    cases descends : descend [] names with
    | some below =>
      obtain ⟨other, nonempty, isPlace⟩ := inside []
      rw [lexical_append_of_descend descends] at isPlace
      exact ⟨below, List.append_cancel_left isPlace ▸ nonempty, rfl⟩
    | none =>
      -- A directory whose name is not among the names is left for good.
      obtain ⟨name, other⟩ := Infinite.exists_notMem_finset (".." :: names).toFinset
      simp only [List.mem_toFinset, List.mem_cons, not_or] at other
      have alone : lexical [name] = [name] := by simp [lexical, enter, other.1]
      obtain ⟨below, _, isPlace⟩ := inside [name]
      rw [lexical_append, alone] at isPlace
      refine absurd ?_ (not_mem_of_descend_none descends other.2)
      rw [isPlace]
      exact List.mem_cons_self
  · rintro ⟨below, nonempty, descends⟩ directory
    exact ⟨below, nonempty, lexical_append_of_descend descends⟩

theorem descend_append (below : Place) (names others : List String) :
    descend below (names ++ others) =
      (descend below names).bind fun here => descend here others := by
  induction names generalizing below with
  | nil => rfl
  | cons name rest ih =>
    rw [List.cons_append, descend, descend]
    split
    · split
      · rfl
      · exact ih _
    · exact ih _

end Place

section Modules

variable {id other : String} {below : Place}

/-- The names in the path of a definition's module. -/
def moduleNames (id : String) : List String :=
  Place.join [] (modulePath id)

theorem modulePath_relative (id : String) : Text.startsWith (modulePath id) "/" = false := by
  simp [Text.startsWith, modulePath, List.isPrefixOf]

theorem join_modulePath (directory : Place) (id : String) :
    directory.join (modulePath id) = directory ++ moduleNames id := by
  rw [moduleNames, Place.join, Place.join, modulePath_relative]
  simp

/-- What follows a list without separators goes to its last piece. -/
theorem splitOn_append {separator : Char} {ending : List Char} (absent : separator ∉ ending)
    (letters : List Char) : ∃ pieces last, letters.splitOn separator = pieces ++ [last] ∧
      (letters ++ ending).splitOn separator = pieces ++ [last ++ ending] := by
  induction letters with
  | nil => exact ⟨[], [], rfl, by simpa using List.splitOn_eq_singleton absent⟩
  | cons letter rest ih =>
    obtain ⟨pieces, last, before, after⟩ := ih
    rw [List.cons_append, List.splitOn_cons_eq_if_modifyHead, List.splitOn_cons_eq_if_modifyHead,
      before, after]
    split
    · exact ⟨[] :: pieces, last, rfl, rfl⟩
    · cases pieces with
      | nil => exact ⟨[], letter :: last, rfl, rfl⟩
      | cons first pieces => exact ⟨(letter :: first) :: pieces, last, rfl, rfl⟩

theorem file_ne (stem : String) {name : String} (short : name.length < 3) :
    stem ++ ".ts" ≠ name := by
  have ending : ".ts".length = 3 := rfl
  rintro rfl
  rw [String.length_append] at short
  omega

/-- The names in the path of a module are those in the id; the last one becomes that of a file. -/
theorem moduleNames_of_pieces {pieces : List (List Char)} {last : List Char}
    (cut : (['.', '/'] ++ id.toList).splitOn '/' = pieces ++ [last]) :
    moduleNames id = ((pieces.map String.ofList).filter fun name => name ≠ "" && name ≠ ".") ++
      [String.ofList last ++ ".ts"] := by
  obtain ⟨others, other, isCut, split⟩ :=
    splitOn_append (by decide : '/' ∉ ['.', 't', 's']) (['.', '/'] ++ id.toList)
  obtain ⟨rfl, isLast⟩ := List.append_inj' (isCut.symm.trans cut) rfl
  obtain rfl := List.singleton_inj.mp isLast
  have isPath : (modulePath id).toList = (['.', '/'] ++ id.toList) ++ ['.', 't', 's'] := by
    simp [modulePath]
  have isFile : String.ofList (other ++ ['.', 't', 's']) = String.ofList other ++ ".ts" := by
    simp
  rw [moduleNames, Place.join, modulePath_relative, Text.splitOn, isPath, split, List.map_append,
    List.map_singleton, isFile, List.filter_append]
  simpa using file_ne _ (by decide)

/-- The file that the module of a definition goes to, going by the names alone. -/
def moduleFile (directory : Place) (id : String) : Place :=
  (directory.join (modulePath id)).lexical

/-- Where the module of a definition goes below the output directory, unless its path leads above
that. -/
def moduleBelow? (id : String) : Option Place :=
  Place.descend [] (moduleNames id)

theorem moduleBelow?_ne_nil (found : moduleBelow? id = some below) : below ≠ [] := by
  obtain ⟨pieces, last, cut, _⟩ := splitOn_append List.not_mem_nil (['.', '/'] ++ id.toList)
  rw [moduleBelow?, moduleNames_of_pieces cut, Place.descend_append,
    Option.bind_eq_some_iff] at found
  obtain ⟨here, _, found⟩ := found
  rw [Place.descend, if_neg (file_ne _ (by decide))] at found
  cases found
  simp

theorem moduleFile_of_below (found : moduleBelow? id = some below) (directory : Place) :
    moduleFile directory id = directory.lexical ++ below := by
  rw [moduleFile, join_modulePath]
  exact Place.lexical_append_of_descend found

/-- A module is written inside every output directory exactly if its path never leads above it. -/
theorem moduleFile_inside_iff :
    (∀ directory : Place, directory.lexical.Inside (moduleFile directory id)) ↔
      (moduleBelow? id).isSome = true := by
  simp only [moduleFile, join_modulePath]
  rw [Place.inside_iff_descends, Option.isSome_iff_exists]
  constructor
  · rintro ⟨below, _, found⟩
    exact ⟨below, found⟩
  · rintro ⟨below, found⟩
    exact ⟨below, moduleBelow?_ne_nil found, found⟩

/-- Modules whose paths do not lead above the output directory have the same file exactly if their
paths lead to the same place below it. -/
theorem moduleFile_eq_iff (found : (moduleBelow? id).isSome = true)
    (found' : (moduleBelow? other).isSome = true) (directory : Place) :
    moduleFile directory id = moduleFile directory other ↔
      moduleBelow? id = moduleBelow? other := by
  obtain ⟨below, isBelow⟩ := Option.isSome_iff_exists.mp found
  obtain ⟨below', isBelow'⟩ := Option.isSome_iff_exists.mp found'
  rw [moduleFile_of_below isBelow, moduleFile_of_below isBelow', isBelow, isBelow',
    List.append_right_inj, Option.some.injEq]

/-- An id without slashes names a file right inside the output directory. -/
theorem moduleBelow?_of_no_slash (plain : '/' ∉ id.toList) :
    moduleBelow? id = some [id ++ ".ts"] := by
  have cut : (['.', '/'] ++ id.toList).splitOn '/' = [['.']] ++ [id.toList] := by
    simp [List.splitOn_cons_eq_if_modifyHead, List.splitOn_eq_singleton plain]
  rw [moduleBelow?, moduleNames_of_pieces cut]
  simpa [Place.descend] using file_ne id (by decide)

end Modules

namespace FileTree

variable {tree : FileTree} {place here target : Place}

theorem walk_eq_foldl (walked : tree.walk here place = .ok target) :
    target = place.foldl Place.enter here := by
  induction place generalizing here with
  | nil =>
    cases walked
    rfl
  | cons name rest ih =>
    rw [walk] at walked
    rw [List.foldl_cons, Place.enter]
    split at walked
    · cases walked
    · cases walked
    · split at walked
      · rename_i up
        rw [if_pos up]
        exact ih walked
      · rename_i down
        rw [if_neg down]
        split at walked
        · cases walked
        · exact ih walked

/-- What a place leads to can be read off its names. -/
theorem locate_lexical (located : tree.locate place = .ok target) : target = place.lexical := by
  rw [locate] at located
  split at located
  · cases located
  · split at located
    · cases located
    · exact walk_eq_foldl located

end FileTree

end SchemaPress
