import Mathlib.Data.List.TakeWhile
import SchemaPress.Module.Path
import SchemaPress.Proofs.Pointers

/-! Relative paths. Going from the directory of a module along the path by which it sees another
leads to the other, whatever the working directory is, as long as neither path leads above that.
What the path looks like is a matter of where the two modules lie: it begins with a step up or with
a dot and a slash, unless the other module is right at the directory or the one above, or lies below
a name that begins with a dot. -/

namespace SchemaPress.ModulePath

/-- Takes one component of a relative path, given the names before it with the innermost first:
nothing and a dot stay, and two dots cancel a name, or are kept if there is none to cancel. -/
def cancel (above : List String) (component : String) : List String :=
  if component = "" || component = "." then above
  else if component = ".." then
    match above with
    | [] => [".."]
    | name :: rest => if name = ".." then ".." :: name :: rest else rest
  else component :: above

/-- What is left of names after a relative path, the innermost first. -/
def follow (above : List String) (path : String) : List String :=
  (components path).foldl cancel above

/-- The normal form of a relative path: nothing in it can be left out or cancelled. -/
def normalForm (path : String) : String :=
  let names := (follow [] path).reverse
  if names.isEmpty then "." else Text.join "/" names

/-- The normal form of a relative path begins with a step up. -/
def Climbs (path : String) : Prop :=
  normalForm path = ".." ∨ Text.startsWith (normalForm path) "../" = true

instance (path : String) : Decidable (Climbs path) :=
  inferInstanceAs (Decidable (_ ∨ _))

/-- A specifier that cannot be taken for the name of a package: it begins with a dot and a slash, or
with two dots and a slash. -/
def IsRelative (specifier : String) : Prop :=
  Text.startsWith specifier "./" = true ∨ Text.startsWith specifier "../" = true

instance (specifier : String) : Decidable (IsRelative specifier) :=
  inferInstanceAs (Decidable (_ ∨ _))

/-- The directory that a path names: what stands before its last slash, without the slashes at the
end unless there is nothing else. -/
def directory (path : String) : String :=
  let before := path.toList.reverse.dropWhile fun c => c ≠ '/'
  let stem := before.dropWhile fun c => c = '/'
  String.ofList (if stem.isEmpty then before else stem).reverse

/-- A path taken from a directory. -/
def join (directory path : String) : String :=
  if isAbsolute path || directory.isEmpty then path
  else if directory.toList.getLast? = some '/' then directory ++ path
  else directory ++ "/" ++ path

/-- A name that a directory or a module can have. -/
structure IsName (name : String) : Prop where
  some : name ≠ ""
  noDot : name ≠ "."
  noDots : name ≠ ".."
  clean : '/' ∉ name.toList

/-- Where a path leads from a working directory, as names from the top. -/
def placeOf (workingDir : List String) (path : String) : List String :=
  resolve workingDir (isAbsolute path) (components path)

/-- The directory in which a path leads to a module, as names from the top. -/
def directoryOf (workingDir : List String) (path : String) : List String :=
  resolve workingDir (isAbsolute path) (components path).dropLast

/-- A place as seen from a directory shows neither a step up nor a step down at first: it is the
directory or the one right above, or lies below a name in the directory that begins with a dot. -/
inductive Masked (directory place : List String) : Prop where
  | here (same : place = directory)
  | above (name : String) (isDirectory : directory = place ++ [name])
  | dotted (name : String) (rest : List String) (isPlace : place = directory ++ name :: rest)
      (dot : Text.startsWith name "." = true)

/-- The text of a way: the steps between slashes, after a dot and a slash unless a dot comes first
anyway. -/
def spell (way : List String) : String :=
  let path := if way.isEmpty then "." else Text.join "/" way
  if Text.startsWith path "." then path else "./" ++ path

section Components

variable {above names : List String} {path : String}

theorem components_slash (first second : String) :
    components (first ++ "/" ++ second) = components first ++ components second := by
  have slash : ("/" : String).toList = ['/'] := rfl
  rw [components, components, components, Text.splitOn, String.toList_append, String.toList_append,
    slash, List.append_assoc, List.singleton_append, List.splitOn_append_cons_self, List.map_append]
  rfl

theorem slash_not_mem_components {name : String} (inside : name ∈ components path) :
    '/' ∉ name.toList := by
  obtain ⟨piece, isPiece, rfl⟩ := List.mem_map.mp inside
  rw [String.toList_ofList]
  exact Pointer.slash_not_mem_piece isPiece

theorem components_single {name : String} (clean : '/' ∉ name.toList) :
    components name = [name] := by
  rw [components, Text.splitOn, List.splitOn_eq_singleton clean, List.map_singleton,
    String.ofList_toList]

/-- Names without slashes are the components of the path that they make up. -/
theorem components_of_names (some : names ≠ []) (clean : ∀ name ∈ names, '/' ∉ name.toList) :
    components (Text.join "/" names) = names := by
  have slash : ("/" : String).toList = ['/'] := rfl
  have pieces : ∀ piece ∈ names.map String.toList, '/' ∉ piece := by
    simpa using clean
  rw [components, Text.splitOn, Text.join, String.toList_intercalate, slash,
    List.splitOn_intercalate '/' pieces (by simpa using some), List.map_map]
  simp [Function.comp_def]

@[simp]
theorem follow_empty (above : List String) : follow above "" = above :=
  rfl

theorem follow_slash (above : List String) (first second : String) :
    follow above (first ++ "/" ++ second) = follow (follow above first) second := by
  rw [follow, components_slash, List.foldl_append]
  rfl

/-- Slashes at the end of a path lead nowhere. -/
theorem follow_slashes {slashes : List Char} (only : ∀ c ∈ slashes, c = '/')
    (above : List String) (path : List Char) :
    follow above (String.ofList (path ++ slashes)) = follow above (String.ofList path) := by
  induction slashes generalizing path with
  | nil => rw [List.append_nil]
  | cons c rest ih =>
    obtain ⟨rfl, others⟩ := List.forall_mem_cons.mp only
    have cut : String.ofList (path ++ ['/']) = String.ofList path ++ "/" ++ "" := by simp
    rw [List.append_cons, ih others, cut, follow_slash, follow_empty]

theorem follow_join (above : List String) (directory : String)
    (relative : isAbsolute path = false) :
    follow above (join directory path) = follow (follow above directory) path := by
  unfold join
  rw [relative, Bool.false_or]
  split
  · rename_i none
    rw [String.isEmpty_iff.mp none, follow_empty]
  · split
    · rename_i slash
      obtain ⟨stem, isStem⟩ := List.getLast?_eq_some_iff.mp slash
      have cut : directory = String.ofList stem ++ "/" := by
        rw [← String.ofList_toList (s := directory), isStem]
        simp
      rw [cut, follow_slash]
      have ends : String.ofList stem ++ "/" = String.ofList stem ++ "/" ++ "" := by simp
      rw [ends, follow_slash, follow_empty]
    · exact follow_slash above directory path

/-- What stands before the last slash is the directory, up to slashes at its end. -/
theorem follow_directory_slash (above : List String) (stem : List Char) {last : String}
    (clean : '/' ∉ last.toList) :
    follow above (directory (String.ofList stem ++ "/" ++ last)) =
      follow above (String.ofList stem) := by
  have whole : (String.ofList stem ++ "/" ++ last).toList.reverse =
      last.toList.reverse ++ '/' :: stem.reverse := by simp
  have skipped : ∀ c ∈ last.toList.reverse, decide (c ≠ '/') = true := by
    intro c inside
    refine decide_eq_true ?_
    rintro rfl
    exact clean (List.mem_reverse.mp inside)
  have slashes : ∀ c ∈ (stem.reverse.takeWhile fun c => decide (c = '/')).reverse, c = '/' := by
    intro c inside
    simpa using List.mem_takeWhile_imp (List.mem_reverse.mp inside)
  have cut : stem = (stem.reverse.dropWhile fun c => decide (c = '/')).reverse ++
      (stem.reverse.takeWhile fun c => decide (c = '/')).reverse := by
    rw [← List.reverse_append, List.takeWhile_append_dropWhile, List.reverse_reverse]
  rw [directory, whole, List.dropWhile_append_of_pos skipped,
    List.dropWhile_cons_of_neg (by simp), List.dropWhile_cons_of_pos (by simp)]
  split
  · rw [List.reverse_cons, List.reverse_reverse, follow_slashes (by simp)]
  · conv_rhs => rw [cut, follow_slashes slashes]

/-- The directory of a path has all of its components but the last. -/
theorem follow_directory (above : List String) (path : String) :
    follow above (directory path) = (components path).dropLast.foldl cancel above := by
  by_cases slash : '/' ∈ path.toList.reverse
  · obtain ⟨last, rest, cut, clean⟩ := List.eq_append_cons_of_mem slash
    have clean : '/' ∉ (String.ofList last.reverse).toList := by simpa using clean
    have isPath : path = String.ofList rest.reverse ++ "/" ++ String.ofList last.reverse := by
      rw [← String.toList_inj, ← List.reverse_inj, cut]
      simp
    rw [isPath, follow_directory_slash above _ clean, components_slash, components_single clean,
      List.dropLast_concat]
    rfl
  · have none : path.toList.reverse.dropWhile (fun c => decide (c ≠ '/')) = [] := by
      rw [List.dropWhile_eq_nil_iff]
      intro c inside
      refine decide_eq_true ?_
      rintro rfl
      exact slash inside
    rw [components_single fun inside => slash (List.mem_reverse.mpr inside), directory, none]
    rfl

end Components

section Names

variable {above workingDir : List String} {component path : String}

/-- What one component does: nothing, a step up that is kept, a step up that cancels a name, or a
step down. -/
theorem cancel_cases (above : List String) (component : String) :
    ((component = "" ∨ component = ".") ∧ cancel above component = above) ∨
    (component = ".." ∧ (above = [] ∨ above.head? = some "..") ∧
      cancel above component = ".." :: above) ∨
    (component = ".." ∧ ∃ name rest, name ≠ ".." ∧ above = name :: rest ∧
      cancel above component = rest) ∨
    component ≠ "" ∧ component ≠ "." ∧ component ≠ ".." ∧
      cancel above component = component :: above := by
  unfold cancel
  split
  · rename_i still
    exact .inl ⟨by simpa using still, rfl⟩
  · rename_i moves
    simp only [Bool.or_eq_true, decide_eq_true_eq, not_or] at moves
    split
    · rename_i up
      obtain _ | ⟨name, rest⟩ := above
      · exact .inr (.inl ⟨up, .inl rfl, rfl⟩)
      · by_cases kept : name = ".."
        · subst kept
          exact .inr (.inl ⟨up, .inr rfl, rfl⟩)
        · exact .inr (.inr (.inl ⟨up, name, rest, kept, rfl, if_neg kept⟩))
    · rename_i down
      exact .inr (.inr (.inr ⟨moves.1, moves.2, down, rfl⟩))

/-- A step up that was kept is never cancelled. -/
theorem climbs_cancel (climbs : ".." ∈ above) : ".." ∈ cancel above component := by
  obtain ⟨_, same⟩ | ⟨_, _, same⟩ | ⟨_, name, rest, proper, rfl, same⟩ | ⟨_, _, _, same⟩ :=
    cancel_cases above component <;> rw [same]
  · exact climbs
  · exact List.mem_cons_self
  · exact (List.mem_cons.mp climbs).resolve_left proper.symm
  · exact List.mem_cons_of_mem _ climbs

/-- If steps up are kept at all, then before all names. -/
theorem outermost_cancel (outermost : ".." ∈ above → above.getLast? = some "..")
    (climbs : ".." ∈ cancel above component) :
    (cancel above component).getLast? = some ".." := by
  have last : ∀ {name : String}, ".." ∈ above → (name :: above).getLast? = some ".." := by
    intro name inside
    rw [List.getLast?_cons_of_ne_nil (List.ne_nil_of_mem inside), outermost inside]
  obtain ⟨_, same⟩ | ⟨_, kept, same⟩ | ⟨_, name, rest, proper, rfl, same⟩ | ⟨_, _, down, same⟩ :=
    cancel_cases above component <;> rw [same] at climbs ⊢
  · exact outermost climbs
  · rcases kept with rfl | kept
    · rfl
    · exact last (List.mem_of_head? kept)
  · rw [← List.getLast?_cons_of_ne_nil (List.ne_nil_of_mem climbs)]
    exact outermost (List.mem_cons_of_mem name climbs)
  · exact last ((List.mem_cons.mp climbs).resolve_left fun same => down same.symm)

/-- Steps up that are left after components stand before all names. -/
theorem outermost_foldl (components : List String)
    (outermost : ".." ∈ above → above.getLast? = some "..")
    (climbs : ".." ∈ components.foldl cancel above) :
    (components.foldl cancel above).getLast? = some ".." := by
  induction components generalizing above with
  | nil => exact outermost climbs
  | cons component rest ih => exact ih (outermost_cancel outermost) climbs

theorem climbs_foldl (components : List String) (climbs : ".." ∈ above) :
    ".." ∈ components.foldl cancel above := by
  induction components generalizing above with
  | nil => exact climbs
  | cons component rest ih => exact ih (climbs_cancel climbs)

theorem climbs_of_mem (climbs : ".." ∈ follow [] path) : Climbs path := by
  have last : (follow [] path).getLast? = some ".." :=
    outermost_foldl _ (fun inside => absurd inside List.not_mem_nil) climbs
  obtain ⟨names, isNames⟩ := List.getLast?_eq_some_iff.mp last
  rw [Climbs, normalForm, isNames, List.reverse_append, List.reverse_singleton,
    List.singleton_append, if_neg (by simp)]
  generalize names.reverse = below
  obtain _ | ⟨name, rest⟩ := below
  · exact .inl rfl
  · right
    rw [Text.startsWith, List.isPrefixOf_iff_prefix, Text.join, String.toList_intercalate]
    simp [List.intercalate_cons_cons]

/-- Components that never lead above where they start lead to the same names from every working
directory. -/
theorem foldl_enter (workingDir : List String) {components : List String}
    (stays : ".." ∉ components.foldl cancel above) :
    components.foldl enter (above ++ workingDir) =
      components.foldl cancel above ++ workingDir := by
  induction components generalizing above with
  | nil => rfl
  | cons component rest ih =>
    have here : ".." ∉ cancel above component := fun climbs => stays (climbs_foldl rest climbs)
    rw [List.foldl_cons, List.foldl_cons, ← ih stays]
    congr 1
    obtain ⟨still, same⟩ | ⟨_, _, same⟩ | ⟨rfl, name, rest, _, rfl, same⟩ |
      ⟨some, noDot, down, same⟩ := cancel_cases above component <;> rw [same] at here ⊢
    · simp [enter, still]
    · exact absurd List.mem_cons_self here
    · rfl
    · simp [enter, some, noDot, down]

theorem isName_foldl {components : List String} (each : ∀ name ∈ above, IsName name)
    (clean : ∀ component ∈ components, '/' ∉ component.toList) :
    ∀ name ∈ components.foldl enter above, IsName name := by
  induction components generalizing above with
  | nil => exact each
  | cons component rest ih =>
    obtain ⟨here, others⟩ := List.forall_mem_cons.mp clean
    refine ih ?_ others
    unfold enter
    split
    · exact each
    · rename_i moves
      simp only [Bool.or_eq_true, decide_eq_true_eq, not_or] at moves
      split
      · exact fun name inside => each name (List.mem_of_mem_drop inside)
      · rename_i down
        exact List.forall_mem_cons.mpr ⟨⟨moves.1, moves.2, down, here⟩, each⟩

theorem isName_resolve (names : ∀ name ∈ workingDir, IsName name) (absolute : Bool)
    {components : List String} (clean : ∀ component ∈ components, '/' ∉ component.toList) :
    ∀ name ∈ resolve workingDir absolute components, IsName name := by
  have start : ∀ name ∈ (if absolute then [] else workingDir).reverse, IsName name := by
    cases absolute with
    | true => simp
    | false => simpa using names
  intro name inside
  exact isName_foldl start clean name (List.mem_reverse.mp inside)

end Names

section Ways

variable {above start target workingDir : List String} {importer imported path : String}

theorem dropCommon_append (common first second : List String) :
    dropCommon (common ++ first) (common ++ second) = dropCommon first second := by
  induction common with
  | nil => rfl
  | cons name rest ih => rw [List.cons_append, List.cons_append, dropCommon, if_pos rfl, ih]

theorem exists_common (start target : List String) :
    ∃ common, start = common ++ (dropCommon start target).1 ∧
      target = common ++ (dropCommon start target).2 := by
  fun_induction dropCommon start target with
  | case1 first name second ih =>
    obtain ⟨common, isFirst, isSecond⟩ := ih
    exact ⟨name :: common, congrArg (name :: ·) isFirst, congrArg (name :: ·) isSecond⟩
  | case2 | case3 => exact ⟨[], rfl, rfl⟩

theorem mem_wayTo {name : String} (inside : name ∈ wayTo start target) :
    name = ".." ∨ name ∈ target := by
  obtain ⟨common, _, isTarget⟩ := exists_common start target
  rcases List.mem_append.mp inside with up | down
  · obtain ⟨_, _, same⟩ := List.mem_map.mp up
    exact .inl same.symm
  · rw [isTarget]
    exact .inr (List.mem_append_right common down)

/-- The steps of a way to a place with proper names have no slashes in them. -/
theorem wayTo_clean (names : ∀ name ∈ target, IsName name) :
    ∀ name ∈ wayTo start target, '/' ∉ name.toList := by
  intro name inside
  rcases mem_wayTo inside with rfl | inside
  · decide
  · exact (names name inside).clean

/-- Steps up cancel as many names. -/
theorem foldl_up {front : List String} (proper : ".." ∉ front) (above : List String) :
    (front.map fun _ => "..").foldl cancel (front ++ above) = above := by
  induction front with
  | nil => rfl
  | cons name rest ih =>
    rw [List.mem_cons, not_or] at proper
    obtain ⟨here, others⟩ := proper
    have up : cancel (name :: rest ++ above) ".." = rest ++ above :=
      if_neg fun same : name = ".." => here same.symm
    rw [List.map_cons, List.foldl_cons, up, ih others]

theorem foldl_down {names : List String} (each : ∀ name ∈ names, IsName name)
    (above : List String) : names.foldl cancel above = names.reverse ++ above := by
  induction names generalizing above with
  | nil => rfl
  | cons name rest ih =>
    obtain ⟨here, others⟩ := List.forall_mem_cons.mp each
    have down : cancel above name = name :: above := by
      simp [cancel, here.some, here.noDot, here.noDots]
    rw [List.foldl_cons, down, ih others]
    simp

/-- The way from a directory to a place leads there. -/
theorem foldl_wayTo (proper : ".." ∉ start) (names : ∀ name ∈ target, IsName name) :
    (wayTo start target).foldl cancel start.reverse = target.reverse := by
  obtain ⟨common, isStart, isTarget⟩ := exists_common start target
  generalize isWay : dropCommon start target = way at isStart isTarget
  obtain ⟨up, down⟩ := way
  have turned : up.map (fun _ => "..") = up.reverse.map fun _ => ".." := by
    rw [List.map_const', List.map_const', List.length_reverse]
  rw [wayTo, isWay]
  dsimp only at isStart isTarget ⊢
  subst isStart isTarget
  obtain ⟨_, steps⟩ := List.forall_mem_append.mp names
  rw [List.foldl_append, turned, List.reverse_append, foldl_up, foldl_down steps,
    List.reverse_append]
  simp_all

theorem relative_eq_ok :
    relative workingDir importer imported = .ok path ↔ imported ≠ "" ∧
      path = spell (wayTo (directoryOf workingDir importer) (placeOf workingDir imported)) := by
  unfold relative
  split
  · rename_i none
    simp [String.isEmpty_iff.mp none]
  · rename_i some
    rw [Except.ok.injEq, eq_comm]
    exact (and_iff_right fun none => some (String.isEmpty_iff.mpr none)).symm

theorem spell_relative (way : List String) : isAbsolute (spell way) = false := by
  have dotted : ∀ {text : String}, Text.startsWith text "." = true → isAbsolute text = false := by
    intro text dot
    obtain ⟨rest, isText⟩ := List.isPrefixOf_iff_prefix.mp dot
    rw [isAbsolute, Text.startsWith, ← isText]
    rfl
  unfold spell
  generalize (if way.isEmpty then "." else Text.join "/" way) = path
  dsimp only
  split
  · rename_i dot
    exact dotted dot
  · refine dotted ?_
    simp [Text.startsWith]

/-- The text of a way is followed as the way itself. -/
theorem follow_spell {way : List String} (clean : ∀ name ∈ way, '/' ∉ name.toList)
    (above : List String) : follow above (spell way) = way.foldl cancel above := by
  have inner : follow above (if way.isEmpty then "." else Text.join "/" way) =
      way.foldl cancel above := by
    split
    · rename_i none
      rw [List.isEmpty_iff.mp none]
      rfl
    · rename_i some
      rw [follow, components_of_names (by simpa using some) clean]
  unfold spell
  generalize (if way.isEmpty then "." else Text.join "/" way) = path at inner
  dsimp only
  split
  · exact inner
  · have dot : ∀ text, "./" ++ text = "." ++ "/" ++ text := fun _ => rfl
    rw [dot, follow_slash]
    exact inner

end Ways

theorem directory_relative {path : String} (relative : isAbsolute path = false) :
    isAbsolute (directory path) = false := by
  have start : (directory path).toList <+: path.toList := by
    rw [directory, String.toList_ofList, ← List.reverse_suffix, List.reverse_reverse]
    split
    · exact List.dropWhile_suffix _
    · exact (List.dropWhile_suffix _).trans (List.dropWhile_suffix _)
  rw [← Bool.not_eq_true] at relative ⊢
  intro top
  refine relative (List.isPrefixOf_iff_prefix.mpr ?_)
  exact (List.isPrefixOf_iff_prefix.mp top).trans start

theorem join_relative {directory path : String} (above : isAbsolute directory = false)
    (below : isAbsolute path = false) : isAbsolute (join directory path) = false := by
  unfold join
  rw [below, Bool.false_or]
  split
  · exact below
  · rename_i some
    have extended : ∀ text, isAbsolute (directory ++ text) = false := by
      intro text
      rw [← above, isAbsolute, isAbsolute, Text.startsWith, Text.startsWith, String.toList_append]
      cases letters : directory.toList with
      | nil => exact absurd (String.isEmpty_iff.mpr (String.toList_eq_nil_iff.mp letters)) some
      | cons => rfl
    split
    · exact extended path
    · rw [String.append_assoc]
      exact extended _

/-- The directory of a path that does not climb is below where the path starts. -/
theorem not_mem_directory {path : String} (below : ¬ Climbs path) :
    ".." ∉ follow [] (directory path) := by
  rw [follow_directory]
  intro climbs
  refine below (climbs_of_mem ?_)
  have some : components path ≠ [] := by
    simp [components, Text.splitOn]
  rw [follow, ← List.dropLast_append_getLast some, List.foldl_append]
  exact climbs_cancel climbs

/-- From a working directory, a path that does not climb leads below it. -/
theorem resolve_below (workingDir : List String) {components : List String}
    (stays : ".." ∉ components.foldl cancel []) :
    resolve workingDir false components =
      workingDir ++ (components.foldl cancel []).reverse := by
  have below := foldl_enter workingDir.reverse stays
  rw [List.nil_append] at below
  rw [resolve, normalize, if_neg Bool.false_ne_true, below, List.reverse_append,
    List.reverse_reverse]

/-- Relative imports resolve to their target. If neither of two relative paths leads above the
working directory, then going from the directory of the one along the path that it sees the other by
leads to the other. -/
theorem relative_leads_to_imported (workingDir : List String) (importer imported : String)
    (some : imported ≠ "") (fromHere : isAbsolute importer = false)
    (toHere : isAbsolute imported = false) (fromBelow : ¬ Climbs importer)
    (toBelow : ¬ Climbs imported) :
    ∃ path, relative workingDir importer imported = .ok path ∧
      isAbsolute (join (directory importer) path) = false ∧
      normalForm (join (directory importer) path) = normalForm imported := by
  have climbless : ".." ∉ follow [] imported := fun climbs => toBelow (climbs_of_mem climbs)
  have inner := not_mem_directory fromBelow
  have names : ∀ name ∈ (follow [] imported).reverse, IsName name := by
    rw [follow, ← List.nil_append (List.reverse _), ← resolve_below [] climbless]
    exact isName_resolve (List.forall_mem_nil _) false fun _ => slash_not_mem_components
  -- The working directory is common to both places, so that the way does not depend on it.
  have isWay : wayTo (directoryOf workingDir importer) (placeOf workingDir imported) =
      wayTo (follow [] (directory importer)).reverse (follow [] imported).reverse := by
    rw [follow_directory] at inner ⊢
    rw [directoryOf, placeOf, fromHere, toHere, resolve_below _ inner, resolve_below _ climbless,
      wayTo, dropCommon_append]
    rfl
  have made : relative workingDir importer imported = .ok (spell _) :=
    relative_eq_ok.mpr ⟨some, rfl⟩
  rw [isWay] at made
  refine ⟨_, made, join_relative (directory_relative fromHere) (spell_relative _), ?_⟩
  have leads : follow [] (join (directory importer) (spell (wayTo
      (follow [] (directory importer)).reverse (follow [] imported).reverse))) =
      follow [] imported := by
    have arrives := foldl_wayTo (fun climbs => inner (List.mem_reverse.mp climbs)) names
    rw [List.reverse_reverse, List.reverse_reverse] at arrives
    rw [follow_join _ _ (spell_relative _), follow_spell (wayTo_clean names), arrives]
  rw [normalForm, normalForm, leads]

theorem relative_leads_to_imported_nested :
    ∃ path, relative ["home", "work"] "a/./b//../c/x.ts" "a//d/../.e/y.ts" = .ok path ∧
      path = "../.e/y.ts" ∧
      normalForm (join (directory "a/./b//../c/x.ts") path) = "a/.e/y.ts" := by
  have arrives {importer imported path : String} (some : imported ≠ "")
      (fromHere : isAbsolute importer = false) (toHere : isAbsolute imported = false)
      (fromBelow : ¬ Climbs importer) (toBelow : ¬ Climbs imported)
      (made : relative ["home", "work"] importer imported = .ok path) :
      normalForm (join (directory importer) path) = normalForm imported := by
    obtain ⟨other, isPath, _, arrives⟩ :=
      relative_leads_to_imported ["home", "work"] importer imported some fromHere toHere fromBelow
        toBelow
    cases made.symm.trans isPath
    exact arrives
  have made : relative ["home", "work"] "a/./b//../c/x.ts" "a//d/../.e/y.ts" =
      .ok "../.e/y.ts" := by rfl
  have normal : normalForm "a//d/../.e/y.ts" = "a/.e/y.ts" := by decide +kernel
  exact ⟨_, made, rfl, (arrives (by decide) (by decide) (by decide) (by decide +kernel)
    (by decide +kernel) made).trans normal⟩

section Specifiers

variable {name : String} {rest : List String}

theorem spell_cons (name : String) (rest : List String) :
    spell (name :: rest) =
      if Text.startsWith (Text.join "/" (name :: rest)) "." then Text.join "/" (name :: rest)
      else "./" ++ Text.join "/" (name :: rest) :=
  rfl

theorem toList_join (name next : String) (rest : List String) :
    (Text.join "/" (name :: next :: rest)).toList =
      name.toList ++ '/' :: (Text.join "/" (next :: rest)).toList := by
  rw [Text.join, String.toList_intercalate, Text.join, String.toList_intercalate]
  simp [List.intercalate_cons_cons]

/-- The text of names begins with the first of them. -/
theorem exists_toList_join (name : String) (rest : List String) :
    ∃ tail, (Text.join "/" (name :: rest)).toList = name.toList ++ tail := by
  cases rest with
  | nil => exact ⟨[], by simp [Text.join]⟩
  | cons next rest => exact ⟨_, toList_join name next rest⟩

theorem isRelative_up : IsRelative (spell (".." :: rest)) ↔ rest ≠ [] := by
  cases rest with
  | nil => decide
  | cons next rest =>
    refine iff_of_true ?_ (List.cons_ne_nil _ _)
    have letters := toList_join ".." next rest
    have dot : Text.startsWith (Text.join "/" (".." :: next :: rest)) "." = true := by
      rw [Text.startsWith, letters]
      rfl
    rw [spell_cons, if_pos dot, IsRelative, Text.startsWith, Text.startsWith, letters]
    exact .inr rfl

/-- A path is no relative specifier if its first name is a proper one. -/
theorem not_isRelative_of_name {path : String} {tail : List Char} (proper : IsName name)
    (letters : path.toList = name.toList ++ tail) : ¬ IsRelative path := by
  obtain ⟨some, noDot, noDots, clean⟩ := proper
  simp only [ne_eq, ← String.toList_inj] at some noDot noDots
  rw [IsRelative, Text.startsWith, Text.startsWith, letters]
  -- The second and third letters of the name, if there are any, are no slashes.
  generalize name.toList = spelt at some noDot noDots clean
  obtain _ | ⟨c, _ | ⟨d, _ | ⟨e, more⟩⟩⟩ := spelt <;> simp_all [eq_comm (a := '.')]

/-- A name that begins with a dot does not begin with a step, and nothing is put before it. -/
theorem isRelative_down (proper : IsName name) :
    IsRelative (spell (name :: rest)) ↔ ¬ Text.startsWith name "." = true := by
  obtain ⟨tail, letters⟩ := exists_toList_join name rest
  have isDotted : Text.startsWith (Text.join "/" (name :: rest)) "." =
      Text.startsWith name "." := by
    rw [Text.startsWith, Text.startsWith, letters]
    cases spelt : name.toList with
    | nil => exact absurd (String.toList_eq_nil_iff.mp spelt) proper.some
    | cons => rfl
  rw [spell_cons, isDotted]
  by_cases dot : Text.startsWith name "." = true
  · rw [if_pos dot]
    exact iff_of_false (not_isRelative_of_name proper letters) (not_not_intro dot)
  · rw [if_neg dot]
    refine iff_of_true (.inl ?_) dot
    simp [Text.startsWith]

/-- What the path of a module looks like is a matter of where it lies: it is a relative specifier
unless the place is masked. -/
theorem isRelative_iff {workingDir : List String} {importer imported path : String}
    (names : ∀ name ∈ workingDir, IsName name)
    (made : relative workingDir importer imported = .ok path) :
    IsRelative path ↔
      ¬ Masked (directoryOf workingDir importer) (placeOf workingDir imported) := by
  have isPath := (relative_eq_ok.mp made).2
  rw [isPath]
  have proper : ∀ name ∈ placeOf workingDir imported, IsName name :=
    isName_resolve names _ fun _ => slash_not_mem_components
  generalize directoryOf workingDir importer = start
  generalize placeOf workingDir imported = target at proper
  have isWay : ∀ common up down, wayTo (common ++ up) (common ++ down) =
      (dropCommon up down).1.map (fun _ => "..") ++ (dropCommon up down).2 := by
    intro common up down
    rw [wayTo, dropCommon_append]
  constructor
  · intro shown masked
    cases masked with
    | here same =>
      have still : wayTo start target = [] := by
        simpa [same, dropCommon] using isWay start [] []
      rw [still] at shown
      exact absurd shown (by decide)
    | above name isDirectory =>
      have up : wayTo start target = [".."] := by
        simpa [isDirectory, dropCommon] using isWay target [name] []
      rw [up, isRelative_up] at shown
      exact shown rfl
    | dotted name rest isPlace dot =>
      have down : wayTo start target = name :: rest := by
        simpa [isPlace, dropCommon] using isWay start [] (name :: rest)
      rw [down, isRelative_down (proper name (by simp [isPlace]))] at shown
      exact shown dot
  · intro visible
    obtain ⟨common, isStart, isTarget⟩ := exists_common start target
    rw [wayTo]
    generalize dropCommon start target = way at isStart isTarget
    obtain ⟨up, down⟩ := way
    dsimp only at isStart isTarget ⊢
    subst isStart isTarget
    obtain _ | ⟨name, _ | ⟨second, more⟩⟩ := up
    · obtain _ | ⟨step, rest⟩ := down
      · exact absurd (.here rfl) visible
      · refine (isRelative_down (proper step (by simp))).mpr fun dot => visible ?_
        exact .dotted step rest (by simp) dot
    · obtain _ | ⟨step, rest⟩ := down
      · exact absurd (.above name (by simp)) visible
      · exact isRelative_up.mpr (List.cons_ne_nil _ _)
    · exact isRelative_up.mpr (List.cons_ne_nil _ _)

end Specifiers

end SchemaPress.ModulePath
