import SchemaPress.Code.Comments
import SchemaPress.Proofs.CodeTexts

/-! Documentation as comments. What a description puts into a block comment ends the comment early
exactly if the description has the end of a comment in it, and a title leaves its line comment
exactly if it has a line terminator other than a line feed between its first and its last character
that is not blank. -/

namespace SchemaPress

namespace Text

variable {piece front back letters : List Char} {letter : Char}

theorem prefix_of_prefix_append_cons (absent : letter ∉ piece)
    (begins : piece <+: front ++ letter :: back) : piece <+: front := by
  induction front generalizing piece with
  | nil =>
    cases piece with
    | nil => exact List.prefix_rfl
    | cons first rest =>
      obtain ⟨rfl, _⟩ := List.cons_prefix_cons.mp begins
      exact absurd List.mem_cons_self absent
  | cons first front ih =>
    cases piece with
    | nil => exact List.nil_prefix
    | cons other rest =>
      obtain ⟨rfl, further⟩ := List.cons_prefix_cons.mp begins
      have later := ih (fun inside => absent (List.mem_cons_of_mem _ inside)) further
      exact List.cons_prefix_cons.mpr ⟨rfl, later⟩

/-- A piece stands on one side of a letter that is not in it. -/
theorem infix_append_cons_iff (absent : letter ∉ piece) :
    piece <:+: front ++ letter :: back ↔ piece <:+: front ∨ piece <:+: back := by
  constructor
  · intro inside
    induction front with
    | nil =>
      rcases List.infix_cons_iff.mp inside with begins | inside
      · exact .inl (prefix_of_prefix_append_cons absent begins).isInfix
      · exact .inr inside
    | cons first front ih =>
      rcases List.infix_cons_iff.mp inside with begins | inside
      · exact .inl (prefix_of_prefix_append_cons absent begins).isInfix
      · exact (ih inside).imp_left fun inside => List.infix_cons_iff.mpr (.inr inside)
  · rintro (inside | inside)
    · exact inside.trans (List.prefix_append _ _).isInfix
    · exact inside.trans ((List.suffix_cons _ _).trans (List.suffix_append _ _)).isInfix

/-- A piece occurs only at the end of a text if it does not occur without the last letter. -/
theorem only_at_end_iff (letter : Char) :
    (∀ before after, letters ++ [letter] = before ++ piece ++ after → after = []) ↔
      ¬ piece <:+: letters := by
  constructor
  · rintro atEnd ⟨before, after, inside⟩
    have last := atEnd before (after ++ [letter]) (by simp [← inside])
    exact List.append_ne_nil_of_right_ne_nil _ (List.cons_ne_nil _ _) last
  · intro absent before after inside
    rcases List.eq_nil_or_concat after with isNil | ⟨rest, last, isAfter⟩
    · exact isNil
    · subst isAfter
      have cut : letters ++ [letter] = (before ++ piece ++ rest) ++ [last] := by simp [inside]
      exact absurd ⟨before, rest, (List.append_inj_left' cut rfl).symm⟩ absent

theorem trim_within (text : String) : Within (trim text) text := by
  rw [Within, trim, String.toList_ofList, dropBlanksRight]
  have front : text.toList.dropWhile isBlank <:+ text.toList := List.dropWhile_suffix _
  have back : (text.toList.dropWhile isBlank).reverse.dropWhile isBlank <:+
      (text.toList.dropWhile isBlank).reverse := List.dropWhile_suffix _
  exact List.IsInfix.trans (List.reverse_suffix.mp (by simpa using back)).isInfix front.isInfix

/-- Trimming does not take anything from a piece that begins and ends with letters. -/
theorem within_trim_iff {piece text : String} {first last : Char} (middle : List Char)
    (letters : piece.toList = first :: middle ++ [last]) (solid : isBlank first = false)
    (firm : isBlank last = false) : Within piece (trim text) ↔ Within piece text := by
  constructor
  · exact fun within => within.trans (trim_within text)
  · rintro ⟨before, after, inside⟩
    obtain ⟨kept, left⟩ := exists_dropWhile solid before (middle ++ last :: after)
    obtain ⟨ending, right⟩ := exists_dropBlanksRight firm (kept ++ first :: middle) after
    refine ⟨kept, ending, ?_⟩
    have whole : text.toList = before ++ first :: (middle ++ last :: after) := by
      simp [← inside, letters]
    rw [trim, whole, left, String.toList_ofList, letters]
    simpa using right.symm

/-- A text with blanks in the place of its line feeds. -/
def unfolded (letters : List Char) : List Char :=
  letters.map fun letter => if letter = '\n' then ' ' else letter

theorem intercalate_splitOn (letters : List Char) :
    [' '].intercalate (letters.splitOn '\n') = unfolded letters := by
  induction letters with
  | nil => rfl
  | cons letter rest ih =>
    rw [List.splitOn_cons_eq_if_modifyHead]
    by_cases feed : letter = '\n'
    · subst feed
      rw [if_pos (beq_self_eq_true _), List.intercalate_cons_of_ne_nil (List.splitOn_ne_nil _ _), ih]
      rfl
    · rw [if_neg (by simpa using feed)]
      have kept : unfolded (letter :: rest) = letter :: unfolded rest := by simp [unfolded, feed]
      rw [kept, ← ih]
      cases cut : rest.splitOn '\n' with
      | nil => exact absurd cut (List.splitOn_ne_nil _ _)
      | cons first pieces => cases pieces <;> simp

theorem join_splitOn (text : String) :
    (join " " (splitOn '\n' text)).toList = unfolded text.toList := by
  have pieces : (splitOn '\n' text).map String.toList = text.toList.splitOn '\n' := by
    simp [splitOn, Function.comp_def]
  rw [join, String.toList_intercalate, pieces]
  exact intercalate_splitOn text.toList

theorem isBlank_unfolded :
    (isBlank ∘ fun letter => if letter = '\n' then ' ' else letter) = isBlank := by
  funext letter
  by_cases feed : letter = '\n'
  · subst feed
    rfl
  · simp [feed]

theorem dropWhile_unfolded : (unfolded letters).dropWhile isBlank =
    unfolded (letters.dropWhile isBlank) := by
  rw [unfolded, List.dropWhile_map, isBlank_unfolded]
  rfl

/-- A line feed is as blank as a blank. -/
theorem trim_unfolded {text folded : String} (isFolded : text.toList = unfolded folded.toList) :
    (trim text).toList = unfolded (trim folded).toList := by
  have reversed (letters : List Char) : (unfolded letters).reverse = unfolded letters.reverse :=
    List.map_reverse.symm
  simp only [trim, dropBlanksRight, String.toList_ofList, isFolded, dropWhile_unfolded, reversed]

end Text

namespace Script

/-- A text is a block comment, and the end of a comment occurs in it at its own end only. -/
def IsBlockComment (text : String) : Prop :=
  (∃ inner, text = "/*" ++ inner ++ "*/") ∧
    ∀ before after, text.toList = before ++ "*/".toList ++ after → after = []

/-- A text is a line comment, and no line ends in it. -/
def IsLineComment (text : String) : Prop :=
  (∃ inner, text = "//" ++ inner) ∧ ∀ letter ∈ text.toList, Text.isLineTerminator letter = false

end Script

namespace Comments

open Text Script

/-- The end of a comment is in the text of a block comment if it is in the description. -/
theorem blockText_ends_iff (description : String) (deprecated : Bool) :
    Within "*/" (blockText description deprecated) ↔ Within "*/" description := by
  have trimmed (text : String) : Within "*/" (trim text) ↔ Within "*/" text :=
    within_trim_iff [] rfl (by decide) (by decide)
  rw [blockText, trimmed, ← trimmed description]
  by_cases empty : trim description = ""
  · rw [empty, ← contains_iff, ← contains_iff]
    cases deprecated <;> decide
  · have given : (trim description).isEmpty = false := by simpa using empty
    cases deprecated with
    | false => simp [given, join]
    | true =>
      have lines : [trim description, "@deprecated"].filter (fun line => !line.isEmpty) =
          [trim description, "@deprecated"] := by simp [given]
      have mark : ¬ "*/".toList <:+: "@deprecated".toList := by
        rw [← occursIn_iff]
        decide
      have letters : (join "\n" [trim description, "@deprecated"]).toList =
          (trim description).toList ++ '\n' :: "@deprecated".toList := by
        simp [join]
      rw [if_pos rfl, lines, Within, letters, infix_append_cons_iff (by decide)]
      exact or_iff_left mark

/-- What is put into a block comment ends it only if the end of a comment is in it. -/
theorem isBlockComment_iff (text : String) :
    IsBlockComment ("/** " ++ text ++ " */") ↔ ¬ Within "*/" text := by
  have inner : "/** " ++ text ++ " */" = "/*" ++ ("* " ++ text ++ " ") ++ "*/" := by
    apply String.toList_inj.mp
    simp
  have letters : ("/** " ++ text ++ " */").toList =
      (['/', '*', '*'] ++ ' ' :: (text.toList ++ ' ' :: ['*'])) ++ ['/'] := by
    simp
  have bare : "*/".toList <:+: ['/', '*', '*'] ++ ' ' :: (text.toList ++ ' ' :: ['*']) ↔
      Within "*/" text := by
    have front : ¬ "*/".toList <:+: ['/', '*', '*'] := by
      rw [← occursIn_iff]
      decide
    have back : ¬ "*/".toList <:+: ['*'] := by
      rw [← occursIn_iff]
      decide
    rw [infix_append_cons_iff (by decide), infix_append_cons_iff (by decide), or_iff_right front]
    exact or_iff_left back
  rw [← bare, ← only_at_end_iff '/', ← letters]
  exact ⟨fun comment => comment.2, fun atEnd => ⟨⟨_, inner⟩, atEnd⟩⟩

theorem isLineComment_iff (text : String) :
    IsLineComment ("// " ++ text) ↔
      ∀ letter ∈ text.toList, Text.isLineTerminator letter = false := by
  have inner : "// " ++ text = "//" ++ (" " ++ text) := by
    rw [← String.append_assoc]
    rfl
  have letters : ("// " ++ text).toList = '/' :: '/' :: ' ' :: text.toList := by
    rw [String.toList_append]
    rfl
  constructor
  · intro comment letter inside
    apply comment.2
    rw [letters]
    simp [inside]
  · intro onLine
    refine ⟨⟨_, inner⟩, ?_⟩
    rw [letters]
    simp only [List.forall_mem_cons]
    exact ⟨rfl, rfl, rfl, onLine⟩

/-- A title stays on the line of its comment if line feeds, which are replaced, are the only line
terminators in it. -/
theorem inlineText_onLine_iff (title : String) :
    (∀ letter ∈ (inlineText title).toList, Text.isLineTerminator letter = false) ↔
      ∀ letter ∈ (trim title).toList, Text.isLineTerminator letter = true → letter = '\n' := by
  rw [inlineText, trim_unfolded (join_splitOn title), unfolded, List.forall_mem_map]
  refine forall₂_congr fun letter _ => ?_
  by_cases feed : letter = '\n'
  · subst feed
    simp [Text.isLineTerminator]
  · simp [feed]

end Comments

namespace Docs

open Script

/-- Documentation with a title and a description always has comments. Its description stays inside of
the block comment exactly if it does not hold the end of a comment, and its title on the line of the
line comment exactly if the only line terminators between its first and last letters are line
feeds. -/
theorem comments_contained_iff (title description : String) (deprecated : Bool) (format : Json) :
    ∃ comments, Docs.comments ⟨.str title, .str description, deprecated, format⟩ = .ok comments ∧
      ((comments.block = "" ∨ IsBlockComment comments.block) ↔ ¬ Text.Within "*/" description) ∧
      ((comments.inline = "" ∨ IsLineComment comments.inline) ↔
        ∀ letter ∈ (Text.trim title).toList, Text.isLineTerminator letter = true →
          letter = '\n') := by
  refine ⟨_, rfl, ?_, ?_⟩
  · rw [← Comments.blockText_ends_iff description deprecated]
    dsimp only [Comments.ofTexts]
    split
    · rename_i empty
      have absent : ¬ Text.Within "*/" "" := by
        rw [← Text.contains_iff]
        decide
      rw [String.isEmpty_iff.mp empty]
      exact iff_of_true (.inl rfl) absent
    · rw [← Comments.isBlockComment_iff]
      exact or_iff_right (by simp)
  · rw [← Comments.inlineText_onLine_iff]
    dsimp only [Comments.ofTexts]
    split
    · rename_i empty
      rw [String.isEmpty_iff.mp empty]
      simp
    · rw [← Comments.isLineComment_iff]
      exact or_iff_right (by simp)

/-- A description can end its comment, and a title can leave the line of its comment. -/
theorem documentation_leaves_comments :
    ∃ comments, Docs.comments ⟨.str "one\rtwo", .str "a */ b", false, .null⟩ = .ok comments ∧
      comments.block = "/** a */ b */" ∧ ¬ IsBlockComment comments.block ∧
      comments.inline = "// one\rtwo" ∧ ¬ IsLineComment comments.inline := by
  refine ⟨⟨"/** a */ b */", "// one\rtwo"⟩, eq_ok_of_toOption (by decide +kernel), rfl, ?_, rfl, ?_⟩
  · intro comment
    exact absurd (comment.2 "/** a ".toList " b */".toList rfl) (List.cons_ne_nil _ _)
  · intro comment
    exact absurd (comment.2 '\r' (by decide)) (by decide)

end Docs

end SchemaPress
