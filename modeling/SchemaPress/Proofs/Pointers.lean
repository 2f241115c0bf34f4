import SchemaPress.Pointer
import SchemaPress.Proofs.Results

/-! Pointers and references as codecs. Decoding undoes encoding for all segments, and encoding
undoes decoding exactly for pointers in which every tilde starts an escape. A reference is accepted
exactly if it is the place of the definitions followed by one more segment that is not empty; no
escaped spelling of that place is another way to write it. What goes on after such a reference is
refused as nested, and everything else as unsupported. -/

namespace SchemaPress

namespace Pointer

variable {c : Char} {rest text segment : List Char}

/-- Every tilde is followed by a zero or a one. -/
def Escaped (text : List Char) : Prop :=
  ∀ before after, text = before ++ '~' :: after →
    after.head? = some '0' ∨ after.head? = some '1'

theorem escaped_nil : Escaped [] := by
  intro before after found
  exact absurd found.symm (List.append_ne_nil_of_right_ne_nil before (List.cons_ne_nil _ _))

theorem escaped_tilde :
    Escaped ('~' :: rest) ↔ (rest.head? = some '0' ∨ rest.head? = some '1') ∧ Escaped rest := by
  constructor
  · intro escaped
    refine ⟨escaped [] rest rfl, fun before after found => ?_⟩
    exact escaped ('~' :: before) after (congrArg ('~' :: ·) found)
  · rintro ⟨here, later⟩ before after found
    cases before with
    | nil =>
      obtain ⟨_, rfl⟩ := List.cons.inj found
      exact here
    | cons d before => exact later before after (List.cons.inj found).2

theorem escaped_cons (other : c ≠ '~') : Escaped (c :: rest) ↔ Escaped rest := by
  constructor
  · intro escaped before after found
    exact escaped (c :: before) after (congrArg (c :: ·) found)
  · intro later before after found
    cases before with
    | nil => exact absurd (List.cons.inj found).1 other
    | cons d before => exact later before after (List.cons.inj found).2

instance decidableEscaped : (text : List Char) → Decidable (Escaped text)
  | [] => .isTrue escaped_nil
  | c :: rest =>
    have := decidableEscaped rest
    if tilde : c = '~' then
      decidable_of_iff ((rest.head? = some '0' ∨ rest.head? = some '1') ∧ Escaped rest)
        (tilde ▸ escaped_tilde.symm)
    else decidable_of_iff (Escaped rest) (escaped_cons tilde).symm

/-- A slash is no part of an escape, so that texts around one are escaped each for itself. -/
theorem escaped_append_slash {left right : List Char} :
    Escaped (left ++ '/' :: right) ↔ Escaped left ∧ Escaped right := by
  induction left with
  | nil => simp [escaped_cons, escaped_nil]
  | cons c left ih =>
    by_cases tilde : c = '~'
    · subst tilde
      have next : (left ++ '/' :: right).head? = some '0' ∨
            (left ++ '/' :: right).head? = some '1' ↔
          left.head? = some '0' ∨ left.head? = some '1' := by
        cases left <;> simp
      rw [List.cons_append, escaped_tilde, escaped_tilde, ih, next, and_assoc]
    · rw [List.cons_append, escaped_cons tilde, escaped_cons tilde, ih]

theorem escaped_intercalate {pieces : List (List Char)} :
    Escaped (['/'].intercalate pieces) ↔ ∀ piece ∈ pieces, Escaped piece := by
  induction pieces with
  | nil => simp [escaped_nil]
  | cons piece pieces ih =>
    cases pieces with
    | nil => simp
    | cons next pieces =>
      rw [List.intercalate_cons_cons, List.append_assoc, List.singleton_append,
        escaped_append_slash, ih]
      exact List.forall_mem_cons.symm

theorem escape_cons (c : Char) (rest : List Char) :
    escape (c :: rest) = escapeChar c ++ escape rest :=
  rfl

theorem escapeChar_plain (noTilde : c ≠ '~') (noSlash : c ≠ '/') : escapeChar c = [c] := by
  rw [escapeChar, if_neg noTilde, if_neg noSlash]

theorem slash_not_mem_escape (segment : List Char) : '/' ∉ escape segment := by
  intro found
  obtain ⟨c, _, found⟩ := List.mem_flatMap.mp found
  rw [escapeChar] at found
  split at found
  · simp at found
  · split at found
    · simp at found
    · rename_i noSlash
      exact noSlash (List.mem_singleton.mp found).symm

/-- What does not start an escape is kept. -/
theorem unescape_cons (plain : c = '~' → rest.head? ≠ some '0' ∧ rest.head? ≠ some '1') :
    unescape (c :: rest) = c :: unescape rest := by
  rw [unescape]
  · rintro _ rfl rfl
    exact (plain rfl).2 rfl
  · rintro _ rfl rfl
    exact (plain rfl).1 rfl

theorem unescape_escape (segment : List Char) : unescape (escape segment) = segment := by
  induction segment with
  | nil => rfl
  | cons c rest ih =>
    by_cases tilde : c = '~'
    · subst tilde
      exact congrArg ('~' :: ·) ih
    by_cases slash : c = '/'
    · subst slash
      exact congrArg ('/' :: ·) ih
    · rw [escape_cons, escapeChar_plain tilde slash, List.singleton_append,
        unescape_cons fun isTilde => absurd isTilde tilde, ih]

/-- Escaping what was resolved gives the segment back exactly if each of its tildes starts an
escape. -/
theorem escape_unescape (noSlash : '/' ∉ segment) :
    escape (unescape segment) = segment ↔ Escaped segment := by
  fun_induction unescape segment with
  | case1 rest ih =>
    have later : '/' ∉ rest := fun found => noSlash (by simp [found])
    rw [escaped_tilde, escaped_cons (by decide), ← ih later]
    simp [escape_cons, escapeChar]
  | case2 rest ih =>
    have later : '/' ∉ rest := fun found => noSlash (by simp [found])
    rw [escaped_tilde, escaped_cons (by decide), ← ih later]
    simp [escape_cons, escapeChar]
  | case3 c rest notOne notZero ih =>
    obtain ⟨other, later⟩ := List.ne_and_not_mem_of_not_mem_cons noSlash
    by_cases tilde : c = '~'
    · subst tilde
      -- A lone tilde comes back as an escape, which it was not.
      have alone : ¬ (rest.head? = some '0' ∨ rest.head? = some '1') := by
        rintro (zero | one)
        · obtain ⟨_, rfl⟩ := List.head?_eq_some_iff.mp zero
          exact notZero _ rfl rfl
        · obtain ⟨_, rfl⟩ := List.head?_eq_some_iff.mp one
          exact notOne _ rfl rfl
      rw [escaped_tilde]
      refine iff_of_false (fun same => alone (.inl ?_)) fun escaped => alone escaped.1
      rw [← (List.cons.inj same).2]
      rfl
    · rw [escape_cons, escapeChar_plain tilde (Ne.symm other), escaped_cons tilde, ← ih later]
      simp
  | case4 => exact iff_of_true rfl escaped_nil

/-- A text without tildes and slashes has one spelling only. -/
theorem unescape_eq_plain (noTilde : '~' ∉ text) (noSlash : '/' ∉ text) :
    unescape segment = text ↔ segment = text := by
  fun_induction unescape segment generalizing text with
  | case1 rest =>
    refine iff_of_false ?_ ?_ <;> rintro rfl
    · simp at noSlash
    · simp at noTilde
  | case2 rest => refine iff_of_false ?_ ?_ <;> rintro rfl <;> simp at noTilde
  | case3 c rest _ _ ih =>
    cases text with
    | nil => simp
    | cons d text =>
      rw [List.cons.injEq, List.cons.injEq,
        ih (List.not_mem_of_not_mem_cons noTilde) (List.not_mem_of_not_mem_cons noSlash)]
  | case4 => exact Iff.rfl

/-- Puts a character in place of every occurrence of a pair of characters, from left to right. -/
def replacePair (first second new : Char) : List Char → List Char
  | c :: d :: rest =>
    if c = first ∧ d = second then new :: replacePair first second new rest
    else c :: replacePair first second new (d :: rest)
  | rest => rest

section ReplacePair

variable {first second new : Char}

theorem replacePair_cons (plain : c = first → rest.head? ≠ some second) :
    replacePair first second new (c :: rest) = c :: replacePair first second new rest := by
  cases rest with
  | nil => rfl
  | cons d rest =>
    rw [replacePair, if_neg]
    rintro ⟨isFirst, rfl⟩
    exact plain isFirst rfl

/-- Replacing pairs begins a text with no other character than its own first one or the new one. -/
theorem head?_replacePair (other : c ≠ new)
    (found : (replacePair first second new text).head? = some c) : text.head? = some c := by
  fun_cases replacePair first second new text with
  | case1 d e rest isPair =>
    rw [replacePair, if_pos isPair] at found
    exact absurd (Option.some.inj found).symm other
  | case2 d e rest noPair =>
    rw [replacePair, if_neg noPair] at found
    exact found
  | case3 text short =>
    rwa [replacePair] at found
    exact short

/-- Resolving escapes in one pass is to replace all that stand for a slash first, and those that
stand for a tilde then. -/
theorem unescape_eq_replacePair (segment : List Char) :
    unescape segment = replacePair '~' '0' '~' (replacePair '~' '1' '/' segment) := by
  fun_induction unescape segment with
  | case1 rest ih =>
    rw [replacePair, if_pos ⟨rfl, rfl⟩, replacePair_cons (by simp), ih]
  | case2 rest ih =>
    have zero : replacePair '~' '1' '/' ('0' :: rest) = '0' :: replacePair '~' '1' '/' rest :=
      replacePair_cons (by simp)
    rw [replacePair_cons (by simp), zero, replacePair, if_pos ⟨rfl, rfl⟩, ih]
  | case3 c rest notOne notZero ih =>
    have noSlash : c = '~' → rest.head? ≠ some '1' := by
      rintro rfl one
      obtain ⟨_, rfl⟩ := List.head?_eq_some_iff.mp one
      exact notOne _ rfl rfl
    have noTilde : c = '~' → (replacePair '~' '1' '/' rest).head? ≠ some '0' := by
      rintro rfl zero
      obtain ⟨_, rfl⟩ := List.head?_eq_some_iff.mp (head?_replacePair (by decide) zero)
      exact notZero _ rfl rfl
    rw [replacePair_cons noSlash, replacePair_cons noTilde, ih]
  | case4 => rfl

/-- In the other order, what an escaped tilde leaves is taken for the start of an escape. -/
example : replacePair '~' '1' '/' (replacePair '~' '0' '~' "~01".toList) = ['/'] := by decide

end ReplacePair

/-- Puts a text in place of every occurrence of a character. -/
def replaceChar (old : Char) (new text : List Char) : List Char :=
  text.flatMap fun c => if c = old then new else [c]

/-- Escaping in one pass is to replace all tildes first, and all slashes then. -/
theorem escape_eq_replaceChar (segment : List Char) :
    escape segment = replaceChar '/' ['~', '1'] (replaceChar '~' ['~', '0'] segment) := by
  rw [escape, replaceChar, replaceChar, List.flatMap_assoc]
  refine List.flatMap_congr fun c _ => ?_
  rw [escapeChar]
  split <;> simp

/-- The characters of a pointer: a slash before each segment and no other one. -/
theorem toList_encode {segments : List String} (nonempty : segments ≠ []) :
    (encode segments).toList =
      '/' :: ['/'].intercalate (segments.map fun segment => escape segment.toList) := by
  rw [encode, String.toList_ofList]
  induction segments with
  | nil => exact absurd rfl nonempty
  | cons segment segments ih =>
    cases segments with
    | nil => simp
    | cons next segments =>
      rw [List.flatMap_cons, ih (List.cons_ne_nil _ _)]
      simp [List.intercalate_cons_cons]

/-- What a pointer is cut into. -/
theorem decode_slash {pointer : String} (slash : pointer.toList = '/' :: rest) :
    decode pointer =
      .ok ((rest.splitOn '/').map fun segment => String.ofList (unescape segment)) := by
  simp only [decode, slash]

theorem decode_eq_ok {pointer : String} :
    (∃ segments, decode pointer = .ok segments) ↔
      pointer = "" ∨ pointer.toList.head? = some '/' := by
  rw [← String.toList_inj, decode]
  split
  · rename_i empty
    exact iff_of_true ⟨[], rfl⟩ (.inl empty)
  · rename_i slash
    exact iff_of_true ⟨_, rfl⟩ (.inr (by rw [slash]; rfl))
  · rename_i notEmpty notSlash
    refine iff_of_false (fun ⟨_, done⟩ => nomatch done) ?_
    rintro (empty | slash)
    · exact notEmpty empty
    · obtain ⟨rest, isSlash⟩ := List.head?_eq_some_iff.mp slash
      exact notSlash rest isSlash

theorem decode_encode (segments : List String) : decode (encode segments) = .ok segments := by
  by_cases none : segments = []
  · subst none
    rfl
  have clean : ∀ piece ∈ segments.map fun segment => escape segment.toList, '/' ∉ piece := by
    intro piece found
    obtain ⟨segment, _, rfl⟩ := List.mem_map.mp found
    exact slash_not_mem_escape _
  rw [decode_slash (toList_encode none), List.splitOn_intercalate _ clean (by simpa using none),
    List.map_map]
  simp [Function.comp_def, unescape_escape]

theorem slash_not_mem_piece {piece : List Char} (found : piece ∈ rest.splitOn '/') :
    '/' ∉ piece := by
  induction rest generalizing piece with
  | nil => simp_all
  | cons c rest ih =>
    rw [List.splitOn_cons_eq_if_modifyHead] at found
    split at found
    · rcases List.mem_cons.mp found with rfl | found
      · exact List.not_mem_nil
      · exact ih found
    · rename_i other
      cases cut : rest.splitOn '/' with
      | nil => exact absurd cut (List.splitOn_ne_nil _ _)
      | cons first pieces =>
        rw [cut] at found ih
        rcases List.mem_cons.mp found with rfl | found
        · have noSlash : c ≠ '/' := by simpa using other
          exact List.not_mem_cons_of_ne_of_not_mem noSlash.symm (ih List.mem_cons_self)
        · exact ih (List.mem_cons_of_mem _ found)

/-- A pointer is encoded to itself again exactly if all its pieces are. -/
theorem encode_decode {pointer : String} {segments : List String}
    (decoded : decode pointer = .ok segments) :
    encode segments = pointer ↔ Escaped pointer.toList := by
  rcases decode_eq_ok.mp ⟨segments, decoded⟩ with rfl | slash
  · cases decoded
    exact iff_of_true rfl escaped_nil
  obtain ⟨rest, isSlash⟩ := List.head?_eq_some_iff.mp slash
  rw [decode_slash isSlash] at decoded
  cases decoded
  let pieces := rest.splitOn '/'
  let again := pieces.map fun piece => escape (unescape piece)
  have nonempty : pieces ≠ [] := List.splitOn_ne_nil _ _
  have joined : ['/'].intercalate pieces = rest := List.intercalate_splitOn '/'
  have clean : ∀ piece ∈ again, '/' ∉ piece := by
    intro piece found
    obtain ⟨_, _, rfl⟩ := List.mem_map.mp found
    exact slash_not_mem_escape _
  calc encode (pieces.map fun piece => String.ofList (unescape piece)) = pointer
      ↔ ['/'].intercalate again = rest := by
        rw [← String.toList_inj, toList_encode (by simpa using nonempty), isSlash, List.map_map]
        simp [again, Function.comp_def]
    _ ↔ again = pieces := by
        constructor
        · intro same
          rw [← List.splitOn_intercalate '/' clean (by simpa [again] using nonempty), same]
        · intro same
          rw [same, joined]
    _ ↔ ∀ piece ∈ pieces, Escaped piece := by
        have each : again = pieces ↔ ∀ piece ∈ pieces, escape (unescape piece) = piece := by
          conv_lhs => rw [← List.map_id pieces]
          exact List.map_inj_left
        rw [each]
        exact forall₂_congr fun piece found => escape_unescape (slash_not_mem_piece found)
    _ ↔ Escaped pointer.toList := by
        rw [isSlash, escaped_cons (by decide), ← escaped_intercalate, joined]

/-- Pointers are a codec for lists of segments. A pointer has a slash before each segment, in which
tildes and then slashes are replaced by escapes. It is decoded if it is empty or starts with a
slash, into the pieces between slashes with the escapes for slashes and then those for tildes
replaced. What is encoded is decoded to itself, and encoding gives a decoded pointer back exactly if
each of its tildes is followed by a zero or a one. -/
theorem encode_decode_inverse :
    (∀ segments, encode segments = String.ofList (segments.flatMap fun segment =>
      '/' :: replaceChar '/' ['~', '1'] (replaceChar '~' ['~', '0'] segment.toList))) ∧
    (∀ segments, decode (encode segments) = .ok segments) ∧
    ∀ pointer : String,
      ((∃ segments, decode pointer = .ok segments) ↔
        pointer = "" ∨ pointer.toList.head? = some '/') ∧
      (∀ rest, pointer.toList = '/' :: rest →
        decode pointer = .ok ((rest.splitOn '/').map fun piece =>
          String.ofList (replacePair '~' '0' '~' (replacePair '~' '1' '/' piece)))) ∧
      ∀ segments, decode pointer = .ok segments →
        (encode segments = pointer ↔ Escaped pointer.toList) := by
  refine ⟨fun segments => ?_, decode_encode, fun pointer =>
    ⟨decode_eq_ok, fun rest slash => ?_, fun _ => encode_decode⟩⟩
  · simp only [encode, escape_eq_replaceChar]
  · simp only [decode_slash slash, unescape_eq_replacePair]

theorem encode_decode_inverse_lone_tilde :
    decode (encode ["a/b", "", "~1"]) = .ok ["a/b", "", "~1"] ∧
      ∃ segments, decode "/a~1b/~x" = .ok segments ∧ encode segments ≠ "/a~1b/~x" := by
  obtain ⟨_, inverse, pointers⟩ := encode_decode_inverse
  obtain ⟨accepted, _, again⟩ := pointers "/a~1b/~x"
  obtain ⟨segments, decoded⟩ := accepted.mpr (.inr (by decide))
  refine ⟨inverse _, segments, decoded, fun same => ?_⟩
  exact absurd ((again segments decoded).mp same) (by decide)

end Pointer

namespace Reference

open Pointer

variable {ref id : String}

/-- How every reference begins. -/
def start : String := "#/components/schemas/"

/-- A reference spells an id: what follows the place of the definitions is one segment, not empty,
that stands for the id. -/
def Spells (ref id : String) : Prop :=
  ∃ segment : String, ref = start ++ segment ∧ segment ≠ "" ∧ '/' ∉ segment.toList ∧
    id = String.ofList (unescape segment.toList)

/-- The pointer in a reference can be decoded. -/
theorem decode_pointer (rest : List Char) :
    ∃ segments, decode (String.ofList ('/' :: rest)) = .ok segments :=
  ⟨_, decode_slash String.toList_ofList⟩

/-- A reference is accepted exactly if its pointer leads to one more segment than the place of the
definitions, and that is not empty. -/
theorem toId_eq_ok :
    toId ref = .ok id ↔ id ≠ "" ∧ ∃ rest, ref.toList = '#' :: '/' :: rest ∧
      decode (String.ofList ('/' :: rest)) = .ok (definitionsPath ++ [id]) := by
  unfold toId
  split
  · rename_i rest isRef
    obtain ⟨segments, decoded⟩ := decode_pointer rest
    simp only [isRef, List.cons.injEq, true_and, exists_eq_left', decoded]
    rcases segments with _ | ⟨first, _ | ⟨second, _ | ⟨third, nested⟩⟩⟩
    · simp [bind, Except.bind, definitionsPath]
    · simp [bind, Except.bind, definitionsPath]
    · simp [bind, Except.bind, definitionsPath]
    · simp only [bind, Except.bind, definitionsPath]
      cases nested <;> grind [String.isEmpty_iff]
  · rename_i other
    refine iff_of_false (fun done => nomatch done) ?_
    rintro ⟨_, rest, isRef, _⟩
    exact other rest isRef

/-- The place of the definitions has one spelling as segments. -/
theorem pieces_of_place {pieces : List (List Char)} :
    (pieces.map fun piece => String.ofList (unescape piece)) = definitionsPath ++ [id] ↔
      ∃ segment, pieces = ["components".toList, "schemas".toList, segment] ∧
        id = String.ofList (unescape segment) := by
  have plain : ∀ (text : String) (piece : List Char), '~' ∉ text.toList → '/' ∉ text.toList →
      (String.ofList (unescape piece) = text ↔ piece = text.toList) := by
    intro text piece noTilde noSlash
    rw [← unescape_eq_plain noTilde noSlash, ← String.toList_inj, String.toList_ofList]
  rw [definitionsPath]
  rcases pieces with _ | ⟨first, _ | ⟨second, _ | ⟨segment, nested⟩⟩⟩
  · simp
  · simp
  · simp
  · have isFirst := plain "components" first (by decide) (by decide)
    have isSecond := plain "schemas" second (by decide) (by decide)
    simp only [List.map_cons, List.cons_append, List.nil_append, List.cons.injEq, isFirst, isSecond,
      List.map_eq_nil_iff]
    constructor
    · rintro ⟨rfl, rfl, rfl, rfl⟩
      exact ⟨segment, ⟨rfl, rfl, rfl, rfl⟩, rfl⟩
    · rintro ⟨_, ⟨rfl, rfl, rfl, rfl⟩, rfl⟩
      exact ⟨rfl, rfl, rfl, rfl⟩

theorem toList_start_append (segment : String) :
    (start ++ segment).toList =
      '#' :: '/' ::
        ("components".toList ++ '/' :: ("schemas".toList ++ '/' :: segment.toList)) := by
  rw [String.toList_append]
  rfl

theorem toId_eq_ok_iff_spells : toId ref = .ok id ↔ Spells ref id := by
  rw [toId_eq_ok]
  constructor
  · rintro ⟨nonempty, rest, isRef, decoded⟩
    rw [decode_slash String.toList_ofList, Except.ok.injEq, pieces_of_place] at decoded
    obtain ⟨segment, cut, rfl⟩ := decoded
    have joined : ['/'].intercalate (rest.splitOn '/') = rest := List.intercalate_splitOn '/'
    refine ⟨String.ofList segment, ?_, ?_, ?_, ?_⟩
    · rw [← String.toList_inj, toList_start_append, isRef, ← joined, cut, String.toList_ofList]
      simp [List.intercalate_cons_cons]
    · rintro empty
      rw [String.ofList_eq_empty_iff] at empty
      subst empty
      exact nonempty rfl
    · have inside : segment ∈ rest.splitOn '/' := by simp [cut]
      rw [String.toList_ofList]
      exact slash_not_mem_piece inside
    · rw [String.toList_ofList]
  · rintro ⟨segment, rfl, nonempty, single, rfl⟩
    refine ⟨?_, _, toList_start_append segment, ?_⟩
    · rw [Ne, String.ofList_eq_empty_iff, unescape_eq_plain List.not_mem_nil List.not_mem_nil]
      simpa using nonempty
    · rw [decode_slash String.toList_ofList, Except.ok.injEq, pieces_of_place,
        List.splitOn_append_cons_self_of_not_mem (by decide),
        List.splitOn_append_cons_self_of_not_mem (by decide), List.splitOn_eq_singleton single]
      exact ⟨_, rfl, rfl⟩

/-- A reference leads into a definition: it goes on after what spells an id. -/
def LeadsInto (ref : String) : Prop :=
  ∃ outer id inner, Spells outer id ∧ ref = outer ++ "/" ++ inner

/-- The pointer of a reference has further segments after a definition. -/
def IsNested (ref : String) : Prop :=
  ∃ rest id next others, ref.toList = '#' :: '/' :: rest ∧ id ≠ "" ∧
    decode (String.ofList ('/' :: rest)) = .ok (definitionsPath ++ id :: next :: others)

theorem isNested_of_leadsInto (leads : LeadsInto ref) : IsNested ref := by
  obtain ⟨outer, id, inner, spelt, rfl⟩ := leads
  obtain ⟨named, rest, isOuter, decoded⟩ := toId_eq_ok.mp (toId_eq_ok_iff_spells.mpr spelt)
  cases cut : inner.toList.splitOn '/' with
  | nil => exact absurd cut (List.splitOn_ne_nil _ _)
  | cons next others =>
    refine ⟨rest ++ '/' :: inner.toList, id, String.ofList (unescape next),
      others.map fun piece => String.ofList (unescape piece), by simp [isOuter], named, ?_⟩
    rw [decode_slash String.toList_ofList, Except.ok.injEq] at decoded ⊢
    rw [List.splitOn_append_cons_self, List.map_append, decoded, cut, List.append_assoc]
    rfl

/-- What is cut off after a definition leaves a reference to the definition. -/
theorem leadsInto_of_isNested (nested : IsNested ref) : LeadsInto ref := by
  obtain ⟨rest, id, next, others, isRef, named, decoded⟩ := nested
  rw [decode_slash String.toList_ofList, Except.ok.injEq] at decoded
  have parted : definitionsPath ++ id :: next :: others =
      (definitionsPath ++ [id]) ++ next :: others := by simp
  obtain ⟨front, back, cut, isFront, isBack⟩ := List.map_eq_append_iff.mp (decoded.trans parted)
  have clean : ∀ piece ∈ front ++ back, '/' ∉ piece := fun piece inside =>
    slash_not_mem_piece (cut ▸ inside)
  have whole (pieces : List (List Char)) (nonempty : pieces ≠ [])
      (inside : pieces ⊆ front ++ back) : (['/'].intercalate pieces).splitOn '/' = pieces :=
    List.splitOn_intercalate '/' (fun piece isPiece => clean piece (inside isPiece)) nonempty
  have frontWhole := whole front (by rintro rfl; cases isFront) (List.subset_append_left _ _)
  have backWhole := whole back (by rintro rfl; cases isBack) (List.subset_append_right _ _)
  have isRest : rest = ['/'].intercalate front ++ '/' :: ['/'].intercalate back := by
    have same : rest.splitOn '/' =
        (['/'].intercalate front ++ '/' :: ['/'].intercalate back).splitOn '/' := by
      rw [cut, List.splitOn_append_cons_self, frontWhole, backWhole]
    simpa only [List.intercalate_splitOn] using congrArg ['/'].intercalate same
  refine ⟨String.ofList ('#' :: '/' :: ['/'].intercalate front), id,
    String.ofList (['/'].intercalate back), ?_, ?_⟩
  · refine toId_eq_ok_iff_spells.mp (toId_eq_ok.mpr ⟨named, _, String.toList_ofList, ?_⟩)
    rw [decode_slash String.toList_ofList, frontWhole, isFront]
  · rw [← String.toList_inj, isRef, isRest]
    simp

theorem toId_of_isNested (nested : IsNested ref) : toId ref = .error (.nestedReference ref) := by
  obtain ⟨rest, id, next, others, isRef, named, decoded⟩ := nested
  have present : id.isEmpty = false := by simpa using named
  unfold toId
  simp only [isRef, decoded]
  simp [bind, Except.bind, definitionsPath, present]

/-- A reference that is not accepted is nested, or its format is not supported. -/
theorem nested_or_unsupported {failure : Failure} (failed : toId ref = .error failure) :
    IsNested ref ∨ failure = .unsupportedReference ref := by
  unfold toId at failed
  split at failed
  · rename_i rest isRef
    obtain ⟨segments, decoded⟩ := decode_pointer rest
    rw [decoded] at failed
    rcases segments with _ | ⟨first, _ | ⟨second, _ | ⟨third, nested⟩⟩⟩
    · cases failed
      exact .inr rfl
    · cases failed
      exact .inr rfl
    · cases failed
      exact .inr rfl
    · simp only [bind, Except.bind] at failed
      split at failed
      · cases failed
        exact .inr rfl
      · rename_i found
        simp only [Bool.or_eq_true, decide_eq_true_eq, not_or, not_not, String.isEmpty_iff] at found
        cases nested with
        | nil => cases failed
        | cons next others =>
          exact .inl ⟨rest, third, next, others, isRef, found.2, by rw [decoded, ← found.1]; rfl⟩
  · cases failed
    exact .inr rfl

/-- Why a reference is not accepted: it leads into a definition, or it neither does so nor spells an
id. -/
theorem toId_eq_error {failure : Failure} :
    toId ref = .error failure ↔
      (LeadsInto ref ∧ failure = .nestedReference ref) ∨
        (¬ LeadsInto ref ∧ (∀ id, ¬ Spells ref id) ∧ failure = .unsupportedReference ref) := by
  have inward (leads : LeadsInto ref) := toId_of_isNested (isNested_of_leadsInto leads)
  constructor
  · intro failed
    by_cases leads : LeadsInto ref
    · rw [inward leads] at failed
      exact .inl ⟨leads, (Except.error.inj failed).symm⟩
    · refine .inr ⟨leads, fun id spelt => ?_, ?_⟩
      · rw [toId_eq_ok_iff_spells.mpr spelt] at failed
        cases failed
      · exact (nested_or_unsupported failed).resolve_left fun nested =>
          leads (leadsInto_of_isNested nested)
  · rintro (⟨leads, rfl⟩ | ⟨outside, unspelt, rfl⟩)
    · exact inward leads
    · cases ended : toId ref with
      | ok id => exact absurd (toId_eq_ok_iff_spells.mp ended) (unspelt id)
      | error failure =>
        rcases nested_or_unsupported ended with nested | rfl
        · exact absurd (leadsInto_of_isNested nested) outside
        · rfl

/-- Whatever is wrong with a reference is its format. -/
theorem toId_error {failure : Failure} (failed : toId ref = .error failure) :
    failure.kind = .format := by
  rcases toId_eq_error.mp failed with ⟨_, rfl⟩ | ⟨_, _, rfl⟩
  · rfl
  · rfl

theorem toList_ofId (id : String) :
    (ofId id).toList = '#' :: (encode (definitionsPath ++ [id])).toList := by
  rw [ofId, String.toList_append]
  rfl

/-- References and ids stand for each other. A reference is accepted exactly if it spells an id in
one segment after the place of the definitions, and is otherwise refused for its format. The
reference to an id that is not empty is accepted with that id, and the reference to an accepted
one's id is that reference again if each of its tildes is followed by a zero or a one. -/
theorem toId_ofId_inverse :
    (∀ ref id, toId ref = .ok id ↔ Spells ref id) ∧
    (∀ ref, (∀ id, ¬ Spells ref id) → ∃ failure, toId ref = .error failure ∧
      failure.kind = .format) ∧
    (∀ id, id ≠ "" → toId (ofId id) = .ok id) ∧
    ∀ ref id, toId ref = .ok id → Escaped ref.toList → ofId id = ref := by
  refine ⟨fun _ _ => toId_eq_ok_iff_spells, fun ref unspelt => ?_, fun id nonempty => ?_,
    fun ref id accepted escaped => ?_⟩
  · cases ended : toId ref with
    | ok id => exact absurd (toId_eq_ok_iff_spells.mp ended) (unspelt id)
    | error failure => exact ⟨failure, rfl, toId_error ended⟩
  · have pointer := toList_encode (List.append_ne_nil_of_right_ne_nil definitionsPath
      (List.cons_ne_nil id []))
    refine toId_eq_ok.mpr ⟨nonempty, _, by rw [toList_ofId, pointer], ?_⟩
    rw [← pointer, String.ofList_toList]
    exact decode_encode _
  · obtain ⟨_, rest, isRef, decoded⟩ := toId_eq_ok.mp accepted
    rw [isRef, escaped_cons (by decide)] at escaped
    have again := (encode_decode decoded).mpr (by rwa [String.toList_ofList])
    rw [← String.toList_inj, toList_ofId, again, String.toList_ofList, isRef]

theorem toId_ofId_inverse_slash :
    toId "#/components/schemas/a~1b" = .ok "a/b" ∧ ofId "a/b" = "#/components/schemas/a~1b" ∧
      toId (ofId "a~1b") = .ok "a~1b" ∧
      ∃ failure, toId "#/components/schemas/a/b" = .error failure ∧ failure.kind = .format := by
  obtain ⟨accepts, refuses, inverse, again⟩ := toId_ofId_inverse
  have accepted : toId "#/components/schemas/a~1b" = .ok "a/b" :=
    (accepts _ _).mpr ⟨"a~1b", by decide, by decide, by decide, by decide⟩
  refine ⟨accepted, again _ _ accepted ?_, inverse _ (by decide), refuses _ ?_⟩
  · decide
  · rintro id ⟨segment, isRef, _, single, _⟩
    have isSegment : start ++ "a/b" = start ++ segment := isRef
    rw [← String.toList_inj, String.toList_append, String.toList_append,
      List.append_cancel_left_eq] at isSegment
    exact single (isSegment ▸ by decide)

end Reference

end SchemaPress
