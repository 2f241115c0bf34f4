import Mathlib.Data.List.Infix
import Mathlib.Logic.Relation
import SchemaPress.Proofs.CodeReferences

/-! The text of code. The texts of the pieces that code is put together from stand in its own text,
at any depth: the comments around a piece are trimmed, but no further than to the piece. So every
reference in code can be found in the text, as the bare identifier of its target or as the text that
suspends its target. -/

namespace SchemaPress

open Relation (ReflTransGen)

namespace Text

/-- A text stands somewhere in another. -/
def Within (piece text : String) : Prop :=
  piece.toList <:+: text.toList

/-- A text begins with a character that is not blank. -/
def Solid (text : String) : Prop :=
  ∃ letter rest, text.toList = letter :: rest ∧ isBlank letter = false

/-- A text does not begin with a blank. -/
def Firm (text : String) : Prop :=
  text = "" ∨ Solid text

/-- The characters that end a line of a script. -/
def isLineTerminator (letter : Char) : Bool :=
  letter = '\n' || letter = '\r' || letter.toNat = 0x2028 || letter.toNat = 0x2029

theorem occursIn_iff {piece letters : List Char} :
    occursIn piece letters = true ↔ piece <:+: letters := by
  induction letters with
  | nil => simp [occursIn]
  | cons letter rest ih => simp [occursIn, List.infix_cons_iff, ih]

theorem contains_iff {text piece : String} : contains text piece = true ↔ Within piece text :=
  occursIn_iff

variable {piece text other : String}

theorem Within.refl (text : String) : Within text text :=
  List.infix_rfl

theorem Within.trans (first : Within piece text) (second : Within text other) :
    Within piece other :=
  List.IsInfix.trans first second

theorem Within.after (within : Within piece text) (front : String) :
    Within piece (front ++ text) := by
  rw [Within, String.toList_append]
  exact List.IsInfix.trans within (List.suffix_append _ _).isInfix

theorem Within.before (within : Within piece text) (back : String) :
    Within piece (text ++ back) := by
  rw [Within, String.toList_append]
  exact List.IsInfix.trans within (List.prefix_append _ _).isInfix

theorem Solid.before (solid : Solid text) (back : String) : Solid (text ++ back) := by
  obtain ⟨letter, rest, isText, solid⟩ := solid
  exact ⟨letter, rest ++ back.toList, by rw [String.toList_append, isText]; rfl, solid⟩

theorem empty_within (text : String) : Within "" text :=
  List.nil_infix

theorem within_join (separator : String) {pieces : List String} (inside : piece ∈ pieces) :
    Within piece (join separator pieces) := by
  induction pieces with
  | nil => cases inside
  | cons first rest ih =>
    cases rest with
    | nil =>
      obtain rfl := List.mem_singleton.mp inside
      rw [join, String.intercalate_singleton]
      exact .refl _
    | cons next rest =>
      rw [join, String.intercalate_cons_cons]
      rcases List.mem_cons.mp inside with rfl | inside
      · exact ((Within.refl _).before _).before _
      · exact (ih inside).after _

theorem within_joinLines {entries : List String} {entry : String} (inside : entry ∈ entries)
    (within : Within piece entry) : Within piece (joinLines entries) := by
  by_cases empty : entry = ""
  · subst empty
    obtain rfl : piece = "" := String.toList_eq_nil_iff.mp (List.infix_nil.mp within)
    exact empty_within _
  · refine within.trans (within_join _ (List.mem_filter.mpr ⟨inside, ?_⟩))
    simpa using empty

/-- What is dropped from the front ends before any character that is to be kept. -/
theorem exists_dropWhile {test : Char → Bool} {letter : Char} (kept : test letter = false)
    (front back : List Char) :
    ∃ rest, (front ++ letter :: back).dropWhile test = rest ++ letter :: back := by
  induction front with
  | nil => exact ⟨[], by simp [kept]⟩
  | cons first front ih =>
    cases dropped : test first with
    | true => simpa [dropped] using ih
    | false => exact ⟨first :: front, by simp [dropped]⟩

theorem exists_dropBlanksRight {letter : Char} (solid : isBlank letter = false)
    (front back : List Char) :
    ∃ rest, dropBlanksRight (front ++ letter :: back) = front ++ letter :: rest := by
  obtain ⟨rest, dropped⟩ := exists_dropWhile solid back.reverse front.reverse
  exact ⟨rest.reverse, by simp [dropBlanksRight, dropped]⟩

/-- Trimming leaves what begins with no blank and has a comma after it. -/
theorem Within.trim (within : Within piece text) (firm : Firm piece) (front back : String) :
    Within piece (Text.trim (front ++ text ++ ", " ++ back)) := by
  rcases firm with rfl | ⟨letter, rest, isPiece, solid⟩
  · exact empty_within _
  · obtain ⟨before, after, isText⟩ := within
    have letters : (front ++ text ++ ", " ++ back).toList = (front.toList ++ before) ++
        letter :: (rest ++ after ++ ',' :: ' ' :: back.toList) := by
      have comma : (", " : String).toList = [',', ' '] := rfl
      simp [← isText, isPiece, comma]
    obtain ⟨kept, left⟩ := exists_dropWhile solid (front.toList ++ before)
      (rest ++ after ++ ',' :: ' ' :: back.toList)
    obtain ⟨ending, right⟩ := exists_dropBlanksRight (by decide : isBlank ',' = false)
      (kept ++ letter :: (rest ++ after)) (' ' :: back.toList)
    refine ⟨kept, after ++ ',' :: ending, ?_⟩
    rw [Text.trim, letters, left, String.toList_ofList, isPiece]
    simpa using right.symm

end Text

open Text

namespace Name

theorem isPart_eq (letter : Char) : isPart letter = (isStart letter || letter.isDigit) := by
  have wider : letter.isAlphanum = (letter.isAlpha || letter.isDigit) := rfl
  simp only [isPart, isStart, wider]
  ac_rfl

theorem isPart_of_isStart {letter : Char} (start : isStart letter = true) :
    isPart letter = true := by
  rw [isPart_eq, start, Bool.true_or]

theorem isPart_of_mem {letters : List Char} (reads : isIdentifier letters = true) :
    ∀ letter ∈ letters, isPart letter = true := by
  cases letters with
  | nil => cases reads
  | cons first rest =>
    obtain ⟨start, parts⟩ := Bool.and_eq_true_iff.mp reads
    intro letter inside
    rcases List.mem_cons.mp inside with rfl | inside
    · exact isPart_of_isStart start
    · exact List.all_eq_true.mp parts letter inside

theorem isPart_ascii {letter : Char} (part : isPart letter = true) : letter.toNat < 128 := by
  have ofBound {last : Char} (small : last.toNat < 128) (bound : letter.val ≤ last.val) :
      letter.toNat < 128 :=
    Nat.lt_of_le_of_lt (UInt32.le_iff_toNat_le.mp bound) small
  rcases Bool.or_eq_true_iff.mp part with part | underscore
  · rcases Bool.or_eq_true_iff.mp part with part | dollar
    · rcases Bool.or_eq_true_iff.mp part with part | digit
      · rcases Bool.or_eq_true_iff.mp part with upper | lower
        · exact ofBound (by decide : 'Z'.toNat < 128) (of_decide_eq_true upper).2
        · exact ofBound (by decide : 'z'.toNat < 128)
            (of_decide_eq_true (Bool.and_eq_true_iff.mp lower).2)
      · exact ofBound (by decide : '9'.toNat < 128)
          (of_decide_eq_true (Bool.and_eq_true_iff.mp digit).2)
    · obtain rfl := of_decide_eq_true dollar
      decide
  · obtain rfl := of_decide_eq_true underscore
    decide

theorem not_isBlank_of_isPart {letter : Char} (part : isPart letter = true) :
    isBlank letter = false := by
  have ascii : ∀ code < 128, isPart (Char.ofNat code) = true →
      isBlank (Char.ofNat code) = false := by decide
  have shown := ascii letter.toNat (isPart_ascii part)
  rw [Char.ofNat_toNat] at shown
  exact shown part

theorem start_of_readsAsIdentifier {letters : List Char}
    (reads : readsAsIdentifier letters = true) :
    ∃ letter rest, letters = letter :: rest ∧ isStart letter = true := by
  cases letters with
  | nil => cases reads
  | cons letter rest =>
    refine ⟨letter, rest, rfl, ?_⟩
    simp only [readsAsIdentifier, Bool.or_eq_true, Bool.and_eq_true] at reads
    rcases reads with reads | ⟨_, reads⟩
    · exact (Bool.and_eq_true_iff.mp reads).1
    · cases rest with
      | nil => cases reads
      | cons => exact (Bool.and_eq_true_iff.mp reads).1

/-- An identifier does not begin with a blank. It may be empty, or end with a line feed. -/
theorem identifier_firm (id : String) : Firm (identifier id) := by
  unfold identifier
  dsimp only
  split
  · rename_i reads
    obtain ⟨letter, rest, letters, start⟩ := start_of_readsAsIdentifier reads
    exact .inr ⟨letter, rest, letters, not_isBlank_of_isPart (isPart_of_isStart start)⟩
  · split
    · exact .inl rfl
    · rename_i letter rest kept
      have part : isPart letter = true :=
        (List.mem_filter.mp (kept ▸ List.mem_cons_self : letter ∈ id.toList.filter isPart)).2
      right
      split
      · exact ⟨'_', _, String.toList_ofList, by decide⟩
      · exact ⟨letter, rest, String.toList_ofList.trans kept, not_isBlank_of_isPart part⟩

end Name

/-- The pieces of code right inside a part of a merged object. -/
inductive Part.Holds : Part → Expr → Prop where
  | source {comments : Comments} {source : Expr} : Holds (.spread comments source) source
  | field {comments : Comments} {fields : List (Field Expr)} {field : Field Expr}
      (inside : field ∈ fields) : Holds (.fields comments fields) field.type

/-- The pieces of code right inside code. -/
inductive Expr.Holds : Expr → Expr → Prop where
  | items {items : Expr} {filters : List String} : Holds (.array items filters) items
  | value {value : Expr} : Holds (.record value) value
  | field {fields : List (Field Expr)} {further : Option Expr} {field : Field Expr}
      (inside : field ∈ fields) : Holds (.struct fields further) field.type
  | further {fields : List (Field Expr)} {further : Expr} :
      Holds (.struct fields (some further)) further
  | part {parts : List Part} {part : Part} {inner : Expr} (inside : part ∈ parts)
      (holds : part.Holds inner) : Holds (.merged parts) inner
  | extension {members : List (Commented Expr)} {member : Commented Expr}
      (inside : member ∈ members) : Holds (.extended members) member.item
  | member {members : List (Commented Expr)} {member : Commented Expr}
      (inside : member ∈ members) : Holds (.union members) member.item

section Pieces

variable {code inner : Expr} {piece : String}

theorem within_presence (presence : Presence) (type : String) :
    Within type (presence.render type) := by
  cases presence with
  | required => exact .refl _
  | optional nullable default? =>
    refine ((Within.after ?_ _).before _).before _
    cases nullable with
    | false => exact .refl _
    | true => exact ((Within.refl _).after _).before _

theorem within_line {α : Type} (field : Field α) {type : String} (within : Within piece type)
    (firm : Firm piece) (isFirst : Bool) : Within piece (field.line type isFirst) := by
  have trimmed (front : String) :
      Within piece (Text.trim (front ++ field.presence.render type ++ ", " ++
        field.comments.inline)) :=
    (within.trans (within_presence _ _)).trim firm _ _
  unfold Field.line
  dsimp only
  split
  · exact (trimmed _).after _
  · exact trimmed _

theorem within_renderFields {fields : List (Field Expr)} {field : Field Expr}
    (inside : field ∈ fields) (within : Within piece field.type.render) (firm : Firm piece)
    (isFirst : Bool) : ∃ line ∈ renderFields isFirst fields, Within piece line := by
  induction fields generalizing isFirst with
  | nil => cases inside
  | cons first rest ih =>
    rcases List.mem_cons.mp inside with rfl | inside
    · exact ⟨_, List.mem_cons_self, within_line _ within firm isFirst⟩
    · obtain ⟨line, isLine, within⟩ := ih inside false
      exact ⟨line, List.mem_cons_of_mem _ isLine, within⟩

theorem within_renderExtensions {members : List (Commented Expr)} {member : Commented Expr}
    (inside : member ∈ members) (within : Within piece member.item.render) (firm : Firm piece)
    (isFirst : Bool) : ∃ entry ∈ renderExtensions isFirst members, Within piece entry := by
  induction members generalizing isFirst with
  | nil => cases inside
  | cons first rest ih =>
    rcases List.mem_cons.mp inside with rfl | inside
    · refine ⟨_, List.mem_cons_self, Within.trim ?_ firm _ _⟩
      split
      · exact within
      · exact (within.after _).before _
    · obtain ⟨entry, isEntry, within⟩ := ih inside false
      exact ⟨entry, List.mem_cons_of_mem _ isEntry, within⟩

theorem within_renderMembers {members : List (Commented Expr)} {member : Commented Expr}
    (inside : member ∈ members) (within : Within piece member.item.render) (firm : Firm piece) :
    ∃ entry ∈ renderMembers members, Within piece entry := by
  induction members with
  | nil => cases inside
  | cons first rest ih =>
    rcases List.mem_cons.mp inside with rfl | inside
    · exact ⟨_, List.mem_cons_self, within.trim firm _ _⟩
    · obtain ⟨entry, isEntry, within⟩ := ih inside
      exact ⟨entry, List.mem_cons_of_mem _ isEntry, within⟩

theorem mem_renderParts {parts : List Part} {part : Part} (inside : part ∈ parts) :
    part.render ∈ renderParts parts := by
  induction parts with
  | nil => cases inside
  | cons first rest ih =>
    rcases List.mem_cons.mp inside with rfl | inside
    · exact List.mem_cons_self
    · exact List.mem_cons_of_mem _ (ih inside)

theorem Part.within_of_holds {part : Part} (holds : part.Holds inner)
    (within : Within piece inner.render) (firm : Firm piece) : Within piece part.render := by
  have last {first second third : String} : third ∈ [first, second, third] := by simp
  cases holds with
  | source => exact within_joinLines last ((within.after _).before _)
  | field inside =>
    obtain ⟨line, isLine, within⟩ := within_renderFields inside within firm true
    exact within_joinLines last (within.trans (within_join _ isLine))

/-- What stands in the text of a piece of code stands in the text of the code that the piece is
right inside of, if it begins with no blank. -/
theorem Expr.within_of_holds (holds : code.Holds inner) (within : Within piece inner.render)
    (firm : Firm piece) : Within piece code.render := by
  cases holds with
  | items => exact ((within.after _).before _).before _
  | value => exact (within.after _).before _
  | @field fields further field inside =>
    obtain ⟨line, isLine, within⟩ := within_renderFields inside within firm true
    have within := within.trans (within_join "\n" isLine)
    cases further with
    | none =>
      cases fields with
      | nil => cases inside
      | cons => exact (within.after _).before _
    | some => exact (((within.after _).before _).before _).before _
  | further => exact (within.after _).before _
  | part inside holds =>
    have within := within_joinLines (mem_renderParts inside)
      (Part.within_of_holds holds within firm)
    exact (within.after _).before _
  | extension inside =>
    obtain ⟨entry, isEntry, within⟩ := within_renderExtensions inside within firm true
    exact ((within_joinLines isEntry within).after _).before _
  | member inside =>
    obtain ⟨entry, isEntry, within⟩ := within_renderMembers inside within firm
    exact ((within_joinLines isEntry within).after _).before _

/-- The same at any depth. -/
theorem Expr.within_of_inside (inside : ReflTransGen Holds code inner)
    (within : Within piece inner.render) (firm : Firm piece) : Within piece code.render := by
  induction inside using ReflTransGen.head_induction_on with
  | refl => exact within
  | head holds _ ih => exact within_of_holds holds ih firm

end Pieces

section References

variable {id : String} {deferred : Bool}

mutual

/-- A reference in code is a piece of the code. -/
theorem Expr.inside_of_reference (code : Expr) (found : (id, deferred) ∈ code.references) :
    ReflTransGen Expr.Holds code (.reference id deferred) := by
  match code with
  | .verbatim _ | .filtered _ _ | .constants _ => cases found
  | .reference _ _ =>
    cases List.mem_singleton.mp found
    exact .refl
  | .array items _ => exact .head .items (items.inside_of_reference found)
  | .record value => exact .head .value (value.inside_of_reference found)
  | .struct fields none =>
    obtain ⟨field, inside, found⟩ := inside_of_fieldReference fields found
    exact .head (.field inside) found
  | .struct fields (some further) =>
    rcases List.mem_append.mp found with found | found
    · obtain ⟨field, inside, found⟩ := inside_of_fieldReference fields found
      exact .head (.field inside) found
    · exact .head .further (further.inside_of_reference found)
  | .merged parts =>
    obtain ⟨part, inside, inner, holds, found⟩ := inside_of_partReference parts found
    exact .head (.part inside holds) found
  | .extended members =>
    obtain ⟨member, inside, found⟩ := inside_of_memberReference members found
    exact .head (.extension inside) found
  | .union members =>
    obtain ⟨member, inside, found⟩ := inside_of_memberReference members found
    exact .head (.member inside) found

theorem inside_of_fieldReference (fields : List (Field Expr))
    (found : (id, deferred) ∈ fieldReferences fields) :
    ∃ field ∈ fields, ReflTransGen Expr.Holds field.type (.reference id deferred) := by
  match fields with
  | [] => cases found
  | ⟨name, heading, comments, presence, type⟩ :: rest =>
    rcases List.mem_append.mp found with found | found
    · exact ⟨_, List.mem_cons_self, type.inside_of_reference found⟩
    · obtain ⟨field, inside, found⟩ := inside_of_fieldReference rest found
      exact ⟨field, List.mem_cons_of_mem _ inside, found⟩

theorem inside_of_partReference (parts : List Part)
    (found : (id, deferred) ∈ partReferences parts) :
    ∃ part ∈ parts, ∃ inner, part.Holds inner ∧
      ReflTransGen Expr.Holds inner (.reference id deferred) := by
  match parts with
  | [] => cases found
  | part :: rest =>
    rcases List.mem_append.mp found with found | found
    · obtain ⟨inner, holds, found⟩ := part.inside_of_reference found
      exact ⟨part, List.mem_cons_self, inner, holds, found⟩
    · obtain ⟨part, inside, found⟩ := inside_of_partReference rest found
      exact ⟨part, List.mem_cons_of_mem _ inside, found⟩

theorem Part.inside_of_reference (part : Part) (found : (id, deferred) ∈ part.references) :
    ∃ inner, part.Holds inner ∧ ReflTransGen Expr.Holds inner (.reference id deferred) := by
  match part with
  | .spread _ source => exact ⟨source, .source, source.inside_of_reference found⟩
  | .fields _ fields =>
    obtain ⟨field, inside, found⟩ := inside_of_fieldReference fields found
    exact ⟨field.type, .field inside, found⟩

theorem inside_of_memberReference (members : List (Commented Expr))
    (found : (id, deferred) ∈ memberReferences members) :
    ∃ member ∈ members, ReflTransGen Expr.Holds member.item (.reference id deferred) := by
  match members with
  | [] => cases found
  | ⟨comments, item⟩ :: rest =>
    rcases List.mem_append.mp found with found | found
    · exact ⟨_, List.mem_cons_self, item.inside_of_reference found⟩
    · obtain ⟨member, inside, found⟩ := inside_of_memberReference rest found
      exact ⟨member, List.mem_cons_of_mem _ inside, found⟩

end

/-- A deferred reference is longer than the identifier of its target. -/
theorem reference_eq_identifier_iff {identifier : String} :
    Code.reference identifier deferred = identifier ↔ deferred = false := by
  cases deferred with
  | false => simp [Code.reference]
  | true =>
    have bracket : ")".length = 1 := rfl
    have longer : (Code.reference identifier true).length ≠ identifier.length := by
      simp only [Code.reference, ↓reduceIte, String.length_append]
      omega
    simp only [Bool.true_eq_false, iff_false]
    exact fun same => longer (congrArg String.length same)

theorem render_reference_iff :
    (Expr.reference id deferred).render = Name.identifier id ↔ deferred = false :=
  reference_eq_identifier_iff

/-- A definition as a value that is used only when it is needed, annotated with the local types of
the definition. -/
def Name.suspended (id : String) : String :=
  "S.suspend((): S.Schema<_" ++ identifier id ++ ", _" ++ identifier id ++ "Encoded> => " ++
    identifier id ++ ")"

theorem Name.suspended_ne_identifier (id : String) : suspended id ≠ identifier id := by
  intro same
  have longer : Code.reference (identifier id) true = identifier id := same
  cases reference_eq_identifier_iff.mp longer

theorem Name.suspended_firm (id : String) : Firm (suspended id) := by
  have opening : Solid "S.suspend((): S.Schema<_" := ⟨'S', _, rfl, by decide⟩
  exact .inr ((((((opening.before _).before _).before _).before _).before _).before _)

/-- The references in code, each as its target and the text that it is rendered as. -/
def Expr.citations (code : Expr) : List (String × String) :=
  code.references.map fun found => (found.1, (Expr.reference found.1 found.2).render)

variable {code : Expr} {text : String}

/-- A bare reference is rendered as the identifier of its target, a deferred one as the text that
suspends the target. -/
theorem Expr.mem_citations : (id, text) ∈ code.citations ↔
    text = Name.identifier id ∧ (id, false) ∈ code.references ∨
      text = Name.suspended id ∧ (id, true) ∈ code.references := by
  constructor
  · intro cited
    obtain ⟨⟨target, deferred⟩, found, same⟩ := List.mem_map.mp cited
    cases deferred with
    | false =>
      cases same
      exact .inl ⟨rfl, found⟩
    | true =>
      cases same
      exact .inr ⟨rfl, found⟩
  · rintro (⟨rfl, found⟩ | ⟨rfl, found⟩) <;> exact List.mem_map.mpr ⟨_, found, rfl⟩

theorem Expr.suspended_mem_citations :
    (id, Name.suspended id) ∈ code.citations ↔ (id, true) ∈ code.references := by
  simp [mem_citations, Name.suspended_ne_identifier]

theorem Expr.bare_iff_not_suspended (cited : (id, text) ∈ code.citations) :
    text = Name.identifier id ↔ text ≠ Name.suspended id := by
  rcases mem_citations.mp cited with ⟨rfl, _⟩ | ⟨rfl, _⟩
  · simp [(Name.suspended_ne_identifier id).symm]
  · simp [Name.suspended_ne_identifier id]

/-- The text of a reference stands in the text of all code that holds it. -/
theorem Expr.citation_within (cited : (id, text) ∈ code.citations) : Within text code.render := by
  rcases mem_citations.mp cited with ⟨rfl, found⟩ | ⟨rfl, found⟩
  · exact within_of_inside (code.inside_of_reference found) (.refl _) (Name.identifier_firm id)
  · exact within_of_inside (code.inside_of_reference found) (.refl _) (Name.suspended_firm id)

/-- The identifier of a definition stands in the text of all code with a reference to it. -/
theorem Expr.identifier_within (found : (id, deferred) ∈ code.references) :
    Within (Name.identifier id) code.render := by
  cases deferred with
  | false => exact citation_within (mem_citations.mpr (.inl ⟨rfl, found⟩))
  | true =>
    have named : Within (Name.identifier id) (Name.suspended id) :=
      ((Within.refl _).after _).before _
    exact named.trans (citation_within (mem_citations.mpr (.inr ⟨rfl, found⟩)))

end References

end SchemaPress
