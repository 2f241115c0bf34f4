import SchemaPress.Proofs.PropertyKeys

/-! Identifiers of definitions. An id becomes an identifier of scripts exactly if it has a letter
that identifiers have and is not an identifier with a line feed after it. Such an id reads as an
identifier and is kept as it is, line feed included. Every other id is cleaned, and an identifier
that has been made once is not changed again. -/

namespace SchemaPress

namespace Script

/-- The letters that identifiers begin with. -/
def IsStart (letter : Char) : Prop :=
  'A' ≤ letter ∧ letter ≤ 'Z' ∨ 'a' ≤ letter ∧ letter ≤ 'z' ∨ letter = '$' ∨ letter = '_'

/-- The letters that identifiers consist of. -/
def IsPart (letter : Char) : Prop :=
  IsStart letter ∨ '0' ≤ letter ∧ letter ≤ '9'

/-- A text is an identifier. -/
def IsIdentifier (text : String) : Prop :=
  ∃ first rest, text.toList = first :: rest ∧ IsStart first ∧ ∀ letter ∈ rest, IsPart letter

end Script

namespace Name

variable {letter : Char} {id text : String}

theorem isUpper_iff : letter.isUpper = true ↔ 'A' ≤ letter ∧ letter ≤ 'Z' :=
  decide_eq_true_iff

theorem isLower_iff : letter.isLower = true ↔ 'a' ≤ letter ∧ letter ≤ 'z' :=
  Bool.and_eq_true_iff.trans (and_congr decide_eq_true_iff decide_eq_true_iff)

theorem isDigit_iff : letter.isDigit = true ↔ '0' ≤ letter ∧ letter ≤ '9' :=
  Bool.and_eq_true_iff.trans (and_congr decide_eq_true_iff decide_eq_true_iff)

theorem isStart_iff : isStart letter = true ↔ Script.IsStart letter := by
  have alpha : letter.isAlpha = (letter.isUpper || letter.isLower) := rfl
  simp only [isStart, alpha, Bool.or_eq_true, isUpper_iff, isLower_iff, decide_eq_true_eq,
    Script.IsStart, or_assoc]

theorem isPart_iff : isPart letter = true ↔ Script.IsPart letter := by
  rw [isPart_eq, Bool.or_eq_true, isStart_iff, isDigit_iff, Script.IsPart]

theorem isIdentifier_iff : isIdentifier text.toList = true ↔ Script.IsIdentifier text := by
  unfold Script.IsIdentifier
  cases text.toList with
  | nil => simp [isIdentifier]
  | cons first rest =>
    simp [isIdentifier, isStart_iff, isPart_iff]

/-- What reads as an identifier is one, or it is one with a line feed after it. -/
theorem readsAsIdentifier_iff :
    readsAsIdentifier id.toList = true ↔
      Script.IsIdentifier id ∨ ∃ word, Script.IsIdentifier word ∧ id = word ++ "\n" := by
  simp only [readsAsIdentifier, Bool.or_eq_true, Bool.and_eq_true, decide_eq_true_eq,
    isIdentifier_iff]
  refine or_congr_right ⟨?_, ?_⟩
  · rintro ⟨ending, isWord⟩
    obtain ⟨front, isId⟩ := List.getLast?_eq_some_iff.mp ending
    refine ⟨String.ofList front, isIdentifier_iff.mp ?_, ?_⟩
    · rw [isId, List.dropLast_concat] at isWord
      rwa [String.toList_ofList]
    · rw [← String.toList_inj, isId]
      simp
  · rintro ⟨word, isWord, rfl⟩
    have letters : (word ++ "\n").toList = word.toList ++ ['\n'] := by simp
    rw [letters, List.getLast?_concat, List.dropLast_concat]
    exact ⟨rfl, isIdentifier_iff.mpr isWord⟩

theorem identifier_of_reads (reads : readsAsIdentifier id.toList = true) : identifier id = id := by
  simp [identifier, reads]

/-- An id without any letter of identifiers has the empty text as identifier. -/
theorem identifier_eq_empty (absent : ∀ letter ∈ id.toList, ¬ isPart letter = true) :
    identifier id = "" := by
  have other : readsAsIdentifier id.toList = false := by
    rw [Bool.eq_false_iff]
    intro reads
    obtain ⟨first, rest, letters, start⟩ := start_of_readsAsIdentifier reads
    exact absent first (letters ▸ List.mem_cons_self) (isPart_of_isStart start)
  have kept : id.toList.filter isPart = [] := List.filter_eq_nil_iff.mpr absent
  simp [identifier, other, kept]

/-- Letters of identifiers make up an identifier if an underscore goes before a leading digit. -/
theorem isIdentifier_of_parts {first : Char} {rest : List Char}
    (parts : ∀ letter ∈ first :: rest, isPart letter = true) :
    isIdentifier (if first.isDigit then '_' :: first :: rest else first :: rest) = true := by
  have underscore : isStart '_' = true := rfl
  split
  · rw [isIdentifier, underscore, Bool.true_and]
    exact List.all_eq_true.mpr parts
  · rename_i other
    obtain ⟨here, later⟩ := List.forall_mem_cons.mp parts
    rw [isPart_eq, Bool.or_eq_true] at here
    exact Bool.and_eq_true_iff.mpr ⟨here.resolve_right other, List.all_eq_true.mpr later⟩

/-- An id that does not read as an identifier is cleaned to one if it has a letter of one. -/
theorem isIdentifier_identifier (other : readsAsIdentifier id.toList = false)
    (inside : letter ∈ id.toList) (part : isPart letter = true) :
    isIdentifier (identifier id).toList = true := by
  cases kept : id.toList.filter isPart with
  | nil => exact absurd part (List.filter_eq_nil_iff.mp kept letter inside)
  | cons first rest =>
    have parts : ∀ letter ∈ first :: rest, isPart letter = true := fun letter inside =>
      (List.mem_filter.mp (kept ▸ inside)).2
    have letters : (identifier id).toList =
        if first.isDigit then '_' :: first :: rest else first :: rest := by
      simp [identifier, other, kept]
    rw [letters]
    exact isIdentifier_of_parts parts

/-- The identifier of an id is an identifier of scripts exactly if the id has a letter of one and is
not an identifier with a line feed after it. In any case it is its own identifier. -/
theorem identifier_valid_iff (id : String) :
    (Script.IsIdentifier (identifier id) ↔
      (∃ letter ∈ id.toList, Script.IsPart letter) ∧
        ¬ ∃ word, Script.IsIdentifier word ∧ id = word ++ "\n") ∧
    identifier (identifier id) = identifier id := by
  simp only [← isPart_iff]
  cases reads : readsAsIdentifier id.toList with
  | true =>
    rw [identifier_of_reads reads]
    refine ⟨⟨fun valid => ⟨?_, ?_⟩, fun fit => ?_⟩, identifier_of_reads reads⟩
    · obtain ⟨first, rest, letters, start⟩ := start_of_readsAsIdentifier reads
      exact ⟨first, letters ▸ List.mem_cons_self, isPart_of_isStart start⟩
    · rintro ⟨word, _, rfl⟩
      have part := isPart_of_mem (isIdentifier_iff.mpr valid) '\n' (by simp)
      cases part
    · exact (readsAsIdentifier_iff.mp reads).resolve_right fit.2
  | false =>
    by_cases present : ∃ letter ∈ id.toList, isPart letter = true
    · obtain ⟨letter, inside, part⟩ := present
      have valid := isIdentifier_identifier reads inside part
      have unended : ¬ ∃ word, Script.IsIdentifier word ∧ id = word ++ "\n" := fun ended => by
        rw [readsAsIdentifier_iff.mpr (.inr ended)] at reads
        cases reads
      refine ⟨iff_of_true (isIdentifier_iff.mp valid) ⟨⟨letter, inside, part⟩, unended⟩, ?_⟩
      exact identifier_of_reads (Bool.or_eq_true_iff.mpr (.inl valid))
    · -- Nothing is kept, and there is nothing in the empty text to make an identifier of.
      have empty : identifier id = "" := identifier_eq_empty fun letter inside part =>
        present ⟨letter, inside, part⟩
      rw [empty]
      refine ⟨iff_of_false ?_ fun fit => present fit.1, by decide⟩
      rintro ⟨first, rest, letters, _⟩
      cases letters

/-- A line feed at the end of an id stays in its identifier, which no script can read then. -/
theorem ending_feed_invalid :
    (∃ letter ∈ "User\n".toList, Script.IsPart letter) ∧ identifier "User\n" = "User\n" ∧
      ¬ Script.IsIdentifier (identifier "User\n") := by
  refine ⟨⟨'U', by simp, isPart_iff.mp rfl⟩, by decide, ?_⟩
  rw [← isIdentifier_iff]
  decide

end Name

end SchemaPress
