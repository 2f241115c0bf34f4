import Mathlib.Data.List.Nodup
import Mathlib.Data.List.TakeWhile
import SchemaPress.Json.Literal
import SchemaPress.Json.Reader
import SchemaPress.Proofs.ReadSchemas

/-! Literals read back. The literal of a value without doubles, in whose objects every key stands
once, is read as that value, whatever the size of its integers, if their digits are not limited. So
different values have different literals. A literal is followed token by token: one that ends where
another character has to tell so, a word, is looked at when that character comes. -/

namespace SchemaPress.Json

/-- Something holds of a value and of all values in it. -/
inductive Throughout (holds : Json → Prop) : Json → Prop where
  | intro {value : Json} (here : holds value)
      (inside : ∀ part ∈ value.parts, Throughout holds part) : Throughout holds value

/-- A value is not a double, and not an object with a repeated key. -/
def IsPlain : Json → Prop
  | .double _ => False
  | .obj entries => (Table.keys entries).Nodup
  | _ => True

/-- An integer has no more digits than a limit allows. -/
def IsWithin (limit : Option Nat) : Json → Prop
  | .int n => ∀ most ∈ limit, (Nat.toDigits 10 n.natAbs).length ≤ most
  | _ => True

variable {limit : Option Nat} {state next last : Scan × Reading} {before between after : Reading}
  {letter : Char} {letters others : List Char} {value : Json} {stack : List Frame}

section Scanning

/-- The reading that a text leaves if a token ends with it. -/
def settle (limit : Option Nat) : Scan × Reading → Except ReadFault Reading
  | (.between, reading) => .ok reading
  | (.word chars, reading) => endWord limit chars reading
  | _ => .error .malformed

theorem scan_of_settled (settled : settle limit state = .ok after)
    (ends : isWordChar letter = false) :
    scan limit state letter = scan limit (.between, after) letter := by
  obtain ⟨mark, reading⟩ := state
  cases mark with
  | between =>
    cases settled
    rfl
  | word chars =>
    have ended : endWord limit chars reading = .ok after := settled
    simp only [scan, ends, ended]
    rfl
  | quote | escape | code => cases settled

theorem conclude_of_settled (settled : settle limit state = .ok after) :
    conclude limit state = demand after.value? := by
  obtain ⟨mark, reading⟩ := state
  cases mark with
  | between =>
    cases settled
    rfl
  | word chars =>
    have ended : endWord limit chars reading = .ok after := settled
    simp only [conclude, ended]
    rfl
  | quote | escape | code => cases settled

/-- Letters lead from one state of a scan to another. -/
def Scans (limit : Option Nat) (state : Scan × Reading) (letters : List Char)
    (last : Scan × Reading) : Prop :=
  letters.foldlM (scan limit) state = .ok last

theorem scans_nil (state : Scan × Reading) : Scans limit state [] state := rfl

theorem scans_cons (scanned : scan limit state letter = .ok next)
    (later : Scans limit next letters last) : Scans limit state (letter :: letters) last := by
  rw [Scans, List.foldlM_cons, scanned]
  exact later

theorem Scans.append (first : Scans limit state letters next)
    (later : Scans limit next others last) : Scans limit state (letters ++ others) last := by
  rw [Scans, List.foldlM_append, first]
  exact later

/-- Letters that end with a token lead from one reading to another. -/
def Leads (limit : Option Nat) (before : Reading) (letters : List Char) (after : Reading) : Prop :=
  ∃ state, Scans limit (.between, before) letters state ∧ settle limit state = .ok after

/-- After a token comes a letter that does not belong to it. -/
theorem Leads.append (first : Leads limit before letters between)
    (later : Leads limit between (letter :: others) after) (ends : isWordChar letter = false) :
    Leads limit before (letters ++ letter :: others) after := by
  obtain ⟨middle, scanned, settled⟩ := first
  obtain ⟨state, rest, done⟩ := later
  refine ⟨state, scanned.append ?_, done⟩
  rw [Scans, List.foldlM_cons, scan_of_settled settled ends]
  exact rest

theorem punctuation_apart {token : Token} (isToken : punctuation? letter = some token) :
    isSpace letter = false ∧ letter ≠ '"' ∧ isWordChar letter = false := by
  have brace (code : Nat) (isCode : letter.toNat = code) : letter = Char.ofNat code := by
    rw [← isCode, Char.ofNat_toNat]
  unfold punctuation? at isToken
  split_ifs at isToken with listOpens listCloses objectOpens objectCloses comma colon
  · subst listOpens
    decide
  · subst listCloses
    decide
  · rw [brace _ objectOpens]
    decide
  · rw [brace _ objectCloses]
    decide
  · subst comma
    decide
  · subst colon
    decide

/-- A punctuation token is complete with its letter. -/
theorem leads_punctuation {token : Token} (isToken : punctuation? letter = some token)
    (taken : before.take token = some between) (later : Leads limit between letters after) :
    Leads limit before (letter :: letters) after := by
  obtain ⟨state, rest, done⟩ := later
  obtain ⟨space, quote, word⟩ := punctuation_apart isToken
  have scanned : scan limit (.between, before) letter = .ok (.between, between) := by
    rw [scan, scanBetween, if_neg (Bool.eq_false_iff.mp space), if_neg quote,
      if_neg (Bool.eq_false_iff.mp word), isToken]
    show (advance before token).bind _ = _
    rw [advance, taken]
    rfl
  exact ⟨state, scans_cons scanned rest, done⟩

theorem Leads.punctuation {token : Token} {next : Reading} (first : Leads limit before letters between)
    (isToken : punctuation? letter = some token) (taken : between.take token = some next)
    (later : Leads limit next others after) : Leads limit before (letters ++ letter :: others) after :=
  first.append (leads_punctuation isToken taken later) (punctuation_apart isToken).2.2

theorem leads_nil (reading : Reading) : Leads limit reading [] reading :=
  ⟨_, scans_nil _, rfl⟩

end Scanning

section Values

/-- A reading waits for a value. -/
def Reading.Awaits (reading : Reading) (stack : List Frame) : Prop :=
  reading = .expecting .value stack ∨ reading = .expecting .firstItem stack

/-- Whether a value can be delivered does not depend on the value. -/
theorem exists_deliver (delivered : Reading.deliver value stack = some after) (other : Json) :
    ∃ reading, Reading.deliver other stack = some reading := by
  cases stack with
  | nil => exact ⟨_, rfl⟩
  | cons frame stack =>
    cases frame with
    | list | entry => exact ⟨_, rfl⟩
    | object => cases delivered

theorem word_apart (inWord : isWordChar letter = true) :
    isSpace letter = false ∧ letter ≠ '"' := by
  constructor
  · by_contra space
    have blank := Bool.of_not_eq_false space
    simp only [isSpace, Bool.or_eq_true, decide_eq_true_eq] at blank
    rcases blank with ((rfl | rfl) | rfl) | rfl <;> cases inWord
  · rintro rfl
    cases inWord

theorem scans_word (wordly : ∀ letter ∈ letters, isWordChar letter = true) (read : List Char) :
    Scans limit (.word read, before) letters (.word (letters.reverse ++ read), before) := by
  induction letters generalizing read with
  | nil => exact scans_nil _
  | cons letter rest ih =>
    have here := wordly letter List.mem_cons_self
    have later := ih (fun other inside => wordly other (List.mem_cons_of_mem _ inside))
      (letter :: read)
    rw [List.reverse_cons, List.append_assoc]
    exact scans_cons (by simp only [scan, here]; rfl) later

/-- A word is delivered as the value that it stands for, once it has ended. -/
theorem leads_word (awaits : before.Awaits stack) (given : letters ≠ [])
    (wordly : ∀ letter ∈ letters, isWordChar letter = true) (means : word limit letters = .ok value)
    (delivered : Reading.deliver value stack = some after) : Leads limit before letters after := by
  obtain ⟨other, possible⟩ := exists_deliver delivered .null
  cases letters with
  | nil => exact absurd rfl given
  | cons letter rest =>
    have here := wordly letter List.mem_cons_self
    have started : scan limit (.between, before) letter = .ok (.word [letter], before) := by
      obtain ⟨space, quote⟩ := word_apart here
      rw [scan, scanBetween, if_neg (Bool.eq_false_iff.mp space), if_neg quote, if_pos here]
    refine ⟨_, scans_cons started (scans_word (fun other inside =>
      wordly other (List.mem_cons_of_mem _ inside)) _), ?_⟩
    have taken (token : Json) (reading : Reading)
        (isTaken : Reading.deliver token stack = some reading) :
        advance before (.scalar token) = .ok reading := by
      rcases awaits with rfl | rfl
      · exact congrArg demand isTaken
      · exact congrArg demand isTaken
    show endWord limit (rest.reverse ++ [letter]) before = _
    rw [← List.reverse_cons, endWord, taken _ _ possible, List.reverse_reverse, means]
    exact taken _ _ delivered

theorem eq_zero_of_head_toDigits {n : Nat} (leading : (Nat.toDigits 10 n).head? = some '0') :
    n = 0 := by
  induction n using Nat.strongRecOn with
  | ind n ih =>
    rcases Nat.lt_or_ge n 10 with small | large
    · rw [Nat.toDigits_of_lt_base small] at leading
      have digits : ∀ n < 10, [Nat.digitChar n].head? = some '0' → n = 0 := by decide
      exact digits n small leading
    · rw [Nat.toDigits_of_base_le (by omega) large,
        List.head?_append_of_ne_nil _ Nat.toDigits_ne_nil] at leading
      have front := ih (n / 10) (by omega) leading
      omega

theorem isDigit_toDigits (n : Nat) : ∀ letter ∈ Nat.toDigits 10 n, letter.isDigit = true :=
  fun _ inside => Nat.isDigit_of_mem_toDigits (by omega) (by omega) inside

/-- The digits of a number are read as the number. -/
theorem unsigned_toDigits {n : Nat} (short : ∀ most ∈ limit, (Nat.toDigits 10 n).length ≤ most)
    (negative : Bool) :
    unsigned limit negative (Nat.toDigits 10 n) = .ok (.int (if negative then -n else n)) := by
  have whole := List.takeWhile_eq_self_iff.mpr (isDigit_toDigits n)
  have rest := List.dropWhile_eq_nil_iff.mpr (isDigit_toDigits n)
  have given : (Nat.toDigits 10 n).isEmpty = false := by simp [Nat.toDigits_ne_nil]
  have leading : ((Nat.toDigits 10 n).head? = some '0' && 1 < (Nat.toDigits 10 n).length) =
      false := by
    rw [Bool.and_eq_false_iff]
    by_cases zero : (Nat.toDigits 10 n).head? = some '0'
    · obtain rfl := eq_zero_of_head_toDigits zero
      right
      decide
    · left
      simpa using zero
  have fits : limit.any (· < (Nat.toDigits 10 n).length) = false := by
    cases limit with
    | none => rfl
    | some most => simpa using short most rfl
  have number : digitsValue (Nat.toDigits 10 n) = n := Nat.ofDigitChars_ten_toDigits
  have isNumber : number? negative (Nat.toDigits 10 n) [] =
      some (.int (if negative then -digitsValue (Nat.toDigits 10 n)
        else digitsValue (Nat.toDigits 10 n))) := rfl
  rw [number] at isNumber
  rw [unsigned]
  simp [whole, rest, given, leading, fits, isNumber]

/-- Digits are none of the words, with or without a sign before them. -/
theorem word_digits (digits : ∀ letter ∈ letters, letter.isDigit = true) :
    word limit letters = unsigned limit false letters ∧
      word limit ('-' :: letters) = unsigned limit true letters := by
  have apart (text : List Char) (other : text.all Char.isDigit = false) : letters ≠ text := by
    rintro rfl
    exact Bool.eq_false_iff.mp other (List.all_eq_true.mpr digits)
  constructor
  · unfold word
    rw [if_neg (apart _ rfl), if_neg (apart _ rfl), if_neg (apart _ rfl),
      if_neg (apart _ rfl), if_neg (apart _ rfl), if_neg (apart _ rfl)]
    split
    · exact absurd rfl (apart _ rfl)
    · rfl
  · have infinite : '-' :: letters ≠ "-Infinity".toList := fun same =>
      apart "Infinity".toList rfl (List.cons.inj same).2
    unfold word
    rw [if_neg (by simp), if_neg (by simp), if_neg (by simp), if_neg (by simp),
      if_neg (by simp), if_neg infinite]
    rfl

theorem integerText_letters (n : Int) : (integerText n).toList =
    if n < 0 then '-' :: Nat.toDigits 10 n.natAbs else Nat.toDigits 10 n.natAbs := by
  unfold integerText
  dsimp only
  split <;> simp

theorem word_integerText {n : Int} (short : IsWithin limit (.int n)) :
    word limit (integerText n).toList = .ok (.int n) := by
  rw [integerText_letters]
  split
  · rename_i negative
    have back : -(n.natAbs : Int) = n := by omega
    rw [(word_digits (isDigit_toDigits _)).2, unsigned_toDigits short, if_pos rfl, back]
  · rename_i positive
    have back : (n.natAbs : Int) = n := by omega
    rw [(word_digits (isDigit_toDigits _)).1, unsigned_toDigits short, if_neg Bool.false_ne_true,
      back]

theorem isWordChar_of_isDigit (digit : letter.isDigit = true) : isWordChar letter = true := by
  have wider : letter.isAlphanum = (letter.isAlpha || letter.isDigit) := rfl
  simp [isWordChar, wider, digit]

theorem integerText_wordly (n : Int) :
    (integerText n).toList ≠ [] ∧ ∀ letter ∈ (integerText n).toList, isWordChar letter = true := by
  have digits : ∀ letter ∈ Nat.toDigits 10 n.natAbs, isWordChar letter = true := fun letter inside =>
    isWordChar_of_isDigit (isDigit_toDigits n.natAbs letter inside)
  rw [integerText_letters]
  split
  · exact ⟨List.cons_ne_nil _ _, List.forall_mem_cons.mpr ⟨rfl, digits⟩⟩
  · exact ⟨Nat.toDigits_ne_nil, digits⟩

end Values

section Texts

variable {units : List Nat}

theorem scan_code {value count digit : Nat} (isDigit : hexDigit? letter = some digit) :
    scan limit (.code units value count, before) letter =
      if count = 3 then .ok (.quote ((16 * value + digit) :: units), before)
      else .ok (.code units (16 * value + digit) (count + 1), before) := by
  show (demand (hexDigit? letter)).bind _ = _
  rw [isDigit]
  rfl

/-- The escape of a control character is read as its code point. -/
theorem scans_hexadecimal {code : Nat} (control : code < 0x20) :
    Scans limit (.code units 0 0, before) (Text.hexadecimal 4 code)
      (.quote (code :: units), before) := by
  have digits : ∀ code < 0x20, (Text.hexadecimal 4 code).map hexDigit? =
      [some 0, some 0, some (code / 16), some (code % 16)] := by decide
  obtain ⟨first, rest, letters, isFirst, isRest⟩ := List.map_eq_cons_iff.mp (digits code control)
  obtain ⟨second, rest, rfl, isSecond, isRest⟩ := List.map_eq_cons_iff.mp isRest
  obtain ⟨third, rest, rfl, isThird, isRest⟩ := List.map_eq_cons_iff.mp isRest
  obtain ⟨fourth, rest, rfl, isFourth, isRest⟩ := List.map_eq_cons_iff.mp isRest
  obtain rfl := List.map_eq_nil_iff.mp isRest
  have whole : 16 * (0 + code / 16) + code % 16 = code := by omega
  rw [letters]
  refine scans_cons (scan_code isFirst) (scans_cons (scan_code isSecond) ?_)
  refine scans_cons (scan_code isThird) (scans_cons (scan_code isFourth) ?_)
  rw [whole]
  exact scans_nil _

/-- Inside a text, what stands for a character is read as its code point. -/
theorem scans_literalChar (letter : Char) :
    Scans limit (.quote units, before) (literalChar letter)
      (.quote (letter.toNat :: units), before) := by
  unfold literalChar
  split_ifs with quote backslash feed carriage tab back form control
  · subst quote
    rfl
  · subst backslash
    rfl
  · subst feed
    rfl
  · subst carriage
    rfl
  · subst tab
    rfl
  · subst back
    rfl
  · subst form
    rfl
  · exact scans_cons rfl (scans_cons rfl (scans_hexadecimal control))
  · refine scans_cons ?_ (scans_nil _)
    rw [scan, if_neg quote, if_neg backslash, if_neg control]

/-- A character is not half of a surrogate pair. -/
theorem toNat_apart (letter : Char) : ¬ (0xD800 ≤ letter.toNat ∧ letter.toNat ≤ 0xDFFF) := by
  have valid : letter.toNat < 0xD800 ∨ 0xDFFF < letter.toNat ∧ letter.toNat < 0x110000 :=
    letter.valid
  omega

theorem unitsText_cons (letter : Char) (units : List Nat) :
    unitsText (letter.toNat :: units) = letter :: unitsText units := by
  have apart := toNat_apart letter
  have here : unitChar letter.toNat = letter := by
    rw [unitChar, if_neg apart, Char.ofNat_toNat]
  cases units with
  | nil => exact congrArg (· :: []) here
  | cons low rest =>
    rw [unitsText, if_neg (by omega), here]

theorem unitsText_toNat (letters : List Char) : unitsText (letters.map Char.toNat) = letters := by
  induction letters with
  | nil => rfl
  | cons letter rest ih => rw [List.map_cons, unitsText_cons, ih]

theorem scans_literalChars (letters : List Char) :
    Scans limit (.quote units, before) (letters.flatMap literalChar)
      (.quote ((letters.map Char.toNat).reverse ++ units), before) := by
  induction letters generalizing units with
  | nil => exact scans_nil _
  | cons letter rest ih =>
    rw [List.flatMap_cons, List.map_cons, List.reverse_cons, List.append_assoc]
    exact (scans_literalChar letter).append ih

/-- The literal of a text is read as the text. -/
theorem leads_literalText {text : String} (taken : before.take (.text text) = some after) :
    Leads limit before (literalText text).toList after := by
  have closed : scan limit (.quote ((text.toList.map Char.toNat).reverse ++ []), before) '"' =
      .ok (.between, after) := by
    rw [scan, if_pos rfl, List.append_nil, List.reverse_reverse, unitsText_toNat,
      String.ofList_toList, advance, taken]
    rfl
  rw [literalText, String.toList_ofList]
  refine ⟨(.between, after), ?_, rfl⟩
  exact scans_cons rfl ((scans_literalChars text.toList).append (scans_cons closed (scans_nil _)))

end Texts

section Collections

/-- Wherever a value may stand, its literal is read as the value. -/
def ReadsBack (limit : Option Nat) (value : Json) : Prop :=
  ∀ ⦃before : Reading⦄ ⦃stack : List Frame⦄ ⦃after : Reading⦄, before.Awaits stack →
    Reading.deliver value stack = some after → Leads limit before value.literal.toList after

theorem literalItems_eq (items : List Json) : literalItems items = items.map literal := by
  induction items with
  | nil => rfl
  | cons item items ih => rw [literalItems, ih, List.map_cons]

/-- The items of a list are read one after the other, up to the end of the list. -/
theorem leads_items {item : Json} {items done : List Json}
    (each : ∀ part ∈ item :: items, ReadsBack limit part)
    (awaits : before.Awaits (.list done :: stack))
    (delivered : Reading.deliver (.arr (done.reverse ++ item :: items)) stack = some after) :
    Leads limit before
      ([','].intercalate ((item :: items).map fun part => part.literal.toList) ++ [']']) after := by
  induction items generalizing item done before with
  | nil =>
    have only := each item List.mem_cons_self awaits rfl
    have closed : Reading.close (.list (item :: done) :: stack) .closeList = some after := by
      rw [Reading.close, List.reverse_cons]
      exact delivered
    rw [List.map_singleton, List.intercalate_singleton]
    exact only.punctuation rfl closed (leads_nil after)
  | cons second items ih =>
    have first := each item List.mem_cons_self awaits rfl
    rw [List.append_cons, ← List.reverse_cons] at delivered
    have later := ih (List.forall_mem_cons.mp each).2 (.inl rfl) delivered
    rw [List.map_cons, List.map_cons, List.intercalate_cons_cons, List.append_assoc,
      List.append_assoc]
    exact first.punctuation rfl rfl later

theorem readsBack_arr {items : List Json} (each : ∀ part ∈ items, ReadsBack limit part) :
    ReadsBack limit (.arr items) := by
  intro before stack after awaits delivered
  have opened : before.take .openList = some (.expecting .firstItem (.list [] :: stack)) := by
    rcases awaits with rfl | rfl <;> rfl
  have letters : (literal (.arr items)).toList =
      '[' :: ([','].intercalate (items.map fun part => part.literal.toList) ++ [']']) := by
    rw [literal, literalItems_eq, Text.join]
    simp [String.toList_intercalate, Function.comp_def]
  rw [letters]
  refine leads_punctuation rfl opened ?_
  cases items with
  | nil => exact leads_punctuation rfl delivered (leads_nil after)
  | cons item items => exact leads_items each (.inr rfl) delivered

/-- The letters of an entry of an object. -/
def entryLetters (entry : String × Json) : List Char :=
  (literalText entry.1).toList ++ ':' :: entry.2.literal.toList

theorem literalEntries_letters (entries : List (String × Json)) :
    (literalEntries entries).map String.toList = entries.map entryLetters := by
  induction entries with
  | nil => rfl
  | cons entry entries ih =>
    rw [literalEntries, List.map_cons, ih, List.map_cons]
    simp [entryLetters]

/-- A reading waits for a key of the innermost object, or for its end if it has none yet. -/
def Reading.AwaitsKey (reading : Reading) (done : Table Json) (stack : List Frame) : Prop :=
  reading = .expecting .firstKey (.object done :: stack) ∨
    reading = .expecting .key (.object done :: stack)

/-- An entry with a new key is read behind those before it. -/
theorem leads_entry {entry : String × Json} {done : Table Json}
    (held : ReadsBack limit entry.2) (fresh : entry.1 ∉ Table.keys done)
    (awaits : before.AwaitsKey done stack) :
    Leads limit before (entryLetters entry)
      (.expecting .next (.object (done ++ [entry]) :: stack)) := by
  have keyed : before.take (.text entry.1) =
      some (.expecting (.colon entry.1) (.object done :: stack)) := by
    rcases awaits with rfl | rfl <;> rfl
  refine (leads_literalText keyed).punctuation rfl rfl (held (.inl rfl) ?_)
  rw [Reading.deliver, Table.insert_of_not_mem fresh]

theorem fresh_of_distinct {entry : String × Json} {entries done : Table Json}
    (distinct : (Table.keys (done ++ entry :: entries)).Nodup) : entry.1 ∉ Table.keys done := by
  rw [Table.keys, List.map_append, List.map_cons, List.nodup_middle] at distinct
  exact fun inside => (List.nodup_cons.mp distinct).1 (List.mem_append_left _ inside)

/-- The entries of an object are read one after the other, up to the end of the object. -/
theorem leads_entries {entry : String × Json} {entries done : Table Json}
    (each : ∀ part ∈ entry :: entries, ReadsBack limit part.2)
    (distinct : (Table.keys (done ++ entry :: entries)).Nodup)
    (awaits : before.AwaitsKey done stack)
    (delivered : Reading.deliver (.obj (done ++ entry :: entries)) stack = some after) :
    Leads limit before
      ([','].intercalate ((entry :: entries).map entryLetters) ++ ['\x7d']) after := by
  induction entries generalizing entry done before with
  | nil =>
    have only := leads_entry (each entry List.mem_cons_self) (fresh_of_distinct distinct) awaits
    rw [List.map_singleton, List.intercalate_singleton]
    exact only.punctuation rfl delivered (leads_nil after)
  | cons second entries ih =>
    have first := leads_entry (each entry List.mem_cons_self) (fresh_of_distinct distinct) awaits
    rw [List.append_cons] at distinct delivered
    have later := ih (List.forall_mem_cons.mp each).2 distinct (.inr rfl) delivered
    rw [List.map_cons, List.map_cons, List.intercalate_cons_cons, List.append_assoc,
      List.append_assoc]
    exact first.punctuation rfl rfl later

theorem readsBack_obj {entries : Table Json} (distinct : (Table.keys entries).Nodup)
    (each : ∀ part ∈ Table.values entries, ReadsBack limit part) :
    ReadsBack limit (.obj entries) := by
  intro before stack after awaits delivered
  have opened : before.take .openObject = some (.expecting .firstKey (.object [] :: stack)) := by
    rcases awaits with rfl | rfl <;> rfl
  have letters : (literal (.obj entries)).toList =
      '\x7b' :: ([','].intercalate (entries.map entryLetters) ++ ['\x7d']) := by
    rw [literal, Text.join, String.toList_append, String.toList_append, String.toList_intercalate,
      literalEntries_letters]
    rfl
  rw [letters]
  refine leads_punctuation rfl opened ?_
  cases entries with
  | nil => exact leads_punctuation rfl delivered (leads_nil after)
  | cons entry entries =>
    exact leads_entries (fun part inside => each part.2 (List.mem_map_of_mem inside)) distinct
      (.inl rfl) delivered

end Collections

theorem readsBack (exact : Throughout IsPlain value) (short : Throughout (IsWithin limit) value) :
    ReadsBack limit value := by
  induction exact with
  | @intro value plain _ ih =>
    obtain ⟨here, inside⟩ := short
    cases value with
    | null =>
      exact fun _ _ _ awaits delivered =>
        leads_word awaits (List.cons_ne_nil _ _) (List.all_eq_true.mp rfl) rfl delivered
    | bool b =>
      cases b with
      | false | true =>
        exact fun _ _ _ awaits delivered =>
          leads_word awaits (List.cons_ne_nil _ _) (List.all_eq_true.mp rfl) rfl delivered
    | int n =>
      obtain ⟨given, wordly⟩ := integerText_wordly n
      exact fun _ _ _ awaits delivered =>
        leads_word awaits given wordly (word_integerText here) delivered
    | double => exact plain.elim
    | str text =>
      intro before stack after awaits delivered
      refine leads_literalText ?_
      rcases awaits with rfl | rfl <;> exact delivered
    | arr items => exact readsBack_arr fun part member => ih part member (inside part member)
    | obj entries => exact readsBack_obj plain fun part member => ih part member (inside part member)

/-- A value whose literal is read back where a value may stand is read back on its own. -/
theorem ReadsBack.readWithin (reads : ReadsBack limit value) :
    readWithin limit value.literal = .ok value := by
  have alone : Leads limit .start value.literal.toList (.finished value) := reads (.inl rfl) rfl
  obtain ⟨state, scanned, settled⟩ := alone
  have folded : value.literal.toList.foldlM (scan limit) (.between, .start) = .ok state := scanned
  rw [Json.readWithin, folded]
  exact conclude_of_settled settled

theorem isWithin_none (value : Json) : Throughout (IsWithin none) value := by
  induction value using Json.induction with
  | step value ih =>
    refine ⟨?_, ih⟩
    cases value with
    | int n => exact fun most impossible => absurd impossible (Option.not_mem_none most)
    | null | bool | double | str | arr | obj => trivial

/-- The literal of a value without doubles and repeated keys is read as the value, with all digits
of its integers; with the usual limit it is if no integer has more digits than that. So different
values have different literals. -/
theorem literals_read_back (exact : Throughout IsPlain value) :
    readWithin none value.literal = .ok value ∧
      (Throughout (IsWithin (some integerLimit)) value → read value.literal = .ok value) ∧
      ∀ other, Throughout IsPlain other → other ≠ value → other.literal ≠ value.literal := by
  have back (plain : Json) (isPlain : Throughout IsPlain plain) :
      readWithin none plain.literal = .ok plain :=
    (readsBack isPlain (isWithin_none plain)).readWithin
  refine ⟨back value exact, fun short => (readsBack exact short).readWithin, ?_⟩
  intro other isPlain different same
  have read := back other isPlain
  rw [same, back value exact] at read
  exact different (Except.ok.inj read).symm

/-- An object with a list in it, whose texts need escapes. -/
def nested : Json :=
  .obj [("a\"", .arr [.null, .int (-120), .str "\\\n\x01é"]), ("", .obj [])]

theorem literals_read_back_nested : Throughout IsPlain nested ∧
    readWithin none nested.literal = .ok nested ∧ read nested.literal = .ok nested := by
  have leaf {holds : Json → Prop} {value : Json} (here : holds value) (isLeaf : value.parts = []) :
      Throughout holds value := ⟨here, isLeaf ▸ List.forall_mem_nil _⟩
  have inside {holds : Json → Prop} (list : holds (.arr [.null, .int (-120), .str "\\\n\x01é"]))
      (null : holds .null) (int : holds (.int (-120))) (str : holds (.str "\\\n\x01é"))
      (empty : holds (.obj [])) : ∀ part ∈ nested.parts, Throughout holds part := by
    refine List.forall_mem_cons.mpr ⟨⟨list, ?_⟩, List.forall_mem_singleton.mpr (leaf empty rfl)⟩
    exact List.forall_mem_cons.mpr ⟨leaf null rfl, List.forall_mem_cons.mpr ⟨leaf int rfl,
      List.forall_mem_singleton.mpr (leaf str rfl)⟩⟩
  have distinct : (["a\"", ""] : List String).Nodup := by decide
  have plain : Throughout IsPlain nested :=
    ⟨distinct, inside trivial trivial trivial trivial List.nodup_nil⟩
  have three : IsWithin (some integerLimit) (.int (-120)) := by
    rintro most ⟨⟩
    decide
  have back := literals_read_back plain
  exact ⟨plain, back.1, back.2.1 ⟨trivial, inside trivial trivial three trivial trivial⟩⟩

end SchemaPress.Json
