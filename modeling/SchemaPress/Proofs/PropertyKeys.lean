import SchemaPress.Json.Reader
import SchemaPress.Proofs.CodeTexts

/-! Property names as keys of object literals. A key is an identifier or a string literal in single
quotes; a literal is read character by character, with the escapes of scripts, into code units. The
key of a property name denotes the name exactly if the name has neither a backslash nor a line
terminator: a backslash is not escaped, a line terminator stands in the literal as it is, and a name
that is an identifier up to a final line feed is not even quoted. -/

namespace SchemaPress

namespace Script

/-- The code units of a code point: itself, or a surrogate pair. -/
def units (code : Nat) : List Nat :=
  if code < 0x10000 then [code]
  else [0xD800 + (code - 0x10000) / 0x400, 0xDC00 + (code - 0x10000) % 0x400]

/-- The code units of a text. -/
def unitsOf (letters : List Char) : List Nat :=
  letters.flatMap fun letter => units letter.toNat

/-- Where the reading of a string literal stands, after its opening quote. -/
inductive Cursor where
  /-- Before a character, an escape or the closing quote. -/
  | plain
  /-- After a backslash. -/
  | escape
  /-- After the escape of zero, which no digit may follow. -/
  | zero
  /-- In an escape with a fixed number of hexadecimal digits, of which some are still to come. -/
  | code (left value : Nat)
  /-- After a backslash and `u`. -/
  | unicode
  /-- In an escape with braces, after some hexadecimal digits. -/
  | braced (count value : Nat)
  /-- After a backslash and a carriage return, to which a line feed still belongs. -/
  | continued
  /-- After the closing quote. -/
  | closed

/-- What a letter after a backslash stands for if it does not stand for itself. -/
def controlEscape? (letter : Char) : Option Nat :=
  if letter = 'b' then some 8
  else if letter = 't' then some 9
  else if letter = 'n' then some 10
  else if letter = 'v' then some 11
  else if letter = 'f' then some 12
  else if letter = 'r' then some 13
  else none

namespace Cursor

/-- A letter outside of escapes. Only the separators among the line terminators may stand there. -/
def plainStep? (letter : Char) : Option (Cursor × List Nat) :=
  if letter = '\'' then some (.closed, [])
  else if letter = '\\' then some (.escape, [])
  else if letter = '\n' || letter = '\r' then none
  else some (.plain, units letter.toNat)

/-- A letter after a backslash. A line terminator there continues the literal on the next line, and
of the digits only zero is an escape. -/
def escapeStep? (letter : Char) : Option (Cursor × List Nat) :=
  if letter = 'x' then some (.code 2 0, [])
  else if letter = 'u' then some (.unicode, [])
  else if letter = '0' then some (.zero, [0])
  else if letter.isDigit then none
  else if letter = '\r' then some (.continued, [])
  else if Text.isLineTerminator letter then some (.plain, [])
  else some (.plain, (controlEscape? letter).elim (units letter.toNat) fun code => [code])

/-- A letter in an escape with a fixed number of digits. -/
def codeStep? (left value : Nat) (letter : Char) : Option (Cursor × List Nat) := do
  let digit ← Json.hexDigit? letter
  if left = 1 then return (.plain, [16 * value + digit])
  else return (.code (left - 1) (16 * value + digit), [])

/-- A letter in an escape with braces, which holds a code point. -/
def bracedStep? (count value : Nat) (letter : Char) : Option (Cursor × List Nat) :=
  if letter.toNat = 0x7D then
    if count = 0 then none else some (.plain, units value)
  else do
    let digit ← Json.hexDigit? letter
    if 0x10FFFF < 16 * value + digit then none
    else return (.braced (count + 1) (16 * value + digit), [])

/-- One more letter of a string literal, with the code units that are complete then. -/
def step? : Cursor → Char → Option (Cursor × List Nat)
  | .plain, letter => plainStep? letter
  | .escape, letter => escapeStep? letter
  | .zero, letter => if letter.isDigit then none else plainStep? letter
  | .code left value, letter => codeStep? left value letter
  | .unicode, letter => if letter.toNat = 0x7B then some (.braced 0 0, []) else codeStep? 4 0 letter
  | .braced count value, letter => bracedStep? count value letter
  | .continued, letter => if letter = '\n' then some (.plain, []) else plainStep? letter
  | .closed, _ => none

/-- Whether the closing quote has been read. -/
def isClosed : Cursor → Bool
  | .closed => true
  | _ => false

/-- The code units of the rest of a string literal, which has to end with the closing quote. -/
def read? : Cursor → List Char → Option (List Nat)
  | cursor, [] => if cursor.isClosed then some [] else none
  | cursor, letter :: rest => do
    let (next, emitted) ← cursor.step? letter
    let more ← next.read? rest
    return emitted ++ more

end Cursor

/-- The code units that a string literal in single quotes denotes. -/
def literalUnits? : List Char → Option (List Nat)
  | quote :: rest => if quote = '\'' then Cursor.plain.read? rest else none
  | [] => none

/-- A key of an object literal denotes a name: the key is an identifier, and this is the name, or it
is a string literal on one line, and the name is what the literal denotes. -/
def KeyDenotes (key name : String) : Prop :=
  (Name.isIdentifier key.toList = true ∧ key = name) ∨
    ((∀ letter ∈ key.toList, Text.isLineTerminator letter = false) ∧
      literalUnits? key.toList = some (unitsOf name.toList))

instance (key name : String) : Decidable (KeyDenotes key name) :=
  let _ : Decidable (∀ letter ∈ key.toList, Text.isLineTerminator letter = false) :=
    List.decidableBAll _ _
  inferInstanceAs (Decidable (_ ∨ _))

variable {letter : Char} {letters : List Char} {cursor next : Cursor} {emitted : List Nat}

theorem length_units (code : Nat) : 1 ≤ (units code).length ∧ (units code).length ≤ 2 := by
  unfold units
  split <;> simp

@[simp] theorem unitsOf_cons :
    unitsOf (letter :: letters) = units letter.toNat ++ unitsOf letters := rfl

theorem unitsOf_append (others : List Char) :
    unitsOf (letters ++ others) = unitsOf letters ++ unitsOf others :=
  List.flatMap_append

/-- The letters that escaping is about: the quote and the backslash. -/
def isMark (letter : Char) : Bool :=
  letter = '\'' || letter = '\\'

namespace Cursor

/-- What a cursor has read without giving code units for it. Every letter is worth two for each of
its code units and one less if it is a mark, so that only an escaped mark uses up its escape. -/
def credit : Cursor → Nat
  | .plain | .zero | .continued => 0
  | .escape | .code _ _ | .unicode | .closed => 1
  | .braced _ _ => 2

/-- A step that does not give more code units than letters pay for. -/
def Pays (cursor : Cursor) (letter : Char) (next : Cursor) (emitted : List Nat) : Prop :=
  2 * emitted.length + (if isMark letter then 1 else 0) + next.credit ≤
    2 * (units letter.toNat).length + cursor.credit

theorem mark_le_one : (if isMark letter then 1 else 0) ≤ 1 := by
  split <;> omega

theorem plainStep_pays (stepped : plainStep? letter = some (next, emitted)) :
    2 * emitted.length + (if isMark letter then 1 else 0) + next.credit ≤
      2 * (units letter.toNat).length := by
  unfold plainStep? at stepped
  split_ifs at stepped with quote backslash terminator
  · cases stepped
    subst quote
    decide
  · cases stepped
    subst backslash
    decide
  · cases stepped
    simp [isMark, quote, backslash, credit]

theorem escapeStep_pays (stepped : escapeStep? letter = some (next, emitted)) :
    Cursor.escape.Pays letter next emitted := by
  have width := length_units letter.toNat
  have mark : (if isMark letter then 1 else 0) ≤ 1 := mark_le_one
  unfold escapeStep? at stepped
  unfold Pays
  split_ifs at stepped with hex unicode zero digit carriage terminator
  all_goals cases stepped
  · simp only [credit, List.length_nil]
    omega
  · simp only [credit, List.length_nil]
    omega
  · simp only [credit, List.length_singleton]
    omega
  · simp only [credit, List.length_nil]
    omega
  · simp only [credit, List.length_nil]
    omega
  · cases controlEscape? letter with
    | none =>
      simp only [credit, Option.elim_none]
      omega
    | some code =>
      simp only [credit, Option.elim_some, List.length_singleton]
      omega

theorem codeStep_pays {left value : Nat} (worth : cursor.credit = 1)
    (stepped : codeStep? left value letter = some (next, emitted)) :
    cursor.Pays letter next emitted := by
  have width := length_units letter.toNat
  have mark : (if isMark letter then 1 else 0) ≤ 1 := mark_le_one
  obtain ⟨digit, _, stepped⟩ := Option.bind_eq_some_iff.mp stepped
  unfold Pays
  rw [worth]
  split at stepped
  · cases stepped
    simp only [credit, List.length_singleton]
    omega
  · cases stepped
    simp only [credit, List.length_nil]
    omega

theorem bracedStep_pays {count value : Nat}
    (stepped : bracedStep? count value letter = some (next, emitted)) :
    (Cursor.braced count value).Pays letter next emitted := by
  have width := length_units letter.toNat
  have mark : (if isMark letter then 1 else 0) ≤ 1 := mark_le_one
  unfold bracedStep? at stepped
  unfold Pays
  split at stepped
  · rename_i isBrace
    split at stepped
    · cases stepped
    · cases stepped
      -- The brace is no mark, and it has to pay for a surrogate pair.
      have brace : (if isMark letter then 1 else 0) = 0 := by
        rw [← Char.ofNat_toNat letter, isBrace]
        decide
      have point := length_units value
      simp only [brace, credit]
      omega
  · obtain ⟨digit, _, stepped⟩ := Option.bind_eq_some_iff.mp stepped
    split at stepped
    · cases stepped
    · cases stepped
      simp only [credit, List.length_nil]
      omega

theorem step_pays (stepped : cursor.step? letter = some (next, emitted)) :
    cursor.Pays letter next emitted := by
  have width := length_units letter.toNat
  have mark : (if isMark letter then 1 else 0) ≤ 1 := mark_le_one
  cases cursor with
  | plain => exact plainStep_pays stepped
  | escape => exact escapeStep_pays stepped
  | zero =>
    simp only [step?] at stepped
    split at stepped
    · cases stepped
    · exact plainStep_pays stepped
  | code left value => exact codeStep_pays rfl stepped
  | unicode =>
    simp only [step?] at stepped
    split at stepped
    · cases stepped
      simp only [Pays, credit, List.length_nil]
      omega
    · exact codeStep_pays rfl stepped
  | braced count value => exact bracedStep_pays stepped
  | continued =>
    simp only [step?] at stepped
    split at stepped
    · cases stepped
      simp only [Pays, credit, List.length_nil]
      omega
    · exact plainStep_pays stepped
  | closed => cases stepped

/-- A literal is read by a step, and then from where the step leads. -/
theorem read?_cons {denoted : List Nat} :
    cursor.read? (letter :: letters) = some denoted ↔ ∃ next emitted more,
      cursor.step? letter = some (next, emitted) ∧ next.read? letters = some more ∧
        emitted ++ more = denoted := by
  simp [read?, Option.bind_eq_some_iff]

/-- A string literal does not denote more code units than its letters pay for, and its closing quote
is left over. -/
theorem read_pays {denoted : List Nat} (done : cursor.read? letters = some denoted) :
    2 * denoted.length + letters.countP isMark + 1 ≤
      2 * (unitsOf letters).length + cursor.credit := by
  induction letters generalizing cursor denoted with
  | nil =>
    cases cursor <;> cases done
    decide
  | cons letter rest ih =>
    obtain ⟨next, emitted, more, stepped, ended, rfl⟩ := read?_cons.mp done
    have paid := step_pays stepped
    have later := ih ended
    unfold Pays at paid
    simp only [unitsOf_cons, List.length_append, List.countP_cons]
    omega

end Cursor

end Script

namespace Name

open Script

variable {letter : Char} {letters : List Char} {name : String}

/-- The letters of a property name between quotes. -/
def quotedLetters (letters : List Char) : List Char :=
  letters.flatMap fun letter => if letter = '\'' then ['\\', letter] else [letter]

theorem quotedLetters_cons : quotedLetters (letter :: letters) =
    (if letter = '\'' then ['\\', letter] else [letter]) ++ quotedLetters letters := rfl

theorem mem_quotedLetters : letter ∈ quotedLetters letters ↔
    letter ∈ letters ∨ letter = '\\' ∧ '\'' ∈ letters := by
  induction letters with
  | nil => simp [quotedLetters]
  | cons first rest ih =>
    rw [quotedLetters_cons, List.mem_append, ih]
    by_cases quote : first = '\''
    · subst quote
      simp only [if_true, List.mem_cons, List.not_mem_nil, or_false, true_or, and_true]
      tauto
    · have other : ¬ '\'' = first := fun same => quote same.symm
      simp only [quote, other, if_false, List.mem_cons, List.not_mem_nil, or_false, false_or]
      tauto

/-- A quoted name is on one line if the name is. -/
theorem onLine_quoted : (∀ letter ∈ '\'' :: (quotedLetters letters ++ ['\'']),
    Text.isLineTerminator letter = false) ↔
      ∀ letter ∈ letters, Text.isLineTerminator letter = false := by
  constructor
  · intro onLine letter inside
    apply onLine
    exact List.mem_cons_of_mem _ (List.mem_append_left _ (mem_quotedLetters.mpr (.inl inside)))
  · intro onLine letter inside
    rcases List.mem_cons.mp inside with rfl | inside
    · rfl
    rcases List.mem_append.mp inside with inside | inside
    · rcases mem_quotedLetters.mp inside with inside | ⟨rfl, _⟩
      · exact onLine letter inside
      · rfl
    · obtain rfl := List.mem_singleton.mp inside
      rfl

theorem propertyKey_quoted (quoted : readsAsIdentifier name.toList = false) :
    (propertyKey name).toList = '\'' :: (quotedLetters name.toList ++ ['\'']) := by
  rw [propertyKey]
  simp [quoted, quotedLetters]

/-- Letters that are neither backslashes nor line terminators are read as they are. -/
theorem read_quotedLetters
    (clean : ∀ letter ∈ letters, letter ≠ '\\' ∧ Text.isLineTerminator letter = false) :
    Cursor.plain.read? (quotedLetters letters ++ ['\'']) = some (unitsOf letters) := by
  induction letters with
  | nil => rfl
  | cons letter rest ih =>
    have later := ih fun other inside => clean other (List.mem_cons_of_mem _ inside)
    obtain ⟨backslash, onLine⟩ := clean letter List.mem_cons_self
    rw [quotedLetters_cons, unitsOf_cons]
    by_cases quote : letter = '\''
    · subst quote
      refine Cursor.read?_cons.mpr ⟨.escape, [], _, rfl, ?_, rfl⟩
      exact Cursor.read?_cons.mpr ⟨.plain, _, _, rfl, later, rfl⟩
    · rw [if_neg quote]
      refine Cursor.read?_cons.mpr ⟨.plain, _, _, ?_, later, rfl⟩
      simp only [Text.isLineTerminator, Bool.or_eq_false_iff] at onLine
      simp [Cursor.step?, Cursor.plainStep?, quote, backslash, onLine]

/-- A quote gets a backslash, and everything else is left as it is, backslashes included. -/
theorem quotedLetter_worth (letter : Char) :
    let quoted := if letter = '\'' then ['\\', letter] else [letter]
    quoted.countP isMark + 2 * (units letter.toNat).length =
      2 * (unitsOf quoted).length + if letter == '\\' then 1 else 0 := by
  dsimp only
  by_cases quote : letter = '\''
  · subst quote
    decide
  · rw [if_neg quote]
    by_cases backslash : letter = '\\'
    · subst backslash
      decide
    · simp [isMark, unitsOf, quote, backslash]

theorem quotedLetters_worth (letters : List Char) :
    (quotedLetters letters).countP isMark + 2 * (unitsOf letters).length =
      2 * (unitsOf (quotedLetters letters)).length + letters.count '\\' := by
  induction letters with
  | nil => rfl
  | cons letter rest ih =>
    have here := quotedLetter_worth letter
    dsimp only at here
    rw [quotedLetters_cons, List.countP_append, unitsOf_append, unitsOf_cons, List.count_cons,
      List.length_append, List.length_append]
    omega

/-- A name whose quoted form denotes it has no backslash: it would not be worth what it denotes. -/
theorem no_backslash_of_read
    (done : Cursor.plain.read? (quotedLetters letters ++ ['\'']) = some (unitsOf letters)) :
    '\\' ∉ letters := by
  have paid := Cursor.read_pays done
  have worth := quotedLetters_worth letters
  rw [List.countP_append, unitsOf_append, List.length_append] at paid
  have quote : List.countP isMark ['\''] = 1 ∧ (unitsOf ['\'']).length = 1 := by decide
  have none : letters.count '\\' = 0 := by
    simp only [quote, Cursor.credit] at paid
    omega
  exact List.count_eq_zero.mp none

theorem clean_of_isPart (part : isPart letter = true) :
    letter ≠ '\\' ∧ Text.isLineTerminator letter = false := by
  have ascii : ∀ code < 128, isPart (Char.ofNat code) = true →
      Char.ofNat code ≠ '\\' ∧ Text.isLineTerminator (Char.ofNat code) = false := by decide
  have shown := ascii letter.toNat (isPart_ascii part)
  rw [Char.ofNat_toNat] at shown
  exact shown part

/-- A name with a line terminator that reads as an identifier is not an identifier. -/
theorem isIdentifier_of_clean (reads : readsAsIdentifier letters = true)
    (clean : ∀ letter ∈ letters, letter ≠ '\\' ∧ Text.isLineTerminator letter = false) :
    isIdentifier letters = true := by
  rcases Bool.or_eq_true_iff.mp reads with isWord | ending
  · exact isWord
  · obtain ⟨last, _⟩ := Bool.and_eq_true_iff.mp ending
    have inside := List.mem_of_getLast? (of_decide_eq_true last)
    cases (clean _ inside).2

/-- The key of a property name denotes the name exactly if the name has neither a backslash nor a
line terminator. -/
theorem propertyKey_denotes_iff (name : String) :
    KeyDenotes (propertyKey name) name ↔
      ∀ letter ∈ name.toList, letter ≠ '\\' ∧ Text.isLineTerminator letter = false := by
  cases reads : readsAsIdentifier name.toList with
  | true =>
    have same : propertyKey name = name := by simp [propertyKey, reads]
    rw [same]
    constructor
    · rintro (⟨isWord, _⟩ | ⟨_, quoted⟩)
      · exact fun letter inside => clean_of_isPart (isPart_of_mem isWord letter inside)
      · obtain ⟨first, rest, letters, start⟩ := start_of_readsAsIdentifier reads
        rw [letters, literalUnits?] at quoted
        split at quoted
        · rename_i quote
          subst quote
          cases start
        · cases quoted
    · exact fun clean => .inl ⟨isIdentifier_of_clean reads clean, rfl⟩
  | false =>
    have letters := propertyKey_quoted reads
    constructor
    · rintro (⟨isWord, _⟩ | ⟨onLine, quoted⟩)
      · rw [letters] at isWord
        cases isWord
      · rw [letters] at onLine quoted
        have absent := no_backslash_of_read quoted
        intro letter inside
        exact ⟨fun backslash => absent (backslash ▸ inside), onLine_quoted.mp onLine letter inside⟩
    · intro clean
      right
      rw [letters]
      exact ⟨onLine_quoted.mpr fun letter inside => (clean letter inside).2,
        read_quotedLetters clean⟩

/-- A backslash in a property name is read as the beginning of an escape, and a line feed ends the
line of the key, whether the key is quoted or not. -/
theorem careless_keys_denote_nothing :
    ¬ KeyDenotes (propertyKey "a\\b") "a\\b" ∧ KeyDenotes (propertyKey "a\\b") "a\x08" ∧
      ¬ KeyDenotes (propertyKey "id\n") "id\n" ∧ ¬ KeyDenotes (propertyKey "a b\n") "a b\n" := by
  decide +kernel

end Name

end SchemaPress
