import SchemaPress.Double.Nearest
import SchemaPress.Json.Basic

/-!
Reading JSON text, one character at a time. Characters are gathered into tokens, and each complete
token advances a reading: a stack of the lists and objects that are still open, and what may come
next. Beside JSON's own values the words `NaN`, `Infinity` and `-Infinity` are read as doubles, and
the number of digits that an integer may have can be limited. Of several faults, the first one in
the text counts.

Texts consist of Unicode scalar values, and half of a surrogate pair is none. This is a limit of
the library: where an escape stands for such a half without the other one, it cannot be kept. U+FFFD
is read in its place, and texts that differ in such halves only are read as the same.
-/

namespace SchemaPress.Json

/-- Why a text cannot be read: it is not JSON, or it has an integer with too many digits. -/
inductive ReadFault where
  | malformed
  | longInteger
  deriving DecidableEq, Repr

/-- The number of digits that an integer may usually have. -/
def integerLimit : Nat := 4300

/-- A token of JSON text. -/
inductive Token where
  | openList
  | closeList
  | openObject
  | closeObject
  | comma
  | colon
  | text (value : String)
  | scalar (value : Json)

/-- A list or object that is still open, its last item first. An `entry` waits for the value of
its key. -/
inductive Frame where
  | list (items : List Json)
  | object (entries : Table Json)
  | entry (entries : Table Json) (key : String)

/-- What may come next. -/
inductive Stage where
  | value
  | firstItem
  | firstKey
  | key
  | colon (key : String)
  | next

/-- A value that is being read. -/
inductive Reading where
  | expecting (stage : Stage) (stack : List Frame)
  | finished (value : Json)

namespace Reading

/-- Before the first token. -/
def start : Reading := .expecting .value []

/-- A complete value takes its place in the innermost open list or object. -/
def deliver (value : Json) : List Frame → Option Reading
  | [] => some (.finished value)
  | .list items :: stack => some (.expecting .next (.list (value :: items) :: stack))
  | .entry entries key :: stack =>
    some (.expecting .next (.object (Table.insert key value entries) :: stack))
  | .object _ :: _ => none

/-- A token where a value may begin. -/
def begin (stack : List Frame) : Token → Option Reading
  | .scalar value => deliver value stack
  | .text s => deliver (.str s) stack
  | .openList => some (.expecting .firstItem (.list [] :: stack))
  | .openObject => some (.expecting .firstKey (.object [] :: stack))
  | _ => none

/-- A closing token ends the innermost list or object. -/
def close : List Frame → Token → Option Reading
  | .list items :: stack, .closeList => deliver (.arr items.reverse) stack
  | .object entries :: stack, .closeObject => deliver (.obj entries) stack
  | _, _ => none

/-- The reading after one more token, if that token may stand here. -/
def take : Reading → Token → Option Reading
  | .finished _, _ => none
  | .expecting .value stack, token => begin stack token
  | .expecting .firstItem stack, .closeList => close stack .closeList
  | .expecting .firstItem stack, token => begin stack token
  | .expecting .firstKey stack, .closeObject => close stack .closeObject
  | .expecting .firstKey stack, .text key => some (.expecting (.colon key) stack)
  | .expecting .firstKey _, _ => none
  | .expecting .key stack, .text key => some (.expecting (.colon key) stack)
  | .expecting .key _, _ => none
  | .expecting (.colon key) (.object entries :: stack), .colon =>
    some (.expecting .value (.entry entries key :: stack))
  | .expecting (.colon _) _, _ => none
  | .expecting .next (.list items :: stack), .comma =>
    some (.expecting .value (.list items :: stack))
  | .expecting .next (.object entries :: stack), .comma =>
    some (.expecting .key (.object entries :: stack))
  | .expecting .next stack, token => close stack token

end Reading

/-- The part of a token that has been read, its last character first. A quoted text is gathered as
code units, since an escape may give half of a surrogate pair. -/
inductive Scan where
  | between
  | word (chars : List Char)
  | quote (units : List Nat)
  | escape (units : List Nat)
  | code (units : List Nat) (value count : Nat)

/-- The blanks that may stand between tokens. -/
def isSpace (c : Char) : Bool :=
  c = ' ' || c = '\t' || c = '\n' || c = '\r'

/-- The characters of numbers and of words such as `true`. -/
def isWordChar (c : Char) : Bool :=
  c.isAlphanum || c = '-' || c = '+' || c = '.'

/-- The value of a decimal digit sequence. -/
def digitsValue (digits : List Char) : Nat :=
  digits.foldl (fun n c => 10 * n + (c.toNat - '0'.toNat)) 0

/-- The fraction digits after an optional point, and the rest. A point needs digits. -/
def fraction? : List Char → Option (List Char × List Char)
  | '.' :: rest =>
    let digits := rest.takeWhile Char.isDigit
    if digits.isEmpty then none else some (digits, rest.dropWhile Char.isDigit)
  | rest => some ([], rest)

/-- Whether an exponent is negative, and the rest after its optional sign. -/
def exponentSign : List Char → Bool × List Char
  | '-' :: rest => (true, rest)
  | '+' :: rest => (false, rest)
  | rest => (false, rest)

/-- The value of an optional exponent that ends the word; `none` inside if there is no exponent. -/
def exponent? : List Char → Option (Option Int)
  | [] => some none
  | mark :: rest =>
    if mark = 'e' || mark = 'E' then
      let (negative, digits) := exponentSign rest
      if digits.isEmpty || !digits.all Char.isDigit then none
      else
        let n : Int := digitsValue digits
        some (some (if negative then -n else n))
    else none

/-- Whether what follows the whole part of a number starts with a fraction or an exponent. -/
def startsFraction : List Char → Bool
  | mark :: rest =>
    if mark = '.' then rest.head?.any Char.isDigit
    else (mark = 'e' || mark = 'E') && (exponentSign rest).2.head?.any Char.isDigit
  | [] => false

/-- The number with a whole part and what follows it. -/
def number? (negative : Bool) (whole rest : List Char) : Option Json := do
  let (fraction, rest) ← fraction? rest
  let exponent ← exponent? rest
  if fraction.isEmpty && exponent.isNone then
    let n : Int := digitsValue whole
    return .int (if negative then -n else n)
  else
    return .double (Double.ofDecimal negative (digitsValue (whole ++ fraction))
      (exponent.getD 0 - fraction.length))

/-- A number without its sign. An integer is complete before what follows it is looked at; a limit
is on its number of digits. -/
def unsigned (limit : Option Nat) (negative : Bool) (cs : List Char) : Except ReadFault Json :=
  let whole := cs.takeWhile Char.isDigit
  let rest := cs.dropWhile Char.isDigit
  if whole.isEmpty || (whole.head? = some '0' && 1 < whole.length) then .error .malformed
  else if limit.any (· < whole.length) && !startsFraction rest then .error .longInteger
  else (number? negative whole rest).elim (.error .malformed) .ok

/-- The value of a word: a name for a value, or a number. -/
def word (limit : Option Nat) (cs : List Char) : Except ReadFault Json :=
  if cs = "null".toList then .ok .null
  else if cs = "true".toList then .ok (.bool true)
  else if cs = "false".toList then .ok (.bool false)
  else if cs = "NaN".toList then .ok (.double .nan)
  else if cs = "Infinity".toList then .ok (.double (.infinite false))
  else if cs = "-Infinity".toList then .ok (.double (.infinite true))
  else match cs with
    | '-' :: rest => unsigned limit true rest
    | _ => unsigned limit false cs

/-- The punctuation token of a character. -/
def punctuation? (c : Char) : Option Token :=
  if c = '[' then some .openList
  else if c = ']' then some .closeList
  else if c.toNat = 0x7B then some .openObject
  else if c.toNat = 0x7D then some .closeObject
  else if c = ',' then some .comma
  else if c = ':' then some .colon
  else none

/-- What a one-letter escape stands for. -/
def escape? (c : Char) : Option Nat :=
  if c = '"' || c = '\\' || c = '/' then some c.toNat
  else if c = 'b' then some 8
  else if c = 'f' then some 12
  else if c = 'n' then some 10
  else if c = 'r' then some 13
  else if c = 't' then some 9
  else none

/-- The value of a hexadecimal digit. -/
def hexDigit? (c : Char) : Option Nat :=
  if '0' ≤ c ∧ c ≤ '9' then some (c.toNat - '0'.toNat)
  else if 'a' ≤ c ∧ c ≤ 'f' then some (c.toNat - 'a'.toNat + 10)
  else if 'A' ≤ c ∧ c ≤ 'F' then some (c.toNat - 'A'.toNat + 10)
  else none

/-- A code unit on its own. Half of a surrogate pair is no character, so U+FFFD stands for it. -/
def unitChar (n : Nat) : Char :=
  if 0xD800 ≤ n ∧ n ≤ 0xDFFF then Char.ofNat 0xFFFD else Char.ofNat n

/-- The text of code units, surrogate pairs being joined. -/
def unitsText : List Nat → List Char
  | [] => []
  | [n] => [unitChar n]
  | high :: low :: rest =>
    if 0xD800 ≤ high ∧ high ≤ 0xDBFF ∧ 0xDC00 ≤ low ∧ low ≤ 0xDFFF then
      Char.ofNat (0x10000 + (high - 0xD800) * 0x400 + (low - 0xDC00)) :: unitsText rest
    else unitChar high :: unitsText (low :: rest)

/-- A step of reading; that there is none is a fault of the text. -/
def demand {α : Type} : Option α → Except ReadFault α
  | some a => .ok a
  | none => .error .malformed

/-- The reading after one more token. -/
def advance (reading : Reading) (token : Token) : Except ReadFault Reading :=
  demand (reading.take token)

/-- A character that does not continue a token. -/
def scanBetween (reading : Reading) (c : Char) : Except ReadFault (Scan × Reading) :=
  if isSpace c then .ok (.between, reading)
  else if c = '"' then .ok (.quote [], reading)
  else if isWordChar c then .ok (.word [c], reading)
  else do
    let token ← demand (punctuation? c)
    return (.between, ← advance reading token)

/-- A word ends. It is looked at only where a value may stand. -/
def endWord (limit : Option Nat) (chars : List Char) (reading : Reading) :
    Except ReadFault Reading := do
  let _ ← advance reading (.scalar .null)
  advance reading (.scalar (← word limit chars.reverse))

/-- One more character of the text. -/
def scan (limit : Option Nat) : Scan × Reading → Char → Except ReadFault (Scan × Reading)
  | (.between, reading), c => scanBetween reading c
  | (.word chars, reading), c =>
    if isWordChar c then .ok (.word (c :: chars), reading)
    else do
      let reading ← endWord limit chars reading
      scanBetween reading c
  | (.quote units, reading), c =>
    if c = '"' then do
      let reading ← advance reading (.text (String.ofList (unitsText units.reverse)))
      return (.between, reading)
    else if c = '\\' then .ok (.escape units, reading)
    else if c.toNat < 0x20 then .error .malformed
    else .ok (.quote (c.toNat :: units), reading)
  | (.escape units, reading), c =>
    if c = 'u' then .ok (.code units 0 0, reading)
    else do
      let n ← demand (escape? c)
      return (.quote (n :: units), reading)
  | (.code units value count, reading), c => do
    let digit ← demand (hexDigit? c)
    let value := 16 * value + digit
    if count = 3 then return (.quote (value :: units), reading)
    else return (.code units value (count + 1), reading)

/-- The value of a reading that is finished. -/
def Reading.value? : Reading → Option Json
  | .finished value => some value
  | .expecting _ _ => none

/-- The text ends. -/
def conclude (limit : Option Nat) : Scan × Reading → Except ReadFault Json
  | (.between, reading) => demand reading.value?
  | (.word chars, reading) => do
    let reading ← endWord limit chars reading
    demand reading.value?
  | _ => .error .malformed

/-- The value that a text writes, with a limit on the digits of integers or without one. -/
def readWithin (limit : Option Nat) (s : String) : Except ReadFault Json := do
  conclude limit (← s.toList.foldlM (scan limit) (.between, .start))

/-- The value that a text writes, with the usual limit. -/
def read (s : String) : Except ReadFault Json :=
  readWithin (some integerLimit) s

/-- The value that a text writes, if it can be read. -/
def read? (s : String) : Option Json :=
  (read s).toOption

end SchemaPress.Json
