import Mathlib

/-!
# Text as programs write and read it

Numbers in decimal, bytes in hexadecimal, and what is left of a text when it is
trimmed.  A text is a list of characters; what a reader sees of a line that is
still being written is one of its prefixes, and read as a number it is never more
than the whole.
-/

namespace TextFormats

abbrev Text := List Char

/-! ## Trimming -/

/-- The characters with the Unicode property `White_Space`. -/
def isWhitespace (c : Char) : Bool :=
  let code := c.toNat
  decide (9 ≤ code ∧ code ≤ 13) || decide (code = 0x20) ||
    decide (code = 0x85) || decide (code = 0xa0) || decide (code = 0x1680) ||
    decide (0x2000 ≤ code ∧ code ≤ 0x200a) || decide (code = 0x2028) ||
    decide (code = 0x2029) || decide (code = 0x202f) ||
    decide (code = 0x205f) || decide (code = 0x3000)

/-- The text without the white space at its ends. -/
def trim (text : Text) : Text :=
  (text.dropWhile isWhitespace).rdropWhile isWhitespace

/-- A character that is not white space. -/
def Solid (c : Char) : Prop :=
  isWhitespace c = false

theorem dropWhile_solid {text : Text} (solid : ∀ c ∈ text, Solid c) :
    text.dropWhile isWhitespace = text := by
  cases text with
  | nil => rfl
  | cons first rest =>
      rw [List.dropWhile_cons_of_neg]
      simpa [Solid] using solid first List.mem_cons_self

theorem trim_solid {text : Text} (solid : ∀ c ∈ text, Solid c) :
    trim text = text := by
  rw [trim, dropWhile_solid solid, List.rdropWhile,
    dropWhile_solid fun c member => solid c (List.mem_reverse.mp member),
    List.reverse_reverse]

theorem trim_append_whitespace {text : Text} (solid : ∀ c ∈ text, Solid c)
    {blank : Char} (isBlank : isWhitespace blank = true) :
    trim (text ++ [blank]) = text := by
  have ends : (text ++ [blank]).rdropWhile isWhitespace = text := by
    rw [List.rdropWhile_concat_pos _ _ _ isBlank, List.rdropWhile,
      dropWhile_solid fun c member => solid c (List.mem_reverse.mp member),
      List.reverse_reverse]
  cases text with
  | nil => simp [trim, isBlank]
  | cons first rest =>
      have begins : (first :: rest ++ [blank]).dropWhile isWhitespace =
          first :: rest ++ [blank] := by
        rw [List.cons_append, List.dropWhile_cons_of_neg]
        simpa [Solid] using solid first List.mem_cons_self
      rw [trim, begins, ends]

/-! ## Taking a text apart -/

/-- `as_bytes` of a text of ASCII characters. -/
def asciiBytes (text : Text) : List UInt8 :=
  text.map fun c => UInt8.ofNat c.toNat

/-- The bytes of a text in UTF-8. -/
def utf8Length (text : Text) : Nat :=
  (text.map Char.utf8Size).sum

/-- `as_bytes`: the text in UTF-8. -/
def utf8Bytes (text : Text) : List UInt8 :=
  (String.ofList text).toByteArray.data.toList

/-- `from_utf8`: the text that the bytes spell, if they do. -/
def fromUtf8 (bytes : List UInt8) : Option Text :=
  (String.fromUTF8? ⟨bytes.toArray⟩).map String.toList

theorem fromUtf8_utf8Bytes (text : Text) : fromUtf8 (utf8Bytes text) = some text := by
  have valid := (String.ofList text).isValidUTF8
  have read : String.fromUTF8? (String.ofList text).toByteArray =
      some (String.ofList text) := by
    simp only [String.fromUTF8?, valid, dif_pos]
    rfl
  rw [fromUtf8, utf8Bytes, Array.toArray_toList, read]
  simp

theorem utf8Bytes_injective : Function.Injective utf8Bytes := by
  intro text other same
  apply Option.some.inj
  rw [← fromUtf8_utf8Bytes text, same, fromUtf8_utf8Bytes]

/-- `strip_prefix`. -/
def stripPrefix (start text : Text) : Option Text :=
  if start <+: text then some (text.drop start.length) else none

theorem stripPrefix_append (start rest : Text) :
    stripPrefix start (start ++ rest) = some rest := by
  simp [stripPrefix]

/-- `split_once`. -/
def splitOnce (separator : Char) (text : Text) : Option (Text × Text) :=
  match text.span (· ≠ separator) with
  | (_, []) => none
  | (before, _ :: after) => some (before, after)

/-- `rsplit_once`. -/
def rsplitOnce (separator : Char) (text : Text) : Option (Text × Text) :=
  (splitOnce separator text.reverse).map fun (after, before) =>
    (before.reverse, after.reverse)

theorem splitOnce_append {separator : Char} {before : Text}
    (absent : separator ∉ before) (after : Text) :
    splitOnce separator (before ++ separator :: after) = some (before, after) := by
  have kept : ∀ c ∈ before, decide (c ≠ separator) = true := by
    intro c member
    have differs : c ≠ separator := fun same => absent (same ▸ member)
    exact decide_eq_true differs
  have span : (before ++ separator :: after).span (· ≠ separator) =
      (before, separator :: after) := by
    rw [List.span_eq_takeWhile_dropWhile, List.takeWhile_append_of_pos kept,
      List.dropWhile_append_of_pos kept]
    simp
  simp only [splitOnce, span]

/-- A line whose end was a carriage return and a line feed, without the carriage
return. -/
def stripReturn (line : Text) : Text :=
  if line.getLast? = some '\r' then line.dropLast else line

/-- `lines`: what follows the last line feed is a line only when there is some. -/
def lines (text : Text) : List Text :=
  let pieces := text.splitOn '\n'
  pieces.dropLast.map stripReturn ++ (pieces.getLast?.toList.filter (· ≠ []))

theorem splitOn_lines {written : List Text} (single : ∀ line ∈ written, '\n' ∉ line) :
    (written.flatMap fun line => line ++ ['\n']).splitOn '\n' = written ++ [[]] := by
  induction written with
  | nil => rfl
  | cons line rest ih =>
      have restSplit := ih fun other member => single other (List.mem_cons_of_mem _ member)
      rw [List.flatMap_cons, List.append_assoc, List.singleton_append,
        List.splitOn_append_cons_self_of_not_mem (single line List.mem_cons_self),
        restSplit, List.cons_append]

theorem lines_flatMap {written : List Text}
    (single : ∀ line ∈ written, '\n' ∉ line ∧ '\r' ∉ line) :
    lines (written.flatMap fun line => line ++ ['\n']) = written := by
  have unchanged : written.map stripReturn = written := by
    refine (List.map_congr_left ?_).trans (List.map_id _)
    intro line member
    have noReturn : line.getLast? ≠ some '\r' := fun last =>
      (single line member).2 (List.mem_of_getLast? last)
    simp [stripReturn, noReturn]
  simp [lines, splitOn_lines fun line member => (single line member).1, unchanged]

/-! ## Decimal numbers -/

/-- A number in decimal. -/
def decimal (n : Nat) : Text :=
  Nat.toDigits 10 n

/-- One more digit of an unsigned number, unless it then exceeds its type. -/
def addDigit (max value : Nat) (c : Char) : Option Nat :=
  if c.isDigit ∧ value * 10 + (c.toNat - 48) ≤ max then
    some (value * 10 + (c.toNat - 48))
  else
    none

/-- An unsigned number in decimal, at most `max`, perhaps after a plus sign. -/
def parseUnsigned (max : Nat) : Text → Option Nat
  | [] => none
  | '+' :: rest =>
      if rest = [] then none else rest.foldlM (addDigit max) 0
  | text => text.foldlM (addDigit max) 0

theorem addDigit_eq_some {max value result : Nat} {c : Char}
    (added : addDigit max value c = some result) :
    result = 10 * value + (c.toNat - '0'.toNat) := by
  unfold addDigit at added
  split at added
  · obtain rfl := Option.some.inj added
    rw [Nat.mul_comm]
    rfl
  · cases added

theorem foldlM_addDigit {max value result : Nat} {text : Text}
    (read : text.foldlM (addDigit max) value = some result) :
    result = Nat.ofDigitChars 10 text value := by
  induction text generalizing value with
  | nil => exact (Option.some.inj read).symm
  | cons c rest ih =>
      simp only [List.foldlM_cons, Option.bind_eq_bind,
        Option.bind_eq_some_iff] at read
      obtain ⟨next, added, read⟩ := read
      rw [ih read, Nat.ofDigitChars_cons, addDigit_eq_some added]

theorem isDigit_of_mem_decimal {n : Nat} {c : Char} (member : c ∈ decimal n) :
    c.isDigit = true :=
  Nat.isDigit_of_mem_toDigits (by decide) (by decide) member

theorem solid_of_isDigit {c : Char} (digit : c.isDigit = true) : Solid c := by
  have bounds : 48 ≤ c.toNat ∧ c.toNat ≤ 57 := Char.isDigit_iff_toNat.mp digit
  simp only [Solid, isWhitespace, Bool.or_eq_false_iff,
    decide_eq_false_iff_not]
  omega

theorem ofDigitChars_le_append (front back : Text) :
    Nat.ofDigitChars 10 front 0 ≤ Nat.ofDigitChars 10 (front ++ back) 0 := by
  have split (value : Nat) : Nat.ofDigitChars 10 back value =
      10 ^ back.length * value + Nat.ofDigitChars 10 back 0 :=
    Nat.ofDigitChars_eq_ofDigitChars_zero
  rw [Nat.ofDigitChars_append, split]
  have scale : 0 < 10 ^ back.length := Nat.pow_pos (by decide)
  exact (Nat.le_mul_of_pos_left _ scale).trans (Nat.le_add_right _ _)

/-- A reader of part of a number's digits sees at most the number. -/
theorem parseUnsigned_le {max n : Nat} {text : Text}
    (part : text <+: decimal n) : (parseUnsigned max text).getD 0 ≤ n := by
  have digits (c : Char) (member : c ∈ text) : c.isDigit = true :=
    isDigit_of_mem_decimal (part.subset member)
  obtain ⟨rest, whole⟩ := part
  cases read : parseUnsigned max text with
  | none => exact Nat.zero_le n
  | some value =>
      have folded : text.foldlM (addDigit max) 0 = some value := by
        unfold parseUnsigned at read
        split at read
        · cases read
        next rest =>
          have := digits '+' List.mem_cons_self
          simp at this
        · exact read
      calc
        (some value).getD 0 = Nat.ofDigitChars 10 text 0 :=
          foldlM_addDigit folded
        _ ≤ Nat.ofDigitChars 10 (text ++ rest) 0 :=
          ofDigitChars_le_append text rest
        _ = n := by
          rw [whole]
          exact Nat.ofDigitChars_ten_toDigits

theorem le_ofDigitChars (text : Text) (value : Nat) :
    value ≤ Nat.ofDigitChars 10 text value := by
  rw [Nat.ofDigitChars_eq_ofDigitChars_zero]
  have scale : 0 < 10 ^ text.length := Nat.pow_pos (by decide)
  exact (Nat.le_mul_of_pos_left _ scale).trans (Nat.le_add_right _ _)

theorem foldlM_addDigit_ofDigitChars {max value : Nat} {text : Text}
    (digits : ∀ c ∈ text, c.isDigit = true)
    (bounded : Nat.ofDigitChars 10 text value ≤ max) :
    text.foldlM (addDigit max) value = some (Nat.ofDigitChars 10 text value) := by
  induction text generalizing value with
  | nil => rfl
  | cons c rest ih =>
      have digit : c.isDigit = true := digits c List.mem_cons_self
      rw [Nat.ofDigitChars_cons] at bounded ⊢
      have next : 10 * value + (c.toNat - '0'.toNat) ≤ max :=
        (le_ofDigitChars rest _).trans bounded
      have added : addDigit max value c =
          some (10 * value + (c.toNat - '0'.toNat)) := by
        rw [Nat.mul_comm] at next ⊢
        exact if_pos ⟨digit, next⟩
      rw [List.foldlM_cons, added]
      exact ih (fun other member => digits other (List.mem_cons_of_mem _ member))
        bounded

theorem parseUnsigned_decimal {max n : Nat} (bounded : n ≤ max) :
    parseUnsigned max (decimal n) = some n := by
  have digits (c : Char) (member : c ∈ decimal n) : c.isDigit = true :=
    isDigit_of_mem_decimal member
  have value : Nat.ofDigitChars 10 (decimal n) 0 = n :=
    Nat.ofDigitChars_ten_toDigits
  have folded : (decimal n).foldlM (addDigit max) 0 = some n := by
    rw [foldlM_addDigit_ofDigitChars digits (value.symm ▸ bounded), value]
  unfold parseUnsigned
  split
  next empty =>
    exact absurd empty Nat.toDigits_ne_nil
  next rest sign =>
    have := digits '+' (sign ▸ List.mem_cons_self)
    simp at this
  · exact folded

theorem trim_decimal (n : Nat) : trim (decimal n) = decimal n :=
  trim_solid fun _ member => solid_of_isDigit (isDigit_of_mem_decimal member)

/-- A line with a number in decimal. -/
def decimalLine (n : Nat) : Text :=
  decimal n ++ ['\n']

theorem parse_trim_le {max n : Nat} {text : Text}
    (part : text <+: decimalLine n) :
    (parseUnsigned max (trim text)).getD 0 ≤ n := by
  have solid (c : Char) (member : c ∈ decimal n) : Solid c :=
    solid_of_isDigit (isDigit_of_mem_decimal member)
  rcases List.prefix_concat_iff.mp part with whole | inner
  · rw [whole, trim_append_whitespace solid (by decide)]
    exact parseUnsigned_le (List.prefix_refl _)
  · rw [trim_solid fun c member => solid c (inner.subset member)]
    exact parseUnsigned_le inner

/-! ## Hexadecimal bytes -/

/-- `to_digit`. -/
def toDigit (radix : Nat) (c : Char) : Option Nat :=
  let value :=
    if '0' ≤ c ∧ c ≤ '9' then some (c.toNat - '0'.toNat)
    else if 'a' ≤ c ∧ c ≤ 'z' then some (c.toNat - 'a'.toNat + 10)
    else if 'A' ≤ c ∧ c ≤ 'Z' then some (c.toNat - 'A'.toNat + 10)
    else none
  value.filter fun digit => decide (digit < radix)

/-- Bytes in hexadecimal, two digits each. -/
def hex (bytes : List UInt8) : Text :=
  bytes.flatMap fun byte =>
    [Nat.digitChar (byte.toNat / 16), Nat.digitChar (byte.toNat % 16)]

/-- The bytes that pairs of hexadecimal digits stand for. -/
def unhexPairs : Text → Option (List UInt8)
  | [] => some []
  | [_] => none
  | high :: low :: rest => do
      let high ← toDigit 16 high
      let low ← toDigit 16 low
      let bytes ← unhexPairs rest
      return UInt8.ofNat (16 * high + low) :: bytes

/-- `unhex`. -/
def unhex (text : Text) : Option (List UInt8) :=
  let text := trim text
  if text = [] then none else unhexPairs text

/-- `is_hex`: so many bytes, all of them hexadecimal digits. -/
def isHex (text : Text) (length : Nat) : Bool :=
  decide (utf8Length text = length) && text.all fun c => (toDigit 16 c).isSome

theorem toDigit_digitChar {n : Nat} (small : n < 16) :
    toDigit 16 (Nat.digitChar n) = some n := by
  have all : ∀ n < 16, toDigit 16 (Nat.digitChar n) = some n := by
    decide
  exact all n small

theorem forall_mem_hex {property : Char → Prop} (bytes : List UInt8)
    (every : ∀ n < 16, property (Nat.digitChar n)) :
    ∀ c ∈ hex bytes, property c := by
  intro c member
  simp only [hex, List.mem_flatMap, List.mem_cons, List.not_mem_nil,
    or_false] at member
  obtain ⟨byte, -, rfl | rfl⟩ := member
  · exact every _ (by have := byte.toNat_lt; omega)
  · exact every _ (by omega)

theorem hex_cons (byte : UInt8) (rest : List UInt8) :
    hex (byte :: rest) = Nat.digitChar (byte.toNat / 16) ::
      Nat.digitChar (byte.toNat % 16) :: hex rest :=
  rfl

theorem unhexPairs_hex (bytes : List UInt8) : unhexPairs (hex bytes) = some bytes := by
  induction bytes with
  | nil => rfl
  | cons byte rest ih =>
      have bound := byte.toNat_lt
      have whole : 16 * (byte.toNat / 16) + byte.toNat % 16 = byte.toNat := by
        omega
      have high : toDigit 16 (Nat.digitChar (byte.toNat / 16)) =
          some (byte.toNat / 16) :=
        toDigit_digitChar (by omega)
      have low : toDigit 16 (Nat.digitChar (byte.toNat % 16)) =
          some (byte.toNat % 16) :=
        toDigit_digitChar (by omega)
      rw [hex_cons, unhexPairs, high, low, ih]
      simp only [Option.bind_eq_bind, Option.bind_some, whole, UInt8.ofNat_toNat]
      rfl

theorem trim_hex (bytes : List UInt8) : trim (hex bytes) = hex bytes := by
  apply trim_solid
  apply forall_mem_hex
  unfold Solid
  decide

theorem unhex_hex {bytes : List UInt8} (nonempty : bytes ≠ []) :
    unhex (hex bytes) = some bytes := by
  have written : hex bytes ≠ [] := by
    obtain ⟨byte, rest, rfl⟩ := List.exists_cons_of_ne_nil nonempty
    simp [hex]
  simp [unhex, trim_hex, written, unhexPairs_hex]

theorem utf8Length_hex (bytes : List UInt8) :
    utf8Length (hex bytes) = 2 * bytes.length := by
  have ascii : ∀ n < 16, (Nat.digitChar n).utf8Size = 1 := by
    decide
  induction bytes with
  | nil => rfl
  | cons byte rest ih =>
      have high := ascii (byte.toNat / 16) (by have := byte.toNat_lt; omega)
      have low := ascii (byte.toNat % 16) (by omega)
      simp only [utf8Length, hex_cons, List.map_cons, List.sum_cons, high, low,
        List.length_cons] at ih ⊢
      omega

theorem isHex_hex (bytes : List UInt8) : isHex (hex bytes) (2 * bytes.length) := by
  simp only [isHex, utf8Length_hex, decide_true, Bool.true_and, List.all_eq_true]
  exact forall_mem_hex bytes (by decide)

theorem hex_injective : Function.Injective hex := by
  intro left right same
  apply Option.some.inj
  rw [← unhexPairs_hex left, same, unhexPairs_hex]

end TextFormats
