import WindowMlHub.CertificateEncoding

/-!
# The code that a person carries

`pairing.rs` of the keys: a new device shows a code of eight characters, and whoever
carries it to a device that may pair types it as people do.  What is typed is read back
as the code that it spells, and nothing else is read as a code.
-/

namespace WindowMlHub

open TextFormats

/-- `ALPHABET`: no I, L, O or U. -/
def codeAlphabet : Text :=
  ['0', '1', '2', '3', '4', '5', '6', '7', '8', '9', 'A', 'B', 'C', 'D', 'E', 'F',
    'G', 'H', 'J', 'K', 'M', 'N', 'P', 'Q', 'R', 'S', 'T', 'V', 'W', 'X', 'Y', 'Z']

/-- `CODE_CHARS`. -/
def codeChars : Nat := 8

/-- `PairingCode`. -/
@[ext]
structure PairingCode where
  text : Text
  text_length : text.length = codeChars
  text_chars : ∀ c ∈ text, c ∈ codeAlphabet
  deriving DecidableEq

/-- A character of a code, however it was typed. -/
def readChar (c : Char) : Char :=
  match c.toUpper with
  | 'I' | 'L' => '1'
  | 'O' => '0'
  | other => other

/-- What stands between the characters of a code. -/
def isSeparator (c : Char) : Bool :=
  isWhitespace c || decide (c = '-')

theorem codeAlphabet_length : codeAlphabet.length = 32 := by
  decide

namespace PairingCode

/-- The character that a random byte is drawn as. -/
def drawnChar (byte : UInt8) : Char :=
  codeAlphabet.getD (byte.toNat % 32) '0'

theorem drawnChar_mem (byte : UInt8) : drawnChar byte ∈ codeAlphabet := by
  have inside : byte.toNat % 32 < codeAlphabet.length := by
    rw [codeAlphabet_length]
    exact Nat.mod_lt _ (by decide)
  rw [drawnChar, List.getD_eq_getElem _ _ inside]
  exact List.getElem_mem inside

/-- `generate`, with these random bytes. -/
def generate (drawn : Vector UInt8 codeChars) : PairingCode where
  text := drawn.toList.map drawnChar
  text_length := by simp
  text_chars c member := by
    obtain ⟨byte, -, rfl⟩ := List.mem_map.mp member
    exact drawnChar_mem byte

end PairingCode

/-- The characters of a code that was typed. -/
def typedChars (typed : Text) : Text :=
  (typed.filter fun c => !isSeparator c).map readChar

/-- The bytes of `ALPHABET`. -/
def alphabetBytes : Bytes :=
  asciiBytes codeAlphabet

section Reading

variable {text typed : Text} {code : PairingCode}

theorem utf8Bytes_of_alphabet (plain : ∀ c ∈ text, c ∈ codeAlphabet) :
    utf8Bytes text = asciiBytes text := by
  have ascii : codeAlphabet.all (fun c => Ascii c) = true := by decide
  exact utf8Bytes_ascii fun c member =>
    of_decide_eq_true (List.all_eq_true.mp ascii c (plain c member))

theorem exists_text_of_alphabetBytes {bytes : Bytes} (plain : ∀ b ∈ bytes, b ∈ alphabetBytes) :
    ∃ text : Text, (∀ c ∈ text, c ∈ codeAlphabet) ∧ asciiBytes text = bytes := by
  induction bytes with
  | nil => exact ⟨[], by simp, rfl⟩
  | cons first rest ih =>
      obtain ⟨text, chars, spelled⟩ := ih fun b member => plain b (List.mem_cons_of_mem _ member)
      obtain ⟨c, member, is⟩ := List.mem_map.mp (plain first List.mem_cons_self)
      refine ⟨c :: text, ?_, ?_⟩
      · simpa using ⟨member, chars⟩
      · rw [← is, ← spelled]
        rfl

theorem code_bytes_iff :
    (utf8Length text = codeChars ∧ ∀ b ∈ utf8Bytes text, b ∈ alphabetBytes) ↔
      text.length = codeChars ∧ ∀ c ∈ text, c ∈ codeAlphabet := by
  have spelled (plain : ∀ c ∈ text, c ∈ codeAlphabet) :
      utf8Length text = text.length := by
    rw [← length_utf8Bytes, utf8Bytes_of_alphabet plain, asciiBytes, List.length_map]
  constructor
  · rintro ⟨length, plain⟩
    obtain ⟨other, chars, same⟩ := exists_text_of_alphabetBytes plain
    obtain rfl : other = text :=
      utf8Bytes_injective ((utf8Bytes_of_alphabet chars).trans same)
    exact ⟨(spelled chars).symm.trans length, chars⟩
  · rintro ⟨length, chars⟩
    refine ⟨(spelled chars).trans length, fun b member => ?_⟩
    rw [utf8Bytes_of_alphabet chars] at member
    obtain ⟨c, inside, rfl⟩ := List.mem_map.mp member
    exact List.mem_map_of_mem (chars c inside)

namespace PairingCode

/-- `parse`. -/
def parse (typed : Text) : Option PairingCode :=
  let text := typedChars typed
  if is : utf8Length text = codeChars ∧ ∀ b ∈ utf8Bytes text, b ∈ alphabetBytes then
    some ⟨text, (code_bytes_iff.mp is).1, (code_bytes_iff.mp is).2⟩
  else
    none

theorem parse_eq_some : parse typed = some code ↔ typedChars typed = code.text := by
  unfold parse
  dsimp only
  split
  · rw [Option.some_inj, PairingCode.ext_iff]
  · next isNot =>
      simp only [reduceCtorEq, false_iff]
      intro same
      rw [same] at isNot
      exact isNot (code_bytes_iff.mpr ⟨code.text_length, code.text_chars⟩)

end PairingCode

end Reading

/-! ## How a code may be typed -/

/-- A character may be typed as it is, in lower case, or as one that is taken for it. -/
def spellings (c : Char) : List Char :=
  [c, c.toLower] ++
    if c = '1' then ['I', 'i', 'L', 'l'] else if c = '0' then ['O', 'o'] else []

/-- The characters are typed one after the other, with separators anywhere. -/
inductive Types : Text → Text → Prop
  | done : Types [] []
  | separator {c : Char} {typed text : Text} :
      isSeparator c = true → Types typed text → Types (c :: typed) text
  | char {c typedChar : Char} {typed text : Text} :
      typedChar ∈ spellings c → Types typed text → Types (typedChar :: typed) (c :: text)

theorem toNat_toUpper (c : Char) : c.toUpper.toNat =
    if 97 ≤ c.toNat ∧ c.toNat ≤ 122 then c.toNat - 32 else c.toNat := by
  unfold Char.toUpper
  split
  · next lower =>
      have bounds : 97 ≤ c.toNat ∧ c.toNat ≤ 122 := lower
      have offset : 'A'.val - 'a'.val = 4294967264 := by decide
      rw [if_pos bounds]
      change (c.val + ('A'.val - 'a'.val)).toNat = _
      rw [offset, UInt32.toNat_add]
      change (c.toNat + 4294967264) % 2 ^ 32 = _
      omega
  · next other =>
      have bounds : ¬ (97 ≤ c.toNat ∧ c.toNat ≤ 122) := other
      rw [if_neg bounds]

theorem toNat_toLower (c : Char) : c.toLower.toNat =
    if 65 ≤ c.toNat ∧ c.toNat ≤ 90 then c.toNat + 32 else c.toNat := by
  unfold Char.toLower
  split
  · next upper =>
      have bounds : 65 ≤ c.toNat ∧ c.toNat ≤ 90 := upper
      rw [if_pos bounds]
      change (c.val + 32).toNat = _
      rw [UInt32.toNat_add]
      change (c.toNat + 32) % 2 ^ 32 = _
      omega
  · next other =>
      have bounds : ¬ (65 ≤ c.toNat ∧ c.toNat ≤ 90) := other
      rw [if_neg bounds]

theorem eq_of_toUpper {c upper : Char} (same : c.toUpper = upper) :
    c = upper ∨ c = upper.toLower := by
  subst same
  have up := toNat_toUpper c
  have low := toNat_toLower c.toUpper
  by_cases lower : 97 ≤ c.toNat ∧ c.toNat ≤ 122
  · rw [if_pos lower] at up
    rw [up, if_pos (by omega)] at low
    exact .inr (Char.toNat_inj.mp (by omega))
  · rw [if_neg lower] at up
    exact .inl (Char.toNat_inj.mp up.symm)

theorem mem_spellings_readChar (c : Char) : c ∈ spellings (readChar c) := by
  unfold readChar
  split
  · next is => rcases eq_of_toUpper is with rfl | rfl <;> decide
  · next is => rcases eq_of_toUpper is with rfl | rfl <;> decide
  · next is => rcases eq_of_toUpper is with rfl | rfl <;> decide
  · rcases eq_of_toUpper (c := c) rfl with same | same
    · exact List.mem_append_left _ (by simp [← same])
    · exact List.mem_append_left _ (by simp [← same])

theorem readChar_of_mem_spellings {c typedChar : Char} (member : c ∈ codeAlphabet)
    (spells : typedChar ∈ spellings c) :
    readChar typedChar = c ∧ isSeparator typedChar = false := by
  have all : codeAlphabet.all (fun c => (spellings c).all fun typedChar =>
      readChar typedChar = c ∧ isSeparator typedChar = false) = true := by
    decide +kernel
  exact of_decide_eq_true
    (List.all_eq_true.mp (List.all_eq_true.mp all c member) typedChar spells)

theorem typedChars_cons_separator {c : Char} (separates : isSeparator c = true) (typed : Text) :
    typedChars (c :: typed) = typedChars typed := by
  rw [typedChars, List.filter_cons_of_neg (by simp [separates])]
  rfl

theorem typedChars_cons_char {c : Char} (plain : isSeparator c = false) (typed : Text) :
    typedChars (c :: typed) = readChar c :: typedChars typed := by
  rw [typedChars, List.filter_cons_of_pos (by simp [plain]), List.map_cons]
  rfl

theorem types_typedChars (typed : Text) : Types typed (typedChars typed) := by
  induction typed with
  | nil => exact .done
  | cons c rest ih =>
      cases separates : isSeparator c with
      | true =>
          rw [typedChars_cons_separator separates]
          exact .separator separates ih
      | false =>
          rw [typedChars_cons_char separates]
          exact .char (mem_spellings_readChar c) ih

theorem typedChars_of_types {typed text : Text} (types : Types typed text)
    (chars : ∀ c ∈ text, c ∈ codeAlphabet) : typedChars typed = text := by
  induction types with
  | done => rfl
  | separator separates _ ih => rw [typedChars_cons_separator separates, ih chars]
  | char spells _ ih =>
      obtain ⟨member, rest⟩ := List.forall_mem_cons.mp chars
      obtain ⟨reads, plain⟩ := readChar_of_mem_spellings member spells
      rw [typedChars_cons_char plain, reads, ih rest]

/-- A text is read as a code exactly when it types that code, so that nothing is read as
two codes. -/
theorem parse_iff_types (typed : Text) (code : PairingCode) :
    PairingCode.parse typed = some code ↔ Types typed code.text := by
  rw [PairingCode.parse_eq_some]
  constructor
  · intro same
    rw [← same]
    exact types_typedChars typed
  · intro types
    exact typedChars_of_types types code.text_chars

example : (PairingCode.parse "o1-il 0aZz".toList).map PairingCode.text =
    some "01110AZZ".toList := by
  decide +kernel

end WindowMlHub
