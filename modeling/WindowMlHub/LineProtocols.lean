import WindowMlHub.TextFormats

/-!
# Text lines in a byte stream

What a program does with a protocol whose lines end in a carriage return and a
line feed: it looks for the end of a line among the bytes that have arrived,
reads them as UTF-8, and splits and trims what it then has.  An ASCII character
shows in the bytes of a text exactly where it stands in the text.
-/

namespace TextFormats

/-! ## UTF-8 -/

theorem utf8Bytes_eq_flatMap (text : Text) :
    utf8Bytes text = text.flatMap String.utf8EncodeChar := by
  simp [utf8Bytes, String.ofList, List.utf8Encode]

theorem utf8Bytes_append (text others : Text) :
    utf8Bytes (text ++ others) = utf8Bytes text ++ utf8Bytes others := by
  simp only [utf8Bytes_eq_flatMap, List.flatMap_append]

@[simp]
theorem utf8Bytes_nil : utf8Bytes [] = [] := by
  simp [utf8Bytes_eq_flatMap]

/-- A character of one byte. -/
def Ascii (c : Char) : Prop :=
  c.toNat < 128

instance (c : Char) : Decidable (Ascii c) :=
  inferInstanceAs (Decidable (c.toNat < 128))

/-- A character that is not ASCII is written in bytes from 128 on. -/
theorem le_toNat_of_mem_utf8EncodeChar {c : Char} {byte : UInt8}
    (large : ¬ c.val.toNat ≤ 0x7f) (member : byte ∈ String.utf8EncodeChar c) :
    128 ≤ byte.toNat := by
  have continuation (n : Nat) : 128 ≤ (UInt8.ofNat (n % 64 + 128)).toNat := by
    rw [UInt8.toNat_ofNat']
    omega
  have first (n mask start : Nat) (low : 128 ≤ start) (fits : mask + start ≤ 256)
      (positive : 0 < mask) : 128 ≤ (UInt8.ofNat (n % mask + start)).toNat := by
    have := Nat.mod_lt n positive
    rw [UInt8.toNat_ofNat', Nat.mod_eq_of_lt (by omega)]
    omega
  rw [String.utf8EncodeChar, if_neg large] at member
  split at member
  · simp only [List.mem_cons, List.not_mem_nil, or_false] at member
    rcases member with rfl | rfl
    · exact first _ 32 192 (by decide) (by decide) (by decide)
    · exact continuation _
  split at member
  · simp only [List.mem_cons, List.not_mem_nil, or_false] at member
    rcases member with rfl | rfl | rfl
    · exact first _ 16 224 (by decide) (by decide) (by decide)
    · exact continuation _
    · exact continuation _
  · simp only [List.mem_cons, List.not_mem_nil, or_false] at member
    rcases member with rfl | rfl | rfl | rfl
    · exact first _ 8 240 (by decide) (by decide) (by decide)
    · exact continuation _
    · exact continuation _
    · exact continuation _

theorem utf8EncodeChar_ascii {c : Char} (ascii : Ascii c) :
    String.utf8EncodeChar c = [UInt8.ofNat c.toNat] := by
  have small : c.val.toNat ≤ 0x7f := Nat.le_of_lt_succ ascii
  rw [String.utf8EncodeChar, if_pos small]
  rfl

theorem utf8Bytes_cons_ascii {c : Char} (ascii : Ascii c) (text : Text) :
    utf8Bytes (c :: text) = UInt8.ofNat c.toNat :: utf8Bytes text := by
  simp only [utf8Bytes_eq_flatMap, List.flatMap_cons, utf8EncodeChar_ascii ascii,
    List.singleton_append]

theorem utf8Bytes_ascii {text : Text} (ascii : ∀ c ∈ text, Ascii c) :
    utf8Bytes text = asciiBytes text := by
  induction text with
  | nil => exact utf8Bytes_nil
  | cons c text ih =>
      rw [utf8Bytes_cons_ascii (ascii c List.mem_cons_self),
        ih fun other member => ascii other (List.mem_cons_of_mem _ member)]
      rfl

theorem mem_of_mem_utf8Bytes {c : Char} {text : Text} (ascii : Ascii c)
    (member : UInt8.ofNat c.toNat ∈ utf8Bytes text) : c ∈ text := by
  rw [utf8Bytes_eq_flatMap, List.mem_flatMap] at member
  obtain ⟨other, found, member⟩ := member
  have byte : (UInt8.ofNat c.toNat).toNat = c.toNat := by
    rw [UInt8.toNat_ofNat', Nat.mod_eq_of_lt (by unfold Ascii at ascii; omega)]
  by_cases small : other.val.toNat ≤ 0x7f
  · rw [utf8EncodeChar_ascii (Nat.lt_succ_of_le small), List.mem_singleton] at member
    have same := congrArg UInt8.toNat member
    rw [byte, UInt8.toNat_ofNat', Nat.mod_eq_of_lt (by
      have : other.toNat = other.val.toNat := rfl
      omega)] at same
    rwa [Char.toNat_inj.mp same]
  · have large := le_toNat_of_mem_utf8EncodeChar small member
    rw [byte] at large
    exact absurd ascii (Nat.not_lt_of_le large)

theorem mem_utf8Bytes {c : Char} {text : Text} (ascii : Ascii c) (member : c ∈ text) :
    UInt8.ofNat c.toNat ∈ utf8Bytes text := by
  rw [utf8Bytes_eq_flatMap, List.mem_flatMap]
  exact ⟨c, member, by rw [utf8EncodeChar_ascii ascii]; exact List.mem_singleton.mpr rfl⟩

/-- What follows ASCII text in the bytes of a text is the bytes of what follows it
in the text. -/
theorem utf8Bytes_eq_append {text front : Text} {bytes : List UInt8}
    (ascii : ∀ c ∈ front, Ascii c) (same : utf8Bytes text = utf8Bytes front ++ bytes) :
    ∃ back, text = front ++ back ∧ bytes = utf8Bytes back := by
  induction front generalizing text with
  | nil => exact ⟨text, rfl, same.symm⟩
  | cons c front ih =>
      have small : Ascii c := ascii c List.mem_cons_self
      rw [utf8Bytes_cons_ascii small, List.cons_append] at same
      cases text with
      | nil =>
          rw [utf8Bytes_nil] at same
          cases same
      | cons other text =>
          by_cases otherSmall : other.val.toNat ≤ 0x7f
          · have otherAscii : Ascii other := Nat.lt_succ_of_le otherSmall
            rw [utf8Bytes_cons_ascii otherAscii] at same
            obtain ⟨byte, rest⟩ := List.cons.inj same
            obtain rfl : other = c :=
              List.mem_singleton.mp <| mem_of_mem_utf8Bytes otherAscii (by
                rw [byte, utf8Bytes_cons_ascii small]
                exact List.mem_cons_self)
            obtain ⟨back, rfl, others⟩ :=
              ih (fun d member => ascii d (List.mem_cons_of_mem _ member)) rest
            exact ⟨back, rfl, others⟩
          · obtain ⟨byte, others, encoded⟩ :=
              List.exists_cons_of_ne_nil (@String.utf8EncodeChar_ne_nil other)
            have large := le_toNat_of_mem_utf8EncodeChar otherSmall
              (encoded ▸ List.mem_cons_self)
            rw [utf8Bytes_eq_flatMap, List.flatMap_cons, encoded, List.cons_append] at same
            rw [(List.cons.inj same).1, UInt8.toNat_ofNat',
              Nat.mod_eq_of_lt (by unfold Ascii at small; omega)] at large
            exact absurd small (Nat.not_lt_of_le large)

/-! ## Looking for bytes -/

/-- `find`: where the needle first stands in the haystack. -/
def find (needle : List UInt8) : List UInt8 → Option Nat
  | [] => if needle <+: [] then some 0 else none
  | byte :: rest =>
      if needle <+: byte :: rest then some 0 else (find needle rest).map (· + 1)

variable {needle : List UInt8}

theorem find_front {haystack : List UInt8} (here : needle <+: haystack) :
    find needle haystack = some 0 := by
  cases haystack with
  | nil => rw [find, if_pos here]
  | cons byte rest => rw [find, if_pos here]

/-- What is found lies within the haystack. -/
theorem find_le {haystack : List UInt8} {index : Nat}
    (found : find needle haystack = some index) :
    index + needle.length ≤ haystack.length := by
  induction haystack generalizing index with
  | nil =>
      rw [find] at found
      split at found
      next here =>
        cases found
        simpa using here.length_le
      · cases found
  | cons byte rest ih =>
      rw [find] at found
      split at found
      next here =>
        cases found
        simpa using here.length_le
      · obtain ⟨next, later, rfl⟩ := Option.map_eq_some_iff.mp found
        have within := ih later
        rw [List.length_cons]
        omega

theorem find_cons {byte : UInt8} {rest : List UInt8} (notHere : ¬ needle <+: byte :: rest) :
    find needle (byte :: rest) = (find needle rest).map (· + 1) := by
  rw [find, if_neg notHere]

/-- What was found is found still when more arrives. -/
theorem find_append {haystack : List UInt8} {index : Nat} (later : List UInt8)
    (found : find needle haystack = some index) :
    find needle (haystack ++ later) = some index := by
  induction haystack generalizing index with
  | nil =>
      rw [find] at found
      split at found
      next here =>
        cases found
        exact find_front (here.trans (List.prefix_append _ _))
      · cases found
  | cons byte rest ih =>
      by_cases here : needle <+: byte :: rest
      · rw [find_front here] at found
        cases found
        exact find_front (here.trans (List.prefix_append _ _))
      · have whole := find_le found
        rw [find_cons here] at found
        obtain ⟨next, inRest, rfl⟩ := Option.map_eq_some_iff.mp found
        have still : ¬ needle <+: byte :: (rest ++ later) := by
          intro there
          have short : needle.length ≤ (byte :: rest).length := by omega
          exact here (List.prefix_of_prefix_length_le there (List.prefix_append _ later) short)
        rw [List.cons_append, find_cons still, ih inRest, Option.map_some]

theorem find_skip {first : UInt8} {before : List UInt8} (others : List UInt8)
    (absent : first ∉ before) (haystack : List UInt8) :
    find (first :: others) (before ++ haystack) =
      (find (first :: others) haystack).map (· + before.length) := by
  induction before with
  | nil => simp
  | cons byte before ih =>
      rw [List.mem_cons, not_or] at absent
      have notHere : ¬ first :: others <+: byte :: (before ++ haystack) := by
        intro here
        exact absent.1 (List.cons_prefix_cons.mp here).1
      rw [List.cons_append, find_cons notHere, ih absent.2, Option.map_map,
        List.length_cons]
      rfl

/-- The bytes that end a line. -/
def crlf : List UInt8 :=
  [13, 10]

theorem find_crlf {line : List UInt8} (later : List UInt8) (single : 13 ∉ line) :
    find crlf (line ++ crlf ++ later) = some line.length := by
  rw [crlf, List.append_assoc, find_skip [10] single, find_front (List.prefix_append _ _)]
  simp

/-- Lines one after another, each ended. -/
def endLines (lines : List (List UInt8)) : List UInt8 :=
  lines.flatMap fun line => line ++ crlf

/-- The empty line after lines that are not empty is where two ends first meet. -/
theorem find_blank {lines : List (List UInt8)} (nonempty : lines ≠ [])
    (plain : ∀ line ∈ lines, line ≠ [] ∧ 13 ∉ line) :
    find (crlf ++ crlf) (endLines lines ++ crlf) =
      some ((endLines lines).length - 2) := by
  induction lines with
  | nil => exact absurd rfl nonempty
  | cons line rest ih =>
      obtain ⟨filled, single⟩ := plain line List.mem_cons_self
      rw [endLines, List.flatMap_cons, ← endLines, List.append_assoc, List.append_assoc]
      rw [show crlf ++ crlf = (13 : UInt8) :: [10, 13, 10] from rfl, find_skip _ single]
      cases rest with
      | nil =>
          rw [find_front]
          · simp [endLines, crlf]
          · exact List.prefix_refl _
      | cons next others =>
          obtain ⟨nextFilled, nextSingle⟩ :=
            plain next (List.mem_cons_of_mem _ List.mem_cons_self)
          have found := ih (by simp) fun line member =>
            plain line (List.mem_cons_of_mem _ member)
          obtain ⟨byte, tail, rfl⟩ := List.exists_cons_of_ne_nil nextFilled
          have notReturn : byte ≠ 13 := fun same => nextSingle (same ▸ List.mem_cons_self)
          have size : 2 ≤ (endLines ((byte :: tail) :: others)).length := by
            simp [endLines, crlf]
            omega
          have atReturn : ¬ crlf ++ crlf <+:
              (13 : UInt8) :: 10 :: (endLines ((byte :: tail) :: others) ++ crlf) := by
            simp [endLines, crlf, List.cons_prefix_cons, notReturn.symm]
          have atFeed : ¬ crlf ++ crlf <+:
              (10 : UInt8) :: (endLines ((byte :: tail) :: others) ++ crlf) := by
            simp [crlf, List.cons_prefix_cons]
          have skipped : find (crlf ++ crlf)
              (crlf ++ (endLines ((byte :: tail) :: others) ++ crlf)) =
              some ((endLines ((byte :: tail) :: others)).length - 2 + 1 + 1) := by
            have opened : crlf ++ (endLines ((byte :: tail) :: others) ++ crlf) =
                13 :: 10 :: (endLines ((byte :: tail) :: others) ++ crlf) := rfl
            rw [opened, find_cons atReturn, find_cons atFeed, found]
            rfl
          rw [show (13 : UInt8) :: [10, 13, 10] = crlf ++ crlf from rfl, skipped,
            Option.map_some, List.length_append, List.length_append]
          simp only [crlf, List.length_cons, List.length_nil, Option.some.injEq]
          omega

/-! ## Splitting and trimming -/

/-- `split("\r\n")`. -/
def splitCrlf : Text → List Text
  | [] => [[]]
  | '\r' :: '\n' :: rest => [] :: splitCrlf rest
  | c :: rest =>
      match splitCrlf rest with
      | [] => [[c]]
      | first :: others => (c :: first) :: others

/-- `splitn`. -/
def splitn : Nat → Char → Text → List Text
  | 0, _, _ => []
  | 1, _, text => [text]
  | n + 2, separator, text =>
      match splitOnce separator text with
      | none => [text]
      | some (before, after) => before :: splitn (n + 1) separator after

theorem splitCrlf_cons {c : Char} (other : c ≠ '\r') (rest : Text) :
    splitCrlf (c :: rest) =
      match splitCrlf rest with
      | [] => [[c]]
      | first :: others => (c :: first) :: others := by
  rw [splitCrlf]
  rintro rest' rfl
  exact absurd rfl other

theorem splitCrlf_line {line : Text} (single : '\r' ∉ line) : splitCrlf line = [line] := by
  induction line with
  | nil => rfl
  | cons c line ih =>
      rw [List.mem_cons, not_or] at single
      rw [splitCrlf_cons (Ne.symm single.1), ih single.2]

theorem splitCrlf_append {line : Text} (single : '\r' ∉ line) (rest : Text) :
    splitCrlf (line ++ '\r' :: '\n' :: rest) = line :: splitCrlf rest := by
  induction line with
  | nil => rfl
  | cons c line ih =>
      rw [List.mem_cons, not_or] at single
      rw [List.cons_append, splitCrlf_cons (Ne.symm single.1), ih single.2]

theorem splitCrlf_join {first : Text} {others : List Text}
    (single : ∀ line ∈ first :: others, '\r' ∉ line) :
    splitCrlf (first ++ others.flatMap fun line => '\r' :: '\n' :: line) =
      first :: others := by
  induction others generalizing first with
  | nil =>
      rw [List.flatMap_nil, List.append_nil]
      exact splitCrlf_line (single first List.mem_cons_self)
  | cons next others ih =>
      rw [List.flatMap_cons, List.cons_append, List.cons_append,
        splitCrlf_append (single first List.mem_cons_self),
        ih fun line member => single line (List.mem_cons_of_mem _ member)]

theorem splitn_three {separator : Char} {first second : Text} (absent : separator ∉ first)
    (absentNext : separator ∉ second) (third : Text) :
    splitn 3 separator (first ++ separator :: (second ++ separator :: third)) =
      [first, second, third] := by
  simp only [splitn, splitOnce_append absent, splitOnce_append absentNext]

/-- A character that is white space. -/
def Blank (c : Char) : Prop :=
  isWhitespace c = true

theorem rdropWhile_append_blank (text : Text) {after : Text}
    (blank : ∀ c ∈ after, Blank c) :
    (text ++ after).rdropWhile isWhitespace = text.rdropWhile isWhitespace := by
  rw [List.rdropWhile, List.rdropWhile, List.reverse_append,
    List.dropWhile_append_of_pos fun c member => blank c (List.mem_reverse.mp member)]

theorem trim_padded {before text after : Text} (blankBefore : ∀ c ∈ before, Blank c)
    (solid : ∀ c ∈ text, Solid c) (blankAfter : ∀ c ∈ after, Blank c) :
    trim (before ++ text ++ after) = text := by
  rw [trim, List.append_assoc, List.dropWhile_append_of_pos blankBefore]
  cases text with
  | nil =>
      have none : after.dropWhile isWhitespace = [] :=
        List.dropWhile_eq_nil_iff.mpr blankAfter
      rw [List.nil_append, none, List.rdropWhile_nil]
  | cons first rest =>
      have start : (first :: rest ++ after).dropWhile isWhitespace = first :: rest ++ after := by
        rw [List.cons_append, List.dropWhile_cons_of_neg]
        simpa [Solid] using solid first List.mem_cons_self
      rw [start, rdropWhile_append_blank _ blankAfter, List.rdropWhile,
        dropWhile_solid fun c member => solid c (List.mem_reverse.mp member),
        List.reverse_reverse]

/-- Text that is not blank before a mark is kept up to the mark. -/
theorem trim_marked {before body rest : Text} {mark : Char}
    (blank : ∀ c ∈ before, Blank c) (begins : ∀ c ∈ body.head?, Solid c)
    (solid : Solid mark) :
    ∃ rest', trim (before ++ body ++ mark :: rest) = body ++ mark :: rest' := by
  have start : (body ++ mark :: rest).dropWhile isWhitespace = body ++ mark :: rest := by
    cases body with
    | nil =>
        rw [List.nil_append, List.dropWhile_cons_of_neg]
        simpa [Solid] using solid
    | cons first others =>
        rw [List.cons_append, List.dropWhile_cons_of_neg]
        simpa [Solid] using begins first rfl
  refine ⟨rest.rdropWhile isWhitespace, ?_⟩
  rw [trim, List.append_assoc, List.dropWhile_append_of_pos blank, start, List.rdropWhile,
    List.reverse_append, List.reverse_cons, List.append_assoc, List.dropWhile_append]
  have kept : ([mark] ++ body.reverse).dropWhile isWhitespace = [mark] ++ body.reverse := by
    rw [List.singleton_append, List.dropWhile_cons_of_neg]
    simpa [Solid] using solid
  split
  next empty =>
    rw [kept, List.rdropWhile, List.isEmpty_iff.mp empty]
    simp
  · simp [List.rdropWhile]

/-! ## Numbers -/

theorem parseUnsigned_digits {max : Nat} {text : Text} (nonempty : text ≠ [])
    (digits : ∀ c ∈ text, c.isDigit = true) (bounded : Nat.ofDigitChars 10 text 0 ≤ max) :
    parseUnsigned max text = some (Nat.ofDigitChars 10 text 0) := by
  unfold parseUnsigned
  split
  · exact absurd rfl nonempty
  next rest =>
    have sign := digits '+' List.mem_cons_self
    cases sign
  · exact foldlM_addDigit_ofDigitChars digits bounded

/-- One more digit of a number in hexadecimal, unless it then exceeds its type. -/
def addHexDigit (max value : Nat) (c : Char) : Option Nat :=
  (toDigit 16 c).bind fun digit =>
    if value * 16 + digit ≤ max then some (value * 16 + digit) else none

/-- `from_str_radix` with the radix 16, of an unsigned type. -/
def fromStrRadix16 (max : Nat) : Text → Option Nat
  | [] => none
  | '+' :: rest => if rest = [] then none else rest.foldlM (addHexDigit max) 0
  | text => text.foldlM (addHexDigit max) 0

/-- The number that hexadecimal digits stand for. -/
def hexNumber (text : Text) : Option Nat :=
  text.foldlM (fun value c => (toDigit 16 c).map (value * 16 + ·)) 0

theorem foldlM_addHexDigit {max value number : Nat} {text : Text}
    (read : text.foldlM (fun value c => (toDigit 16 c).map (value * 16 + ·)) value =
      some number) (bounded : number ≤ max) :
    text.foldlM (addHexDigit max) value = some number ∧ value ≤ number := by
  induction text generalizing value with
  | nil =>
      obtain rfl := Option.some.inj read
      exact ⟨rfl, Nat.le_refl _⟩
  | cons c text ih =>
      rw [List.foldlM_cons] at read
      cases digit : toDigit 16 c with
      | none =>
          rw [digit] at read
          cases read
      | some d =>
          rw [digit] at read
          obtain ⟨folded, (larger : value * 16 + d ≤ number)⟩ := ih read
          have fits : value * 16 + d ≤ max := larger.trans bounded
          constructor
          · rw [List.foldlM_cons, addHexDigit, digit, Option.bind_some, if_pos fits]
            exact folded
          · omega

theorem fromStrRadix16_hexNumber {max number : Nat} {text : Text} (nonempty : text ≠ [])
    (read : hexNumber text = some number) (bounded : number ≤ max) :
    fromStrRadix16 max text = some number := by
  have folded := (foldlM_addHexDigit read bounded).1
  unfold fromStrRadix16
  split
  · exact absurd rfl nonempty
  next rest =>
    rw [hexNumber, List.foldlM_cons] at read
    cases read
  · exact folded

end TextFormats
