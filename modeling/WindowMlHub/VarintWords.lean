import WindowMlHub.BoxFrameDecoding

/-!
# Varints in words

`read_varint` and `write_varint` as the source has them, on words of 64 bits, where a shift may
lose bits.  They are the reader and the writer on natural numbers: the reader lets through
only one bit of a tenth byte, so that no shift of a byte that it takes loses anything.

The walk over a box's frame has a reader of its own, which takes more.  Where the strict one
answers with a number, they agree.
-/

namespace WindowMlHub

open CheckedEvaluation

/-- The loop of `read_varint` with its word, about to look at the byte with the index `i`. -/
def readVarintWordFrom : Bytes → Nat → UInt64 → Except FrameError (Option (UInt64 × Nat))
  | [], i, _ => if maxVarintBytes ≤ i then .error .varintTooLong else .ok none
  | b :: rest, i, value =>
      if maxVarintBytes ≤ i then .error .varintTooLong
      else if i = maxVarintBytes - 1 ∧ 1 < b &&& 0x7f then .error .varintTooLong
      else
        let value := value ||| (b &&& 0x7f).toUInt64 <<< UInt64.ofNat (7 * i)
        if b &&& 0x80 = 0 then .ok (some (value, i + 1))
        else readVarintWordFrom rest (i + 1) value

/-- `read_varint`, with its word. -/
def readVarintWord (buf : Bytes) : Except FrameError (Option (UInt64 × Nat)) :=
  readVarintWordFrom buf 0 0

/-- `write_varint`, with its word. -/
def writeVarintWord (value : UInt64) : Bytes :=
  if 0x80 ≤ value then (value.toUInt8 ||| 0x80) :: writeVarintWord (value >>> 7)
  else [value.toUInt8]
  termination_by value.toNat
  decreasing_by
    rename_i large
    rw [UInt64.le_iff_toNat_le] at large
    simp only [UInt64.toNat_shiftRight, UInt64.reduceToNat, Nat.reduceMod,
      Nat.shiftRight_eq_div_pow] at large ⊢
    omega

/-! ## Words and numbers -/

theorem writeVarintWord_eq (value : UInt64) : writeVarintWord value = writeVarint value.toNat := by
  induction bits : value.toNat using Nat.strong_induction_on generalizing value with
  | h number ih =>
      subst bits
      have byte : value.toUInt8 = UInt8.ofNat value.toNat := by
        apply UInt8.toNat_inj.mp
        simp
      have shifted : (value >>> 7).toNat = value.toNat >>> 7 := by
        simp [UInt64.toNat_shiftRight]
      unfold writeVarintWord writeVarint
      by_cases large : 0x80 ≤ value
      · have notSmall : ¬ value.toNat < 0x80 := by
          rw [UInt64.le_iff_toNat_le] at large
          exact Nat.not_lt.mpr large
        have lower : value.toNat >>> 7 < value.toNat := by
          rw [Nat.shiftRight_eq_div_pow]
          omega
        rw [if_pos large, if_neg notSmall, byte, ih _ lower _ shifted]
      · have small : value.toNat < 0x80 := by
          rw [UInt64.le_iff_toNat_le] at large
          exact Nat.lt_of_not_le large
        rw [if_neg large, if_pos small, byte]

theorem toNat_or_shiftLeft (value : UInt64) {payload : UInt64} {i : Nat} (short : i ≤ 9)
    (stays : payload.toNat * 2 ^ (7 * i) < 2 ^ 64) :
    (value ||| payload <<< UInt64.ofNat (7 * i)).toNat =
      value.toNat ||| payload.toNat <<< (7 * i) := by
  have bits : (UInt64.ofNat (7 * i)).toNat % 64 = 7 * i := by
    rw [UInt64.toNat_ofNat']
    omega
  rw [UInt64.toNat_or, UInt64.toNat_shiftLeft, bits, Nat.shiftLeft_eq, Nat.mod_eq_of_lt stays]

theorem payload_stays {payload i : Nat} (small : payload < 128) (short : i ≤ 9)
    (top : i = 9 → payload ≤ 1) : payload * 2 ^ (7 * i) < 2 ^ 64 := by
  by_cases tenth : i = 9
  · have bit := top tenth
    subst tenth
    omega
  · calc payload * 2 ^ (7 * i) < 2 ^ 7 * 2 ^ (7 * i) :=
          Nat.mul_lt_mul_of_pos_right small (Nat.two_pow_pos _)
      _ = 2 ^ (7 + 7 * i) := (Nat.pow_add ..).symm
      _ ≤ 2 ^ 63 := Nat.pow_le_pow_right (by decide) (by omega)
      _ < 2 ^ 64 := by decide

/-- An answer with its word as one with a number. -/
def wordAsNumber :
    Except FrameError (Option (UInt64 × Nat)) → Except FrameError (Option (Nat × Nat)) :=
  Except.map (Option.map fun read => (read.1.toNat, read.2))

theorem wordAsNumber_injective : Function.Injective wordAsNumber := by
  have pairs : Function.Injective fun read : UInt64 × Nat => (read.1.toNat, read.2) := by
    rintro ⟨first, firstCount⟩ ⟨second, secondCount⟩ same
    obtain ⟨sameValue, sameCount⟩ := Prod.mk.inj same
    exact Prod.ext (UInt64.toNat_inj.mp sameValue) sameCount
  rintro (firstError | first) (secondError | second) same
  · exact congrArg Except.error (Except.error.inj same)
  · cases same
  · cases same
  · exact congrArg Except.ok (Option.map_injective pairs (Except.ok.inj same))

/-- The reader with its word reads what the one on numbers does. -/
theorem readVarintWordFrom_eq {buf : Bytes} {i : Nat} (value : UInt64) :
    readVarintFrom buf i value.toNat = wordAsNumber (readVarintWordFrom buf i value) := by
  induction buf generalizing i value with
  | nil =>
      simp only [readVarintFrom, readVarintWordFrom]
      split <;> rfl
  | cons b rest ih =>
      have payload : (b &&& 0x7f).toUInt64.toNat = (b &&& 0x7f).toNat := by simp
      have excess : 1 < b &&& 0x7f ↔ 1 < (b &&& 0x7f).toNat := UInt8.lt_iff_toNat_lt
      simp only [readVarintFrom, readVarintWordFrom, excess]
      by_cases long : maxVarintBytes ≤ i
      · rw [if_pos long, if_pos long]
        rfl
      by_cases lost : i = maxVarintBytes - 1 ∧ 1 < (b &&& 0x7f).toNat
      · rw [if_neg long, if_neg long, if_pos lost, if_pos lost]
        rfl
      have short : i ≤ 9 := by
        simp only [maxVarintBytes] at long
        omega
      have stays : (b &&& 0x7f).toUInt64.toNat * 2 ^ (7 * i) < 2 ^ 64 := by
        rw [payload]
        refine payload_stays ?_ short fun tenth => ?_
        · rw [toNat_and_payload]
          exact Nat.mod_lt _ (by decide)
        · by_contra above
          exact lost ⟨tenth, Nat.lt_of_not_le above⟩
      have word := toNat_or_shiftLeft value short stays
      rw [payload] at word
      rw [if_neg long, if_neg long, if_neg lost, if_neg lost, ← word]
      by_cases last : b &&& 0x80 = 0
      · rw [if_pos last, if_pos last]
        rfl
      · rw [if_neg last, if_neg last]
        exact ih _

theorem readVarintWord_eq (buf : Bytes) : readVarint buf = wordAsNumber (readVarintWord buf) :=
  readVarintWordFrom_eq 0

/-! ## What is read -/

/-- The number that bytes hold in groups of seven bits, lowest first. -/
def sevenBitGroups (bytes : Bytes) : Nat :=
  Nat.ofDigits 128 (bytes.map fun b => b.toNat % 128)

theorem sevenBitGroups_cons (b : UInt8) (rest : Bytes) :
    sevenBitGroups (b :: rest) = b.toNat % 128 + 128 * sevenBitGroups rest :=
  Nat.ofDigits_cons ..

/-- What the strict reader answers holds the groups of the bytes that it took, and the
reader of the box's walk answers the same. -/
theorem readVarintFrom_agrees {buf : Bytes} {i value result head : Nat}
    (low : value < 2 ^ (7 * i)) (read : readVarintFrom buf i value = .ok (some (result, head))) :
    result = value + sevenBitGroups (buf.take (head - i)) * 2 ^ (7 * i) ∧
      BoxRead.varintFrom buf i value = some (result, buf.drop (head - i)) := by
  induction buf generalizing i value with
  | nil =>
      simp only [readVarintFrom] at read
      split at read <;> cases read
  | cons b rest ih =>
      obtain ⟨above, -, -⟩ := readVarintFrom_some read
      have taken : head - i = (head - (i + 1)) + 1 := by omega
      simp only [readVarintFrom] at read
      by_cases long : maxVarintBytes ≤ i
      · rw [if_pos long] at read
        cases read
      by_cases lost : i = maxVarintBytes - 1 ∧ 1 < (b &&& 0x7f).toNat
      · rw [if_neg long, if_pos lost] at read
        cases read
      rw [if_neg long, if_neg lost] at read
      have payload := toNat_and_payload b
      have small : (b &&& 0x7f).toNat < 128 := by
        rw [payload]
        exact Nat.mod_lt _ (by decide)
      have stays : (b &&& 0x7f).toNat <<< (7 * i) < 2 ^ 64 := by
        simp only [maxVarintBytes] at long lost
        rw [Nat.shiftLeft_eq]
        exact payload_stays small (by omega) fun tenth => by
          by_contra above
          exact lost ⟨tenth, Nat.lt_of_not_le above⟩
      have ten : ¬ 10 ≤ i := long
      rw [BoxRead.varintFrom, if_neg ten, Nat.mod_eq_of_lt stays, taken, List.take_succ_cons,
        List.drop_succ_cons, sevenBitGroups_cons, ← payload]
      rw [or_shiftLeft _ low] at read ⊢
      by_cases last : b &&& 0x80 = 0
      · rw [if_pos last] at read
        obtain ⟨rfl, rfl⟩ := Prod.mk.inj (Option.some.inj (Except.ok.inj read))
        simp [last, sevenBitGroups]
      · rw [if_neg last] at read
        have next : value + (b &&& 0x7f).toNat * 2 ^ (7 * i) < 2 ^ (7 * (i + 1)) := by
          rw [Nat.mul_succ, Nat.pow_add]
          nlinarith [Nat.two_pow_pos (7 * i)]
        obtain ⟨sum, agrees⟩ := ih next read
        refine ⟨?_, ?_⟩
        · rw [sum, Nat.mul_succ, Nat.pow_add]
          ring
        · simpa [last] using agrees

theorem varintAt_of_readVarint {frame : Bytes} {start value count : Nat}
    (read : readVarint (frame.drop start) = .ok (some (value, count))) :
    varintAt frame start = .ok (some (value, start + count)) := by
  obtain ⟨-, within, -⟩ := readVarintFrom_some read
  obtain ⟨-, agrees⟩ := readVarintFrom_agrees (by decide) read
  have walked := varintAt_spec frame start
  rw [BoxRead.varint, agrees] at walked
  obtain ⟨next, above, below, same, ran⟩ := walked
  have lengths := congrArg List.length same
  simp only [List.drop_drop, List.length_drop] at lengths within
  have isNext : next = start + count := by omega
  rw [ran, isNext]

theorem readVarint_cut {front later : Bytes} {value count : Nat}
    (read : readVarint (front ++ later) = .ok (some (value, count)))
    (cut : front.length < count) : readVarint front = .ok none := by
  by_contra answered
  have same : readVarint (front ++ later) = readVarint front :=
    readVarintFrom_append later answered
  obtain ⟨-, within, -⟩ := readVarintFrom_some (same ▸ read)
  omega

theorem readVarintWord_eq_ok {buf : Bytes} {value : UInt64} {count : Nat} :
    readVarintWord buf = .ok (some (value, count)) ↔
      readVarint buf = .ok (some (value.toNat, count)) := by
  rw [readVarintWord_eq]
  exact wordAsNumber_injective.eq_iff.symm

theorem readVarintWord_eq_none {buf : Bytes} :
    readVarintWord buf = .ok none ↔ readVarint buf = .ok none := by
  rw [readVarintWord_eq]
  exact wordAsNumber_injective.eq_iff.symm

theorem readVarintWord_append {buf : Bytes} (later : Bytes)
    (answered : readVarintWord buf ≠ .ok none) :
    readVarintWord (buf ++ later) = readVarintWord buf := by
  apply wordAsNumber_injective
  rw [← readVarintWord_eq, ← readVarintWord_eq]
  exact readVarintFrom_append later (readVarintWord_eq_none.not.mp answered)

/-- What is written is read back whatever follows it, and waited for while it is cut short;
an answer stands whatever follows; a number that is read is the sum of the groups of the
bytes that it took, with no bit lost; and the reader of the box's walk answers the same. -/
theorem varint_codec :
    (∀ (value : UInt64) (later : Bytes),
      readVarintWord (writeVarintWord value ++ later) =
        .ok (some (value, (writeVarintWord value).length)) ∧
      ∀ front, front <+: writeVarintWord value → front ≠ writeVarintWord value →
        readVarintWord front = .ok none) ∧
    (∀ buf later, readVarintWord buf ≠ .ok none →
      readVarintWord (buf ++ later) = readVarintWord buf) ∧
    (∀ buf value count, readVarintWord buf = .ok (some (value, count)) →
      count ≤ buf.length ∧ value.toNat = sevenBitGroups (buf.take count)) ∧
    ∀ frame start value count, readVarintWord (frame.drop start) = .ok (some (value, count)) →
      varintAt frame start = .ok (some (value.toNat, start + count)) := by
  refine ⟨fun value later => ⟨?_, fun front isFront isProper => ?_⟩,
    fun buf later answered => readVarintWord_append later answered,
    fun buf value count read => ?_, fun frame start value count read => ?_⟩
  · rw [readVarintWord_eq_ok, writeVarintWord_eq]
    exact readVarint_writeVarint later value.toNat_lt
  · rw [writeVarintWord_eq] at isFront isProper
    obtain ⟨rest, whole⟩ := isFront
    have read := readVarint_writeVarint [] value.toNat_lt
    rw [List.append_nil, ← whole] at read
    refine readVarintWord_eq_none.mpr (readVarint_cut read ?_)
    have restLeft : rest ≠ [] := by
      rintro rfl
      exact isProper (by rw [← whole, List.append_nil])
    rw [List.length_append]
    exact Nat.lt_add_of_pos_right (List.length_pos_iff_ne_nil.mpr restLeft)
  · rw [readVarintWord_eq_ok] at read
    obtain ⟨-, within, -⟩ := readVarintFrom_some read
    obtain ⟨sum, -⟩ := readVarintFrom_agrees (by decide) read
    exact ⟨by simpa using within, by simpa using sum⟩
  · exact varintAt_of_readVarint (readVarintWord_eq_ok.mp read)

end WindowMlHub
