import Mathlib

/-!
# Numbers as bytes, most significant first

A number that fits in so many bytes is read back from them, so fields of a fixed width
in front of a byte string say unambiguously where each begins.
-/

namespace BigEndianBytes

/-- The last so many base-256 digits of a number, most significant first. -/
def bigEndian : Nat → Nat → List UInt8
  | 0, _ => []
  | width + 1, number => bigEndian width (number / 256) ++ [UInt8.ofNat number]

@[simp]
theorem length_bigEndian (width number : Nat) : (bigEndian width number).length = width := by
  induction width generalizing number with
  | zero => rfl
  | succ width ih => simp [bigEndian, ih]

theorem bigEndian_inj {width first second : Nat} (firstFits : first < 256 ^ width)
    (secondFits : second < 256 ^ width)
    (same : bigEndian width first = bigEndian width second) : first = second := by
  induction width generalizing first second with
  | zero => omega
  | succ width ih =>
      simp only [bigEndian] at same
      obtain ⟨high, low⟩ := List.append_inj same (by simp)
      have highSame : first / 256 = second / 256 := by
        refine ih ?_ ?_ high
        · exact Nat.div_lt_of_lt_mul (by rw [pow_succ] at firstFits; omega)
        · exact Nat.div_lt_of_lt_mul (by rw [pow_succ] at secondFits; omega)
      have lowSame : first % 256 = second % 256 := by
        have := congrArg UInt8.toNat (List.singleton_injective low)
        simpa using this
      omega

end BigEndianBytes
