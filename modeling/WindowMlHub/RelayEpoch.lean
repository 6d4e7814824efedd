import WindowMlHub.RelayHub

/-!
# Fresh epochs

`next_epoch` steps a 64-bit counter by an odd constant and rejects an output
whose low 53 bits are zero.  The output function is injective and so is the
counter over fewer than 2^64 steps, so at most 2^11 outputs in a row can be
rejected and the loop ends.
-/

namespace WindowMlHub

open CheckedEvaluation

theorem eq_of_mul_eq_mul {unit inverse left right : UInt64}
    (inverts : unit * inverse = 1) (same : left * unit = right * unit) :
    left = right := by
  have cancel (word : UInt64) : word * unit * inverse = word := by
    rw [UInt64.mul_assoc, inverts, UInt64.mul_one]
  rw [← cancel left, same, cancel right]

/-- Folding a word onto its own high bits loses nothing. -/
theorem eq_of_xorshift_eq {shift left right : UInt64}
    (positive : 0 < shift.toNat % 64)
    (same : left ^^^ (left >>> shift) = right ^^^ (right >>> shift)) :
    left = right := by
  have fixed : left ^^^ right = (left ^^^ right) >>> shift := by
    rw [UInt64.shiftRight_xor]
    calc
      left ^^^ right =
          (left ^^^ (left >>> shift)) ^^^ (left >>> shift) ^^^ right := by
        simp
      _ = (right ^^^ (right >>> shift)) ^^^ (left >>> shift) ^^^ right := by
        rw [same]
      _ = left >>> shift ^^^ right >>> shift := by
        rw [UInt64.xor_comm right, UInt64.xor_assoc, UInt64.xor_assoc,
          UInt64.xor_comm right (left >>> shift ^^^ right),
          UInt64.xor_assoc, UInt64.xor_self, UInt64.xor_zero,
          UInt64.xor_comm]
  have halves := congrArg UInt64.toNat fixed
  rw [UInt64.toNat_shiftRight, Nat.shiftRight_eq_div_pow] at halves
  have zero : (left ^^^ right).toNat = 0 := by
    by_contra nonzero
    have smaller := Nat.div_lt_self (Nat.pos_of_ne_zero nonzero)
      (Nat.one_lt_two_pow (Nat.ne_of_gt positive))
    omega
  exact UInt64.xor_eq_zero_iff.mp (UInt64.toNat_inj.mp zero)

theorem splitmix64_injective {left right : UInt64}
    (same : splitmix64 left = splitmix64 right) : left = right := by
  have third := eq_of_xorshift_eq (by decide) same
  have second := eq_of_mul_eq_mul
    (show (0x94d049bb133111eb : UInt64) * 0x319642b2d24d8ec3 = 1 by decide)
    third
  have first := eq_of_xorshift_eq (by decide) second
  have start := eq_of_mul_eq_mul
    (show (0xbf58476d1ce4e5b9 : UInt64) * 0x96de1b173f119089 = 1 by decide)
    first
  exact eq_of_xorshift_eq (by decide) start

/-- The counter after `steps` steps. -/
def epochState (seed : UInt64) (steps : Nat) : UInt64 :=
  seed + UInt64.ofNat steps * 0x9e3779b97f4a7c15

theorem epochState_succ (seed : UInt64) (steps : Nat) :
    epochState (seed + 0x9e3779b97f4a7c15) steps =
      epochState seed (steps + 1) := by
  simp only [epochState, UInt64.ofNat_add, UInt64.add_mul]
  rw [UInt64.add_assoc, UInt64.add_comm (UInt64.ofNat steps * _)]
  rfl

theorem epochState_injective {seed : UInt64} {first second : Nat}
    (firstBound : first < 2 ^ 64) (secondBound : second < 2 ^ 64)
    (same : epochState seed first = epochState seed second) :
    first = second := by
  have words := eq_of_mul_eq_mul
    (show (0x9e3779b97f4a7c15 : UInt64) * 0xf1de83e19937733d = 1 by decide)
    ((UInt64.add_right_inj seed).mp same)
  have numbers := congrArg UInt64.toNat words
  rwa [UInt64.toNat_ofNat_of_lt' firstBound,
    UInt64.toNat_ofNat_of_lt' secondBound] at numbers

theorem masked_toNat (word : UInt64) :
    (word &&& maxExactInADouble).toNat = word.toNat % 2 ^ 53 := by
  rw [UInt64.toNat_and]
  exact Nat.and_two_pow_sub_one_eq_mod word.toNat 53

/-- The words that the loop rejects. -/
def rejectedWords : Set UInt64 := {word | word &&& maxExactInADouble = 0}

/-- The loop from a seed rejects this many words, and answers with the low part of the
next. -/
structure EpochRounds (seed : UInt64) (rounds epoch : Nat) : Prop where
  rejected : ∀ earlier < rounds, splitmix64 (epochState seed (earlier + 1)) ∈ rejectedWords
  epoch_eq : epoch =
    (splitmix64 (epochState seed (rounds + 1)) &&& maxExactInADouble).toNat
  positive : 0 < epoch
  fits : epoch ≤ 2 ^ 53 - 1

/-- The loop ends at the first output with a nonzero low part. -/
theorem nextEpochLoop_cases (fuel : Nat) (seed : UInt64) :
    (∀ steps < fuel, splitmix64 (epochState seed (steps + 1)) ∈ rejectedWords) ∨
      ∃ rounds < fuel, ∃ epoch,
        nextEpochLoop fuel seed = .ok (epochState seed (rounds + 1), epoch) ∧
          EpochRounds seed rounds epoch := by
  induction fuel generalizing seed with
  | zero => exact Or.inl (by simp)
  | succ fuel ih =>
      have head : epochState seed 1 = seed + 0x9e3779b97f4a7c15 := by
        simp [epochState]
      unfold nextEpochLoop
      by_cases zero : splitmix64 (seed + 0x9e3779b97f4a7c15) &&&
          maxExactInADouble = 0
      · have firstRejected {steps : Nat} (later : ∀ earlier < steps,
            splitmix64 (epochState (seed + 0x9e3779b97f4a7c15) (earlier + 1)) ∈
              rejectedWords) :
            ∀ earlier < steps + 1,
              splitmix64 (epochState seed (earlier + 1)) ∈ rejectedWords := by
          intro earlier bound
          cases earlier with
          | zero => rwa [head]
          | succ earlier =>
              rw [← epochState_succ]
              exact later earlier (by omega)
        rcases ih (seed + 0x9e3779b97f4a7c15) with
          all | ⟨rounds, below, epoch, ran, rejected, same, positive, fits⟩
        · exact Or.inl (firstRejected all)
        · refine Or.inr ⟨rounds + 1, by omega, epoch, ?_, firstRejected rejected, ?_,
            positive, fits⟩
          · rw [epochState_succ] at ran
            simp [zero, ran]
          · rwa [epochState_succ] at same
      · refine Or.inr ⟨0, by omega, _, ?_, by simp, rfl, ?_, ?_⟩
        · rw [Nat.zero_add, head]
          exact if_pos zero
        · rw [Nat.zero_add, head]
          apply Nat.pos_of_ne_zero
          intro isZero
          exact zero (UInt64.toNat_inj.mp isZero)
        · rw [masked_toNat]
          have := Nat.mod_lt
            (splitmix64 (epochState seed (0 + 1))).toNat
            (show 0 < 2 ^ 53 by decide)
          omega

theorem nextEpochLoop_mono {fuel more : Nat} {seed : UInt64} {found : UInt64 × Nat}
    (ran : nextEpochLoop fuel seed = .ok found) (longer : fuel ≤ more) :
    nextEpochLoop more seed = .ok found := by
  induction fuel generalizing seed more with
  | zero => cases ran
  | succ fuel ih =>
      obtain ⟨more, rfl⟩ : ∃ rest, more = rest + 1 := ⟨more - 1, by omega⟩
      unfold nextEpochLoop at ran ⊢
      dsimp only at ran ⊢
      split at ran
      · next used => rwa [if_pos used]
      · next unused =>
          rw [if_neg unused]
          exact ih ran (by omega)

/-- Every seed gives an epoch, positive and exact in a double, within
2^11 + 1 iterations. -/
theorem nextEpochLoop_spec (seed : UInt64) :
    ∃ rounds ≤ 2 ^ 11, ∃ epoch,
      nextEpochLoop (2 ^ 11 + 1) seed = .ok (epochState seed (rounds + 1), epoch) ∧
        EpochRounds seed rounds epoch := by
  rcases nextEpochLoop_cases (2 ^ 11 + 1) seed with
    rejected | ⟨rounds, below, epoch, ran, chosen⟩
  · exfalso
    -- the rejected outputs are multiples of 2^53 below 2^64
    let output (steps : Fin (2 ^ 11 + 1)) : UInt64 :=
      splitmix64 (epochState seed (steps.val + 1))
    have multiple (steps : Fin (2 ^ 11 + 1)) :
        (output steps).toNat % 2 ^ 53 = 0 := by
      rw [← masked_toNat]
      exact congrArg UInt64.toNat (rejected steps.val steps.isLt)
    let quotient (steps : Fin (2 ^ 11 + 1)) : Fin (2 ^ 11) :=
      ⟨(output steps).toNat / 2 ^ 53, by
        have := (output steps).toNat_lt
        omega⟩
    obtain ⟨first, second, differ, same⟩ :=
      Fintype.exists_ne_map_eq_of_card_lt quotient (by simp)
    have quotients : (output first).toNat / 2 ^ 53 =
        (output second).toNat / 2 ^ 53 := congrArg Fin.val same
    have outputs : output first = output second := by
      apply UInt64.toNat_inj.mp
      have := multiple first
      have := multiple second
      omega
    have steps := epochState_injective (by omega) (by omega)
      (splitmix64_injective outputs)
    exact differ (Fin.ext (by omega))
  · exact ⟨rounds, Nat.le_of_lt_succ below, epoch, ran, chosen⟩

theorem Hub.nextEpoch_spec (hub : Hub) :
    ∃ epochState epoch,
      hub.nextEpoch = .ok ({ hub with epochState }, epoch) ∧
        0 < epoch ∧ epoch ≤ 2 ^ 53 - 1 := by
  obtain ⟨rounds, -, epoch, ran, chosen⟩ := nextEpochLoop_spec hub.epochState
  refine ⟨WindowMlHub.epochState hub.epochState (rounds + 1), epoch, ?_, chosen.positive,
    chosen.fits⟩
  rw [nextEpoch, ran]
  rfl

theorem splitmix64_bijective : Function.Bijective splitmix64 :=
  Finite.injective_iff_bijective.mp fun _ _ => splitmix64_injective

/-- The rejected words are the multiples of 2^53. -/
theorem ncard_rejectedWords : rejectedWords.ncard = 2 ^ 11 := by
  have small {high : Nat} (bound : high < 2 ^ 11) : high * 2 ^ 53 < 2 ^ 64 := by omega
  have multiples : rejectedWords =
      (fun high => UInt64.ofNat (high * 2 ^ 53)) '' (Finset.range (2 ^ 11) : Set Nat) := by
    ext word
    have zero : word ∈ rejectedWords ↔ word.toNat % 2 ^ 53 = 0 := by
      rw [← masked_toNat, ← UInt64.toNat_zero, UInt64.toNat_inj]
      rfl
    rw [zero, Set.mem_image]
    constructor
    · intro divides
      have bound := word.toNat_lt
      refine ⟨word.toNat / 2 ^ 53, by simp; omega, UInt64.toNat_inj.mp ?_⟩
      rw [UInt64.toNat_ofNat_of_lt' (small (by omega))]
      omega
    · rintro ⟨high, member, rfl⟩
      rw [UInt64.toNat_ofNat_of_lt' (small (by simpa using member))]
      exact Nat.mul_mod_left high (2 ^ 53)
  rw [multiples, Set.InjOn.ncard_image, Set.ncard_coe_finset, Finset.card_range]
  intro first isFirst second isSecond same
  have words := congrArg UInt64.toNat same
  rw [UInt64.toNat_ofNat_of_lt' (small (by simpa using isFirst)),
    UInt64.toNat_ofNat_of_lt' (small (by simpa using isSecond))] at words
  omega

/-- Choosing an epoch ends.  Whatever the state, at most 2^11 words are rejected, one for
each round, before one is found whose low part is an epoch: the output function is a
bijection, the states of 2^64 rounds are distinct, and no more than 2^11 words are ever
rejected. -/
theorem next_epoch_terminates :
    (∀ hub : Hub, ∃ rounds ≤ 2 ^ 11, ∃ epoch, EpochRounds hub.epochState rounds epoch ∧
      hub.nextEpoch =
        .ok ({ hub with epochState := epochState hub.epochState (rounds + 1) }, epoch) ∧
      ∀ bound, 2 ^ 11 + 1 ≤ bound →
        nextEpochLoop bound hub.epochState =
          .ok (epochState hub.epochState (rounds + 1), epoch)) ∧
      Function.Bijective splitmix64 ∧
      (∀ seed, Set.InjOn (epochState seed) {steps | steps < 2 ^ 64}) ∧
      rejectedWords.ncard = 2 ^ 11 := by
  refine ⟨fun hub => ?_, splitmix64_bijective, fun seed first isFirst second isSecond =>
    epochState_injective isFirst isSecond, ncard_rejectedWords⟩
  obtain ⟨rounds, few, epoch, ran, chosen⟩ := nextEpochLoop_spec hub.epochState
  refine ⟨rounds, few, epoch, chosen, ?_, fun bound longer => nextEpochLoop_mono ran longer⟩
  rw [Hub.nextEpoch, ran]
  rfl

end WindowMlHub
