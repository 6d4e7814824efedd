import WindowMlHub.CreditIntervals

/-!
# What strangers may cost

`strangers.rs`: connections that never authenticate share one budget of hub time,
and while they are in debt the accept loop waits.  An `Instant` is a number of
nanoseconds; a balance is an `i64` of microseconds, negative while it is owed.
-/

namespace WindowMlHub

open CreditIntervals

/-- How much hub time strangers may cost for each second, and at once. -/
structure StrangerBudget where
  usPerSecond : Nat
  burstUs : Nat
  deriving DecidableEq, Repr

/-- `DEFAULT_BUDGET`. -/
def StrangerBudget.default : StrangerBudget where
  usPerSecond := 250000
  burstUs := 250000

/-- `i64::MAX`. -/
def maxI64 : Int := 2 ^ 63 - 1

/-- What the saturating operations on an `i64` leave of a result. -/
def saturateI64 (amount : Int) : Int :=
  max (-maxI64 - 1) (min amount maxI64)

/-- `clamp`. -/
def clampUs (us : Nat) : Int :=
  min us maxI64

/-- `u64::div_ceil`. -/
def divCeil (amount divisor : Nat) : Nat :=
  amount / divisor + if amount % divisor > 0 then 1 else 0

/-- The budget strangers have left. -/
structure Strangers where
  budget : StrangerBudget
  balanceUs : Int
  readAt : Nat
  deriving DecidableEq, Repr

namespace Strangers

/-- `Strangers::new`. -/
def new (budget : StrangerBudget) (now : Nat) : Strangers where
  budget := budget
  balanceUs := clampUs budget.burstUs
  readAt := now

/-- What an interval of so many nanoseconds earns, in whole microseconds. -/
def earnedIn (budget : StrangerBudget) (elapsed : Nat) : Nat :=
  min (min (elapsed / 1000 * budget.usPerSecond) (2 ^ 128 - 1) / 1000000) (2 ^ 63 - 1)

/-- `refill`. -/
def refill (strangers : Strangers) (now : Nat) : Strangers :=
  let earned := earnedIn strangers.budget (now - strangers.readAt)
  { strangers with
    readAt := now
    balanceUs :=
      min (saturateI64 (strangers.balanceUs + earned)) (clampUs strangers.budget.burstUs) }

/-- `charge`. -/
def charge (strangers : Strangers) (costUs now : Nat) : Strangers :=
  let refilled := strangers.refill now
  { refilled with balanceUs := saturateI64 (refilled.balanceUs - clampUs costUs) }

/-- `wait`: how many microseconds the accept loop should wait, and what the call
leaves. -/
def wait (strangers : Strangers) (now : Nat) : Option Nat × Strangers :=
  if strangers.budget.usPerSecond = 0 then
    (none, strangers)
  else
    let refilled := strangers.refill now
    if refilled.balanceUs ≥ 0 then
      (none, refilled)
    else
      let debt := refilled.balanceUs.natAbs
      let scaled := min (debt * 1000000) (2 ^ 64 - 1)
      (some (divCeil scaled refilled.budget.usPerSecond), refilled)

/-- What is left after calls of `wait` at these times. -/
def waits (strangers : Strangers) : List Nat → Strangers
  | [] => strangers
  | now :: later => waits (strangers.wait now).2 later

/-- What is owed. -/
def debtUs (strangers : Strangers) : Nat :=
  (-strangers.balanceUs).toNat

variable {strangers : Strangers} {now : Nat}

@[simp]
theorem refill_budget : (strangers.refill now).budget = strangers.budget :=
  rfl

@[simp]
theorem refill_readAt : (strangers.refill now).readAt = now :=
  rfl

theorem wait_state (paced : strangers.budget.usPerSecond ≠ 0) :
    (strangers.wait now).2 = strangers.refill now := by
  unfold wait
  rw [if_neg paced]
  dsimp only
  split <;> rfl

theorem wait_eq_none_iff (paced : strangers.budget.usPerSecond ≠ 0) :
    (strangers.wait now).1 = none ↔ 0 ≤ (strangers.refill now).balanceUs := by
  unfold wait
  rw [if_neg paced]
  dsimp only
  split
  · simp_all
  · simp_all

/-- A call that asks for a wait was made in debt, and asks for enough in exact
arithmetic, rounded up. -/
theorem of_wait_eq_some {micros : Nat} (owed : (strangers.wait now).1 = some micros) :
    strangers.budget.usPerSecond ≠ 0 ∧ (strangers.refill now).balanceUs < 0 ∧
      micros = divCeil (min ((strangers.refill now).debtUs * 1000000) (2 ^ 64 - 1))
        strangers.budget.usPerSecond := by
  unfold wait at owed
  by_cases paced : strangers.budget.usPerSecond = 0
  · simp [paced] at owed
  · rw [if_neg paced] at owed
    dsimp only at owed
    split at owed
    · cases owed
    · next negative =>
        have below : (strangers.refill now).balanceUs < 0 := not_le.mp negative
        have debt : (strangers.refill now).balanceUs.natAbs =
            (strangers.refill now).debtUs := by
          unfold debtUs
          omega
        rw [debt] at owed
        exact ⟨paced, below, (Option.some.inj owed).symm⟩

theorem refill_balance_nonneg (solvent : 0 ≤ strangers.balanceUs) :
    0 ≤ (strangers.refill now).balanceUs := by
  simp only [refill, saturateI64, clampUs, maxI64]
  omega

theorem waits_balance_nonneg (paced : strangers.budget.usPerSecond ≠ 0)
    (solvent : 0 ≤ strangers.balanceUs) (times : List Nat) (final : Nat) :
    0 ≤ ((strangers.waits times).refill final).balanceUs := by
  induction times generalizing strangers with
  | nil => exact refill_balance_nonneg solvent
  | cons first later ih =>
      rw [waits, wait_state paced]
      exact ih paced (refill_balance_nonneg solvent)

@[simp]
theorem wait_budget : (strangers.wait now).2.budget = strangers.budget := by
  by_cases paced : strangers.budget.usPerSecond = 0
  · simp [wait, paced]
  · rw [wait_state paced, refill_budget]

@[simp]
theorem waits_budget (times : List Nat) :
    (strangers.waits times).budget = strangers.budget := by
  induction times generalizing strangers with
  | nil => rfl
  | cons first later ih => rw [waits, ih, wait_budget]

theorem refill_balance_of_neg (inRange : -maxI64 - 1 ≤ strangers.balanceUs)
    (remains : strangers.balanceUs +
      earnedIn strangers.budget (now - strangers.readAt) < 0) :
    (strangers.refill now).balanceUs =
      strangers.balanceUs + earnedIn strangers.budget (now - strangers.readAt) := by
  simp only [refill, saturateI64, clampUs, maxI64] at inRange ⊢
  omega

theorem refill_balance_of_nonneg
    (repaid : 0 ≤ strangers.balanceUs +
      earnedIn strangers.budget (now - strangers.readAt)) :
    0 ≤ (strangers.refill now).balanceUs := by
  simp only [refill, saturateI64, clampUs, maxI64]
  omega

end Strangers

/-- The budget as an income for each nanosecond, of which whole microseconds are
credited. -/
def StrangerBudget.income (budget : StrangerBudget) : Income where
  rate := budget.usPerSecond
  scale := 1000000000
  scale_pos := by decide
  credit := Strangers.earnedIn budget
  credit_le gap := by
    have whole := Nat.div_mul_le_self gap 1000
    have part := Nat.div_mul_le_self
      (min (gap / 1000 * budget.usPerSecond) (2 ^ 128 - 1)) 1000000
    have scaled := Nat.mul_le_mul_right budget.usPerSecond whole
    calc 1000000000 * Strangers.earnedIn budget gap
        ≤ 1000 * (min (gap / 1000 * budget.usPerSecond) (2 ^ 128 - 1) / 1000000 *
            1000000) := by
          unfold Strangers.earnedIn
          omega
      _ ≤ 1000 * (gap / 1000 * budget.usPerSecond) := by omega
      _ = gap / 1000 * 1000 * budget.usPerSecond := by ring
      _ ≤ budget.usPerSecond * gap := by rwa [Nat.mul_comm budget.usPerSecond]

namespace Strangers

variable {strangers : Strangers}

/-- After calls at `times`, the debt is repaid at `final` if and only if it is no more
than the intervals between the calls have earned. -/
theorem repaid_iff (paced : strangers.budget.usPerSecond ≠ 0)
    (inRange : -maxI64 - 1 ≤ strangers.balanceUs) (times : List Nat) (final : Nat) :
    0 ≤ ((strangers.waits times).refill final).balanceUs ↔
      strangers.debtUs ≤
        strangers.budget.income.earned strangers.readAt times final := by
  induction times generalizing strangers with
  | nil =>
      rw [waits, Income.earned_nil]
      change _ ↔ _ ≤ earnedIn strangers.budget (final - strangers.readAt)
      rcases lt_or_ge (strangers.balanceUs +
        earnedIn strangers.budget (final - strangers.readAt)) 0 with owes | repaid
      · rw [refill_balance_of_neg inRange owes]
        unfold debtUs
        omega
      · have solvent := refill_balance_of_nonneg repaid
        unfold debtUs
        omega
  | cons first later ih =>
      rw [waits, wait_state paced, Income.earned_cons]
      change _ ↔ _ ≤ earnedIn strangers.budget (first - strangers.readAt) + _
      rcases lt_or_ge (strangers.balanceUs +
        earnedIn strangers.budget (first - strangers.readAt)) 0 with owes | repaid
      · have left := refill_balance_of_neg inRange owes
        have rest := @ih (strangers.refill first) paced (by rw [left]; omega)
        rw [rest, refill_budget, refill_readAt]
        unfold debtUs
        rw [left]
        omega
      · have solvent := @waits_balance_nonneg (strangers.refill first) paced
          (refill_balance_of_nonneg repaid) later final
        unfold debtUs
        omega

end Strangers

theorem le_divCeil_mul (amount : Nat) {divisor : Nat} (divides : divisor ≠ 0) :
    amount ≤ divCeil amount divisor * divisor := by
  have split := Nat.div_add_mod amount divisor
  have small := Nat.mod_lt amount (Nat.pos_of_ne_zero divides)
  unfold divCeil
  rw [Nat.add_mul, Nat.mul_comm (amount / divisor)]
  split
  · omega
  · omega

/-- A call that asks for a wait, with more calls while it lasts: at its end nothing is
owed if and only if those calls lose no more credit to rounding than the wait was
rounded up by. -/
theorem stranger_wait_iff (strangers : Strangers) (now micros : Nat) (times : List Nat)
    (owed : (strangers.wait now).1 = some micros)
    (small : (strangers.wait now).2.debtUs * 1000000 ≤ 2 ^ 64 - 1)
    (between : Ordered now times (now + 1000 * micros)) :
    (((strangers.wait now).2.waits times).wait (now + 1000 * micros)).1 = none ↔
      strangers.budget.income.lost now times (now + 1000 * micros) ≤
        strangers.budget.usPerSecond * (1000 * micros) -
          1000000000 * (strangers.wait now).2.debtUs := by
  obtain ⟨paced, owes, rounded⟩ := Strangers.of_wait_eq_some owed
  rw [Strangers.wait_state paced] at small ⊢
  rw [min_eq_left small] at rounded
  have enough := le_divCeil_mul ((strangers.refill now).debtUs * 1000000) paced
  rw [← rounded] at enough
  have covers : 1000000000 * (strangers.refill now).debtUs ≤
      strangers.budget.usPerSecond * (now + 1000 * micros - now) := by
    calc 1000000000 * (strangers.refill now).debtUs
        = 1000 * ((strangers.refill now).debtUs * 1000000) := by ring
      _ ≤ 1000 * (micros * strangers.budget.usPerSecond) := Nat.mul_le_mul_left _ enough
      _ = strangers.budget.usPerSecond * (1000 * micros) := by ring
      _ = _ := by rw [Nat.add_sub_cancel_left]
  have inRange : -maxI64 - 1 ≤ (strangers.refill now).balanceUs := by
    unfold Strangers.debtUs at small
    unfold maxI64
    omega
  have paced' : (strangers.refill now).budget.usPerSecond ≠ 0 := paced
  rw [Strangers.wait_eq_none_iff (by rwa [Strangers.waits_budget]),
    Strangers.repaid_iff paced' inRange]
  have rounding := strangers.budget.income.le_earned_iff between covers
  rwa [Nat.add_sub_cancel_left] at rounding

/-- Under the default budget one microsecond is owed for four; asked again half way, the
loop is told to wait once more when they are over. -/
theorem stranger_wait_short :
    ∃ (strangers : Strangers) (now micros : Nat) (times : List Nat),
      (strangers.wait now).1 = some micros ∧
        (strangers.wait now).2.debtUs * 1000000 ≤ 2 ^ 64 - 1 ∧
        Ordered now times (now + 1000 * micros) ∧
        (((strangers.wait now).2.waits times).wait (now + 1000 * micros)).1 ≠ none :=
  ⟨(Strangers.new .default 0).charge 250001 0, 0, 4, [2000], by decide +kernel⟩

/-- Half way through a wait of eight microseconds nothing is lost. -/
theorem stranger_wait_iff_halved :
    let strangers := (Strangers.new .default 0).charge 250002 0
    (((strangers.wait 0).2.waits [4000]).wait 8000).1 = none := by
  have paid := stranger_wait_iff ((Strangers.new .default 0).charge 250002 0) 0 8 [4000]
    (by decide +kernel) (by decide +kernel) (by decide +kernel)
  exact paid.mpr (by decide +kernel)

end WindowMlHub
