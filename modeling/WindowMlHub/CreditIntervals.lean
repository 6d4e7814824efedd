import Mathlib.Algebra.Order.BigOperators.Group.List
import Mathlib.Tactic.Ring

/-!
# Credit that is earned interval by interval

An account earns at a steady rate but is credited in whole units, each time its
clock is read, for the interval since the reading before.  Every interval is rounded
by itself, so what is credited in the end depends on where the readings fell.  The
difference to the exact income is what the readings lost.
-/

namespace CreditIntervals

/-- The lengths of the intervals between `last` and `final` that readings at `times`
leave. -/
def gaps (last : Nat) : List Nat → Nat → List Nat
  | [], final => [final - last]
  | now :: later, final => (now - last) :: gaps now later final

/-- The readings come in order, between `last` and `final`. -/
def Ordered (last : Nat) : List Nat → Nat → Prop
  | [], final => last ≤ final
  | now :: later, final => last ≤ now ∧ Ordered now later final

instance decidableOrdered : (last : Nat) → (times : List Nat) → (final : Nat) →
    Decidable (Ordered last times final)
  | last, [], final => inferInstanceAs (Decidable (last ≤ final))
  | last, now :: later, final =>
      have := decidableOrdered now later final
      inferInstanceAs (Decidable (last ≤ now ∧ _))

theorem Ordered.le {last final : Nat} {times : List Nat}
    (ordered : Ordered last times final) : last ≤ final := by
  induction times generalizing last with
  | nil => exact ordered
  | cons now later ih => exact ordered.1.trans (ih ordered.2)

theorem sum_gaps {last final : Nat} {times : List Nat}
    (ordered : Ordered last times final) :
    (gaps last times final).sum = final - last := by
  induction times generalizing last with
  | nil => simp [gaps]
  | cons now later ih =>
      have below := ordered.1
      have above := ordered.2.le
      simp only [gaps, List.sum_cons, ih ordered.2]
      omega

/-- An income of `rate` for each moment, in units of which `scale` make one of what is
credited, and what is credited for an interval. -/
structure Income where
  rate : Nat
  scale : Nat
  scale_pos : 0 < scale
  credit : Nat → Nat
  credit_le : ∀ gap, scale * credit gap ≤ rate * gap

namespace Income

variable (income : Income)

/-- What is credited when the readings fall at `times`. -/
def earned (last : Nat) (times : List Nat) (final : Nat) : Nat :=
  ((gaps last times final).map income.credit).sum

/-- What an interval leaves uncredited. -/
def loss (gap : Nat) : Nat :=
  income.rate * gap - income.scale * income.credit gap

/-- What the intervals leave uncredited, when the readings fall at `times`. -/
def lost (last : Nat) (times : List Nat) (final : Nat) : Nat :=
  ((gaps last times final).map income.loss).sum

@[simp]
theorem earned_nil (last final : Nat) :
    income.earned last [] final = income.credit (final - last) := by
  simp [earned, gaps]

@[simp]
theorem earned_cons (last now : Nat) (later : List Nat) (final : Nat) :
    income.earned last (now :: later) final =
      income.credit (now - last) + income.earned now later final := by
  simp [earned, gaps]

theorem credit_add_loss (gap : Nat) :
    income.scale * income.credit gap + income.loss gap = income.rate * gap := by
  have := income.credit_le gap
  unfold loss
  omega

theorem sum_credit_add_loss (lengths : List Nat) :
    income.scale * (lengths.map income.credit).sum + (lengths.map income.loss).sum =
      income.rate * lengths.sum := by
  induction lengths with
  | nil => simp
  | cons gap rest ih =>
      have first := income.credit_add_loss gap
      simp only [List.map_cons, List.sum_cons, Nat.mul_add]
      omega

theorem earned_add_lost {last final : Nat} {times : List Nat}
    (ordered : Ordered last times final) :
    income.scale * income.earned last times final + income.lost last times final =
      income.rate * (final - last) := by
  rw [← sum_gaps ordered]
  exact income.sum_credit_add_loss _

theorem le_earned_iff {last final need : Nat} {times : List Nat}
    (ordered : Ordered last times final)
    (covers : income.scale * need ≤ income.rate * (final - last)) :
    need ≤ income.earned last times final ↔
      income.lost last times final ≤
        income.rate * (final - last) - income.scale * need := by
  have sum := income.earned_add_lost ordered
  rw [← Nat.mul_le_mul_left_iff income.scale_pos]
  omega

end Income

end CreditIntervals
