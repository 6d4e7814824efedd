import Mathlib

/-!
# Token buckets

A bucket is filled by an income that has been running since before it was looked
at, holds no more than its cap, and is emptied by what is spent, into debt if need
be.  It is brought up to date only when somebody reads the clock, and the clock
may be read late, early or twice.  In exact arithmetic the readings in between
make no difference, and nothing is spent that was not earned.
-/

namespace TokenBuckets

/-- How much there is, and up to when the income has been credited; nothing has
been credited before the first reading. -/
@[ext]
structure Meter (Time Amount : Type*) where
  level : Amount
  credited : Option Time

/-- What happens to a bucket: its clock is read, or something is spent. -/
inductive Act (Time Amount : Type*)
  | credit (now : Time)
  | debit (amount : Amount)

variable {Time Amount : Type*} [LinearOrder Time] [AddCommGroup Amount]
  [LinearOrder Amount]

namespace Meter

/-- Credit the income since the last reading, up to the cap.  The first reading
credits nothing, and neither does one that is not later than the last. -/
def credit (income : Time → Amount) (cap : Amount) (meter : Meter Time Amount)
    (now : Time) : Meter Time Amount :=
  match meter.credited with
  | none => { meter with credited := some now }
  | some last =>
      if now ≤ last then
        meter
      else
        ⟨min (meter.level + (income now - income last)) cap, some now⟩

omit [LinearOrder Time] [LinearOrder Amount] in
/-- Spend an amount, whether it is there or not. -/
def debit (meter : Meter Time Amount) (amount : Amount) : Meter Time Amount :=
  { meter with level := meter.level - amount }

def act (income : Time → Amount) (cap : Amount) (meter : Meter Time Amount) :
    Act Time Amount → Meter Time Amount
  | .credit now => meter.credit income cap now
  | .debit amount => meter.debit amount

def run (income : Time → Amount) (cap : Amount) (meter : Meter Time Amount)
    (acts : List (Act Time Amount)) : Meter Time Amount :=
  acts.foldl (act income cap) meter

variable {income : Time → Amount} {cap : Amount} {meter : Meter Time Amount}

/-! ## The readings in between -/

theorem credit_first (fresh : meter.credited = none) (now : Time) :
    meter.credit income cap now = { meter with credited := some now } := by
  simp [credit, fresh]

theorem credit_late {last now : Time} (started : meter.credited = some last)
    (late : now ≤ last) : meter.credit income cap now = meter := by
  simp [credit, started, late]

theorem credit_later {last now : Time} (started : meter.credited = some last)
    (later : last < now) : meter.credit income cap now =
      ⟨min (meter.level + (income now - income last)) cap, some now⟩ := by
  simp [credit, started, later.not_ge]

theorem credited_credit {last : Time} (started : meter.credited = some last)
    (now : Time) :
    (meter.credit income cap now).credited = some (max last now) := by
  by_cases late : now ≤ last
  · rw [credit_late started late, started, max_eq_left late]
  · have later := lt_of_not_ge late
    rw [credit_later started later, max_eq_right later.le]

variable [IsOrderedAddMonoid Amount]

omit [LinearOrder Time] in
theorem min_add_min (level more cap : Amount) {still : Amount} (earns : 0 ≤ still) :
    min (min (level + more) cap + still) cap = min (level + (more + still)) cap := by
  rw [← add_assoc, ← min_add_add_right, min_assoc]
  congr 1
  exact min_eq_right (le_add_of_nonneg_right earns)

theorem credit_credit (earns : Monotone income) {last first second : Time}
    (started : meter.credited = some last) (ordered : first ≤ second) :
    (meter.credit income cap first).credit income cap second =
      meter.credit income cap second := by
  by_cases firstLate : first ≤ last
  · rw [credit_late started firstLate]
  have firstLater := lt_of_not_ge firstLate
  rw [credit_later started firstLater]
  rcases ordered.eq_or_lt with rfl | later
  · rw [credit_late rfl le_rfl, credit_later started firstLater]
  · rw [credit_later rfl later, credit_later started (firstLater.trans later),
      min_add_min _ _ _ (sub_nonneg.mpr (earns later.le)), add_comm (_ - _),
      sub_add_sub_cancel]

/-! ## What a bucket can hold -/

end Meter

omit [LinearOrder Time] [AddCommGroup Amount] [LinearOrder Amount] in
/-- The readings of the clock. -/
def readings (acts : List (Act Time Amount)) : List Time :=
  acts.filterMap fun act =>
    match act with
    | .credit now => some now
    | .debit _ => none

omit [LinearOrder Time] [LinearOrder Amount] in
/-- All that was spent. -/
def spent (acts : List (Act Time Amount)) : Amount :=
  (acts.map fun act =>
    match act with
    | .credit _ => 0
    | .debit amount => amount).sum

omit [AddCommGroup Amount] [LinearOrder Amount] in
/-- The latest of the readings. -/
def latest : List Time → Option Time
  | [] => none
  | first :: rest => some (rest.foldl max first)

omit [LinearOrder Amount] in
/-- The income between the first reading and the latest. -/
def earnings (income : Time → Amount) : List Time → Amount
  | [] => 0
  | first :: rest => income (rest.foldl max first) - income first

/-- No more than the cap is there, and what is there and what was spent together
were earned since the first reading. -/
structure Ledger (income : Time → Amount) (cap : Amount) (times : List Time)
    (spending : Amount) (meter : Meter Time Amount) : Prop where
  level_le : meter.level ≤ cap
  credited_eq : meter.credited = latest times
  earned : spending + meter.level ≤ earnings income times

namespace Ledger

variable {income : Time → Amount} {cap : Amount} {meter : Meter Time Amount}
  {times : List Time} {spending : Amount} [IsOrderedAddMonoid Amount]

omit [IsOrderedAddMonoid Amount] in
theorem empty (positive : 0 ≤ cap) :
    Ledger income cap [] 0 (⟨0, none⟩ : Meter Time Amount) :=
  ⟨positive, rfl, by simp [earnings]⟩

theorem debit {amount : Amount} (cost : 0 ≤ amount)
    (ledger : Ledger income cap times spending meter) :
    Ledger income cap times (spending + amount) (meter.debit amount) where
  level_le := (sub_le_self _ cost).trans ledger.level_le
  credited_eq := ledger.credited_eq
  earned := by
    have total : spending + amount + (meter.level - amount) =
        spending + meter.level := by abel
    rw [Meter.debit, total]
    exact ledger.earned

theorem credit (ledger : Ledger income cap times spending meter) (now : Time) :
    Ledger income cap (times ++ [now]) spending (meter.credit income cap now) := by
  cases times with
  | nil =>
      rw [Meter.credit_first ledger.credited_eq]
      exact ⟨ledger.level_le, rfl, ledger.earned.trans_eq (sub_self _).symm⟩
  | cons first rest =>
      have started : meter.credited = some (rest.foldl max first) := ledger.credited_eq
      have credited : (meter.credit income cap now).credited =
          some (max (rest.foldl max first) now) := Meter.credited_credit started now
      have final : (rest ++ [now]).foldl max first = max (rest.foldl max first) now := by
        rw [List.foldl_append, List.foldl_cons, List.foldl_nil]
      refine ⟨?_, by rw [credited, ← final]; rfl, ?_⟩
      all_goals
        rcases le_or_gt now (rest.foldl max first) with late | later
      · rw [Meter.credit_late started late]
        exact ledger.level_le
      · rw [Meter.credit_later started later]
        exact min_le_right _ _
      · rw [Meter.credit_late started late]
        refine ledger.earned.trans_eq ?_
        rw [List.cons_append, earnings, earnings, final, max_eq_left late]
      · rw [Meter.credit_later started later, List.cons_append, earnings, final,
          max_eq_right later.le]
        calc spending + min (meter.level +
                (income now - income (rest.foldl max first))) cap
            ≤ spending + (meter.level +
                (income now - income (rest.foldl max first))) := by
              gcongr
              exact min_le_left _ _
          _ = spending + meter.level +
                (income now - income (rest.foldl max first)) := by abel
          _ ≤ income (rest.foldl max first) - income first +
                (income now - income (rest.foldl max first)) := by
              gcongr
              exact ledger.earned
          _ = income now - income first := by abel

theorem run {acts : List (Act Time Amount)}
    (costs : ∀ amount, Act.debit amount ∈ acts → 0 ≤ amount)
    (ledger : Ledger income cap times spending meter) :
    Ledger income cap (times ++ readings acts) (spending + spent acts)
      (meter.run income cap acts) := by
  induction acts generalizing meter times spending with
  | nil => simpa [readings, spent, Meter.run] using ledger
  | cons act acts ih =>
      have later : ∀ amount, Act.debit amount ∈ acts → 0 ≤ amount :=
        fun amount member => costs amount (List.mem_cons_of_mem _ member)
      cases act with
      | credit now =>
          have rest := ih later (ledger.credit now)
          simpa [readings, spent, Meter.run, Meter.act] using rest
      | debit amount =>
          have rest := ih later (ledger.debit (costs amount List.mem_cons_self))
          simpa [readings, spent, Meter.run, Meter.act, add_assoc] using rest

end Ledger

end TokenBuckets
