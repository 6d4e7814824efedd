import WindowMlHub.RelayBudget
import WindowMlHub.TokenBuckets

/-!
# Schedules of an account's bucket

`rate.rs` promises integer arithmetic that is exact.  It is, as long as no amount
leaves the range of `i128`: then the bucket computes what a bucket in exact
arithmetic does, which is filled at `rate` thousandths of a byte a millisecond.
-/

namespace WindowMlHub

open TokenBuckets

/-- The largest amount that an `i128` holds. -/
def ceiling : Int := 2 ^ 127 - 1

/-- What is done to a bucket. -/
inductive BucketOp
  | refill (nowMs : Nat)
  | spend (bytes : Nat)
  deriving DecidableEq, Repr

/-- What this is in exact arithmetic. -/
def BucketOp.act : BucketOp → TokenBuckets.Act Nat Int
  | .refill nowMs => .credit nowMs
  | .spend bytes => .debit (bytes * 1000)

/-- All that a rate earns until a time, in thousandths of a byte. -/
def income (rate nowMs : Nat) : Int :=
  nowMs * rate

theorem income_mono (rate : Nat) : Monotone (income rate) := by
  intro first second ordered
  exact Int.mul_le_mul_of_nonneg_right (by exact_mod_cast ordered) (by simp)

theorem income_sub {rate first second : Nat} (ordered : first ≤ second) :
    income rate second - income rate first =
      ((second - first : Nat) : Int) * rate := by
  rw [income, income, Int.natCast_sub ordered, sub_mul]

/-- What an operation credits or leaves in exact arithmetic is an `i128`. -/
def BucketOp.Fits (rate : Nat) (meter : Meter Nat Int) : BucketOp → Prop
  | .refill nowMs => ∀ credited ∈ meter.credited,
      ((nowMs - credited : Nat) : Int) * rate ≤ ceiling
  | .spend bytes => Bucket.floor ≤ meter.level - bytes * 1000

/-- The exact balance of a bucket in exact arithmetic stays an `i128` all along. -/
def ExactSchedule (rate burst : Nat) : Meter Nat Int → List BucketOp → Prop
  | _, [] => True
  | meter, op :: rest =>
      op.Fits rate meter ∧
        ExactSchedule rate burst (meter.act (income rate) (burst * 1000) op.act) rest

namespace Bucket

/-- The bucket of an account, as one in exact arithmetic. -/
def meter (bucket : Bucket) : Meter Nat Int :=
  ⟨bucket.balance, bucket.creditedMs⟩

theorem eq_of_meter_eq {bucket other : Bucket} (same : bucket.meter = other.meter) :
    bucket = other := by
  cases bucket
  cases other
  simpa [meter] using same

def apply (rate burst : Nat) (bucket : Bucket) : BucketOp → Bucket
  | .refill nowMs => bucket.refill nowMs rate burst
  | .spend bytes => bucket.spend bytes

/-- A schedule of operations, one after another. -/
def schedule (rate burst : Nat) (bucket : Bucket) (ops : List BucketOp) : Bucket :=
  ops.foldl (apply rate burst) bucket

/-- The balance is an `i128` and not over the burst. -/
structure InRange (burst : Nat) (bucket : Bucket) : Prop where
  low : floor ≤ bucket.balance
  high : bucket.balance ≤ burst * 1000

theorem saturate_of_mem {amount : Int} (low : floor ≤ amount)
    (high : amount ≤ ceiling) : saturate amount = amount := by
  rw [floor] at low
  rw [ceiling] at high
  rw [saturate]
  omega

theorem saturate_of_le {amount : Int} (low : floor ≤ amount) :
    saturate amount = min amount ceiling :=
  max_eq_right (le_min low (by decide))

/-! ## The bucket of the code and the bucket in exact arithmetic -/

variable {rate burst : Nat} {bucket : Bucket}

theorem cap_le_ceiling (sized : burst < 2 ^ 64) : (burst : Int) * 1000 ≤ ceiling := by
  rw [ceiling]
  omega

/-- A refill credits what is earned exactly, when that is an `i128`. -/
theorem meter_refill (sized : burst < 2 ^ 64) (inRange : bucket.InRange burst)
    {nowMs : Nat} (fits : (BucketOp.refill nowMs).Fits rate bucket.meter) :
    (bucket.refill nowMs rate burst).meter =
      bucket.meter.credit (income rate) (burst * 1000) nowMs := by
  cases started : bucket.creditedMs with
  | none => simp [refill, meter, Meter.credit, started]
  | some credited =>
      by_cases late : nowMs ≤ credited
      · simp [refill, meter, Meter.credit, started, late]
      have earnedHigh : ((nowMs - credited : Nat) : Int) * rate ≤ ceiling :=
        fits credited started
      have earnedPos : 0 ≤ ((nowMs - credited : Nat) : Int) * rate :=
        Int.mul_nonneg (Int.natCast_nonneg _) (Int.natCast_nonneg _)
      have exact : saturate (((nowMs - credited : Nat) : Int) * rate) =
          ((nowMs - credited : Nat) : Int) * rate :=
        saturate_of_mem (le_trans (by decide) earnedPos) earnedHigh
      have low : floor ≤ bucket.balance + ((nowMs - credited : Nat) : Int) * rate :=
        le_add_of_le_of_nonneg inRange.low earnedPos
      have clamped : min (saturate (bucket.balance +
          ((nowMs - credited : Nat) : Int) * rate)) (burst * 1000) =
            min (bucket.balance + ((nowMs - credited : Nat) : Int) * rate)
              (burst * 1000) := by
        rw [saturate_of_le low, min_assoc, min_eq_right (cap_le_ceiling sized)]
      simp [refill, meter, Meter.credit, started, late, exact, clamped,
        income_sub (lt_of_not_ge late).le]

theorem meter_spend (sized : burst < 2 ^ 64) (inRange : bucket.InRange burst)
    {bytes : Nat} (fits : (BucketOp.spend bytes).Fits rate bucket.meter) :
    (bucket.spend bytes).meter = bucket.meter.debit (bytes * 1000) := by
  have high : bucket.balance - bytes * 1000 ≤ ceiling := by
    have cap := cap_le_ceiling sized
    have := inRange.high
    omega
  have exact : saturate (bucket.balance - bytes * 1000) =
      bucket.balance - bytes * 1000 := saturate_of_mem fits high
  simp only [spend, meter, Meter.debit, exact]

theorem meter_apply (sized : burst < 2 ^ 64) (inRange : bucket.InRange burst)
    {op : BucketOp} (fits : op.Fits rate bucket.meter) :
    (bucket.apply rate burst op).meter =
      bucket.meter.act (income rate) (burst * 1000) op.act := by
  cases op with
  | refill nowMs => exact meter_refill sized inRange fits
  | spend bytes => exact meter_spend sized inRange fits

theorem InRange.refill (inRange : bucket.InRange burst) (nowMs : Nat) :
    (bucket.refill nowMs rate burst).InRange burst := by
  rw [Bucket.refill]
  split
  · exact ⟨inRange.low, inRange.high⟩
  · split
    · exact inRange
    · refine ⟨le_min (floor_le_saturate _) ?_, min_le_right _ _⟩
      exact le_trans (by decide) (show (0 : Int) ≤ burst * 1000 by omega)

theorem InRange.spend (inRange : bucket.InRange burst) (bytes : Nat) :
    (bucket.spend bytes).InRange burst :=
  ⟨floor_le_spend bucket bytes, (spend_le inRange.low bytes).trans inRange.high⟩

theorem InRange.apply (inRange : bucket.InRange burst) (op : BucketOp) :
    (bucket.apply rate burst op).InRange burst := by
  cases op with
  | refill nowMs => exact inRange.refill nowMs
  | spend bytes => exact inRange.spend bytes

theorem InRange.schedule (inRange : bucket.InRange burst) (ops : List BucketOp) :
    (bucket.schedule rate burst ops).InRange burst := by
  induction ops generalizing bucket with
  | nil => exact inRange
  | cons op ops ih => exact ih (inRange.apply op)

theorem meter_schedule (sized : burst < 2 ^ 64) (inRange : bucket.InRange burst)
    {ops : List BucketOp} (exact : ExactSchedule rate burst bucket.meter ops) :
    (bucket.schedule rate burst ops).meter =
      bucket.meter.run (income rate) (burst * 1000) (ops.map BucketOp.act) := by
  induction ops generalizing bucket with
  | nil => rfl
  | cons op ops ih =>
      obtain ⟨fits, rest⟩ := exact
      rw [← meter_apply sized inRange fits] at rest
      rw [List.map_cons, Meter.run, List.foldl_cons, ← meter_apply sized inRange fits]
      exact ih (inRange.apply op) rest

theorem inRange_empty (burst : Nat) : ({} : Bucket).InRange burst :=
  ⟨by decide, by simp⟩

/-! ## The readings in between -/

theorem refill_late {credited nowMs : Nat}
    (started : bucket.creditedMs = some credited) (late : nowMs ≤ credited) :
    bucket.refill nowMs rate burst = bucket := by
  simp [refill, started, late]

theorem refill_credited {credited : Nat}
    (started : bucket.creditedMs = some credited) (nowMs : Nat) :
    (bucket.refill nowMs rate burst).creditedMs = some (max credited nowMs) := by
  by_cases late : nowMs ≤ credited
  · rw [refill_late started late, started, max_eq_left late]
  · simp [refill, started, late, max_eq_right (lt_of_not_ge late).le]

theorem refill_balance (sized : burst < 2 ^ 64) (inRange : bucket.InRange burst)
    {credited nowMs : Nat} (started : bucket.creditedMs = some credited)
    (ordered : credited ≤ nowMs)
    (fits : ((nowMs - credited : Nat) : Int) * rate ≤ ceiling) :
    (bucket.refill nowMs rate burst).balance =
      min (bucket.balance + ((nowMs - credited : Nat) : Int) * rate)
        (burst * 1000) := by
  have fitting : (BucketOp.refill nowMs).Fits rate bucket.meter := by
    intro last found
    obtain rfl := Option.some.inj (started.symm.trans found)
    exact fits
  have level := congrArg Meter.level (meter_refill sized inRange fitting)
  rcases ordered.eq_or_lt with rfl | later
  · rw [refill_late started le_rfl, Nat.sub_self, Nat.cast_zero, zero_mul, add_zero,
      min_eq_left inRange.high]
  · rw [Meter.credit_later started later, income_sub later.le] at level
    exact level

/-- A refill before another makes no difference to it. -/
theorem refill_absorbed (sized : burst < 2 ^ 64) (inRange : bucket.InRange burst)
    {credited first second : Nat} (started : bucket.creditedMs = some credited)
    (ordered : first ≤ second)
    (fits : ((second - credited : Nat) : Int) * rate ≤ ceiling) :
    (bucket.refill first rate burst).refill second rate burst =
      bucket.refill second rate burst := by
  have less {span : Nat} (within : span ≤ second - credited) :
      (span : Int) * rate ≤ ceiling :=
    le_trans (Int.mul_le_mul_of_nonneg_right (by exact_mod_cast within) (by simp)) fits
  have firstFits : (BucketOp.refill first).Fits rate bucket.meter := by
    intro last found
    obtain rfl := Option.some.inj (started.symm.trans found)
    exact less (by omega)
  have secondFits : (BucketOp.refill second).Fits rate bucket.meter := by
    intro last found
    obtain rfl := Option.some.inj (started.symm.trans found)
    exact fits
  have thenFits : (BucketOp.refill second).Fits rate
      (bucket.refill first rate burst).meter := by
    intro last found
    obtain rfl := Option.some.inj ((refill_credited started first).symm.trans found)
    exact less (by omega)
  apply eq_of_meter_eq
  rw [meter_refill sized (inRange.refill first) thenFits,
    meter_refill sized inRange firstFits, meter_refill sized inRange secondFits]
  exact Meter.credit_credit (income_mono rate) started ordered

/-- However often a bucket was refilled before, the last refill decides. -/
theorem refills_absorbed (sized : burst < 2 ^ 64) (inRange : bucket.InRange burst)
    {credited final : Nat} {times : List Nat}
    (started : bucket.creditedMs = some credited)
    (earlier : ∀ time ∈ times, time ≤ final)
    (fits : ((final - credited : Nat) : Int) * rate ≤ ceiling) :
    (times ++ [final]).foldl (fun bucket time => bucket.refill time rate burst) bucket =
      bucket.refill final rate burst := by
  rw [List.foldl_append, List.foldl_cons, List.foldl_nil]
  induction times generalizing bucket credited with
  | nil => rfl
  | cons time times ih =>
      have less : ((final - max credited time : Nat) : Int) * rate ≤ ceiling :=
        le_trans (Int.mul_le_mul_of_nonneg_right
          (by exact_mod_cast Nat.sub_le_sub_left (le_max_left credited time) final)
          (by simp)) fits
      rw [List.foldl_cons, ih (inRange.refill time)
        (refill_credited started time)
        (fun later member => earlier later (List.mem_cons_of_mem _ member)) less]
      exact refill_absorbed sized inRange started
        (earlier time List.mem_cons_self) fits

/-! ## How long a debt lasts -/

/-- A debt is repaid once enough has been earned, if that is an `i128`. -/
theorem balance_refill_nonneg {credited waited : Nat}
    (started : bucket.creditedMs = some credited) (inDebt : bucket.balance < 0) :
    0 ≤ (bucket.refill (credited + waited) rate burst).balance ↔
      (bucket.balance.natAbs : Int) ≤ min ((waited : Int) * rate) ceiling := by
  cases waited with
  | zero =>
      rw [Nat.add_zero, refill_late started (le_refl _)]
      have := min_le_left (((0 : Nat) : Int) * rate) ceiling
      omega
  | succ waited =>
      have later : ¬ credited + (waited + 1) ≤ credited := by omega
      have elapsed : credited + (waited + 1) - credited = waited + 1 := by omega
      have earned : 0 ≤ ((waited + 1 : Nat) : Int) * rate :=
        Int.mul_nonneg (Int.natCast_nonneg _) (Int.natCast_nonneg _)
      have credit : saturate (((waited + 1 : Nat) : Int) * rate) =
          min (((waited + 1 : Nat) : Int) * rate) ceiling :=
        saturate_of_le (le_trans (by decide) earned)
      simp only [refill, started, if_neg later, elapsed, credit]
      have debt : bucket.balance = -(bucket.balance.natAbs : Int) := by omega
      constructor
      · intro repaid
        have kept := (le_min_iff.mp repaid).1
        rw [saturate] at kept
        omega
      · intro enough
        apply le_min
        · rw [saturate]
          omega
        · omega

/-- `wait_ms` is the least wait that leaves no debt, if there is one. -/
theorem waitMs_isLeast (positive : 0 < rate) {credited : Nat}
    (started : bucket.creditedMs = some credited)
    (repaid : ∃ waited < 2 ^ 64,
      0 ≤ (bucket.refill (credited + waited) rate burst).balance) :
    IsLeast {waited | 0 ≤ (bucket.refill (credited + waited) rate burst).balance}
      (bucket.waitMs rate) := by
  by_cases solvent : 0 ≤ bucket.balance
  · rw [waitMs, if_pos (.inl solvent)]
    refine ⟨?_, fun waited _ => Nat.zero_le waited⟩
    change 0 ≤ (bucket.refill credited rate burst).balance
    rw [refill_late started (le_refl _)]
    exact solvent
  have inDebt : bucket.balance < 0 := by omega
  have enough (waited : Nat) : bucket.balance.natAbs ≤ waited * rate ↔
      (bucket.balance.natAbs + rate - 1) / rate ≤ waited := by
    rw [Nat.div_le_iff_le_mul_add_pred positive, Nat.mul_comm]
    omega
  obtain ⟨waited, short, repaid⟩ := repaid
  rw [balance_refill_nonneg started inDebt, le_min_iff] at repaid
  have least : (bucket.balance.natAbs + rate - 1) / rate ≤ waited :=
    (enough waited).mp (by exact_mod_cast repaid.1)
  rw [waitMs, if_neg (not_or.mpr ⟨solvent, positive.ne'⟩), min_eq_left (by omega)]
  constructor
  · refine (balance_refill_nonneg started inDebt).mpr ?_
    exact le_min (by exact_mod_cast (enough _).mpr (le_refl _)) repaid.2
  · intro other leaves
    have covers := (balance_refill_nonneg started inDebt).mp leaves
    exact (enough other).mp (by exact_mod_cast (le_min_iff.mp covers).1)

end Bucket

/-! ## What a schedule spends -/

/-- The bytes a schedule spends. -/
def spentBytes (ops : List BucketOp) : Nat :=
  (ops.map fun op =>
    match op with
    | .refill _ => 0
    | .spend bytes => bytes).sum

/-- The clock readings of a schedule. -/
def refillTimes (ops : List BucketOp) : List Nat :=
  ops.filterMap fun op =>
    match op with
    | .refill nowMs => some nowMs
    | .spend _ => none

/-- The time from the first refill of a schedule to its latest reading. -/
def elapsedMs (ops : List BucketOp) : Nat :=
  match refillTimes ops with
  | [] => 0
  | first :: rest => rest.foldl max first - first

theorem readings_map_act (ops : List BucketOp) :
    readings (ops.map BucketOp.act) = refillTimes ops := by
  rw [readings, refillTimes, List.filterMap_map]
  congr 1
  funext op
  cases op <;> rfl

theorem spent_map_act (ops : List BucketOp) :
    spent (ops.map BucketOp.act) = (spentBytes ops : Int) * 1000 := by
  induction ops with
  | nil => simp [spent, spentBytes]
  | cons op ops ih =>
      rw [spent, spentBytes] at ih ⊢
      rw [List.map_cons, List.map_cons, List.sum_cons, ih, List.map_cons, List.sum_cons]
      cases op with
      | refill nowMs => simp [BucketOp.act]
      | spend bytes => simp [BucketOp.act, add_mul]

theorem le_foldl_max (first : Nat) (rest : List Nat) : first ≤ rest.foldl max first := by
  induction rest generalizing first with
  | nil => exact le_refl first
  | cons time rest ih => exact (le_max_left first time).trans (ih (max first time))

theorem earnings_refillTimes (rate : Nat) (ops : List BucketOp) :
    earnings (income rate) (refillTimes ops) = (elapsedMs ops : Int) * rate := by
  rw [elapsedMs]
  cases refillTimes ops with
  | nil => simp [earnings]
  | cons first rest => exact income_sub (le_foldl_max first rest)

namespace Bucket

/-- What a schedule spent and left was earned since its first refill. -/
theorem schedule_earned {rate burst : Nat} (sized : burst < 2 ^ 64) {ops : List BucketOp}
    (exact : ExactSchedule rate burst (meter {}) ops) :
    (spentBytes ops : Int) * 1000 + (schedule rate burst {} ops).balance ≤
      (elapsedMs ops : Int) * rate := by
  have costs : ∀ amount : Int, TokenBuckets.Act.debit amount ∈ ops.map BucketOp.act →
      0 ≤ amount := by
    intro amount member
    obtain ⟨op, -, same⟩ := List.mem_map.mp member
    cases op with
    | refill nowMs => cases same
    | spend bytes =>
        obtain rfl := TokenBuckets.Act.debit.inj same
        omega
  have start : Ledger (income rate) ((burst : Int) * 1000) [] 0 (meter {}) :=
    Ledger.empty (by omega)
  have ledger := start.run costs
  rw [← meter_schedule sized (inRange_empty burst) exact, List.nil_append, zero_add,
    readings_map_act, spent_map_act] at ledger
  rw [← earnings_refillTimes]
  exact ledger.earned

/-- An account's bucket is exact. -/
theorem exactness (rate burst : Nat) (positive : 0 < rate) (sized : burst < 2 ^ 64)
    (ops : List BucketOp) (exact : ExactSchedule rate burst (meter {}) ops)
    (bucket : Bucket) (reached : bucket = schedule rate burst {} ops) :
    (∀ credited times final, bucket.creditedMs = some credited →
        (∀ time ∈ times, time ≤ final) →
        ((final - credited : Nat) : Int) * rate ≤ ceiling →
        (times ++ [final]).foldl (fun bucket time => bucket.refill time rate burst)
          bucket = bucket.refill final rate burst) ∧
      bucket.balance ≤ burst * 1000 ∧
      (spentBytes ops : Int) * 1000 + bucket.balance ≤ (elapsedMs ops : Int) * rate ∧
      (∀ credited nowMs, bucket.creditedMs = some credited → nowMs ≤ credited →
        bucket.refill nowMs rate burst = bucket) ∧
      (∀ credited, bucket.creditedMs = some credited →
        (∃ waited < 2 ^ 64,
          0 ≤ (bucket.refill (credited + waited) rate burst).balance) →
        IsLeast {waited | 0 ≤ (bucket.refill (credited + waited) rate burst).balance}
          (bucket.waitMs rate)) := by
  have inRange : bucket.InRange burst := reached ▸ (inRange_empty burst).schedule ops
  refine ⟨?_, inRange.high, ?_, ?_, ?_⟩
  · intro credited times final started earlier fits
    exact refills_absorbed sized inRange started earlier fits
  · rw [reached]
    exact schedule_earned sized exact
  · intro credited nowMs started late
    exact refill_late started late
  · intro credited started repaid
    exact waitMs_isLeast positive started repaid

/-- A debt of 12345 bytes at 8000 a second is repaid in 1544 milliseconds and no
sooner, as the bucket says. -/
theorem exactness_debt :
    IsLeast {waited | 0 ≤ ((Bucket.mk (-12345000) (some 0)).refill (0 + waited)
      8000 32000).balance} 1544 := by
  have exact : ExactSchedule 8000 32000 (meter {}) [.refill 0, .spend 12345] := by
    refine ⟨?_, ?_, trivial⟩
    · intro credited found
      cases found
    · change floor ≤ (0 : Int) - ((12345 : Nat) : Int) * 1000
      decide
  obtain ⟨-, -, -, -, least⟩ := exactness 8000 32000 (by decide) (by decide)
    [.refill 0, .spend 12345] exact ⟨-12345000, some 0⟩ (by decide)
  exact least 0 rfl ⟨1544, by decide, by decide⟩

/-- The first reading only starts a bucket, so a reading before it makes a
difference; and so does a refill that would exactly credit more than an `i128`
holds, though the exact balance would not be. -/
theorem refills_not_absorbed :
    [0, 1000].foldl (fun bucket time => bucket.refill time 1 1) ({} : Bucket) ≠
        ({} : Bucket).refill 1000 1 1 ∧
      floor + ((2 ^ 64 - 1 : Nat) : Int) * (2 ^ 64 - 1 : Nat) ≤ ceiling ∧
      [2 ^ 63, 2 ^ 64 - 1].foldl
          (fun bucket time => bucket.refill time (2 ^ 64 - 1) 1)
          ⟨floor, some 0⟩ ≠
        (⟨floor, some 0⟩ : Bucket).refill (2 ^ 64 - 1) (2 ^ 64 - 1) 1 := by
  decide

end Bucket

end WindowMlHub
