import WindowMlHub.RelayBucketSchedules
import WindowMlHub.RelayLockstep

/-!
# Refused hellos

A hello is refused at six points, and at the last of them the account's bucket has
been refilled already.  That refill cannot be told from one made later: until the
clock is read again the bucket is ahead by exactly what it was credited early, and
the next reading makes up for it.  Debts so deep that they left the range of
`i128` are the exception, and unless an account earns more than 2 ^ 62 bytes a
second no reading of a 64-bit clock lives to see such a debt repaid.
-/

namespace WindowMlHub

open CheckedEvaluation HashTables TokenBuckets

/-- The last reading that a 64-bit clock can give. -/
def lastMs : Nat := 2 ^ 64 - 1

namespace Bucket

variable {rate burst nowMs : Nat} {bucket other : Bucket}

/-- A debt that the longest wait there is will not repay, whenever it is asked
about. -/
structure Hopeless (rate : Nat) (bucket : Bucket) : Prop where
  low : floor ≤ bucket.balance
  started : ∃ credited, bucket.creditedMs = some credited ∧
    bucket.balance + ((lastMs - credited : Nat) : Int) * rate +
      ((lastMs - 1 : Nat) : Int) * rate < 0

/-- Buckets that the clock has been read for at different times, the second ahead
of the first by what has been earned in between; or hopeless both. -/
inductive Alike (rate burst nowMs : Nat) : Bucket → Bucket → Prop
  | same (bucket : Bucket) : Alike rate burst nowMs bucket bucket
  | ahead {bucket other : Bucket} {credited credited' : Nat}
      (started : bucket.creditedMs = some credited)
      (started' : other.creditedMs = some credited') (ordered : credited ≤ credited')
      (reached : credited' ≤ nowMs)
      (ahead : other.balance =
        bucket.balance + ((credited' - credited : Nat) : Int) * rate)
      (inRange : bucket.InRange burst) (inRange' : other.InRange burst) :
      Alike rate burst nowMs bucket other
  | hopeless {bucket other : Bucket} (first : bucket.Hopeless rate)
      (second : other.Hopeless rate) : Alike rate burst nowMs bucket other

theorem Alike.mono {later : Nat} (ordered : nowMs ≤ later)
    (related : Alike rate burst nowMs bucket other) :
    Alike rate burst later bucket other := by
  cases related with
  | same => exact .same bucket
  | ahead started started' credit reached ahead inRange inRange' =>
      exact .ahead started started' credit (reached.trans ordered) ahead inRange inRange'
  | hopeless first second => exact .hopeless first second

theorem earned_le (slow : rate ≤ 2 ^ 62) {span : Nat} (short : span ≤ lastMs) :
    (span : Int) * rate ≤ 2 ^ 126 := by
  have product : span * rate ≤ lastMs * 2 ^ 62 := Nat.mul_le_mul short slow
  have bound : lastMs * 2 ^ 62 ≤ 2 ^ 126 := by decide
  exact_mod_cast product.trans bound

theorem earned_le_ceiling (slow : rate ≤ 2 ^ 62) {span : Nat}
    (short : span ≤ lastMs) : (span : Int) * rate ≤ ceiling :=
  (earned_le slow short).trans (by decide)

/-! ## Hopeless debts -/

theorem Hopeless.waitMs (hopeless : bucket.Hopeless rate) (positive : 0 < rate) :
    bucket.waitMs rate = 2 ^ 64 - 1 := by
  obtain ⟨credited, -, deep⟩ := hopeless.started
  have earned : 0 ≤ ((lastMs - credited : Nat) : Int) * rate :=
    Int.mul_nonneg (Int.natCast_nonneg _) (Int.natCast_nonneg _)
  have debt : (lastMs - 1) * rate < bucket.balance.natAbs := by
    have : ((lastMs - 1 : Nat) : Int) * rate < bucket.balance.natAbs := by omega
    exact_mod_cast this
  have inDebt : ¬ 0 ≤ bucket.balance := by
    have : 0 ≤ ((lastMs - 1 : Nat) : Int) * rate :=
      Int.mul_nonneg (Int.natCast_nonneg _) (Int.natCast_nonneg _)
    omega
  rw [Bucket.waitMs, if_neg (not_or.mpr ⟨inDebt, positive.ne'⟩)]
  apply min_eq_right
  have split : lastMs * rate = (lastMs - 1) * rate + rate := by
    rw [← Nat.succ_mul]
    rfl
  rw [show 2 ^ 64 - 1 = lastMs from rfl, Nat.le_div_iff_mul_le positive, split]
  omega

theorem Hopeless.spend (hopeless : bucket.Hopeless rate) (bytes : Nat) :
    (bucket.spend bytes).Hopeless rate := by
  obtain ⟨credited, started, deep⟩ := hopeless.started
  refine ⟨floor_le_spend bucket bytes, credited, started, ?_⟩
  have less := spend_le hopeless.low bytes
  omega

theorem hopeless_of_sunk (slow : rate ≤ 2 ^ 62) {credited : Nat}
    (low : floor ≤ bucket.balance) (started : bucket.creditedMs = some credited)
    (sunk : bucket.balance + ((lastMs - credited : Nat) : Int) * rate ≤
      floor + (lastMs : Int) * rate) : bucket.Hopeless rate := by
  refine ⟨low, credited, started, ?_⟩
  have total : (lastMs : Int) * rate + ((lastMs - 1 : Nat) : Int) * rate =
      ((2 ^ 65 - 3 : Nat) : Int) * rate := by
    rw [← add_mul]
    rfl
  have bound : ((2 ^ 65 - 3 : Nat) : Int) * rate ≤ ((2 ^ 65 - 3) * 2 ^ 62 : Nat) := by
    exact_mod_cast Nat.mul_le_mul_left (2 ^ 65 - 3) slow
  have value : (((2 ^ 65 - 3) * 2 ^ 62 : Nat) : Int) < 2 ^ 127 := by decide
  rw [floor] at sunk
  omega

theorem Hopeless.refill (slow : rate ≤ 2 ^ 62) (hopeless : bucket.Hopeless rate)
    {now : Nat} (within : now ≤ lastMs) : (bucket.refill now rate burst).Hopeless rate := by
  obtain ⟨credited, started, deep⟩ := hopeless.started
  by_cases late : now ≤ credited
  · rw [refill_late started late]
    exact hopeless
  have earnedPos : 0 ≤ ((now - credited : Nat) : Int) * rate :=
    Int.mul_nonneg (Int.natCast_nonneg _) (Int.natCast_nonneg _)
  have earnedLe := earned_le slow (show now - credited ≤ lastMs by omega)
  have split : ((lastMs - credited : Nat) : Int) * rate =
      ((now - credited : Nat) : Int) * rate + ((lastMs - now : Nat) : Int) * rate := by
    rw [← add_mul]
    congr 1
    omega
  have restPos : 0 ≤ ((lastMs - now : Nat) : Int) * rate :=
    Int.mul_nonneg (Int.natCast_nonneg _) (Int.natCast_nonneg _)
  have waitPos : 0 ≤ ((lastMs - 1 : Nat) : Int) * rate :=
    Int.mul_nonneg (Int.natCast_nonneg _) (Int.natCast_nonneg _)
  have low := hopeless.low
  rw [floor] at low
  have credit : saturate (((now - credited : Nat) : Int) * rate) =
      ((now - credited : Nat) : Int) * rate := by
    apply saturate_of_mem
    · rw [floor]
      omega
    · rw [ceiling]
      omega
  have sum : saturate (bucket.balance + ((now - credited : Nat) : Int) * rate) =
      bucket.balance + ((now - credited : Nat) : Int) * rate := by
    apply saturate_of_mem
    · rw [floor]
      omega
    · rw [ceiling]
      omega
  have balance : (bucket.refill now rate burst).balance =
      bucket.balance + ((now - credited : Nat) : Int) * rate := by
    simp only [Bucket.refill, started, if_neg late, credit, sum]
    apply min_eq_left
    omega
  refine ⟨?_, now, ?_, ?_⟩
  · rw [balance, floor]
    omega
  · simp [Bucket.refill, started, late]
  · rw [balance]
    omega

/-! ## Spending and refilling side by side -/

theorem spend_balance (inRange : bucket.InRange burst) (sized : burst < 2 ^ 64)
    (bytes : Nat) :
    (bucket.spend bytes).balance = max floor (bucket.balance - bytes * 1000) := by
  have high := inRange.high
  have cap := cap_le_ceiling sized
  have below : min (bucket.balance - bytes * 1000) (2 ^ 127 - 1) =
      bucket.balance - bytes * 1000 := by
    apply min_eq_left
    rw [ceiling] at cap
    omega
  simp only [Bucket.spend, saturate, below, floor]

theorem Alike.spend (slow : rate ≤ 2 ^ 62) (sized : burst < 2 ^ 64)
    (within : nowMs ≤ lastMs) (related : Alike rate burst nowMs bucket other)
    (bytes : Nat) : Alike rate burst nowMs (bucket.spend bytes) (other.spend bytes) := by
  cases related with
  | same => exact .same _
  | hopeless first second => exact .hopeless (first.spend bytes) (second.spend bytes)
  | @ahead _ credited credited' started started' ordered reached ahead inRange inRange' =>
      have spent := spend_balance inRange sized bytes
      have spent' := spend_balance inRange' sized bytes
      have earnedPos : 0 ≤ ((credited' - credited : Nat) : Int) * rate :=
        Int.mul_nonneg (Int.natCast_nonneg _) (Int.natCast_nonneg _)
      by_cases exact : floor ≤ bucket.balance - bytes * 1000
      · refine .ahead started started' ordered reached ?_ (inRange.spend bytes)
          (inRange'.spend bytes)
        rw [spent, spent', max_eq_right exact, max_eq_right (by omega), ahead]
        omega
      · -- the first is at the floor, and the second at most what it is ahead above it
        have split : (lastMs : Int) * rate = (credited : Int) * rate +
            ((credited' - credited : Nat) : Int) * rate +
              ((lastMs - credited' : Nat) : Int) * rate := by
          rw [← add_mul, ← add_mul]
          congr 1
          omega
        have split' : ((lastMs - credited : Nat) : Int) * rate =
            ((credited' - credited : Nat) : Int) * rate +
              ((lastMs - credited' : Nat) : Int) * rate := by
          rw [← add_mul]
          congr 1
          omega
        have creditedPos : 0 ≤ (credited : Int) * rate :=
          Int.mul_nonneg (Int.natCast_nonneg _) (Int.natCast_nonneg _)
        refine .hopeless (hopeless_of_sunk slow ?_ started ?_)
          (hopeless_of_sunk slow ?_ started' ?_)
        · exact floor_le_spend bucket bytes
        · rw [spent]
          omega
        · exact floor_le_spend other bytes
        · rw [spent']
          omega

/-- The next reading makes up for what was credited early. -/
theorem Alike.refill (slow : rate ≤ 2 ^ 62) (sized : burst < 2 ^ 64) {now : Nat}
    (later : nowMs ≤ now) (within : now ≤ lastMs)
    (related : Alike rate burst nowMs bucket other) :
    bucket.refill now rate burst = other.refill now rate burst ∨
      (bucket.refill now rate burst).Hopeless rate ∧
        (other.refill now rate burst).Hopeless rate := by
  cases related with
  | same => exact .inl rfl
  | hopeless first second =>
      exact .inr ⟨first.refill slow within, second.refill slow within⟩
  | @ahead _ credited credited' started started' ordered reached ahead inRange inRange' =>
      left
      have early : other = bucket.refill credited' rate burst := by
        have fits := earned_le_ceiling slow (show credited' - credited ≤ lastMs by omega)
        have high := inRange'.high
        have balance : other.balance = (bucket.refill credited' rate burst).balance := by
          rw [refill_balance sized inRange started ordered fits, ← ahead,
            min_eq_left high]
        have creditedMs : other.creditedMs =
            (bucket.refill credited' rate burst).creditedMs := by
          rw [refill_credited started, started', max_eq_right ordered]
        exact eq_of_meter_eq (Meter.ext balance creditedMs)
      rw [early]
      exact (refill_absorbed sized inRange started (reached.trans later)
        (earned_le_ceiling slow (by omega))).symm

theorem Alike.refilled (positive : 0 < rate) (slow : rate ≤ 2 ^ 62)
    (sized : burst < 2 ^ 64) {now : Nat} (later : nowMs ≤ now) (within : now ≤ lastMs)
    (related : Alike rate burst nowMs bucket other) :
    (other.refill now rate burst).waitMs rate =
        (bucket.refill now rate burst).waitMs rate ∧
      Alike rate burst now (bucket.refill now rate burst)
        (other.refill now rate burst) := by
  rcases related.refill slow sized later within with same | ⟨first, second⟩
  · rw [same]
    exact ⟨rfl, .same _⟩
  · rw [first.waitMs positive, second.waitMs positive]
    exact ⟨rfl, .hopeless first second⟩

theorem Alike.charged (positive : 0 < rate) (slow : rate ≤ 2 ^ 62)
    (sized : burst < 2 ^ 64) {now : Nat} (later : nowMs ≤ now) (within : now ≤ lastMs)
    (related : Alike rate burst nowMs bucket other) (bytes : Nat) :
    ((other.refill now rate burst).spend bytes).waitMs rate =
        ((bucket.refill now rate burst).spend bytes).waitMs rate ∧
      Alike rate burst now ((bucket.refill now rate burst).spend bytes)
        ((other.refill now rate burst).spend bytes) := by
  rcases related.refill slow sized later within with same | ⟨first, second⟩
  · rw [same]
    exact ⟨rfl, .same _⟩
  · rw [(first.spend bytes).waitMs positive, (second.spend bytes).waitMs positive]
    exact ⟨rfl, .hopeless (first.spend bytes) (second.spend bytes)⟩

/-- A bucket still in debt after a refill is ahead of what it was. -/
theorem alike_refill (slow : rate ≤ 2 ^ 62) (sized : burst < 2 ^ 64)
    (inRange : bucket.InRange burst) {credited : Nat}
    (started : bucket.creditedMs = some credited) (within : nowMs ≤ lastMs)
    (owing : 0 < (bucket.refill nowMs rate burst).waitMs rate) :
    Alike rate burst nowMs bucket (bucket.refill nowMs rate burst) := by
  by_cases late : nowMs ≤ credited
  · rw [refill_late started late]
    exact .same bucket
  have ordered := (lt_of_not_ge late).le
  have inDebt : (bucket.refill nowMs rate burst).balance < 0 := by
    by_contra solvent
    rw [Bucket.waitMs, if_pos (.inl (not_lt.mp solvent))] at owing
    exact absurd owing (lt_irrefl 0)
  have balance := refill_balance sized inRange started ordered
    (earned_le_ceiling slow (show nowMs - credited ≤ lastMs by omega))
  refine .ahead started (refill_credited started nowMs) (le_max_left _ _)
    (max_le ordered le_rfl) ?_ inRange (inRange.refill nowMs)
  rw [max_eq_right ordered]
  omega

end Bucket

/-! ## The calls that read the clock -/

/-- Budgets of accounts under these limits that the clock makes alike. -/
abbrev Limits.Budgets (limits : Limits) (nowMs : Nat) : Bucket → Bucket → Prop :=
  Bucket.Alike limits.accountBytesPerSecond limits.accountBurstBytes nowMs

/-- Limits that the relay accepts, with an account's rate far below what would wear
out the 128 bits of its budget. -/
structure Limits.Slow (limits : Limits) : Prop where
  positive : 0 < limits.accountBytesPerSecond
  slow : limits.accountBytesPerSecond ≤ 2 ^ 62
  sized : limits.accountBurstBytes < 2 ^ 64

namespace Hub

variable [Codec] {hub other : Hub} {nowMs : Nat}

/-- Nobody is told more or less because of a budget, but for the wait. -/
theorem notify_with_rate (limits : Limits) (acct : Account) (rate : Bucket)
    (conn : ConnId) (wait nowMs : Nat) :
    notify limits { acct with rate } conn wait nowMs =
      ({ (notify limits acct conn wait nowMs).1 with rate },
        (notify limits acct conn wait nowMs).2) := by
  unfold notify
  split
  · dsimp only
    cases acct.conns.lookup conn with
    | none => rfl
    | some c =>
        dsimp only
        split
        · rfl
        · rfl
  · rfl

theorem Alike.charge (order : HashOrder) (slow : hub.limits.Slow) {now : Nat}
    (later : nowMs ≤ now) (within : now ≤ lastMs)
    (related : hub.Alike (hub.limits.Budgets nowMs) other) (conn : ConnId)
    (bytes : Nat) :
    Lockstep (hub.limits.Budgets now) (hub.charge order conn bytes now)
      (other.charge order conn bytes now) := by
  have relaxed := related.mono fun alike => Bucket.Alike.mono later alike
  simp only [Hub.charge, related.connAccount_eq]
  split
  · exact .returns relaxed _
  next account _ =>
    rcases related.cases account with
      ⟨left, right⟩ | ⟨acct, rate, left, right, budgets⟩
    · simp only [left, right]
      exact .returns relaxed _
    · obtain ⟨waits, charged⟩ :=
        budgets.charged slow.positive slow.slow slow.sized later within bytes
      simp only [left, right, related.limits_eq, waits]
      have told := notify_with_rate hub.limits { acct with
          rate := (acct.rate.refill now hub.limits.accountBytesPerSecond
            hub.limits.accountBurstBytes).spend bytes }
        ((rate.refill now hub.limits.accountBytesPerSecond
          hub.limits.accountBurstBytes).spend bytes) conn
        (((acct.rate.refill now hub.limits.accountBytesPerSecond
          hub.limits.accountBurstBytes).spend bytes).waitMs
            hub.limits.accountBytesPerSecond) now
      rw [told]
      refine (Alike.finish order (relaxed.setAccount ?_ account) _).bind ?_
      · refine ⟨_, rfl, ?_⟩
        rw [notify_rate]
        exact charged
      · intro hub other actions related
        exact .returns related _

/-- What `connect` does when the account is known and only its budget is left to
ask. -/
theorem connect_known {account : AccountId} {hello : Hello} {acct : Account}
    (order : HashOrder) (wallMs monoMs : Nat) (revoker : Revoker)
    (admissible : hub.refuseHello account hello = none)
    (found : hub.accounts.lookup account = some acct) :
    hub.connect order account hello wallMs monoMs revoker =
      if (acct.rate.refill monoMs hub.limits.accountBytesPerSecond
          hub.limits.accountBurstBytes).waitMs hub.limits.accountBytesPerSecond >
            connectRefusedAboveMs then
        .ok (hub.setAccount account { acct with
            rate := acct.rate.refill monoMs hub.limits.accountBytesPerSecond
              hub.limits.accountBurstBytes },
          .error (overRate ((acct.rate.refill monoMs
            hub.limits.accountBytesPerSecond hub.limits.accountBurstBytes).waitMs
              hub.limits.accountBytesPerSecond)))
      else
        (hub.setAccount account { acct with
          rate := acct.rate.refill monoMs hub.limits.accountBytesPerSecond
            hub.limits.accountBurstBytes }).connectChecked order account hello
              wallMs monoMs revoker := by
  unfold connect
  rw [admissible, found]
  rfl

theorem Alike.connect (order : HashOrder) (slow : hub.limits.Slow) {monoMs : Nat}
    (later : nowMs ≤ monoMs) (within : monoMs ≤ lastMs)
    (related : hub.Alike (hub.limits.Budgets nowMs) other) (account : AccountId)
    (hello : Hello) (wallMs : Nat) (revoker : Revoker) :
    Lockstep (hub.limits.Budgets monoMs)
      (hub.connect order account hello wallMs monoMs revoker)
      (other.connect order account hello wallMs monoMs revoker) := by
  have relaxed := related.mono fun alike => Bucket.Alike.mono later alike
  have admits {hub' other' : Hub} (limitsEq : hub'.limits = hub.limits)
      (related : hub'.Alike (hub.limits.Budgets monoMs) other') :
      Lockstep (hub.limits.Budgets monoMs)
        (hub'.connectChecked order account hello wallMs monoMs revoker)
        (other'.connectChecked order account hello wallMs monoMs revoker) := by
    refine related.connectChecked order account hello wallMs monoMs revoker
      .same fun budgets => ?_
    rw [limitsEq]
    exact (budgets.charged slow.positive slow.slow slow.sized le_rfl within
      connectCostBytes).2
  cases admissible : hub.refuseHello account hello with
  | some frame =>
      have refused := (related.refuseHello account hello).trans admissible
      simp only [Hub.connect, admissible, refused]
      exact .returns relaxed _
  | none =>
      have admissible' := (related.refuseHello account hello).trans admissible
      rcases related.cases account with
        ⟨left, right⟩ | ⟨acct, rate, left, right, budgets⟩
      · simp only [Hub.connect, admissible, admissible', left, right]
        exact admits rfl relaxed
      · obtain ⟨waits, refilled⟩ :=
          budgets.refilled slow.positive slow.slow slow.sized later within
        rw [connect_known order wallMs monoMs revoker admissible left,
          connect_known order wallMs monoMs revoker admissible' right,
          related.limits_eq, waits]
        split
        · refine .returns (relaxed.setAccount ?_ account) _
          exact ⟨_, rfl, refilled⟩
        · refine admits (hub.setAccount_limits account _)
            (relaxed.setAccount ?_ account)
          exact ⟨_, rfl, refilled⟩

end Hub

/-- The reading a call is made at, or the one before it. -/
def Call.clock (nowMs : Nat) (call : Call) : Nat :=
  call.monoMs?.getD nowMs

namespace Hub

variable [Codec] {hub other : Hub} {nowMs : Nat}

/-- One call, on relays that the clock makes alike. -/
theorem Alike.apply (order : HashOrder) (slow : hub.limits.Slow) {call : Call}
    (later : nowMs ≤ call.clock nowMs) (within : call.clock nowMs ≤ lastMs)
    (related : hub.Alike (hub.limits.Budgets nowMs) other) :
    Lockstep (hub.limits.Budgets (call.clock nowMs)) (hub.apply order call)
      (other.apply order call) := by
  have spends {bucket bucket' : Bucket} (bytes : Nat)
      (budgets : hub.limits.Budgets nowMs bucket bucket') :
      hub.limits.Budgets nowMs (bucket.spend bytes) (bucket'.spend bytes) :=
    budgets.spend slow.slow slow.sized (later.trans within) bytes
  cases call with
  | connect account hello wallMs monoMs revoker =>
      refine (related.connect order slow later within account hello wallMs
        revoker).bind ?_
      intro hub other answer related
      cases answer with
      | error frame => exact .returns related _
      | ok admission => exact .returns related _
  | receive conn frame =>
      refine (related.receive order spends conn frame).bind ?_
      intro hub other actions related
      exact .returns related _
  | close conn frame =>
      refine (related.close order conn frame).bind ?_
      intro hub other actions related
      exact .returns related _
  | deliver conn frame =>
      refine (related.deliver order conn frame).bind ?_
      intro hub other actions related
      exact .returns related _
  | charge conn bytes now =>
      refine (related.charge order slow later within conn bytes).bind ?_
      intro hub other answer related
      exact .returns related _
  | takeOutbound conn budget =>
      refine (related.takeOutbound conn budget).bind ?_
      intro hub other taken related
      exact .returns related _

end Hub

/-! ## Runs -/

/-- What a sequence of calls returns. -/
def Hub.replies [Codec] (hub : Hub) (calls : List (HashOrder × Call)) :
    Checked (List Reply) := do
  let steps ← hub.run calls
  return steps.map (·.reply)

/-- The clock is read for these calls, one after another from a time on, and never
goes back. -/
def Steady (nowMs : Nat) : List (HashOrder × Call) → Prop
  | [] => True
  | (_, call) :: rest =>
      nowMs ≤ call.clock nowMs ∧ call.clock nowMs ≤ lastMs ∧
        Steady (call.clock nowMs) rest

namespace Hub

variable [Codec] {hub other : Hub} {nowMs : Nat}

theorem replies_cons (hub : Hub) (order : HashOrder) (call : Call)
    (rest : List (HashOrder × Call)) :
    hub.replies ((order, call) :: rest) =
      hub.apply order call >>= fun answer =>
        answer.1.replies rest >>= fun replies => .ok (answer.2 :: replies) := by
  simp only [replies, run]
  cases hub.apply order call with
  | error panic => rfl
  | ok answer =>
      simp only [ok_bind]
      cases answer.1.run rest with
      | error panic => rfl
      | ok steps => rfl

/-- Relays that the clock makes alike answer every later call alike. -/
theorem Alike.replies_eq {calls : List (HashOrder × Call)} (ok : hub.Ok)
    (slow : hub.limits.Slow) (steady : Steady nowMs calls)
    (related : hub.Alike (hub.limits.Budgets nowMs) other) :
    other.replies calls = hub.replies calls := by
  induction calls generalizing hub other nowMs with
  | nil => rfl
  | cons entry rest ih =>
      obtain ⟨order, call⟩ := entry
      obtain ⟨later, within, steady⟩ := steady
      have lockstep := related.apply order slow later within
      obtain ⟨reply, next, ran, nextOk, effect⟩ := apply_spec order ok call
      have limitsEq := effect.limits_eq
      rw [replies_cons, replies_cons, ran]
      rw [ran] at lockstep
      generalize other.apply order call = answer at lockstep
      cases lockstep with
      | returns related reply =>
          simp only [ok_bind]
          rw [ih nextOk (limitsEq ▸ slow) steady (limitsEq.symm ▸ related)]

/-- The budgets of a relay have been started and are in range. -/
def BudgetsSound (hub : Hub) : Prop :=
  ∀ account bucket, hub.rate? account = some bucket →
    bucket.InRange hub.limits.accountBurstBytes ∧ bucket.creditedMs ≠ none

end Hub

theorem Budgeted.sound {limits : Limits} {before : Option Bucket} {call : Call}
    {admits : Bool} {bucket : Bucket}
    (earlier : ∀ bucket, before = some bucket →
      bucket.InRange limits.accountBurstBytes ∧ bucket.creditedMs ≠ none)
    (budgeted : Budgeted limits before call admits bucket) :
    bucket.InRange limits.accountBurstBytes ∧ bucket.creditedMs ≠ none := by
  have refilled {bucket : Bucket} (nowMs : Nat)
      (inRange : bucket.InRange limits.accountBurstBytes) :
      (bucket.refill nowMs limits.accountBytesPerSecond
          limits.accountBurstBytes).InRange limits.accountBurstBytes ∧
        (bucket.refill nowMs limits.accountBytesPerSecond
          limits.accountBurstBytes).creditedMs ≠ none := by
    refine ⟨inRange.refill nowMs, ?_⟩
    rw [Bucket.refill]
    split
    · simp
    next credited started =>
      split
      · simp [started]
      · simp
  cases budgeted with
  | kept found => exact earlier bucket found
  | spent bytes found =>
      obtain ⟨inRange, started⟩ := earlier _ found
      exact ⟨inRange.spend bytes, started⟩
  | refilled found => exact refilled _ (earlier _ found).1
  | charged bytes found =>
      obtain ⟨inRange, started⟩ := refilled _ (earlier _ found).1
      exact ⟨inRange.spend bytes, started⟩
  | admitted =>
      have inRange : (before.getD {}).InRange limits.accountBurstBytes := by
        cases found : before with
        | none => exact Bucket.inRange_empty _
        | some bucket => exact (earlier bucket found).1
      obtain ⟨filled, started⟩ := refilled _ inRange
      exact ⟨filled.spend connectCostBytes, started⟩

namespace Hub

variable [Codec] {hub : Hub}

theorem budgetsSound_of_run {start : Hub} {steps : List Step} (ok : start.Ok)
    (fresh : start.accounts = ∅) (run : Run start steps hub) : hub.BudgetsSound := by
  induction run with
  | start =>
      intro account bucket found
      simp [rate?, fresh] at found
  | @call steps hub next order call reply earlier ran ih =>
      obtain ⟨hubOk, -⟩ := earlier.forall_steps ok
      obtain ⟨_, _, ranAgain, _, effect⟩ := apply_spec order hubOk call
      rw [ran] at ranAgain
      cases ranAgain
      intro account bucket found
      rw [effect.limits_eq]
      exact (apply_budgeted ran found).sound (ih account)

/-- A refused hello leaves a relay that the clock makes alike. -/
theorem alike_of_refused (order : HashOrder) (slow : hub.limits.Slow)
    (sound : hub.BudgetsSound) {account : AccountId} {hello : Hello}
    {wallMs monoMs : Nat} {revoker : Revoker} {after : Hub} {frame : Frame}
    (within : monoMs ≤ lastMs)
    (refused : hub.connect order account hello wallMs monoMs revoker =
      .ok (after, .error frame)) :
    hub.Alike (hub.limits.Budgets monoMs) after := by
  have unchanged : hub.Alike (hub.limits.Budgets monoMs) hub := by
    refine ⟨rfl, rfl, rfl, rfl, rfl, fun probe => ?_⟩
    cases hub.accounts.lookup probe with
    | none => exact .none
    | some acct => exact .some ⟨acct.rate, rfl, .same acct.rate⟩
  have admits {hub' : Hub} (checked : hub'.connectChecked order account hello
      wallMs monoMs revoker = .ok (after, .error frame)) : False := by
    simp only [connectChecked, bind_eq_ok] at checked
    obtain ⟨_, _, done⟩ := checked
    cases done
  cases admissible : hub.refuseHello account hello with
  | some answer =>
      simp only [connect, admissible] at refused
      cases refused
      exact unchanged
  | none =>
      cases found : hub.accounts.lookup account with
      | none =>
          simp only [connect, admissible, found] at refused
          exact (admits refused).elim
      | some acct =>
          rw [connect_known order wallMs monoMs revoker admissible found] at refused
          split at refused
          next long =>
            cases refused
            obtain ⟨inRange, started⟩ := sound account acct.rate (rate?_of_lookup found)
            obtain ⟨credited, started⟩ := Option.ne_none_iff_exists'.mp started
            refine ⟨rfl, rfl, rfl, rfl, rfl, fun probe => ?_⟩
            simp only [setAccount, HashMap.lookup_insert_eq]
            split
            next same =>
              subst same
              rw [found]
              refine .some ⟨_, rfl, ?_⟩
              exact Bucket.alike_refill slow.slow slow.sized inRange started within
                (lt_of_le_of_lt (Nat.zero_le _) long)
            next differs => exact unchanged.accounts probe
          · exact (admits refused).elim

end Hub

/-- A refused hello leaves nothing behind. -/
theorem refused_hello_unseen [Codec] {limits : Limits} {seed : UInt64}
    {shard : UInt16} {start hub : Hub} {steps : List Step}
    (accepted : Hub.withIdSpace limits seed shard = .ok start)
    (reached : Run start steps hub) (slow : limits.accountBytesPerSecond ≤ 2 ^ 62)
    (sized : limits.accountBurstBytes < 2 ^ 64) {order : HashOrder}
    {account : AccountId} {hello : Hello} {nowMs monoMs : Nat} {revoker : Revoker}
    {after : Hub} {frame : Frame} (within : monoMs < 2 ^ 64)
    (refused : hub.connect order account hello nowMs monoMs revoker =
      .ok (after, .error frame))
    {calls : List (HashOrder × Call)} (steady : Steady monoMs calls) :
    after.replies calls = hub.replies calls := by
  obtain ⟨startOk, limitsEq, fresh, -⟩ := ok_withIdSpace accepted
  have positive : 0 < limits.accountBytesPerSecond := by
    unfold Hub.withIdSpace at accepted
    split at accepted
    · cases accepted
    split at accepted
    · cases accepted
    next earns => exact Nat.pos_of_ne_zero (not_or.mp earns).1
  obtain ⟨ok, -⟩ := reached.forall_steps startOk
  have same : hub.limits = limits := (reached.limits_eq startOk).trans limitsEq
  have within' : hub.limits.Slow := same ▸ ⟨positive, slow, sized⟩
  have related := Hub.alike_of_refused order within'
    (Hub.budgetsSound_of_run startOk fresh reached) (Nat.le_pred_of_lt within) refused
  exact related.replies_eq ok within' steady

/-- A device that owes three seconds of work is the reason another is refused; the
relay answers all that follows as if the other had never asked. -/
theorem refused_hello_unseen_ping :
    ∃ start hub steps after frame, Hub.withIdSpace {} 7 0 = .ok start ∧
      Run start steps hub ∧
      hub.connect .stored [9] { protocol := 1, principal := [2], role := 2 } 0 6
        .unknown = .ok (after, .error frame) ∧
      after.replies [(.stored, .receive 1 (.of (.ping 5))), (.stored, .charge 1 9 2000)] =
        hub.replies [(.stored, .receive 1 (.of (.ping 5))),
          (.stored, .charge 1 9 2000)] := by
  have accepted : Hub.withIdSpace {} 7 0 = .ok ⟨{}, ∅, ∅, 1, 7, 0⟩ := rfl
  obtain ⟨steps, hub, ran, reached⟩ := exists_run (ok_withIdSpace accepted).1 [
    (.stored, .connect [9] { protocol := 1, principal := [1], role := 2 } 0 5 .unknown),
    (.stored, .charge 1 25165824 5)]
  have facts : (Hub.run ⟨{}, ∅, ∅, 1, 7, 0⟩ [
      (.stored, .connect [9] { protocol := 1, principal := [1], role := 2 }
        0 5 .unknown),
      (.stored, .charge 1 25165824 5)]).toOption.any (fun steps =>
        ((finalHub ⟨{}, ∅, ∅, 1, 7, 0⟩ steps).connect .stored [9]
          { protocol := 1, principal := [2], role := 2 } 0 6 .unknown).toOption.any
            fun answer => answer.2.toOption.isNone) = true := by
    decide +kernel
  rw [ran] at facts
  simp only [Except.toOption, Option.any_some, reached.finalHub_eq] at facts
  cases answered : hub.connect .stored [9] { protocol := 1, principal := [2], role := 2 }
      0 6 .unknown with
  | error panic => simp [answered] at facts
  | ok answer =>
      obtain ⟨after, verdict⟩ := answer
      cases verdict with
      | ok admission => simp [answered] at facts
      | error frame =>
          have steady : Steady 6 [(.stored, .receive 1 (.of (.ping 5))),
              (.stored, .charge 1 9 2000)] :=
            ⟨by decide, by decide, by decide, by decide, trivial⟩
          exact ⟨_, hub, steps, after, frame, accepted, reached, answered,
            refused_hello_unseen accepted reached (by decide) (by decide) (by decide)
              answered steady⟩

/-! ## A debt that wears out the balance -/

/-- An account that earns more than any debt can grow out of sight of. -/
def fastLimits : Limits :=
  { accountBytesPerSecond := 2 ^ 63, accountBurstBytes := 1 }

/-- A device connects and is charged for the largest message there is, which its
account takes two seconds to earn. -/
def owingCalls : List (HashOrder × Call) := [
  (.stored, .connect [9] { protocol := 1, principal := [1], role := 2 } 0 0 .unknown),
  (.stored, .charge 1 (2 ^ 64 - 1) 0)]

namespace Bucket

/-- What is left after spending as much again and again. -/
theorem spend_iterate {burst : Nat} {bucket : Bucket} (inRange : bucket.InRange burst)
    (sized : burst < 2 ^ 64) (bytes often : Nat) :
    (fun bucket => spend bucket bytes)^[often] bucket =
      { bucket with balance := max floor (bucket.balance - often * (bytes * 1000)) } := by
  induction often generalizing bucket with
  | zero => simp [max_eq_right inRange.low]
  | succ often ih =>
      rw [Function.iterate_succ_apply, ih (inRange.spend bytes)]
      have spent := spend_balance inRange sized bytes
      have cost : 0 ≤ (often : Int) * (bytes * 1000) := by positivity
      have total : ((often + 1 : Nat) : Int) * (bytes * 1000) =
          often * (bytes * 1000) + bytes * 1000 := by
        push_cast
        ring
      have balance : max floor ((bucket.spend bytes).balance - often * (bytes * 1000)) =
          max floor (bucket.balance - ((often + 1 : Nat) : Int) * (bytes * 1000)) := by
        rw [spent, total]
        omega
      rw [balance]
      rfl

end Bucket

namespace Hub

variable [Codec] {hub : Hub} {account : AccountId} {acct : Account} {conn : ConnId}
  {c : Conn} {nowMs : Nat}

/-- A charge at a time that the connection has been told about already. -/
theorem charge_again (order : HashOrder)
    (known : hub.connAccount.lookup conn = some account)
    (found : hub.accounts.lookup account = some acct)
    (connFound : acct.conns.lookup conn = some c)
    (told : c.throttleNoticeMs = some nowMs)
    (started : acct.rate.creditedMs = some nowMs) (bytes : Nat) :
    hub.charge order conn bytes nowMs =
      .ok (hub.setAccount account { acct with rate := acct.rate.spend bytes },
        (acct.rate.spend bytes).waitMs hub.limits.accountBytesPerSecond, []) := by
  have nobody (hub : Hub) : hub.finish order {} = .ok (hub, []) := by
    rw [finish, finishLoop_nobody order hub rfl (Nat.succ_pos _)]
    rfl
  have untold (rate : Bucket) (wait : Nat) :
      notify hub.limits { acct with rate } conn wait nowMs = ({ acct with rate }, {}) := by
    simp [notify, connFound, told, throttleNoticeMs]
  simp only [charge, known, found, Bucket.refill_late started le_rfl]
  rw [untold]
  simp only [nobody, ok_bind]
  rfl

omit [Codec] in
theorem setAccount_setAccount (hub : Hub) (account : AccountId)
    (acct acct' : Account) :
    (hub.setAccount account acct).setAccount account acct' =
      hub.setAccount account acct' := by
  simp [setAccount, AList.insert_insert]

/-- Charges for one message after another, all at one time. -/
theorem exists_charges (order : HashOrder)
    (known : hub.connAccount.lookup conn = some account)
    (found : hub.accounts.lookup account = some acct)
    (connFound : acct.conns.lookup conn = some c)
    (told : c.throttleNoticeMs = some nowMs)
    (started : acct.rate.creditedMs = some nowMs) (bytes often : Nat) :
    ∃ steps, Run hub steps (hub.setAccount account { acct with
      rate := (fun bucket => Bucket.spend bucket bytes)^[often + 1] acct.rate }) := by
  have first {hub : Hub} {acct : Account}
      (known : hub.connAccount.lookup conn = some account)
      (found : hub.accounts.lookup account = some acct)
      (connFound : acct.conns.lookup conn = some c)
      (started : acct.rate.creditedMs = some nowMs) :
      hub.apply order (.charge conn bytes nowMs) =
        .ok (hub.setAccount account { acct with rate := acct.rate.spend bytes },
          .charged ((acct.rate.spend bytes).waitMs
            hub.limits.accountBytesPerSecond) []) := by
    simp only [apply, charge_again order known found connFound told started, ok_bind]
    rfl
  induction often generalizing hub acct with
  | zero =>
      exact ⟨_, .call .start (first known found connFound started)⟩
  | succ often ih =>
      obtain ⟨steps, rest⟩ := ih
        (show (hub.setAccount account _).connAccount.lookup conn = some account from known)
        (show (hub.setAccount account { acct with
          rate := acct.rate.spend bytes }).accounts.lookup account = some _ from
            AList.lookup_insert _) connFound started
      rw [setAccount_setAccount] at rest
      exact ⟨_, rest.cons (first known found connFound started)⟩

theorem exists_sunk {burst often : Nat} (order : HashOrder)
    (known : hub.connAccount.lookup conn = some account)
    (found : hub.accounts.lookup account = some acct)
    (connFound : acct.conns.lookup conn = some c)
    (told : c.throttleNoticeMs = some nowMs)
    (started : acct.rate.creditedMs = some nowMs)
    (inRange : acct.rate.InRange burst) (sized : burst < 2 ^ 64) {bytes : Nat}
    (enough : acct.rate.balance - ((often + 1 : Nat) : Int) * (bytes * 1000) ≤
      Bucket.floor) :
    ∃ steps, Run hub steps
      (hub.setAccount account { acct with rate := ⟨Bucket.floor, some nowMs⟩ }) := by
  obtain ⟨steps, run⟩ :=
    exists_charges order known found connFound told started bytes often
  rw [Bucket.spend_iterate inRange sized, max_eq_left enough, started] at run
  exact ⟨steps, run⟩

end Hub

/-- The relay with a device that owes more than can be counted, and what the device
then does. -/
def owingHub : Hub :=
  ((Hub.run ⟨fastLimits, ∅, ∅, 1, 7, 0⟩ owingCalls).toOption.map
    (finalHub ⟨fastLimits, ∅, ∅, 1, 7, 0⟩)).getD ⟨fastLimits, ∅, ∅, 1, 7, 0⟩

def owingAccount : Account :=
  (owingHub.accounts.lookup [9]).getD {}

/-- Where a debt that nobody can count stays. -/
def sunkHub : Hub :=
  owingHub.setAccount [9] { owingAccount with rate := ⟨Bucket.floor, some 0⟩ }

/-- A ping, which costs a little, and one more look at the debt as late as the clock
goes. -/
def lateCalls : List (HashOrder × Call) := [
  (.stored, .receive 1 (.of (.ping 5))),
  (.stored, .charge 1 0 (2 ^ 64 - 1))]

/-- Once an account owes as much as 128 bits hold, what a refused hello credits it
early is more than nothing: the device is told to wait longer than without. -/
theorem refused_hello_seen :
    ∃ start hub steps after frame, Hub.withIdSpace fastLimits 7 0 = .ok start ∧
      Run start steps hub ∧
      hub.connect .stored [9] { protocol := 1, principal := [2], role := 2 } 0 1
        .unknown = .ok (after, .error frame) ∧
      Steady 1 lateCalls ∧ after.replies lateCalls ≠ hub.replies lateCalls := by
  have accepted : Hub.withIdSpace fastLimits 7 0 =
      .ok ⟨fastLimits, ∅, ∅, 1, 7, 0⟩ := rfl
  obtain ⟨steps, hub, ran, reached⟩ :=
    exists_run (ok_withIdSpace accepted).1 owingCalls
  have isOwing : owingHub = hub := by
    rw [owingHub, ran]
    exact reached.finalHub_eq
  have known : owingHub.connAccount.lookup 1 = some [9] := by decide +kernel
  have present : (owingHub.accounts.lookup [9]).isSome = true := by decide +kernel
  have found : owingHub.accounts.lookup [9] = some owingAccount := by
    obtain ⟨acct, found⟩ := Option.isSome_iff_exists.mp present
    rw [owingAccount, found]
    rfl
  have connected : (owingAccount.conns.lookup 1).any
      (fun c => decide (c.throttleNoticeMs = some 0)) = true := by decide +kernel
  have rate : owingAccount.rate = ⟨-((768 + (2 ^ 64 - 1)) * 1000), some 0⟩ := by
    decide +kernel
  obtain ⟨c, connFound, told⟩ := (Option.any_eq_true _ _).mp connected
  have started : owingAccount.rate.creditedMs = some 0 := by rw [rate]
  have inRange : owingAccount.rate.InRange 1 := by
    rw [rate]
    exact ⟨by decide, by decide⟩
  have enough : owingAccount.rate.balance -
      ((2 ^ 54 + 1 : Nat) : Int) * ((2 ^ 64 - 1 : Nat) * 1000) ≤ Bucket.floor := by
    rw [rate]
    decide
  obtain ⟨more, sunk⟩ := Hub.exists_sunk .stored known found connFound
    (of_decide_eq_true told) started inRange (by decide) enough
  have facts : (sunkHub.connect .stored [9]
      { protocol := 1, principal := [2], role := 2 } 0 1 .unknown).toOption.any
        (fun answer => answer.2.toOption.isNone && decide
          ((answer.1.replies lateCalls).toOption ≠
            (sunkHub.replies lateCalls).toOption)) = true := by
    decide +kernel
  cases answered : sunkHub.connect .stored [9]
      { protocol := 1, principal := [2], role := 2 } 0 1 .unknown with
  | error panic => simp [answered, Except.toOption] at facts
  | ok answer =>
      obtain ⟨after, verdict⟩ := answer
      rw [answered] at facts
      simp only [Except.toOption, Option.any_some, Bool.and_eq_true] at facts
      cases verdict with
      | ok admission => simp at facts
      | error frame =>
          refine ⟨_, sunkHub, steps ++ more, after, frame, accepted,
            reached.append (isOwing ▸ sunk), answered,
            ⟨by decide, by decide, by decide, by decide, trivial⟩, fun same => ?_⟩
          exact of_decide_eq_true facts.2 (by rw [same])

end WindowMlHub
