import WindowMlHub.CreditIntervals
import WindowMlHub.HashTables
import WindowMlHub.IpAddresses
import WindowMlHub.StrangerPacing

/-!
# How often one address may open a connection

`arrivals.rs`: an allowance of tokens for each address, in thousandths, that accrues
with the milliseconds since the address was last looked at and is looked at by every
attempt, admitted or refused.  The rate for a millisecond is taken to be the exact
fraction, and what it earns is cut to whole thousandths as the code's conversion cuts
it.  An `Instant` is a number of nanoseconds.
-/

namespace WindowMlHub

open HashTables CreditIntervals IpAddresses

/-- Addresses tracked at once. -/
def maxTracked : Nat := 8192

/-- How often an address may open a connection, and how many it may open at once. -/
structure Arrivals where
  perMinute : Nat
  burst : Nat
  deriving DecidableEq, Repr

namespace Arrivals

/-- The tokens of a full allowance, in thousandths. -/
def burstMilli (limits : Arrivals) : Nat :=
  max limits.burst 1 * 1000

/-- What accrues in so many nanoseconds. -/
def accrued (limits : Arrivals) (elapsed : Nat) : Nat :=
  min (elapsed / 1000000) (2 ^ 32 - 1) * limits.perMinute * 1000 / 60000

end Arrivals

/-- The tokens an address has left, in thousandths, and when it was last looked at. -/
structure Allowance where
  milli : Nat
  readAt : Nat
  deriving DecidableEq, Repr

/-- The allowance each address has left. -/
structure Gate where
  limits : Arrivals
  seen : HashMap IpAddr Allowance

namespace Gate

/-- `Gate::new`. -/
def new (limits : Arrivals) : Gate where
  limits := limits
  seen := ∅

/-- `forget_idle`. -/
def forgetIdle (gate : Gate) (now : Nat) : Gate :=
  if gate.seen.len ≤ maxTracked then
    gate
  else
    let busy := gate.seen.retain fun _ allowance =>
      decide (allowance.milli + gate.limits.accrued (now - allowance.readAt) <
        gate.limits.burstMilli)
    if busy.len > maxTracked then
      let times := (busy.entries.map fun entry => entry.2.readAt).mergeSort
      let cutoff := times.getD (times.length / 2) 0
      { gate with seen := busy.retain fun _ allowance => decide (allowance.readAt > cutoff) }
    else
      { gate with seen := busy }

/-- The allowance of an address, brought up to date. -/
def allowanceAt (gate : Gate) (address : IpAddr) (now : Nat) : Allowance :=
  let entry := (gate.seen.lookup address).getD ⟨gate.limits.burstMilli, now⟩
  ⟨min (entry.milli + gate.limits.accrued (now - entry.readAt)) gate.limits.burstMilli, now⟩

/-- `Gate::admit`: whether the address may open a connection now, and what the call
leaves. -/
def admitArrival (gate : Gate) (address : IpAddr) (now : Nat) : Bool × Gate :=
  if gate.limits.perMinute = 0 then
    (true, gate)
  else
    let entry := gate.allowanceAt address now
    if entry.milli < 1000 then
      (false, { gate with seen := gate.seen.insert address entry })
    else
      let taken := { entry with milli := entry.milli - 1000 }
      (true, { gate with seen := gate.seen.insert address taken }.forgetIdle now)

/-- What is left after these attempts. -/
def afterAttempts (gate : Gate) : List (IpAddr × Nat) → Gate
  | [] => gate
  | (address, now) :: later => afterAttempts (gate.admitArrival address now).2 later

/-- In these attempts the address is refused whenever it tries, and never forgotten. -/
def Refuses (gate : Gate) (address : IpAddr) : List (IpAddr × Nat) → Prop
  | [] => True
  | (other, now) :: later =>
      (other = address → (gate.admitArrival other now).1 = false) ∧
        address ∈ (gate.admitArrival other now).2.seen ∧
          Refuses (gate.admitArrival other now).2 address later

instance decidableRefuses : (gate : Gate) → (address : IpAddr) →
    (attempts : List (IpAddr × Nat)) → Decidable (gate.Refuses address attempts)
  | _, _, [] => inferInstanceAs (Decidable True)
  | gate, address, (other, now) :: later =>
      have := decidableRefuses (gate.admitArrival other now).2 address later
      have := decidable_of_iff (((gate.admitArrival other now).2.seen.lookup address).isSome)
        (AList.lookup_isSome (s := (gate.admitArrival other now).2.seen) (a := address))
      inferInstanceAs (Decidable (_ ∧ _ ∧ _))

end Gate

/-- When the address tried. -/
def triesOf (address : IpAddr) (attempts : List (IpAddr × Nat)) : List Nat :=
  (attempts.filter fun attempt => attempt.1 = address).map Prod.snd

/-- The rate as an income for each nanosecond, of which whole thousandths of a token are
credited. -/
def Arrivals.income (limits : Arrivals) : Income where
  rate := limits.perMinute
  scale := 60000000
  scale_pos := by decide
  credit := limits.accrued
  credit_le gap := by
    have whole : min (gap / 1000000) (2 ^ 32 - 1) * 1000000 ≤ gap :=
      (Nat.mul_le_mul_right _ (min_le_left _ _)).trans (Nat.div_mul_le_self gap 1000000)
    have part := Nat.div_mul_le_self
      (min (gap / 1000000) (2 ^ 32 - 1) * limits.perMinute * 1000) 60000
    have scaled := Nat.mul_le_mul_right limits.perMinute whole
    calc 60000000 * limits.accrued gap
        = 1000 * (limits.accrued gap * 60000) := by ring
      _ ≤ 1000 * (min (gap / 1000000) (2 ^ 32 - 1) * limits.perMinute * 1000) :=
          Nat.mul_le_mul_left _ part
      _ = min (gap / 1000000) (2 ^ 32 - 1) * 1000000 * limits.perMinute := by ring
      _ ≤ limits.perMinute * gap := by rwa [Nat.mul_comm limits.perMinute]

namespace Gate

variable {gate : Gate} {address : IpAddr} {now : Nat} {allowance : Allowance}

@[simp]
theorem forgetIdle_limits : (gate.forgetIdle now).limits = gate.limits := by
  unfold forgetIdle
  dsimp only
  split
  · rfl
  · split <;> rfl

theorem lookup_of_forgetIdle
    (found : (gate.forgetIdle now).seen.lookup address = some allowance) :
    gate.seen.lookup address = some allowance := by
  unfold forgetIdle at found
  dsimp only at found
  split at found
  · exact found
  · split at found
    · rw [HashMap.lookup_retain, Option.filter_eq_some_iff, HashMap.lookup_retain,
        Option.filter_eq_some_iff] at found
      exact found.1.1
    · rw [HashMap.lookup_retain, Option.filter_eq_some_iff] at found
      exact found.1

@[simp]
theorem admitArrival_limits : (gate.admitArrival address now).2.limits = gate.limits := by
  unfold admitArrival
  dsimp only
  split
  · rfl
  · split
    · rfl
    · rw [forgetIdle_limits]

@[simp]
theorem afterAttempts_limits (attempts : List (IpAddr × Nat)) :
    (gate.afterAttempts attempts).limits = gate.limits := by
  induction attempts generalizing gate with
  | nil => rfl
  | cons attempt later ih => rw [afterAttempts, ih, admitArrival_limits]

theorem admitted_iff (paced : 1 ≤ gate.limits.perMinute) :
    (gate.admitArrival address now).1 = true ↔
      1000 ≤ (gate.allowanceAt address now).milli := by
  unfold admitArrival
  rw [if_neg (Nat.pos_iff_ne_zero.mp paced)]
  dsimp only
  split
  · simp_all
  · simp_all

theorem lookup_of_other {other : IpAddr} (differs : other ≠ address)
    (tracked : address ∈ (gate.admitArrival other now).2.seen) :
    (gate.admitArrival other now).2.seen.lookup address = gate.seen.lookup address := by
  obtain ⟨kept, found⟩ := HashMap.exists_lookup_of_mem tracked
  rw [found]
  unfold admitArrival at found
  dsimp only at found
  split at found
  · exact found.symm
  · split at found
    · rw [HashMap.lookup_insert_eq, if_neg differs.symm] at found
      exact found.symm
    · have before := lookup_of_forgetIdle found
      rw [HashMap.lookup_insert_eq, if_neg differs.symm] at before
      exact before.symm

theorem lookup_of_refused (paced : 1 ≤ gate.limits.perMinute)
    (refused : (gate.admitArrival address now).1 = false) :
    (gate.admitArrival address now).2.seen.lookup address =
        some (gate.allowanceAt address now) ∧
      (gate.allowanceAt address now).milli < 1000 := by
  have spent : (gate.allowanceAt address now).milli < 1000 := by
    by_contra enough
    have admitted := (admitted_iff paced).mpr (not_lt.mp enough)
    rw [refused] at admitted
    cases admitted
  refine ⟨?_, spent⟩
  unfold admitArrival
  rw [if_neg (Nat.pos_iff_ne_zero.mp paced)]
  dsimp only
  rw [if_pos spent, HashMap.lookup_insert_eq, if_pos rfl]

theorem burstMilli_ge (limits : Arrivals) : 1000 ≤ limits.burstMilli := by
  unfold Arrivals.burstMilli
  omega

theorem allowanceAt_milli (found : gate.seen.lookup address = some allowance) :
    (gate.allowanceAt address now).milli =
      min (allowance.milli + gate.limits.accrued (now - allowance.readAt))
        gate.limits.burstMilli := by
  rw [allowanceAt, found, Option.getD_some]

theorem allowanceAt_readAt : (gate.allowanceAt address now).readAt = now :=
  rfl

/-- After attempts that were all refused the address has a token if and only if what it
had left and what the intervals between them earned come to one. -/
theorem token_iff (paced : 1 ≤ gate.limits.perMinute)
    (found : gate.seen.lookup address = some allowance) (final : Nat)
    (attempts : List (IpAddr × Nat)) (refused : gate.Refuses address attempts) :
    1000 ≤ ((gate.afterAttempts attempts).allowanceAt address final).milli ↔
      1000 ≤ allowance.milli +
        gate.limits.income.earned allowance.readAt (triesOf address attempts) final := by
  induction attempts generalizing gate allowance with
  | nil =>
      have full := burstMilli_ge gate.limits
      rw [afterAttempts, allowanceAt_milli found]
      change _ ↔ 1000 ≤ allowance.milli +
        gate.limits.income.earned allowance.readAt [] final
      rw [Income.earned_nil]
      change _ ↔ 1000 ≤ allowance.milli + gate.limits.accrued (final - allowance.readAt)
      omega
  | cons attempt later ih =>
      obtain ⟨other, now⟩ := attempt
      obtain ⟨refusedNow, tracked, refusedLater⟩ := refused
      have paced' : 1 ≤ (gate.admitArrival other now).2.limits.perMinute := by
        rwa [admitArrival_limits]
      by_cases same : other = address
      · subst same
        obtain ⟨kept, spent⟩ := lookup_of_refused paced (refusedNow rfl)
        have rest := ih paced' kept refusedLater
        rw [afterAttempts, rest, admitArrival_limits, allowanceAt_readAt]
        have tries : triesOf other ((other, now) :: later) = now :: triesOf other later := by
          simp [triesOf]
        rw [tries, Income.earned_cons]
        change _ ↔ 1000 ≤ allowance.milli +
          (gate.limits.accrued (now - allowance.readAt) + _)
        have full := burstMilli_ge gate.limits
        rw [allowanceAt_milli found] at spent ⊢
        omega
      · have kept := (lookup_of_other same tracked).trans found
        have tries : triesOf address ((other, now) :: later) = triesOf address later := by
          simp [triesOf, same]
        rw [afterAttempts, ih paced' kept refusedLater, admitArrival_limits, tries]

end Gate

/-- An address whose admission left it less than a token, and which is refused at every
attempt since: once a token's time has passed it is admitted if and only if its refused
attempts lost no more credit to rounding than there is beyond the token. -/
theorem arrival_admitted_iff (gate : Gate) (address : IpAddr) (start final milli : Nat)
    (attempts : List (IpAddr × Nat)) (paced : 1 ≤ gate.limits.perMinute)
    (left : (gate.admitArrival address start).2.seen.lookup address = some ⟨milli, start⟩)
    (spent : milli < 1000)
    (refused : (gate.admitArrival address start).2.Refuses address attempts)
    (ordered : Ordered start (triesOf address attempts) final)
    (due : start + 1000000 * divCeil 60000 gate.limits.perMinute ≤ final) :
    (((gate.admitArrival address start).2.afterAttempts attempts).admitArrival
        address final).1 = true ↔
      gate.limits.income.lost start (triesOf address attempts) final ≤
        gate.limits.perMinute * (final - start) - 60000000 * (1000 - milli) := by
  have enough := le_divCeil_mul 60000 (Nat.pos_iff_ne_zero.mp paced)
  have covers : 60000000 * (1000 - milli) ≤ gate.limits.perMinute * (final - start) := by
    calc 60000000 * (1000 - milli)
        ≤ 1000000 * 60000 := by omega
      _ ≤ 1000000 * (divCeil 60000 gate.limits.perMinute * gate.limits.perMinute) :=
          Nat.mul_le_mul_left _ enough
      _ = gate.limits.perMinute * (1000000 * divCeil 60000 gate.limits.perMinute) := by ring
      _ ≤ gate.limits.perMinute * (final - start) := Nat.mul_le_mul_left _ (by omega)
  have paced' : 1 ≤ (gate.admitArrival address start).2.limits.perMinute := by
    rwa [Gate.admitArrival_limits]
  rw [Gate.admitted_iff (by rwa [Gate.afterAttempts_limits]),
    Gate.token_iff paced' left final attempts refused, Gate.admitArrival_limits]
  refine Iff.trans ?_ (gate.limits.income.le_earned_iff ordered covers)
  dsimp only
  omega

/-- Seven a minute make a token in 8,572 milliseconds; an attempt after the first of them
costs the address its admission after the last. -/
theorem arrival_starved :
    ∃ (gate : Gate) (address : IpAddr) (start final milli : Nat)
      (attempts : List (IpAddr × Nat)),
      1 ≤ gate.limits.perMinute ∧ (gate.admitArrival address start).1 = true ∧
        (gate.admitArrival address start).2.seen.lookup address = some ⟨milli, start⟩ ∧
        milli < 1000 ∧ (gate.admitArrival address start).2.Refuses address attempts ∧
        Ordered start (triesOf address attempts) final ∧
        start + 1000000 * divCeil 60000 gate.limits.perMinute ≤ final ∧
        (((gate.admitArrival address start).2.afterAttempts attempts).admitArrival
          address final).1 = false :=
  ⟨.new ⟨7, 1⟩, .v4 10 0 0 1, 0, 8572000000, 0, [(.v4 10 0 0 1, 1000000)],
    by decide +kernel⟩

/-- Sixty a minute lose nothing at whole milliseconds. -/
theorem arrival_admitted_retrying :
    (((Gate.new ⟨60, 1⟩).admitArrival (.v4 10 0 0 1) 0).2.afterAttempts
      [(.v4 10 0 0 1, 1000000), (.v4 10 0 0 2, 1500000)]
      |>.admitArrival (.v4 10 0 0 1) 1000000000).1 = true := by
  have admitted := arrival_admitted_iff (.new ⟨60, 1⟩) (.v4 10 0 0 1) 0 1000000000 0
    [(.v4 10 0 0 1, 1000000), (.v4 10 0 0 2, 1500000)] (by decide) (by decide +kernel)
    (by decide) (by decide +kernel) (by decide +kernel) (by decide +kernel)
  exact admitted.mpr (by decide +kernel)

/-! ## How many addresses are tracked -/

/-- No more than half of a list, rounded down, is past its median. -/
theorem countP_past_median (times : List Nat) :
    times.countP (fun time => decide (times.mergeSort.getD (times.length / 2) 0 < time)) ≤
      times.length / 2 := by
  cases times with
  | nil => simp
  | cons first rest =>
      generalize whole : first :: rest = times
      have nonempty : 0 < times.length := by simp [← whole]
      have length : times.mergeSort.length = times.length := List.length_mergeSort times
      have middle : times.length / 2 < times.mergeSort.length := by omega
      rw [← List.getElem_eq_getD (h := middle)]
      have sorted : times.mergeSort.Pairwise (· ≤ ·) := List.pairwise_mergeSort' (· ≤ ·) times
      have front : (times.mergeSort.take (times.length / 2 + 1)).countP
          (fun time => decide (times.mergeSort[times.length / 2] < time)) = 0 := by
        rw [List.countP_eq_zero]
        intro time member
        obtain ⟨index, bound, rfl⟩ := List.mem_take_iff_getElem.mp member
        have below := List.pairwise_iff_getElem.mp sorted index (times.length / 2)
        rcases Nat.lt_or_ge index (times.length / 2) with before | last
        · simpa using below (by omega) middle before
        · obtain rfl : index = times.length / 2 := by omega
          simp
      have back := List.countP_le_length (l := times.mergeSort.drop (times.length / 2 + 1))
        (p := fun time => decide (times.mergeSort[times.length / 2] < time))
      have split := congrArg
        (List.countP fun time => decide (times.mergeSort[times.length / 2] < time))
        (List.take_append_drop (times.length / 2 + 1) times.mergeSort)
      rw [List.countP_append, front] at split
      rw [← (List.mergeSort_perm times _).countP_eq, ← split]
      rw [List.length_drop] at back
      omega

theorem len_retain_recent (seen : HashMap IpAddr Allowance) :
    (seen.retain fun _ allowance => decide (allowance.readAt >
      (seen.entries.map fun entry => entry.2.readAt).mergeSort.getD
        ((seen.entries.map fun entry => entry.2.readAt).mergeSort.length / 2) 0)).len ≤
      seen.len / 2 := by
  have half := countP_past_median (seen.entries.map fun entry => entry.2.readAt)
  rw [List.length_mergeSort]
  rw [List.countP_map, List.length_map, List.countP_eq_length_filter] at half
  simpa [HashMap.len, HashMap.retain, AList.keys, List.keys, Function.comp_def] using half

namespace Gate

/-- `Gate::tracked`. -/
def tracked (gate : Gate) : Nat :=
  gate.seen.len

theorem tracked_forgetIdle (gate : Gate) (now : Nat) :
    (gate.forgetIdle now).tracked ≤ max maxTracked (gate.tracked / 2) := by
  unfold forgetIdle
  dsimp only
  split
  · next few => exact le_max_of_le_left few
  · split
    · -- the cutoff is the median of the times of those that are busy
      have recent := len_retain_recent (gate.seen.retain fun _ allowance =>
        decide (allowance.milli + gate.limits.accrued (now - allowance.readAt) <
          gate.limits.burstMilli))
      exact le_max_of_le_right
        (recent.trans (Nat.div_le_div_right (HashMap.len_retain_le _ _)))
    · next few => exact le_max_of_le_left (not_lt.mp few)

theorem tracked_admitArrival {gate : Gate} (bounded : gate.tracked ≤ maxTracked)
    (address : IpAddr) (now : Nat) :
    (gate.admitArrival address now).2.tracked ≤ maxTracked := by
  unfold admitArrival
  dsimp only
  split
  · exact bounded
  · split
    · next spent =>
        have known : address ∈ gate.seen := by
          by_contra new
          have full : gate.allowanceAt address now = ⟨gate.limits.burstMilli, now⟩ := by
            rw [allowanceAt, AList.lookup_eq_none.mpr new]
            simp
          rw [full] at spent
          exact absurd spent (not_lt.mpr (burstMilli_ge gate.limits))
        exact (HashMap.len_insert_of_mem known _).trans_le bounded
    · refine (tracked_forgetIdle _ now).trans (max_le le_rfl ?_)
      have one (taken : Allowance) :
          HashMap.len (gate.seen.insert address taken) ≤ gate.seen.len + 1 :=
        HashMap.len_le_succ fun _ member => (AList.mem_insert _).mp member
      have before : gate.seen.len ≤ maxTracked := bounded
      refine (Nat.div_le_div_right (one _)).trans ?_
      have roomy : 1 ≤ maxTracked := by decide
      omega

end Gate

/-- However many addresses open connections, and whenever, no more than the bound are
tracked after any call, admitted or not. -/
theorem arrivals_bounded (limits : Arrivals) (attempts : List (IpAddr × Nat)) :
    ((Gate.new limits).afterAttempts attempts).tracked ≤ maxTracked := by
  have bounded (gate : Gate) (start : gate.tracked ≤ maxTracked) :
      (gate.afterAttempts attempts).tracked ≤ maxTracked := by
    induction attempts generalizing gate with
    | nil => exact start
    | cons attempt later ih =>
        exact ih _ (Gate.tracked_admitArrival start attempt.1 attempt.2)
  exact bounded _ (Nat.zero_le _)

end WindowMlHub
