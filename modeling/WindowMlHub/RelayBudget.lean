import WindowMlHub.RelayRecords

/-!
# The work budget of an account

An account's bucket earns at the account's rate and is spent by its messages and
its handshakes.  The bucket lives in the account's record, and nothing but
`connect`, `charge` and the end of `receive` touches it; but the record is
dropped with the account's last connection when no stream is left, and the next
connection starts an empty bucket, whatever the dropped one owed.
-/

namespace WindowMlHub

open CheckedEvaluation HashTables

namespace Bucket

/-- The least balance that an `i128` holds. -/
def floor : Int := -(2 ^ 127)

theorem floor_le_saturate (amount : Int) : floor ≤ saturate amount :=
  le_max_left _ _

theorem saturate_le {amount bound : Int} (low : floor ≤ bound)
    (le : amount ≤ bound) : saturate amount ≤ bound :=
  max_le low ((min_le_left _ _).trans le)

theorem floor_le_spend (bucket : Bucket) (bytes : Nat) :
    floor ≤ (bucket.spend bytes).balance :=
  floor_le_saturate _

theorem spend_le {bucket : Bucket} (low : floor ≤ bucket.balance)
    (bytes : Nat) : (bucket.spend bytes).balance ≤ bucket.balance := by
  apply saturate_le low
  omega

theorem spend_le_sub {bucket : Bucket} {bytes : Nat}
    (low : floor ≤ bucket.balance - bytes * 1000) :
    (bucket.spend bytes).balance ≤ bucket.balance - bytes * 1000 :=
  saturate_le low (le_refl _)

theorem balance_of_waitMs_eq_zero {bucket : Bucket} {rate : Nat}
    (positive : 0 < rate) (free : bucket.waitMs rate = 0) :
    0 ≤ bucket.balance := by
  by_contra inDebt
  unfold waitMs at free
  rw [if_neg (not_or.mpr ⟨inDebt, positive.ne'⟩)] at free
  have least : 1 ≤ (bucket.balance.natAbs + rate - 1) / rate := by
    rw [Nat.le_div_iff_mul_le positive]
    omega
  omega

/-- What a refill does to a bucket that has been refilled before. -/
theorem refill_spec {bucket : Bucket} {credited : Nat}
    (started : bucket.creditedMs = some credited)
    (low : floor ≤ bucket.balance) (nowMs rate burst : Nat) :
    (bucket.refill nowMs rate burst).creditedMs =
        some (max credited nowMs) ∧
      floor ≤ (bucket.refill nowMs rate burst).balance ∧
      (bucket.refill nowMs rate burst).balance ≤ bucket.balance +
        ((max credited nowMs - credited : Nat) : Int) * rate := by
  unfold refill
  rw [started]
  simp only
  split
  next late =>
    rw [started, max_eq_left late]
    exact ⟨rfl, low, by simp⟩
  next later =>
    have order : max credited nowMs = nowMs := max_eq_right (by omega)
    have earned : 0 ≤ ((nowMs - credited : Nat) : Int) * rate :=
      Int.mul_nonneg (Int.natCast_nonneg _) (Int.natCast_nonneg _)
    have earnedLe : saturate (((nowMs - credited : Nat) : Int) * rate) ≤
        ((nowMs - credited : Nat) : Int) * rate :=
      saturate_le (le_trans (by decide) earned) (le_refl _)
    refine ⟨by rw [order], ?_, ?_⟩
    · apply le_min (floor_le_saturate _)
      exact le_trans (by decide) (show (0 : Int) ≤ burst * 1000 by omega)
    · rw [order]
      refine (min_le_left _ _).trans (saturate_le ?_ ?_)
      · omega
      · omega

theorem refill_refill (bucket : Bucket) (nowMs rate burst : Nat) :
    (bucket.refill nowMs rate burst).refill nowMs rate burst =
      bucket.refill nowMs rate burst := by
  have settled {filled : Bucket} {credited : Nat}
      (started : filled.creditedMs = some credited) (le : nowMs ≤ credited) :
      filled.refill nowMs rate burst = filled := by
    simp [refill, started, le]
  cases started : bucket.creditedMs with
  | none => exact settled (by simp [refill, started]) (le_refl nowMs)
  | some credited =>
      by_cases late : nowMs ≤ credited
      · rw [settled started late, settled started late]
      · exact settled (by simp [refill, started, late]) (le_refl nowMs)

/-- A bucket that is not refused a connection is at most a second in debt. -/
theorem balance_of_waitMs_le {bucket : Bucket} {rate : Nat}
    (positive : 0 < rate) (short : bucket.waitMs rate ≤ connectRefusedAboveMs) :
    -(1000 * rate : Int) ≤ bucket.balance := by
  unfold waitMs at short
  split at short
  next free =>
    rcases free with solvent | zero
    · omega
    · omega
  next owing =>
    obtain ⟨inDebt, _⟩ := not_or.mp owing
    have quotient : (bucket.balance.natAbs + rate - 1) / rate ≤ 1000 := by
      rw [connectRefusedAboveMs] at short
      omega
    have bound := (Nat.div_le_iff_le_mul_add_pred positive).mp quotient
    have debt : bucket.balance = -(bucket.balance.natAbs : Int) := by omega
    rw [debt]
    have : bucket.balance.natAbs ≤ 1000 * rate := by
      rw [Nat.mul_comm] at bound
      omega
    omega

end Bucket

/-! ## What leaves the budgets alone -/

/-- The budget of an account is the same. -/
def SameRate (acct acct' : Account) : Prop :=
  acct'.rate = acct.rate

theorem lasting_sameRate : Lasting SameRate where
  refl _ := rfl
  trans first second := second.trans first
  conn _ _ _ := rfl
  streams _ _ _ := rfl
  leave _ _ _ := rfl

/-- No account's budget changes, and no account appears.  An account may be
forgotten. -/
def Hub.RatesKept (hub hub' : Hub) : Prop :=
  ∀ account acct', hub'.accounts.lookup account = some acct' →
    ∃ acct, hub.accounts.lookup account = some acct ∧ acct'.rate = acct.rate

namespace Hub

variable {hub hub' hub'' : Hub} {account : AccountId} {acct acct' : Account}

theorem Follows.ratesKept (follows : hub.Follows SameRate hub') :
    hub.RatesKept hub' :=
  fun _ _ found => follows.record found

theorem RatesKept.of_eq (same : hub'.accounts = hub.accounts) :
    hub.RatesKept hub' := by
  intro account acct' found
  exact ⟨acct', same ▸ found, rfl⟩

theorem RatesKept.trans (first : hub.RatesKept hub')
    (second : hub'.RatesKept hub'') : hub.RatesKept hub'' := by
  intro account acct'' found
  obtain ⟨acct', found', rate'⟩ := second account acct'' found
  obtain ⟨acct, found, rate⟩ := first account acct' found'
  exact ⟨acct, found, rate'.trans rate⟩

theorem ratesKept_setAccount (found : hub.accounts.lookup account = some acct)
    (same : acct'.rate = acct.rate) :
    hub.RatesKept (hub.setAccount account acct') :=
  (follows_setAccount lasting_sameRate found same).ratesKept

variable [Codec]

theorem ratesKept_of_enqueue {conn : ConnId} {frame : Frame}
    {fx fx' : Effects}
    (ran : (.ok (hub.enqueue account conn frame fx) :
      Checked (Hub × Effects)) = .ok (hub', fx')) :
    hub.RatesKept hub' :=
  (follows_of_enqueue lasting_sameRate ran).ratesKept

theorem ratesKept_finish (order : HashOrder) {fx : Effects}
    {actions : List Action}
    (ran : hub.finish order fx = .ok (hub', actions)) :
    hub.RatesKept hub' :=
  (follows_finish lasting_sameRate order ran).ratesKept

omit [Codec] in
theorem ratesKept_ensureStream (order : HashOrder) {key : StreamKey}
    {ensured : Bool}
    (ran : hub.ensureStream order account key = .ok (hub', ensured)) :
    hub.RatesKept hub' := by
  simp only [ensureStream, bind_eq_ok, expect_eq_ok] at ran
  obtain ⟨acct, found, ran⟩ := ran
  split at ran
  · cases ran
    exact .of_eq rfl
  split at ran
  · split at ran
    · cases ran
      exact .of_eq rfl
    · simp only [bind_eq_ok] at ran
      obtain ⟨ringBytes, _, done⟩ := ran
      cases done
      exact ratesKept_setAccount found rfl
  · cases ran
    exact ratesKept_setAccount found rfl

theorem enforceRingBudget_rate (order : HashOrder) {budget fuel : Nat}
    (ran : acct.enforceRingBudget order budget fuel = .ok acct') :
    acct'.rate = acct.rate := by
  induction fuel generalizing acct with
  | zero => cases ran
  | succ fuel ih =>
      unfold Account.enforceRingBudget at ran
      split at ran
      · split at ran
        next key stream ring _ =>
          split at ran
          · cases ran
            rfl
          · simp only [bind_eq_ok] at ran
            obtain ⟨_, _, ringBytes, _, rest⟩ := ran
            exact (ih rest).trans rfl
        · cases ran
          rfl
      · cases ran
        rfl

theorem ratesKept_publishInto (order : HashOrder) {key : StreamKey}
    {kind : Kind} {epoch : Nat} {env : Envelope} {fx fx' : Effects}
    (ran : hub.publishInto order account key kind epoch env fx =
      .ok (hub', fx')) :
    hub.RatesKept hub' := by
  simp only [publishInto, bind_eq_ok, expect_eq_ok] at ran
  obtain ⟨acct, found, stream, _, _, _, ringBytes, _, ⟨conns, fx₁⟩, _, acct',
    enforced, done⟩ := ran
  cases done
  have kept := enforceRingBudget_rate order enforced
  exact RatesKept.trans (.of_eq rfl) (ratesKept_setAccount
    (show ({ hub with clock := hub.clock + 1 } : Hub).accounts.lookup account =
      some acct from found) kept)

theorem ratesKept_publish (order : HashOrder) {conn : ConnId}
    {key : StreamKey} {kind : Kind} {env : Envelope} {fx fx' : Effects}
    (ran : hub.publish order account conn key kind env fx = .ok (hub', fx')) :
    hub.RatesKept hub' := by
  simp only [publish, bind_eq_ok] at ran
  obtain ⟨⟨ensuredHub, ensured⟩, ensuring, ran⟩ := ran
  refine (ratesKept_ensureStream order ensuring).trans ?_
  split at ran
  · simp only [bind_eq_ok, index_eq_ok] at ran
    obtain ⟨acct, _, stream, _, ran⟩ := ran
    split at ran
    · split at ran
      · exact ratesKept_of_enqueue ran
      · exact ratesKept_publishInto order ran
    · simp only [bind_eq_ok, nextEpoch] at ran
      obtain ⟨⟨numbered, epoch⟩, ⟨_, _, numbering⟩, ran⟩ := ran
      have unnumbered : ensuredHub.RatesKept numbered := by
        cases numbering
        exact .of_eq rfl
      exact unnumbered.trans (ratesKept_publishInto order ran)
  · cases ran
    exact .of_eq rfl

theorem ratesKept_onEnvelope (order : HashOrder) {conn : ConnId}
    {env : Envelope} {fx fx' : Effects}
    (ran : hub.onEnvelope order account conn env fx = .ok (hub', fx')) :
    hub.RatesKept hub' := by
  unfold onEnvelope at ran
  split at ran
  · cases ran
    exact .of_eq rfl
  split at ran
  · cases ran
    exact .of_eq rfl
  split at ran
  · cases ran
    exact .of_eq rfl
  simp only at ran
  split at ran
  · split at ran
    · exact ratesKept_of_enqueue ran
    · exact ratesKept_publish order ran
  · split at ran
    · exact ratesKept_of_enqueue ran
    · exact ratesKept_publish order ran
  · exact (follows_direct lasting_sameRate ran).ratesKept
  · exact (follows_direct lasting_sameRate ran).ratesKept
  · exact (follows_direct lasting_sameRate ran).ratesKept
  · exact ratesKept_of_enqueue ran
  · exact ratesKept_of_enqueue ran

theorem ratesKept_subscribeTo {conn : ConnId} {key : StreamKey}
    {since : Option Position} {fx fx' : Effects}
    (ran : hub.subscribeTo account conn key since fx = .ok (hub', fx')) :
    hub.RatesKept hub' := by
  simp only [subscribeTo, bind_eq_ok, expect_eq_ok] at ran
  obtain ⟨acct, found, stream, _, c, _, purged, _, ⟨out, queued, pushed⟩, _,
    ran⟩ := ran
  split at ran
  · cases ran
    exact ratesKept_setAccount found rfl
  · refine RatesKept.trans ?_ (ratesKept_of_enqueue ran)
    exact ratesKept_setAccount found rfl

theorem ratesKept_onSubscribe (order : HashOrder) {conn : ConnId}
    {request : Subscribe} {fx fx' : Effects}
    (ran : hub.onSubscribe order account conn request fx = .ok (hub', fx')) :
    hub.RatesKept hub' := by
  unfold onSubscribe at ran
  split at ran
  · exact ratesKept_of_enqueue ran
  split at ran
  · exact ratesKept_of_enqueue ran
  simp only [bind_eq_ok] at ran
  obtain ⟨acct, _, ran⟩ := ran
  split at ran
  · cases ran
    exact .of_eq rfl
  · simp only [bind_eq_ok] at ran
    obtain ⟨⟨ensuredHub, ensured⟩, ensuring, ran⟩ := ran
    refine (ratesKept_ensureStream order ensuring).trans ?_
    split at ran
    · exact ratesKept_subscribeTo ran
    · cases ran
      exact .of_eq rfl

/-- Routing a frame spends nothing: the call is charged for afterwards. -/
theorem ratesKept_route (order : HashOrder) {conn : ConnId} {frame : Frame}
    {fx fx' : Effects}
    (ran : hub.route order account conn frame fx = .ok (hub', fx')) :
    hub.RatesKept hub' := by
  unfold route at ran
  split at ran
  · exact ratesKept_onEnvelope order ran
  · exact ratesKept_onSubscribe order ran
  · split at ran
    · cases ran
      exact .of_eq rfl
    · simp only [bind_eq_ok] at ran
      obtain ⟨left, leaving, done⟩ := ran
      cases done
      exact (follows_unsubscribe lasting_sameRate leaving).ratesKept
  all_goals first
    | exact ratesKept_of_enqueue ran
    | cases ran; exact .of_eq rfl

end Hub

/-! ## What a call does to a budget -/

/-- The monotonic time a call carries. -/
def Call.monoMs? : Call → Option Nat
  | .connect _ _ _ monoMs _ => some monoMs
  | .charge _ _ nowMs => some nowMs
  | _ => none

/-- A call admitted a connection to this account. -/
def Step.admits (account : AccountId) (step : Step) : Bool :=
  match step.call, step.reply with
  | .connect target .., .admitted .. => decide (target = account)
  | _, _ => false

/-- What a call does to the budget of an account that is there after it.  The
budget was there before it and is refilled or spent from, or it is new. -/
inductive Budgeted (limits : Limits) (before : Option Bucket) (call : Call)
    (admits : Bool) : Bucket → Prop
  | kept {bucket : Bucket} (found : before = some bucket)
      (refused : admits = false) : Budgeted limits before call admits bucket
  | spent {bucket : Bucket} (bytes : Nat) (found : before = some bucket)
      (refused : admits = false) :
      Budgeted limits before call admits (bucket.spend bytes)
  | refilled {bucket : Bucket} {nowMs : Nat} (found : before = some bucket)
      (time : call.monoMs? = some nowMs) (refused : admits = false) :
      Budgeted limits before call admits (bucket.refill nowMs
        limits.accountBytesPerSecond limits.accountBurstBytes)
  | charged {bucket : Bucket} {nowMs : Nat} (bytes : Nat)
      (found : before = some bucket) (time : call.monoMs? = some nowMs)
      (refused : admits = false) :
      Budgeted limits before call admits ((bucket.refill nowMs
        limits.accountBytesPerSecond limits.accountBurstBytes).spend bytes)
  /-- an account the hub has forgotten starts again with nothing -/
  | admitted {nowMs : Nat} (time : call.monoMs? = some nowMs)
      (accepted : admits = true) :
      Budgeted limits before call admits (((before.getD {}).refill nowMs
        limits.accountBytesPerSecond limits.accountBurstBytes).spend
          connectCostBytes)

/-- The work budget of an account that the hub has a record of. -/
def Hub.rate? (hub : Hub) (account : AccountId) : Option Bucket :=
  (hub.accounts.lookup account).map (·.rate)

namespace Hub

variable [Codec] {order : HashOrder} {hub hub' : Hub} {account : AccountId}

omit [Codec] in
theorem RatesKept.rate?_eq {bucket : Bucket} (kept : hub.RatesKept hub')
    (found : hub'.rate? account = some bucket) :
    hub.rate? account = some bucket := by
  obtain ⟨acct', found', rfl⟩ := Option.map_eq_some_iff.mp found
  obtain ⟨acct, found, same⟩ := kept account acct' found'
  simp [rate?, found, same]

omit [Codec] in
theorem rate?_of_lookup {acct : Account}
    (found : hub.accounts.lookup account = some acct) :
    hub.rate? account = some acct.rate := by
  simp [rate?, found]

omit [Codec] in
theorem rate?_setAccount (hub : Hub) (account other : AccountId)
    (acct : Account) : (hub.setAccount account acct).rate? other =
      if other = account then some acct.rate else hub.rate? other := by
  split
  next same =>
    subst same
    simp [rate?, setAccount]
  next differs => simp [rate?, setAccount, AList.lookup_insert_ne differs]

/-- The budget of the account a connection is admitted to. -/
theorem connectChecked_rate {hello : Hello} {nowMs monoMs : Nat}
    {revoker : Revoker} {target : AccountId} {bucket : Bucket}
    {reply : Except Frame (ConnId × List Action)}
    (ran : hub.connectChecked order target hello nowMs monoMs revoker =
      .ok (hub', reply)) (found : hub'.rate? account = some bucket) :
    (∃ admission, reply = .ok admission) ∧
      ((account ≠ target ∧ hub.rate? account = some bucket) ∨
        account = target ∧ bucket =
          (((hub.rate? target).getD {}).refill monoMs
            hub.limits.accountBytesPerSecond
            hub.limits.accountBurstBytes).spend connectCostBytes) := by
  simp only [connectChecked, bind_eq_ok] at ran
  obtain ⟨⟨final, actions⟩, finished, done⟩ := ran
  cases done
  refine ⟨⟨_, rfl⟩, ?_⟩
  have before := ((follows_enqueueAll lasting_sameRate _ _ _ _
    _).ratesKept.trans (ratesKept_finish order finished)).rate?_eq found
  by_cases same : account = target
  · subst same
    right
    refine ⟨rfl, ?_⟩
    simp only [rate?, AList.lookup_insert, Option.map_some,
      Option.some.injEq] at before
    rw [← before, rate?]
    cases hub.accounts.lookup account <;> rfl
  · left
    refine ⟨same, ?_⟩
    simpa [rate?, AList.lookup_insert_ne same] using before

theorem notify_rate (limits : Limits) (acct : Account) (conn : ConnId)
    (wait nowMs : Nat) :
    (notify limits acct conn wait nowMs).1.rate = acct.rate := by
  unfold notify
  split
  · split
    · rfl
    · split
      · rfl
      · rfl
  · rfl

/-- What a call does to the budgets of the accounts that are there after it. -/
theorem apply_budgeted {call : Call} {reply : Reply} {bucket : Bucket}
    (ran : hub.apply order call = .ok (hub', reply))
    (found : hub'.rate? account = some bucket) :
    Budgeted hub.limits (hub.rate? account) call
      (Step.admits account ⟨hub, order, call, reply, hub'⟩) bucket := by
  cases call with
  | connect target hello nowMs monoMs revoker =>
      simp only [apply, bind_eq_ok] at ran
      obtain ⟨⟨connected, answer⟩, connecting, ran⟩ := ran
      unfold connect at connecting
      split at connecting
      · cases connecting
        cases ran
        exact .kept found rfl
      split at connecting
      next absent =>
        cases answer with
        | error frame =>
            cases ran
            obtain ⟨⟨_, admitted⟩, _⟩ := connectChecked_rate connecting found
            cases admitted
        | ok admission =>
            cases ran
            obtain ⟨_, ⟨differs, kept⟩ | ⟨rfl, rfl⟩⟩ :=
              connectChecked_rate connecting found
            · exact .kept kept (decide_eq_false (Ne.symm differs))
            · exact .admitted rfl (decide_eq_true rfl)
      next acct present =>
        have rated := rate?_of_lookup present
        simp only at connecting
        split at connecting
        next refused =>
          cases connecting
          cases ran
          rw [rate?_setAccount] at found
          split at found
          next same =>
            subst same
            obtain rfl := Option.some.inj found
            exact .refilled rated rfl rfl
          next differs => exact .kept found rfl
        next short =>
          cases answer with
          | error frame =>
              cases ran
              obtain ⟨⟨_, admitted⟩, _⟩ := connectChecked_rate connecting found
              cases admitted
          | ok admission =>
              cases ran
              obtain ⟨_, ⟨differs, kept⟩ | ⟨rfl, rfl⟩⟩ :=
                connectChecked_rate connecting found
              · rw [rate?_setAccount, if_neg differs] at kept
                exact .kept kept (decide_eq_false (Ne.symm differs))
              · rw [rate?_setAccount, if_pos rfl, rated]
                simp only [Option.getD_some, setAccount_limits,
                  Bucket.refill_refill]
                exact .admitted rfl (decide_eq_true rfl)
  | receive conn frame =>
      simp only [apply, bind_eq_ok] at ran
      obtain ⟨⟨received, actions⟩, receiving, done⟩ := ran
      cases done
      unfold receive at receiving
      split at receiving
      · cases receiving
        exact .kept found rfl
      next target known =>
        simp only [bind_eq_ok] at receiving
        obtain ⟨⟨routed, fx⟩, routing, finishing⟩ := receiving
        have spent := (ratesKept_finish order finishing).rate?_eq found
        unfold chargeQueued at spent
        split at spent
        · exact .kept ((ratesKept_route order routing).rate?_eq spent) rfl
        next acct present =>
          rw [rate?_setAccount] at spent
          split at spent
          next same =>
            subst same
            obtain rfl := Option.some.inj spent
            exact .spent _ ((ratesKept_route order routing).rate?_eq
              (rate?_of_lookup present)) rfl
          next differs =>
            exact .kept ((ratesKept_route order routing).rate?_eq spent) rfl
  | close conn frame =>
      simp only [apply, bind_eq_ok] at ran
      obtain ⟨⟨closed, actions⟩, closing, done⟩ := ran
      cases done
      unfold close at closing
      split at closing
      · exact .kept ((ratesKept_finish order closing).rate?_eq found) rfl
      · exact .kept (((follows_forget lasting_sameRate order hub conn {}).ratesKept.trans
          (ratesKept_finish order closing)).rate?_eq found) rfl
  | deliver conn frame =>
      simp only [apply, bind_eq_ok] at ran
      obtain ⟨⟨delivered, actions⟩, delivering, done⟩ := ran
      cases done
      unfold deliver at delivering
      split at delivering
      · cases delivering
        exact .kept found rfl
      · exact .kept (((follows_enqueue lasting_sameRate hub _ conn frame
          {}).ratesKept.trans (ratesKept_finish order delivering)).rate?_eq
            found) rfl
  | charge conn bytes nowMs =>
      simp only [apply, bind_eq_ok] at ran
      obtain ⟨⟨charged, wait, actions⟩, charging, done⟩ := ran
      cases done
      unfold charge at charging
      split at charging
      · cases charging
        exact .kept found rfl
      split at charging
      · cases charging
        exact .kept found rfl
      next target known _ acct present =>
        simp only [bind_eq_ok] at charging
        obtain ⟨⟨final, acted⟩, finishing, done⟩ := charging
        cases done
        have kept := (ratesKept_finish order finishing).rate?_eq found
        rw [rate?_setAccount, notify_rate] at kept
        split at kept
        next same =>
          subst same
          obtain rfl := Option.some.inj kept
          exact .charged bytes (rate?_of_lookup present) rfl rfl
        next differs => exact .kept kept rfl
  | takeOutbound conn budget =>
      simp only [apply, bind_eq_ok] at ran
      obtain ⟨⟨taken, handed⟩, taking, done⟩ := ran
      cases done
      refine .kept (RatesKept.rate?_eq ?_ found) rfl
      unfold takeOutbound at taking
      split at taking
      · cases taking
        exact .of_eq rfl
      split at taking
      · cases taking
        exact .of_eq rfl
      next acct present =>
        split at taking
        · cases taking
          exact .of_eq rfl
        · simp only [bind_eq_ok] at taking
          obtain ⟨_, _, done⟩ := taking
          cases done
          exact ratesKept_setAccount present rfl

/-- A connection is admitted to an account the hub knows only when it is at most
a second in debt. -/
theorem apply_short {call : Call} {reply : Reply}
    (ran : hub.apply order call = .ok (hub', reply))
    (admits : Step.admits account ⟨hub, order, call, reply, hub'⟩ = true) :
    ∃ nowMs, call.monoMs? = some nowMs ∧
      ∀ bucket, hub.rate? account = some bucket →
        (bucket.refill nowMs hub.limits.accountBytesPerSecond
          hub.limits.accountBurstBytes).waitMs
            hub.limits.accountBytesPerSecond ≤ connectRefusedAboveMs := by
  cases call with
  | connect target hello nowMs monoMs revoker =>
      simp only [apply, bind_eq_ok] at ran
      obtain ⟨⟨connected, answer⟩, connecting, ran⟩ := ran
      cases answer with
      | error frame =>
          cases ran
          cases admits
      | ok admission =>
          cases ran
          obtain rfl : target = account := of_decide_eq_true admits
          refine ⟨monoMs, rfl, fun bucket found => ?_⟩
          obtain ⟨acct, present, rfl⟩ := Option.map_eq_some_iff.mp found
          unfold connect at connecting
          split at connecting
          · cases connecting
          rw [present] at connecting
          simp only at connecting
          split at connecting
          · cases connecting
          next short => exact Nat.le_of_not_lt short
  | _ => cases admits

end Hub

/-! ## The handshakes of a run -/

/-- The monotonic times the steps carry. -/
def timesOf (steps : List Step) : List Nat :=
  steps.filterMap fun step => step.call.monoMs?

/-- How many connections the steps admitted to an account. -/
def admissions (account : AccountId) (steps : List Step) : Nat :=
  steps.countP (·.admits account)

/-- The budget of an account after it has paid for the handshake of this
step. -/
def Step.paid (account : AccountId) (step : Step) : Option Bucket :=
  step.call.monoMs?.map fun nowMs =>
    (((step.before.rate? account).getD {}).refill nowMs
      step.before.limits.accountBytesPerSecond
      step.before.limits.accountBurstBytes).spend connectCostBytes

/-- The budget of an account as it was when the hub last had a record of it. -/
def lastRate (account : AccountId) (steps : List Step) : Option Bucket :=
  steps.foldl (fun last step =>
    if step.admits account then
      step.paid account
    else
      (step.after.rate? account).or last) none

/-- The step admits a connection to an account the hub has forgotten, and the
budget that was forgotten with it would still be in debt. -/
def Step.Forgives (account : AccountId) (earlier : List Step)
    (step : Step) : Prop :=
  step.admits account = true ∧ step.before.rate? account = none ∧
    ∃ bucket nowMs, lastRate account earlier = some bucket ∧
      step.call.monoMs? = some nowMs ∧
      (bucket.refill nowMs step.before.limits.accountBytesPerSecond
        step.before.limits.accountBurstBytes).waitMs
          step.before.limits.accountBytesPerSecond ≠ 0

instance (account : AccountId) (earlier : List Step) (step : Step) :
    Decidable (step.Forgives account earlier) :=
  decidable_of_iff
    (step.admits account = true ∧ step.before.rate? account = none ∧
      ∃ bucket ∈ lastRate account earlier, ∃ nowMs ∈ step.call.monoMs?,
        (bucket.refill nowMs step.before.limits.accountBytesPerSecond
          step.before.limits.accountBurstBytes).waitMs
            step.before.limits.accountBytesPerSecond ≠ 0)
    ⟨fun ⟨admits, gone, bucket, last, nowMs, time, owes⟩ =>
        ⟨admits, gone, bucket, nowMs, last, time, owes⟩,
      fun ⟨admits, gone, bucket, nowMs, last, time, owes⟩ =>
        ⟨admits, gone, bucket, last, nowMs, time, owes⟩⟩

theorem unforgiving_of_check {account : AccountId} {steps : List Step}
    (check : ∀ (index : Nat) (bound : index < steps.length),
      ¬ steps[index].Forgives account (steps.take index))
    (earlier : List Step) (step : Step) (later : List Step)
    (split : steps = earlier ++ step :: later) : ¬ step.Forgives account earlier := by
  subst split
  simpa using check earlier.length (by simp)

/-- The handshakes an account may make within a span of milliseconds. -/
def handshakeBound (limits : Limits) (span : Nat) : Nat :=
  (limits.accountBurstBytes +
    limits.accountBytesPerSecond * (1000 + span) / 1000) / connectCostBytes + 2

/-- What this many handshakes cost, together with what the bucket still holds,
has been earned since a time. -/
structure Bucket.Covers (bucket : Bucket) (rate since : Nat)
    (times : List Nat) (handshakes : Nat) : Prop where
  low : floor ≤ bucket.balance
  earned : ∃ credited ∈ times, bucket.creditedMs = some credited ∧
    (handshakes * (connectCostBytes * 1000) : Int) + bucket.balance ≤
      rate * ((credited : Int) - since)

namespace Bucket.Covers

variable {bucket : Bucket} {rate since : Nat} {times later : List Nat}
  {handshakes : Nat}

theorem mono (covers : bucket.Covers rate since times handshakes)
    (subset : times ⊆ later) :
    bucket.Covers rate since later handshakes := by
  obtain ⟨credited, member, started, earned⟩ := covers.earned
  exact ⟨covers.low, credited, subset member, started, earned⟩

theorem spend (covers : bucket.Covers rate since times handshakes)
    (bytes : Nat) :
    (bucket.spend bytes).Covers rate since times handshakes := by
  obtain ⟨credited, member, started, earned⟩ := covers.earned
  have less := Bucket.spend_le covers.low bytes
  exact ⟨floor_le_spend bucket bytes, credited, member, started, by omega⟩

theorem refill (covers : bucket.Covers rate since times handshakes)
    {nowMs : Nat} (member : nowMs ∈ times) (burst : Nat) :
    (bucket.refill nowMs rate burst).Covers rate since times handshakes := by
  obtain ⟨credited, creditedMember, started, earned⟩ := covers.earned
  obtain ⟨credited', low, balance⟩ :=
    refill_spec started covers.low nowMs rate burst
  refine ⟨low, max credited nowMs, ?_, credited', ?_⟩
  · rcases le_total credited nowMs with le | le
    · rwa [max_eq_right le]
    · rwa [max_eq_left le]
  · have split : (rate : Int) * ((max credited nowMs : Nat) - since) =
        rate * ((credited : Int) - since) +
          ((max credited nowMs - credited : Nat) : Int) * rate := by
      rw [Int.natCast_sub (le_max_left _ _)]
      ring
    rw [split]
    omega

theorem handshake (covers : bucket.Covers rate since times handshakes)
    (sized : rate < 2 ^ 64) (short : -(1000 * rate : Int) ≤ bucket.balance) :
    (bucket.spend connectCostBytes).Covers rate since times
      (handshakes + 1) := by
  obtain ⟨credited, member, started, earned⟩ := covers.earned
  have paid : (bucket.spend connectCostBytes).balance ≤
      bucket.balance - connectCostBytes * 1000 := by
    apply spend_le_sub
    norm_num [floor, connectCostBytes, frameCostBytes] at *
    omega
  refine ⟨floor_le_spend _ _, credited, member, started, ?_⟩
  push_cast at *
  linarith

theorem bounded (covers : bucket.Covers rate since times handshakes)
    (short : -(1000 * rate : Int) ≤ bucket.balance) {span : Nat}
    (within : ∀ nowMs ∈ times, nowMs ≤ since + span) :
    handshakes * (connectCostBytes * 1000) ≤ rate * (1000 + span) := by
  obtain ⟨credited, member, started, earned⟩ := covers.earned
  have late : (credited : Int) - since ≤ span := by
    have := within credited member
    omega
  have most : (rate : Int) * ((credited : Int) - since) ≤ rate * span :=
    mul_le_mul_of_nonneg_left late (Int.natCast_nonneg rate)
  zify
  linarith

end Bucket.Covers

theorem Bucket.covers_opened {rate since nowMs handshakes : Nat}
    {times : List Nat} (burst : Nat) (member : nowMs ∈ times)
    (earned : (handshakes * (connectCostBytes * 1000) : Int) ≤
      rate * ((nowMs : Int) - since)) :
    ((({} : Bucket).refill nowMs rate burst).spend connectCostBytes).Covers
      rate since times (handshakes + 1) := by
  refine ⟨floor_le_spend _ _, nowMs, member, rfl, ?_⟩
  have paid : ((({} : Bucket).refill nowMs rate burst).spend
      connectCostBytes).balance ≤ 0 - connectCostBytes * 1000 :=
    spend_le_sub (show floor ≤ (0 : Int) - connectCostBytes * 1000 by decide)
  push_cast at *
  linarith

section Running

variable [Codec] {start hub : Hub} {steps : List Step} {account : AccountId}
  {limits : Limits} {since span : Nat}

/-- What the handshakes of a run are paid from. -/
structure Funded (limits : Limits) (account : AccountId) (since span : Nat)
    (steps : List Step) (hub : Hub) : Prop where
  last_eq : ∀ bucket, hub.rate? account = some bucket →
    lastRate account steps = some bucket
  none_yet : lastRate account steps = none → admissions account steps = 0
  covers : ∀ bucket, lastRate account steps = some bucket →
    bucket.Covers limits.accountBytesPerSecond since (timesOf steps)
      (admissions account steps)
  bounded : admissions account steps ≤ handshakeBound limits span

omit [Codec] in
@[simp]
theorem lastRate_append (account : AccountId) (steps : List Step)
    (step : Step) : lastRate account (steps ++ [step]) =
      if step.admits account then
        step.paid account
      else
        (step.after.rate? account).or (lastRate account steps) := by
  simp [lastRate]

omit [Codec] in
@[simp]
theorem admissions_append (account : AccountId) (steps : List Step)
    (step : Step) : admissions account (steps ++ [step]) =
      admissions account steps + (step.admits account).toNat := by
  cases admits : step.admits account <;>
    simp [admissions, List.countP_append, admits]

omit [Codec] in
theorem timesOf_append (steps : List Step) (step : Step) :
    timesOf (steps ++ [step]) =
      timesOf steps ++ step.call.monoMs?.toList := by
  cases time : step.call.monoMs? <;> simp [timesOf, time]

omit [Codec] in
theorem le_handshakeBound {handshakes : Nat}
    (paid : handshakes * (connectCostBytes * 1000) ≤
      limits.accountBytesPerSecond * (1000 + span)) :
    handshakes + 1 ≤ handshakeBound limits span := by
  have whole : handshakes * connectCostBytes ≤
      limits.accountBytesPerSecond * (1000 + span) / 1000 := by
    rw [Nat.le_div_iff_mul_le (by decide), Nat.mul_assoc]
    exact paid
  have quotient : handshakes ≤ (limits.accountBurstBytes +
      limits.accountBytesPerSecond * (1000 + span) / 1000) /
        connectCostBytes := by
    rw [Nat.le_div_iff_mul_le (by decide)]
    exact whole.trans (Nat.le_add_left _ _)
  exact Nat.succ_le_succ (Nat.le_succ_of_le quotient)

omit [Codec] in
theorem Bucket.Covers.repaid {bucket : Bucket} {rate burst nowMs handshakes : Nat}
    {times : List Nat} (covers : bucket.Covers rate since times handshakes)
    (positive : 0 < rate) (latest : ∀ earlier ∈ times, earlier ≤ nowMs)
    (member : nowMs ∈ times)
    (free : (bucket.refill nowMs rate burst).waitMs rate = 0) :
    (handshakes * (connectCostBytes * 1000) : Int) ≤
      rate * ((nowMs : Int) - since) := by
  have refilled := covers.refill member burst
  obtain ⟨credited, creditedMember, started, earned⟩ := refilled.earned
  have solvent : 0 ≤ (bucket.refill nowMs rate burst).balance :=
    Bucket.balance_of_waitMs_eq_zero positive free
  have atNow : credited ≤ nowMs := latest credited creditedMember
  have most : (rate : Int) * ((credited : Int) - since) ≤
      rate * ((nowMs : Int) - since) :=
    mul_le_mul_of_nonneg_left (by omega) (Int.natCast_nonneg rate)
  linarith

section OneCall

variable {step : Step}
  (funded : Funded limits account since span steps step.before)
  (limitsEq : step.before.limits = limits)
  (ran : step.before.apply step.order step.call =
    .ok (step.after, step.reply))

include funded limitsEq ran

/-- A call that admits nobody leaves the handshakes paid for. -/
theorem Funded.unadmitted (refused : step.admits account = false) :
    Funded limits account since span (steps ++ [step]) step.after := by
  have timesSubset : timesOf steps ⊆ timesOf (steps ++ [step]) := by
    rw [timesOf_append]
    exact List.subset_append_left _ _
  have timeMember {nowMs : Nat} (time : step.call.monoMs? = some nowMs) :
      nowMs ∈ timesOf (steps ++ [step]) := by
    simp [timesOf_append, time]
  have sameCount : admissions account (steps ++ [step]) =
      admissions account steps := by
    simp [refused]
  have lastEq : lastRate account (steps ++ [step]) =
      (step.after.rate? account).or (lastRate account steps) := by
    simp [refused]
  have before {old : Bucket} (held : step.before.rate? account = some old) :
      old.Covers limits.accountBytesPerSecond since
        (timesOf (steps ++ [step])) (admissions account steps) :=
    (funded.covers old (funded.last_eq old held)).mono timesSubset
  have covered {bucket : Bucket}
      (found : step.after.rate? account = some bucket) :
      bucket.Covers limits.accountBytesPerSecond since
        (timesOf (steps ++ [step])) (admissions account steps) := by
    have budgeted := Hub.apply_budgeted ran found
    rw [limitsEq] at budgeted
    cases budgeted with
    | kept held _ => exact before held
    | spent bytes held _ => exact (before held).spend bytes
    | refilled held time _ => exact (before held).refill (timeMember time) _
    | charged bytes held time _ =>
        exact ((before held).refill (timeMember time) _).spend bytes
    | admitted time accepted => cases refused.symm.trans accepted
  refine ⟨?_, ?_, ?_, by rw [sameCount]; exact funded.bounded⟩
  · intro bucket found
    rw [lastEq, found, Option.some_or]
  · intro none
    rw [lastEq, Option.or_eq_none_iff] at none
    rw [sameCount]
    exact funded.none_yet none.2
  · intro bucket last
    rw [sameCount]
    rw [lastEq] at last
    cases found : step.after.rate? account with
    | some rate =>
        rw [found, Option.some_or] at last
        exact covered (found.trans last)
    | none =>
        rw [found, Option.none_or] at last
        exact (funded.covers bucket last).mono timesSubset

/-- The handshake a call admits is paid for, unless the call forgives a debt. -/
theorem Funded.paid (positive : 0 < limits.accountBytesPerSecond)
    (sized : limits.accountBytesPerSecond < 2 ^ 64)
    (ordered : (timesOf (steps ++ [step])).Pairwise (· ≤ ·))
    (within : ∀ nowMs ∈ timesOf (steps ++ [step]),
      since ≤ nowMs ∧ nowMs ≤ since + span)
    (unforgiving : ¬ step.Forgives account steps)
    (accepted : step.admits account = true) :
    ∃ bucket, step.paid account = some bucket ∧
      bucket.Covers limits.accountBytesPerSecond since
        (timesOf (steps ++ [step])) (admissions account steps + 1) ∧
      admissions account steps + 1 ≤ handshakeBound limits span := by
  obtain ⟨nowMs, time, short⟩ := Hub.apply_short ran accepted
  rw [limitsEq] at short
  have timeMember : nowMs ∈ timesOf (steps ++ [step]) := by
    simp [timesOf_append, time]
  have timesSubset : timesOf steps ⊆ timesOf (steps ++ [step]) := by
    rw [timesOf_append]
    exact List.subset_append_left _ _
  have latest : ∀ earlier ∈ timesOf (steps ++ [step]), earlier ≤ nowMs := by
    rw [timesOf_append, time] at ordered ⊢
    intro earlier member
    rcases List.mem_append.mp member with old | new
    · exact (List.pairwise_append.mp ordered).2.2 earlier old nowMs (by simp)
    · exact (List.mem_singleton.mp new).le
  cases held : step.before.rate? account with
  | some bucket =>
      have refilled := ((funded.covers bucket (funded.last_eq bucket
        held)).mono timesSubset).refill timeMember limits.accountBurstBytes
      have balance := Bucket.balance_of_waitMs_le positive
        (short bucket held)
      refine ⟨_, ?_, refilled.handshake sized balance, le_handshakeBound
        (refilled.bounded balance fun earlier member =>
          (within earlier member).2)⟩
      simp [Step.paid, time, limitsEq, held]
  | none =>
      have earned : (admissions account steps *
          (connectCostBytes * 1000) : Int) ≤
            limits.accountBytesPerSecond * ((nowMs : Int) - since) := by
        cases last : lastRate account steps with
        | none =>
            rw [funded.none_yet last]
            have := (within nowMs timeMember).1
            have := Int.mul_nonneg
              (Int.natCast_nonneg limits.accountBytesPerSecond)
              (show (0 : Int) ≤ nowMs - since by omega)
            simpa using this
        | some bucket =>
            apply ((funded.covers bucket last).mono timesSubset).repaid positive
              latest timeMember
            by_contra owing
            exact unforgiving ⟨accepted, held, bucket, nowMs, last, time,
              by rwa [limitsEq]⟩
      refine ⟨_, ?_, Bucket.covers_opened
        limits.accountBurstBytes timeMember earned, ?_⟩
      · simp [Step.paid, time, limitsEq, held]
      · apply le_handshakeBound
        have late : (nowMs : Int) - since ≤ 1000 + span := by
          have := (within nowMs timeMember).2
          omega
        have most := mul_le_mul_of_nonneg_left late
          (Int.natCast_nonneg limits.accountBytesPerSecond)
        zify
        exact earned.trans most

/-- One call keeps the handshakes paid for, unless it forgives a debt. -/
theorem Funded.called (positive : 0 < limits.accountBytesPerSecond)
    (sized : limits.accountBytesPerSecond < 2 ^ 64)
    (ordered : (timesOf (steps ++ [step])).Pairwise (· ≤ ·))
    (within : ∀ nowMs ∈ timesOf (steps ++ [step]),
      since ≤ nowMs ∧ nowMs ≤ since + span)
    (unforgiving : ¬ step.Forgives account steps) :
    Funded limits account since span (steps ++ [step]) step.after := by
  cases admits : step.admits account with
  | false => exact funded.unadmitted limitsEq ran admits
  | true =>
      obtain ⟨paid, paidEq, covers, bounded⟩ := funded.paid limitsEq ran
        positive sized ordered within unforgiving admits
      have oneMore : admissions account (steps ++ [step]) =
          admissions account steps + 1 := by
        simp [admits]
      have lastEq : lastRate account (steps ++ [step]) = some paid := by
        simp [admits, paidEq]
      refine ⟨?_, ?_, ?_, by rw [oneMore]; exact bounded⟩
      · intro bucket found
        rw [lastEq, ← paidEq]
        have budgeted := Hub.apply_budgeted ran found
        cases budgeted with
        | admitted time _ => simp [Step.paid, time]
        | kept _ refused => cases admits.symm.trans refused
        | spent _ _ refused => cases admits.symm.trans refused
        | refilled _ _ refused => cases admits.symm.trans refused
        | charged _ _ _ refused => cases admits.symm.trans refused
      · intro none
        cases lastEq.symm.trans none
      · intro bucket last
        obtain rfl := Option.some.inj (lastEq.symm.trans last)
        rw [oneMore]
        exact covers

end OneCall

omit [Codec] in
theorem positive_of_withIdSpace {seed : UInt64} {shard : UInt16}
    (accepted : Hub.withIdSpace limits seed shard = .ok start) :
    0 < limits.accountBytesPerSecond := by
  unfold Hub.withIdSpace at accepted
  split at accepted
  · cases accepted
  split at accepted
  · cases accepted
  next rates => exact Nat.pos_of_ne_zero fun zero => rates (Or.inl zero)

/-- The handshakes of a run that forgives no debt are paid for. -/
theorem Run.funded (ok : start.Ok) (empty : start.accounts = ∅)
    (run : Run start steps hub)
    (positive : 0 < start.limits.accountBytesPerSecond)
    (sized : start.limits.accountBytesPerSecond < 2 ^ 64)
    (ordered : (timesOf steps).Pairwise (· ≤ ·))
    (within : ∀ nowMs ∈ timesOf steps, since ≤ nowMs ∧ nowMs ≤ since + span)
    (unforgiving : ∀ earlier step later, steps = earlier ++ step :: later →
      ¬ step.Forgives account earlier) :
    Funded start.limits account since span steps hub := by
  induction run with
  | start =>
      refine ⟨?_, fun _ => rfl, ?_, Nat.zero_le _⟩
      · intro bucket found
        simp [Hub.rate?, empty] at found
      · intro bucket found
        cases found
  | @call steps hub next order call reply earlier ran ih =>
      have timesEq := timesOf_append steps ⟨hub, order, call, reply, next⟩
      have before : Funded start.limits account since span steps
          (Step.before ⟨hub, order, call, reply, next⟩) := ih
        ((List.pairwise_append.mp (timesEq ▸ ordered)).1)
        (fun nowMs member => within nowMs (by simp [timesEq, member]))
        (fun first step later same => unforgiving first step _ (by
          rw [same, List.append_assoc]
          rfl))
      exact before.called
        (earlier.limits_eq ok) ran positive sized ordered within
        (unforgiving steps _ [] rfl)

end Running

/-- In every run whose calls carry nondecreasing monotonic times within a span,
an account makes no more handshakes than its rate and burst pay for, provided
that no connection is admitted to an account whose debt was forgotten with it.
The rate is a `usize`. -/
theorem relay_handshakes_bounded [Codec] (limits : Limits) (seed : UInt64)
    (shard : UInt16) (start : Hub)
    (accepted : Hub.withIdSpace limits seed shard = .ok start)
    (sized : limits.accountBytesPerSecond < 2 ^ 64)
    (calls : List (HashOrder × Call)) (since span : Nat)
    (ordered : (calls.filterMap fun entry => entry.2.monoMs?).Pairwise
      (· ≤ ·))
    (within : ∀ nowMs ∈ calls.filterMap fun entry => entry.2.monoMs?,
      since ≤ nowMs ∧ nowMs ≤ since + span) (account : AccountId) :
    ∃ steps, start.run calls = .ok steps ∧
      ((∀ earlier step later, steps = earlier ++ step :: later →
          ¬ step.Forgives account earlier) →
        admissions account steps ≤ handshakeBound limits span) := by
  obtain ⟨ok, rfl, empty, _⟩ := ok_withIdSpace accepted
  obtain ⟨steps, hub, ran, run⟩ := exists_run ok calls
  have timesEq : timesOf steps =
      calls.filterMap fun entry => entry.2.monoMs? := by
    rw [← Hub.run_calls ran, List.filterMap_map]
    rfl
  rw [← timesEq] at ordered within
  refine ⟨steps, ran, fun unforgiving => ?_⟩
  exact (run.funded ok empty (positive_of_withIdSpace accepted) sized ordered
    within unforgiving).bounded

/-- A device connects, leaves, and connects again when the debt that was forgotten
with its account would have been repaid. -/
theorem relay_handshakes_bounded_repaid :
    let limits : Limits := { accountBytesPerSecond := 1000, accountBurstBytes := 1 }
    let calls : List (HashOrder × Call) := [
      (.stored, .connect [9] { protocol := 1, principal := [1], role := 2 }
        0 5 .unknown),
      (.stored, .close 1 none),
      (.stored, .connect [9] { protocol := 1, principal := [1], role := 2 }
        0 6000 .unknown)]
    ∃ start steps, Hub.withIdSpace limits 7 0 = .ok start ∧
      start.run calls = .ok steps ∧
      (∀ earlier step later, steps = earlier ++ step :: later →
          ¬ step.Forgives [9] earlier) ∧
      admissions [9] steps = 2 ∧
      admissions [9] steps ≤ handshakeBound limits 5995 := by
  intro limits calls
  let start : Hub := ⟨limits, ∅, ∅, 1, 7, 0⟩
  obtain ⟨steps, ran, bounded⟩ := relay_handshakes_bounded limits 7 0 start rfl
    (by decide) calls 5 5995 (by decide) (by decide) [9]
  obtain ⟨twice, check⟩ : admissions [9] steps = 2 ∧
      ∀ (index : Nat) (bound : index < steps.length),
        ¬ (steps.get ⟨index, bound⟩).Forgives [9] (steps.take index) :=
    holds_of_check ran (by decide +kernel)
  have unforgiving := unforgiving_of_check check
  exact ⟨start, steps, rfl, ran, unforgiving, twice, bounded unforgiving⟩

/-- A device of one account connects and leaves this often, at one moment. -/
def reconnecting (often : Nat) : List (HashOrder × Call) :=
  (List.range often).flatMap fun earlier => [
    (.stored, .connect [9] { protocol := 1, principal := [1], role := 2 }
      0 5 .unknown),
    (.stored, .close (earlier + 1) none)]

/-- A device that only connects and leaves makes more handshakes than the bound
allows, in no time at all: each time it leaves, its account and what that
account owes are forgotten. -/
theorem relay_handshakes_forgiven :
    ∃ start steps,
      Hub.withIdSpace
        { accountBytesPerSecond := 1000, accountBurstBytes := 1 } 7 0 =
          .ok start ∧
      start.run (reconnecting 4) = .ok steps ∧
      (∀ nowMs ∈ timesOf steps, nowMs = 5) ∧
      handshakeBound
        { accountBytesPerSecond := 1000, accountBurstBytes := 1 } 0 <
          admissions [9] steps := by
  have accepted : Hub.withIdSpace
      { accountBytesPerSecond := 1000, accountBurstBytes := 1 } 7 0 =
        .ok ⟨{ accountBytesPerSecond := 1000, accountBurstBytes := 1 },
          ∅, ∅, 1, 7, 0⟩ := rfl
  obtain ⟨steps, _, ran, _⟩ :=
    exists_run (ok_withIdSpace accepted).1 (reconnecting 4)
  have facts : (∀ nowMs ∈ timesOf steps, nowMs = 5) ∧ admissions [9] steps = 4 :=
    holds_of_check ran (by decide +kernel)
  exact ⟨_, steps, accepted, ran, facts.1, by rw [facts.2]; decide⟩

end WindowMlHub
