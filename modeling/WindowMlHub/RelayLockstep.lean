import WindowMlHub.RelayBudget

/-!
# Relays that differ in their budgets

Two relays whose accounts differ in nothing but what their buckets hold go through
every call in lockstep, as far as no bucket is asked.  Only `connect` and `charge`
ask; everything else hands the bucket on unseen, or spends from it.
-/

namespace WindowMlHub

open CheckedEvaluation HashTables

/-- Records that differ in their budgets alone, which are related. -/
def Account.Alike (alike : Bucket → Bucket → Prop) (acct other : Account) : Prop :=
  ∃ rate, other = { acct with rate } ∧ alike acct.rate rate

/-- Relays that differ in the budgets of their accounts alone. -/
structure Hub.Alike (alike : Bucket → Bucket → Prop) (hub other : Hub) : Prop where
  limits_eq : other.limits = hub.limits
  connAccount_eq : other.connAccount = hub.connAccount
  nextConn_eq : other.nextConn = hub.nextConn
  epochState_eq : other.epochState = hub.epochState
  clock_eq : other.clock = hub.clock
  accounts : ∀ account, Option.Rel (Account.Alike alike)
    (hub.accounts.lookup account) (other.accounts.lookup account)

/-- Two evaluations that cannot panic return the same, with relays alike. -/
structure InStep (alike : Bucket → Bucket → Prop) {β : Type}
    (left right : Hub × β) : Prop where
  hubs : left.1.Alike alike right.1
  value_eq : right.2 = left.2

/-- Two evaluations that panic alike, or return the same with relays alike. -/
inductive Lockstep (alike : Bucket → Bucket → Prop) {β : Type} :
    Checked (Hub × β) → Checked (Hub × β) → Prop
  | panics (panic : Panic) : Lockstep alike (.error panic) (.error panic)
  | returns {hub other : Hub} (related : hub.Alike alike other) (value : β) :
      Lockstep alike (.ok (hub, value)) (.ok (other, value))

section Relating

variable {alike : Bucket → Bucket → Prop} {hub other : Hub} {account : AccountId}
  {acct acct' : Account} {α β γ : Type}

namespace Lockstep

theorem bind {left right : Checked (Hub × β)}
    {leftNext rightNext : Hub × β → Checked (Hub × γ)}
    (first : Lockstep alike left right)
    (next : ∀ {hub other : Hub} (value : β), hub.Alike alike other →
      Lockstep alike (leftNext (hub, value)) (rightNext (other, value))) :
    Lockstep alike (left >>= leftNext) (right >>= rightNext) := by
  cases first with
  | panics panic => exact .panics panic
  | returns related value => exact next value related

theorem after (part : Checked α) {leftNext rightNext : α → Checked (Hub × β)}
    (next : ∀ value, Lockstep alike (leftNext value) (rightNext value)) :
    Lockstep alike (part >>= leftNext) (part >>= rightNext) := by
  cases part with
  | error panic => exact .panics panic
  | ok value => exact next value

theorem ofInStep {left right : Hub × β} (together : InStep alike left right) :
    Lockstep alike (.ok left) (.ok right) := by
  obtain ⟨hub, value⟩ := left
  obtain ⟨other, value'⟩ := right
  obtain ⟨related, rfl⟩ := together
  exact .returns related _

end Lockstep

namespace Hub.Alike

/-- An account is unknown to both relays, or it is known to both. -/
theorem cases (related : hub.Alike alike other) (account : AccountId) :
    (hub.accounts.lookup account = none ∧ other.accounts.lookup account = none) ∨
      ∃ acct rate, hub.accounts.lookup account = some acct ∧
        other.accounts.lookup account = some { acct with rate } ∧
        alike acct.rate rate := by
  have records := related.accounts account
  cases left : hub.accounts.lookup account with
  | none =>
      cases right : other.accounts.lookup account with
      | none => exact .inl ⟨rfl, rfl⟩
      | some record =>
          rw [left, right] at records
          cases records
  | some acct =>
      cases right : other.accounts.lookup account with
      | none =>
          rw [left, right] at records
          cases records
      | some record =>
          rw [left, right] at records
          cases records with
          | some related =>
              obtain ⟨rate, rfl, ratesAlike⟩ := related
              exact .inr ⟨acct, rate, rfl, rfl, ratesAlike⟩

theorem mono {looser : Bucket → Bucket → Prop}
    (implies : ∀ {bucket bucket'}, alike bucket bucket' → looser bucket bucket')
    (related : hub.Alike alike other) : hub.Alike looser other := by
  refine ⟨related.limits_eq, related.connAccount_eq, related.nextConn_eq,
    related.epochState_eq, related.clock_eq, fun account => ?_⟩
  rcases related.cases account with ⟨left, right⟩ | ⟨acct, rate, left, right, same⟩
  · rw [left, right]
    exact .none
  · rw [left, right]
    exact .some ⟨rate, rfl, implies same⟩

theorem setAccount (related : hub.Alike alike other)
    (records : acct.Alike alike acct') (account : AccountId) :
    (hub.setAccount account acct).Alike alike (other.setAccount account acct') := by
  refine ⟨related.limits_eq, related.connAccount_eq, related.nextConn_eq,
    related.epochState_eq, related.clock_eq, fun probe => ?_⟩
  simp only [Hub.setAccount, HashMap.lookup_insert_eq]
  split
  · exact .some records
  · exact related.accounts probe

theorem eraseAccount (related : hub.Alike alike other) (account : AccountId) :
    ({ hub with accounts := hub.accounts.erase account } : Hub).Alike alike
      { other with accounts := other.accounts.erase account } := by
  refine ⟨related.limits_eq, related.connAccount_eq, related.nextConn_eq,
    related.epochState_eq, related.clock_eq, fun probe => ?_⟩
  simp only [HashMap.lookup_erase_eq]
  split
  · exact .none
  · exact related.accounts probe

theorem setConnAccount (related : hub.Alike alike other)
    (connAccount : HashMap ConnId AccountId) :
    ({ hub with connAccount } : Hub).Alike alike { other with connAccount } :=
  ⟨related.limits_eq, rfl, related.nextConn_eq, related.epochState_eq,
    related.clock_eq, related.accounts⟩

theorem ite {condition : Prop} [Decidable condition] {hub' other' : Hub}
    (related : hub.Alike alike other) (related' : hub'.Alike alike other') :
    (if condition then hub else hub').Alike alike
      (if condition then other else other') := by
  split
  · exact related
  · exact related'

theorem mem_accounts (related : hub.Alike alike other) (account : AccountId) :
    account ∈ other.accounts ↔ account ∈ hub.accounts := by
  rw [HashMap.mem_iff_exists_lookup, HashMap.mem_iff_exists_lookup]
  rcases related.cases account with ⟨left, right⟩ | ⟨acct, rate, left, right, -⟩
  · simp [left, right]
  · simp [left, right]

theorem len_accounts (related : hub.Alike alike other) :
    HashMap.len other.accounts = HashMap.len hub.accounts := by
  apply le_antisymm
  · exact HashMap.len_le_of_forall_mem fun account =>
      (related.mem_accounts account).mp
  · exact HashMap.len_le_of_forall_mem fun account =>
      (related.mem_accounts account).mpr

variable [Codec] {fx : Effects} {conn : ConnId}

/-! ## Queueing, forgetting and finishing -/

theorem enqueue (related : hub.Alike alike other) (account : AccountId)
    (conn : ConnId) (frame : Frame) (fx : Effects) :
    InStep alike (hub.enqueue account conn frame fx)
      (other.enqueue account conn frame fx) := by
  rcases related.cases account with ⟨left, right⟩ | ⟨acct, rate, left, right, same⟩
  · simp only [Hub.enqueue, left, right]
    exact ⟨related, rfl⟩
  · simp only [Hub.enqueue, left, right]
    cases acct.conns.lookup conn with
    | none => exact ⟨related, rfl⟩
    | some c =>
        rw [related.limits_eq]
        refine ⟨related.setAccount ?_ account, rfl⟩
        exact ⟨rate, rfl, same⟩

theorem enqueueAll (related : hub.Alike alike other) (account : AccountId)
    (frame : Frame) (ids : List ConnId) (fx : Effects) :
    InStep alike (Hub.enqueueAll account frame ids hub fx)
      (Hub.enqueueAll account frame ids other fx) := by
  induction ids generalizing hub other fx with
  | nil => exact ⟨related, rfl⟩
  | cons id ids ih =>
      obtain ⟨queued, same⟩ := related.enqueue account id frame fx
      simp only [Hub.enqueueAll]
      rw [same]
      exact ih queued _

theorem forget (order : HashOrder) (related : hub.Alike alike other)
    (conn : ConnId) (fx : Effects) :
    InStep alike (hub.forget order conn fx) (other.forget order conn fx) := by
  simp only [Hub.forget, related.connAccount_eq]
  cases known : hub.connAccount.lookup conn with
  | none => exact ⟨related, rfl⟩
  | some account =>
      have unlisted := related.setConnAccount (hub.connAccount.erase conn)
      rcases related.cases account with
        ⟨left, right⟩ | ⟨acct, rate, left, right, same⟩
      · simp only [left, right]
        exact ⟨unlisted, rfl⟩
      · simp only [left, right]
        cases acct.conns.lookup conn with
        | none => exact ⟨unlisted, rfl⟩
        | some c =>
            refine Alike.enqueueAll (.ite (unlisted.eraseAccount account)
              (unlisted.setAccount ?_ account)) _ _ _ _
            exact ⟨rate, rfl, same⟩

theorem finishLoop (order : HashOrder) (related : hub.Alike alike other)
    (fuel : Nat) (fx : Effects) (closed : List (ConnId × Frame)) :
    Lockstep alike (Hub.finishLoop order fuel hub fx closed)
      (Hub.finishLoop order fuel other fx closed) := by
  induction fuel generalizing hub other fx closed with
  | zero => exact .panics .hang
  | succ fuel ih =>
      unfold Hub.finishLoop
      split
      · exact .returns related _
      next conn frame rest _ =>
        simp only [related.connAccount_eq]
        split
        · exact ih related _ _
        · obtain ⟨forgotten, same⟩ :=
            related.forget order conn { fx with close := rest }
          rw [same]
          exact ih forgotten _ _

theorem finish (order : HashOrder) (related : hub.Alike alike other)
    (fx : Effects) : Lockstep alike (hub.finish order fx) (other.finish order fx) := by
  simp only [Hub.finish, related.connAccount_eq]
  refine (related.finishLoop order _ fx []).bind ?_
  intro hub other value related
  exact .returns related _

theorem finishInStep (order : HashOrder) {left right : Hub × Effects}
    (together : InStep alike left right) :
    Lockstep alike (left.1.finish order left.2) (right.1.finish order right.2) := by
  obtain ⟨related, same⟩ := together
  rw [same]
  exact related.finish order _

/-! ## Routing -/

omit [Codec] in
theorem ensureStream (order : HashOrder) (related : hub.Alike alike other)
    (account : AccountId) (key : StreamKey) :
    Lockstep alike (hub.ensureStream order account key)
      (other.ensureStream order account key) := by
  rcases related.cases account with ⟨left, right⟩ | ⟨acct, rate, left, right, same⟩
  · simp only [Hub.ensureStream, left, right]
    exact .panics _
  · simp only [Hub.ensureStream, left, right, expect_some, ok_bind, related.limits_eq]
    split
    · exact .returns related true
    split
    · split
      · exact .returns related false
      · refine .after _ fun ringBytes => .returns (related.setAccount ?_ account) true
        exact ⟨rate, rfl, same⟩
    · refine .returns (related.setAccount ?_ account) true
      exact ⟨rate, rfl, same⟩

/-- The budget loop hands the bucket on. -/
theorem enforceRingBudget_with_rate (order : HashOrder) (acct : Account) (rate : Bucket)
    (budget fuel : Nat) :
    Account.enforceRingBudget order budget fuel { acct with rate } =
      (acct.enforceRingBudget order budget fuel).map
        fun acct => { acct with rate } := by
  induction fuel generalizing acct with
  | zero => rfl
  | succ fuel ih =>
      simp only [Account.enforceRingBudget, Account.largestRing]
      split
      · split
        next key stream ring _ =>
          split
          · rfl
          · cases ring.evictOldest with
            | error panic => rfl
            | ok evicted =>
                simp only [ok_bind]
                cases sub acct.ringBytes evicted.2 with
                | error panic => rfl
                | ok ringBytes => exact ih { acct with
                    ringBytes
                    streams := acct.streams.insert key
                      { stream with ring := some evicted.1 } }
        · rfl
      · rfl

theorem enforced (order : HashOrder) (related : hub.Alike alike other)
    (account : AccountId) (acct : Account) {rate : Bucket} (same : alike acct.rate rate)
    (budget fuel : Nat) (fx : Effects) :
    Lockstep alike
      (acct.enforceRingBudget order budget fuel >>= fun kept =>
        pure (hub.setAccount account kept, fx))
      (Account.enforceRingBudget order budget fuel { acct with rate } >>= fun kept =>
        pure (other.setAccount account kept, fx)) := by
  rw [enforceRingBudget_with_rate order acct rate]
  cases ran : acct.enforceRingBudget order budget fuel with
  | error panic => exact .panics panic
  | ok kept =>
      have keptRate := Hub.enforceRingBudget_rate order ran
      exact .returns (related.setAccount ⟨rate, rfl, keptRate ▸ same⟩ account) fx

theorem publishInto (order : HashOrder) (related : hub.Alike alike other)
    (account : AccountId) (key : StreamKey) (kind : Kind) (epoch : Nat)
    (env : Envelope) (fx : Effects) :
    Lockstep alike (hub.publishInto order account key kind epoch env fx)
      (other.publishInto order account key kind epoch env fx) := by
  have ticked : ({ hub with clock := hub.clock + 1 } : Hub).Alike alike
      { other with limits := hub.limits, clock := hub.clock + 1 } :=
    ⟨rfl, related.connAccount_eq, related.nextConn_eq,
      related.epochState_eq, rfl, related.accounts⟩
  rcases related.cases account with ⟨left, right⟩ | ⟨acct, rate, left, right, same⟩
  · simp only [Hub.publishInto, left, right]
    exact .panics _
  · simp only [Hub.publishInto, left, right, expect_some, ok_bind, related.limits_eq,
      related.clock_eq]
    refine .after _ fun stream => .after _ fun published => .after _ fun ringBytes =>
      .after _ fun fanned => ?_
    exact ticked.enforced order account
      { acct with
        conns := fanned.1
        ringBytes
        streams := acct.streams.insert key { stream with ring := some published.1 } }
      same _ _ fanned.2

omit [Codec] in
theorem nextEpoch (related : hub.Alike alike other) :
    Lockstep alike hub.nextEpoch other.nextEpoch := by
  simp only [Hub.nextEpoch, related.epochState_eq]
  refine .after _ fun numbered => .returns ?_ numbered.2
  exact ⟨related.limits_eq, related.connAccount_eq, related.nextConn_eq, rfl,
    related.clock_eq, related.accounts⟩

theorem publish (order : HashOrder) (related : hub.Alike alike other)
    (account : AccountId) (conn : ConnId) (key : StreamKey) (kind : Kind)
    (env : Envelope) (fx : Effects) :
    Lockstep alike (hub.publish order account conn key kind env fx)
      (other.publish order account conn key kind env fx) := by
  simp only [Hub.publish]
  refine (related.ensureStream order account key).bind ?_
  intro hub other ensured related
  dsimp only
  split
  · rcases related.cases account with
      ⟨left, right⟩ | ⟨acct, rate, left, right, same⟩
    · simp only [left, right]
      exact .panics _
    · simp only [left, right, index_some, ok_bind]
      refine .after _ fun stream => ?_
      split
      · split
        · exact .ofInStep (related.enqueue account conn _ fx)
        · exact related.publishInto order account key kind 0 env fx
      · refine related.nextEpoch.bind ?_
        intro hub other epoch related
        exact related.publishInto order account key kind epoch env fx
  · exact .returns related _

theorem direct (related : hub.Alike alike other) (account : AccountId)
    (conn : ConnId) (target : Bytes) (env : Envelope) (fx : Effects) :
    Lockstep alike (hub.direct account conn target env fx)
      (other.direct account conn target env fx) := by
  rcases related.cases account with ⟨left, right⟩ | ⟨acct, rate, left, right, same⟩
  · simp only [Hub.direct, left, right, Option.bind_none]
    exact .ofInStep (related.enqueue account conn _ fx)
  · simp only [Hub.direct, left, right, Option.bind_some, expect_some, ok_bind,
      related.limits_eq]
    split
    · exact .ofInStep (related.enqueue account conn _ fx)
    next targetConn role _ =>
      refine .after _ fun c => ?_
      split
      · refine .returns (related.setAccount ?_ account) _
        exact ⟨rate, rfl, same⟩
      · refine .ofInStep (Alike.enqueue (related.setAccount ?_ account) account conn _ _)
        exact ⟨rate, rfl, same⟩

omit [Codec] in
theorem principalOf (related : hub.Alike alike other) (account : AccountId)
    (conn : ConnId) : other.principalOf account conn = hub.principalOf account conn := by
  rcases related.cases account with ⟨left, right⟩ | ⟨acct, rate, left, right, -⟩
  · simp [Hub.principalOf, Hub.conn?, left, right]
  · simp [Hub.principalOf, Hub.conn?, left, right]

theorem onEnvelope (order : HashOrder) (related : hub.Alike alike other)
    (account : AccountId) (conn : ConnId) (env : Envelope) (fx : Effects) :
    Lockstep alike (hub.onEnvelope order account conn env fx)
      (other.onEnvelope order account conn env fx) := by
  simp only [Hub.onEnvelope, related.limits_eq, related.principalOf]
  split
  · exact .returns related _
  split
  · exact .returns related _
  split
  · exact .returns related _
  · split
    · split
      · exact .ofInStep (related.enqueue account conn _ fx)
      · exact related.publish order account conn _ _ _ fx
    · split
      · exact .ofInStep (related.enqueue account conn _ fx)
      · exact related.publish order account conn _ _ _ fx
    · exact related.direct account conn _ _ fx
    · exact related.direct account conn _ _ fx
    · exact related.direct account conn _ _ fx
    · exact .ofInStep (related.enqueue account conn _ fx)
    · exact .ofInStep (related.enqueue account conn _ fx)

theorem subscribeTo (related : hub.Alike alike other) (account : AccountId)
    (conn : ConnId) (key : StreamKey) (since : Option Position) (fx : Effects) :
    Lockstep alike (hub.subscribeTo account conn key since fx)
      (other.subscribeTo account conn key since fx) := by
  rcases related.cases account with ⟨left, right⟩ | ⟨acct, rate, left, right, same⟩
  · simp only [Hub.subscribeTo, left, right]
    exact .panics _
  · simp only [Hub.subscribeTo, left, right, expect_some, ok_bind, related.limits_eq]
    refine .after _ fun stream => .after _ fun c => .after _ fun purged =>
      .after _ fun filled => ?_
    split
    · refine .returns (related.setAccount ?_ account) _
      exact ⟨rate, rfl, same⟩
    · refine .ofInStep (Alike.enqueue (related.setAccount ?_ account) account conn _ _)
      exact ⟨rate, rfl, same⟩

theorem onSubscribe (order : HashOrder) (related : hub.Alike alike other)
    (account : AccountId) (conn : ConnId) (request : Subscribe) (fx : Effects) :
    Lockstep alike (hub.onSubscribe order account conn request fx)
      (other.onSubscribe order account conn request fx) := by
  simp only [Hub.onSubscribe, related.limits_eq]
  split
  · exact .ofInStep (related.enqueue account conn _ fx)
  split
  · exact .ofInStep (related.enqueue account conn _ fx)
  rcases related.cases account with ⟨left, right⟩ | ⟨acct, rate, left, right, same⟩
  · simp only [left, right]
    exact .panics _
  · simp only [left, right, index_some, ok_bind]
    split
    · exact .returns related _
    · refine (related.ensureStream order account _).bind ?_
      intro hub other ensured related
      dsimp only
      split
      · exact related.subscribeTo account conn _ _ fx
      · exact .returns related _

theorem unsubscribe (related : hub.Alike alike other) (account : AccountId)
    (conn : ConnId) (key : StreamKey) (fx : Effects) :
    Lockstep alike
      (hub.unsubscribe account conn key >>= fun hub => pure (hub, fx))
      (other.unsubscribe account conn key >>= fun hub => pure (hub, fx)) := by
  rcases related.cases account with ⟨left, right⟩ | ⟨acct, rate, left, right, same⟩
  · simp only [Hub.unsubscribe, left, right]
    exact .returns related fx
  · have gone (conns : HashMap ConnId Conn) :
        Lockstep alike
          (.ok (hub.setAccount account
            { acct with conns, streams := leaveStream conn acct.streams key }, fx))
          (.ok (other.setAccount account
            { acct with conns, streams := leaveStream conn acct.streams key, rate },
            fx)) := by
      refine .returns (related.setAccount ?_ account) fx
      exact ⟨rate, rfl, same⟩
    simp only [Hub.unsubscribe, left, right]
    cases acct.conns.lookup conn with
    | none => exact gone acct.conns
    | some c =>
        dsimp only
        cases c.out.purgeStream key with
        | error panic => exact .panics panic
        | ok out => exact gone _

theorem route (order : HashOrder) (related : hub.Alike alike other)
    (account : AccountId) (conn : ConnId) (frame : Frame) (fx : Effects) :
    Lockstep alike (hub.route order account conn frame fx)
      (other.route order account conn frame fx) := by
  unfold Hub.route
  split
  · exact related.onEnvelope order account conn _ fx
  · exact related.onSubscribe order account conn _ fx
  · split
    · exact .returns related fx
    · exact related.unsubscribe account conn _ fx
  all_goals first
    | exact .returns related _
    | exact .ofInStep (related.enqueue account conn _ fx)

/-! ## The calls that ask no budget -/

omit [Codec] in
theorem chargeQueued (related : hub.Alike alike other)
    (spends : ∀ {bucket bucket'} (bytes : Nat), alike bucket bucket' →
      alike (bucket.spend bytes) (bucket'.spend bytes))
    (account : AccountId) (queued : Nat) :
    (hub.chargeQueued account queued).Alike alike
      (other.chargeQueued account queued) := by
  rcases related.cases account with ⟨left, right⟩ | ⟨acct, rate, left, right, same⟩
  · simp only [Hub.chargeQueued, left, right]
    exact related
  · simp only [Hub.chargeQueued, left, right]
    refine related.setAccount ?_ account
    exact ⟨_, rfl, spends _ same⟩

theorem receive (order : HashOrder) (related : hub.Alike alike other)
    (spends : ∀ {bucket bucket'} (bytes : Nat), alike bucket bucket' →
      alike (bucket.spend bytes) (bucket'.spend bytes))
    (conn : ConnId) (frame : Frame) :
    Lockstep alike (hub.receive order conn frame)
      (other.receive order conn frame) := by
  simp only [Hub.receive, related.connAccount_eq]
  split
  · exact .returns related _
  next account _ =>
    refine (related.route order account conn frame {}).bind ?_
    intro hub other fx related
    exact (related.chargeQueued spends account fx.queued).finish order fx

theorem close (order : HashOrder) (related : hub.Alike alike other) (conn : ConnId)
    (frame : Option Frame) :
    Lockstep alike (hub.close order conn frame) (other.close order conn frame) := by
  unfold Hub.close
  split
  · exact related.finish order _
  · exact finishInStep order (related.forget order conn {})

theorem deliver (order : HashOrder) (related : hub.Alike alike other)
    (conn : ConnId) (frame : Frame) :
    Lockstep alike (hub.deliver order conn frame)
      (other.deliver order conn frame) := by
  simp only [Hub.deliver, related.connAccount_eq]
  split
  · exact .returns related _
  next account _ =>
    exact finishInStep order (related.enqueue account conn frame {})

theorem takeOutbound (related : hub.Alike alike other) (conn : ConnId)
    (budget : Nat) :
    Lockstep alike (hub.takeOutbound conn budget) (other.takeOutbound conn budget) := by
  simp only [Hub.takeOutbound, related.connAccount_eq]
  split
  · exact .returns related _
  next account _ =>
    rcases related.cases account with
      ⟨left, right⟩ | ⟨acct, rate, left, right, same⟩
    · simp only [left, right]
      exact .returns related _
    · simp only [left, right]
      split
      · exact .returns related _
      · refine .after _ fun taken => .returns (related.setAccount ?_ account) _
        exact ⟨rate, rfl, same⟩

omit [Codec] in
theorem refuseHello (related : hub.Alike alike other) (account : AccountId)
    (hello : Hello) :
    other.refuseHello account hello = hub.refuseHello account hello := by
  rcases related.cases account with ⟨left, right⟩ | ⟨acct, rate, left, right, -⟩
  · simp only [Hub.refuseHello, related.limits_eq, related.mem_accounts,
      related.len_accounts, left, right]
  · simp only [Hub.refuseHello, related.limits_eq, related.mem_accounts,
      related.len_accounts, left, right]

/-- The part of `connect` after every check, when the refilled budgets are
alike. -/
theorem connectChecked (order : HashOrder) (related : hub.Alike alike other)
    (account : AccountId) (hello : Hello) (nowMs monoMs : Nat) (revoker : Revoker)
    (opens : ∀ bucket, alike bucket bucket)
    (spends : ∀ {bucket bucket'}, alike bucket bucket' →
      alike ((bucket.refill monoMs hub.limits.accountBytesPerSecond
          hub.limits.accountBurstBytes).spend connectCostBytes)
        ((bucket'.refill monoMs hub.limits.accountBytesPerSecond
          hub.limits.accountBurstBytes).spend connectCostBytes)) :
    Lockstep alike
      (hub.connectChecked order account hello nowMs monoMs revoker)
      (other.connectChecked order account hello nowMs monoMs revoker) := by
  obtain ⟨acct, rate, left, right, same⟩ : ∃ acct rate,
      (hub.accounts.lookup account).getD {} = acct ∧
        (other.accounts.lookup account).getD {} = { acct with rate } ∧
          alike acct.rate rate := by
    rcases related.cases account with
      ⟨left, right⟩ | ⟨acct, rate, left, right, same⟩
    · exact ⟨{}, {}, by rw [left]; rfl, by rw [right]; rfl, opens {}⟩
    · exact ⟨acct, rate, by rw [left]; rfl, by rw [right]; rfl, same⟩
  have greeting : other.welcome nowMs revoker = hub.welcome nowMs revoker := by
    simp only [Hub.welcome, related.limits_eq]
  simp only [Hub.connectChecked, left, right, greeting, related.limits_eq,
    related.nextConn_eq, related.connAccount_eq]
  refine (finishInStep order (Alike.enqueueAll ?_ account _ _ _)).bind ?_
  · refine ⟨rfl, rfl, rfl, related.epochState_eq, related.clock_eq, fun probe => ?_⟩
    simp only [HashMap.lookup_insert_eq]
    split
    · exact .some ⟨_, rfl, spends same⟩
    · exact related.accounts probe
  · intro hub other actions related
    exact .returns related _

end Hub.Alike

end Relating

end WindowMlHub
