import WindowMlHub.RelayBounds
import WindowMlHub.RelayBucketSchedules

/-!
# The work that a frame causes

What a frame makes the relay queue is work that its account caused, and is charged to it
after the frame was routed: a published envelope once for each subscriber, a backfill once
for each entry.  The limits of the account bound both, so they bound what one frame costs.
-/

namespace WindowMlHub

open CheckedEvaluation HashTables

/-- The most frames that one frame makes the relay queue before anything is closed. -/
def Limits.mostQueued (limits : Limits) : Nat :=
  max limits.maxConnectionsPerAccount
    (max limits.ringSessionEvents limits.ringTelemetry + 1)

theorem Limits.one_le_mostQueued (limits : Limits) : 1 ≤ limits.mostQueued :=
  le_trans (Nat.le_add_left 1 _) (le_max_right _ _)

theorem Limits.maxConnections_le_mostQueued (limits : Limits) :
    limits.maxConnectionsPerAccount ≤ limits.mostQueued :=
  le_max_left _ _

theorem Limits.ringCapacity_lt_mostQueued (limits : Limits) (kind : Kind) :
    limits.ringCapacity kind < limits.mostQueued := by
  refine Nat.lt_of_lt_of_le ?_ (le_max_right _ _)
  unfold Limits.ringCapacity
  split <;> omega

section Queueing

variable [Codec] {hub hub' : Hub} {account : AccountId} {fx fx' : Effects}

omit [Codec] in
theorem queued_settle (c : Conn) (id : ConnId) (pushed : Outbound × Pushed) (fx : Effects) :
    (c.settle id pushed fx).2.queued ≤ fx.queued + 1 := by
  unfold Conn.settle Conn.arm Effects.closing Effects.wakeUp
  split
  · dsimp only
    split
    · exact le_rfl
    · dsimp only
      split <;> exact le_rfl
  · exact Nat.le_succ _

theorem queued_enqueue (hub : Hub) (account : AccountId) (conn : ConnId) (frame : Frame)
    (fx : Effects) : (hub.enqueue account conn frame fx).2.queued ≤ fx.queued + 1 := by
  unfold Hub.enqueue
  split
  · exact Nat.le_succ _
  split
  · exact Nat.le_succ _
  · exact queued_settle _ _ _ _

theorem queued_of_enqueue {conn : ConnId} {frame : Frame}
    (ran : (.ok (hub.enqueue account conn frame fx) : Checked (Hub × Effects)) =
      .ok (hub', fx')) : fx'.queued ≤ fx.queued + 1 := by
  have bound := queued_enqueue hub account conn frame fx
  rw [Except.ok.inj ran] at bound
  exact bound

theorem queued_of_notice {conn : ConnId} {frame : Frame}
    (ran : (.ok (hub.enqueue account conn frame fx) : Checked (Hub × Effects)) =
      .ok (hub', fx')) (limits : Limits) : fx'.queued ≤ fx.queued + limits.mostQueued := by
  have one := queued_of_enqueue ran
  have least := limits.one_le_mostQueued
  omega

/-- A published entry is queued once for each subscriber at most. -/
theorem queued_fanOut {limits : Limits} {key : StreamKey} {kind : Kind} {epoch : Nat}
    {entry : Entry} {ids : List ConnId} {conns conns' : HashMap ConnId Conn}
    (ran : fanOut limits key kind epoch entry ids conns fx = .ok (conns', fx')) :
    fx'.queued ≤ fx.queued + ids.length := by
  induction ids generalizing conns fx with
  | nil =>
      cases ran
      exact le_rfl
  | cons id ids ih =>
      rw [List.length_cons]
      unfold fanOut at ran
      split at ran
      · have := ih ran
        omega
      · next c _ =>
          simp only [bind_eq_ok] at ran
          obtain ⟨pushed, -, ran⟩ := ran
          have one := queued_settle c id pushed fx
          have rest := ih ran
          omega

/-- A backfill is queued once for each entry at most. -/
theorem queued_pushBackfill {limits : Limits} {key : StreamKey} {kind : Kind} {epoch : Nat}
    {entries : List Entry} {out out' : Outbound} {queued queued' : Nat} {pushed : Pushed}
    (ran : pushBackfill limits key kind epoch entries out queued =
      .ok (out', queued', pushed)) : queued' ≤ queued + entries.length := by
  induction entries generalizing out queued with
  | nil =>
      cases ran
      exact le_rfl
  | cons entry entries ih =>
      rw [List.length_cons]
      simp only [pushBackfill, bind_eq_ok] at ran
      obtain ⟨⟨next, answer⟩, -, ran⟩ := ran
      cases answer with
      | ok _ =>
          have := ih ran
          omega
      | error slow =>
          cases ran
          omega

/-- An account in good order, with no more connections than its limits allow. -/
structure Account.Peopled (limits : Limits) (acct : Account) : Prop where
  ok : acct.Ok limits
  conns_le : HashMap.len acct.conns ≤ limits.maxConnectionsPerAccount

theorem queued_publishInto (order : HashOrder) {acct : Account}
    (found : hub.accounts.lookup account = some acct) (peopled : acct.Peopled hub.limits)
    {key : StreamKey} {kind : Kind} {epoch : Nat} {env : Envelope}
    (ran : hub.publishInto order account key kind epoch env fx = .ok (hub', fx')) :
    fx'.queued ≤ fx.queued + hub.limits.maxConnectionsPerAccount := by
  simp only [Hub.publishInto, bind_eq_ok, expect_eq_ok] at ran
  obtain ⟨record, recordFound, stream, isStream, _, _, ringBytes, _, ⟨conns, fanned⟩, ran,
    acct', _, done⟩ := ran
  obtain rfl := Option.some.inj (found.symm.trans recordFound)
  cases done
  have bound := queued_fanOut ran
  have known : stream.subscribers.keys.length ≤ acct.conns.keys.length := by
    refine (List.subperm_of_subset (AList.keys_nodup _) fun id member => ?_).length_le
    exact peopled.ok.subscriber_known isStream id member
  have few : acct.conns.keys.length ≤ hub.limits.maxConnectionsPerAccount := peopled.conns_le
  rw [Walk.length_list] at bound
  exact bound.trans (by omega)

theorem queued_publish (order : HashOrder) {acct : Account}
    (found : hub.accounts.lookup account = some acct) (peopled : acct.Peopled hub.limits)
    (tidy : acct.Tidy) {conn : ConnId} {key : StreamKey} {kind : Kind} {env : Envelope}
    (ran : hub.publish order account conn key kind env fx = .ok (hub', fx')) :
    fx'.queued ≤ fx.queued + hub.limits.mostQueued := by
  simp only [Hub.publish, bind_eq_ok] at ran
  obtain ⟨⟨ensuredHub, ensured⟩, ensuring, ran⟩ := ran
  rcases Hub.ensureStream_spec order found peopled.ok tidy key fx with
    full | ⟨roomy, acct', made, room⟩
  · cases ensuring.symm.trans full
    cases ran
    exact Nat.le_add_right _ _
  cases ensuring.symm.trans made
  have peopled' : acct'.Peopled hub.limits :=
    ⟨room.ok, by rw [room.conns_eq]; exact peopled.conns_le⟩
  rw [if_pos rfl] at ran
  simp only [bind_eq_ok, index_eq_ok] at ran
  obtain ⟨record, recordFound, stream, _, ran⟩ := ran
  have most := hub.limits.maxConnections_le_mostQueued
  split at ran
  · split at ran
    · exact queued_of_notice ran _
    · have bound := queued_publishInto order room.within.record
        (room.within.limits_eq ▸ peopled') ran
      rw [room.within.limits_eq] at bound
      omega
  · simp only [bind_eq_ok, Hub.nextEpoch] at ran
    obtain ⟨⟨numbered, epoch⟩, ⟨_, _, numbering⟩, ran⟩ := ran
    have record : numbered.accounts.lookup account = some acct' := by
      cases numbering
      exact room.within.record
    have sameLimits : numbered.limits = hub.limits := by
      cases numbering
      exact room.within.limits_eq
    have bound := queued_publishInto order record (sameLimits ▸ peopled') ran
    rw [sameLimits] at bound
    omega

theorem queued_direct {conn : ConnId} {target : Bytes} {env : Envelope}
    (ran : hub.direct account conn target env fx = .ok (hub', fx')) :
    fx'.queued ≤ fx.queued + 1 := by
  unfold Hub.direct at ran
  split at ran
  · exact queued_of_enqueue ran
  · simp only [bind_eq_ok, expect_eq_ok] at ran
    obtain ⟨acct, _, c, _, ran⟩ := ran
    split at ran
    · cases ran
      exact queued_settle _ _ _ _
    · next failed =>
        have bound := queued_of_enqueue ran
        rw [Conn.settle, failed] at bound
        exact bound

theorem queued_onEnvelope (order : HashOrder) {acct : Account}
    (found : hub.accounts.lookup account = some acct) (peopled : acct.Peopled hub.limits)
    (tidy : acct.Tidy) {conn : ConnId} {env : Envelope}
    (ran : hub.onEnvelope order account conn env fx = .ok (hub', fx')) :
    fx'.queued ≤ fx.queued + hub.limits.mostQueued := by
  have least := hub.limits.one_le_mostQueued
  have nothing : fx.queued ≤ fx.queued + hub.limits.mostQueued := Nat.le_add_right _ _
  unfold Hub.onEnvelope at ran
  split at ran
  · cases ran
    exact nothing
  split at ran
  · cases ran
    exact nothing
  split at ran
  · cases ran
    exact nothing
  simp only at ran
  split at ran
  · split at ran
    · exact queued_of_notice ran _
    · exact queued_publish order found peopled tidy ran
  · split at ran
    · exact queued_of_notice ran _
    · exact queued_publish order found peopled tidy ran
  · exact (queued_direct ran).trans (by omega)
  · exact (queued_direct ran).trans (by omega)
  · exact (queued_direct ran).trans (by omega)
  · exact queued_of_notice ran _
  · exact queued_of_notice ran _

/-- A backfill is what a ring holds, and the notice that it is complete. -/
theorem queued_subscribeTo {acct : Account}
    (found : hub.accounts.lookup account = some acct) (ok : acct.Ok hub.limits)
    {conn : ConnId} {key : StreamKey} {since : Option Position}
    (ran : hub.subscribeTo account conn key since fx = .ok (hub', fx')) :
    fx'.queued ≤ fx.queued + hub.limits.mostQueued := by
  simp only [Hub.subscribeTo, bind_eq_ok, expect_eq_ok] at ran
  obtain ⟨record, recordFound, stream, isStream, c, _, purged, _, ⟨out, queued, pushed⟩,
    pushing, ran⟩ := ran
  obtain rfl := Option.some.inj (found.symm.trans recordFound)
  have retained : (stream.history since).1.length < hub.limits.mostQueued := by
    unfold Stream.history
    split
    · next ring isRing =>
        have ringOk := ok.ring_ok_of_lookup isStream isRing
        refine Nat.lt_of_le_of_lt ?_ (hub.limits.ringCapacity_lt_mostQueued ring.kind)
        exact (List.length_filter_le _ _).trans ringOk.length_le_capacity
    · exact hub.limits.one_le_mostQueued
  have bound := queued_pushBackfill pushing
  split at ran
  · cases ran
    exact bound.trans (by omega)
  · have notice := queued_of_enqueue ran
    dsimp only at notice
    omega

theorem queued_onSubscribe (order : HashOrder) {acct : Account}
    (found : hub.accounts.lookup account = some acct) (ok : acct.Ok hub.limits)
    (tidy : acct.Tidy) {conn : ConnId} {request : Subscribe}
    (ran : hub.onSubscribe order account conn request fx = .ok (hub', fx')) :
    fx'.queued ≤ fx.queued + hub.limits.mostQueued := by
  unfold Hub.onSubscribe at ran
  split at ran
  · exact queued_of_notice ran _
  next stream _ =>
    split at ran
    · exact queued_of_notice ran _
    simp only [bind_eq_ok] at ran
    obtain ⟨_, _, ran⟩ := ran
    split at ran
    · cases ran
      exact Nat.le_add_right _ _
    simp only [bind_eq_ok] at ran
    obtain ⟨⟨ensuredHub, ensured⟩, ensuring, ran⟩ := ran
    rcases Hub.ensureStream_spec order found ok tidy ⟨stream.publisher, stream.channel⟩ fx with
      full | ⟨roomy, acct', made, room⟩
    · cases ensuring.symm.trans full
      cases ran
      exact Nat.le_add_right _ _
    · cases ensuring.symm.trans made
      have bound := queued_subscribeTo room.within.record (room.within.limits_eq ▸ room.ok) ran
      rwa [room.within.limits_eq] at bound

/-- Whatever a frame asks for, what it makes the relay queue is within the limits of its
account. -/
theorem queued_route (order : HashOrder) {acct : Account}
    (found : hub.accounts.lookup account = some acct) (peopled : acct.Peopled hub.limits)
    (tidy : acct.Tidy) {conn : ConnId} {frame : Frame}
    (ran : hub.route order account conn frame fx = .ok (hub', fx')) :
    fx'.queued ≤ fx.queued + hub.limits.mostQueued := by
  unfold Hub.route at ran
  split at ran
  · exact queued_onEnvelope order found peopled tidy ran
  · exact queued_onSubscribe order found peopled.ok tidy ran
  · split at ran
    · cases ran
      exact Nat.le_add_right _ _
    · simp only [bind_eq_ok] at ran
      obtain ⟨left, _, done⟩ := ran
      cases done
      exact Nat.le_add_right _ _
  all_goals first
    | exact queued_of_notice ran _
    | cases ran; exact Nat.le_add_right _ _

/-- A call that no account is charged for. -/
def Call.isFree : Call → Bool
  | .close _ _ | .deliver _ _ | .takeOutbound _ _ => true
  | _ => false

/-- What no account is charged for leaves the budgets alone. -/
theorem rate_of_free {order : HashOrder} {call : Call} {reply : Reply} {bucket : Bucket}
    (free : call.isFree = true) (ran : hub.apply order call = .ok (hub', reply))
    (found : hub'.rate? account = some bucket) : hub.rate? account = some bucket := by
  cases call with
  | close conn frame =>
      simp only [Hub.apply, bind_eq_ok] at ran
      obtain ⟨⟨closed, actions⟩, closing, done⟩ := ran
      cases done
      unfold Hub.close at closing
      split at closing
      · exact (Hub.ratesKept_finish order closing).rate?_eq found
      · exact ((Hub.follows_forget lasting_sameRate order hub conn {}).ratesKept.trans
          (Hub.ratesKept_finish order closing)).rate?_eq found
  | deliver conn frame =>
      simp only [Hub.apply, bind_eq_ok] at ran
      obtain ⟨⟨delivered, actions⟩, delivering, done⟩ := ran
      cases done
      unfold Hub.deliver at delivering
      split at delivering
      · cases delivering
        exact found
      · exact ((Hub.follows_enqueue lasting_sameRate hub _ conn frame {}).ratesKept.trans
          (Hub.ratesKept_finish order delivering)).rate?_eq found
  | takeOutbound conn budget =>
      simp only [Hub.apply, bind_eq_ok] at ran
      obtain ⟨⟨taken, handed⟩, taking, done⟩ := ran
      cases done
      refine Hub.RatesKept.rate?_eq ?_ found
      unfold Hub.takeOutbound at taking
      split at taking
      · cases taking
        exact .of_eq rfl
      split at taking
      · cases taking
        exact .of_eq rfl
      next acct present =>
        split at taking
        · cases taking
          exact .of_eq rfl
        · simp only [bind_eq_ok] at taking
          obtain ⟨_, _, done⟩ := taking
          cases done
          exact Hub.ratesKept_setAccount present rfl
  | connect _ _ _ _ _ => cases free
  | receive _ _ => cases free
  | charge _ _ _ => cases free

/-- A refused handshake brings a budget up to date at most. -/
theorem rate_of_refused {order : HashOrder} {target : AccountId} {hello : Hello}
    {nowMs monoMs : Nat} {revoker : Revoker} {frame : Frame} {bucket : Bucket}
    (ran : hub.connect order target hello nowMs monoMs revoker = .ok (hub', .error frame))
    (found : hub'.rate? account = some bucket) :
    hub.rate? account = some bucket ∨
      ∃ before, hub.rate? account = some before ∧
        bucket = before.refill monoMs hub.limits.accountBytesPerSecond
          hub.limits.accountBurstBytes := by
  unfold Hub.connect at ran
  split at ran
  · cases ran
    exact .inl found
  split at ran
  · obtain ⟨⟨_, admitted⟩, -⟩ := Hub.connectChecked_rate ran found
    cases admitted
  next acct present =>
    simp only at ran
    split at ran
    · cases ran
      rw [Hub.rate?_setAccount] at found
      split at found
      next same =>
        subst same
        exact .inr ⟨acct.rate, Hub.rate?_of_lookup present, (Option.some.inj found).symm⟩
      next differs => exact .inl found
    · obtain ⟨⟨_, admitted⟩, -⟩ := Hub.connectChecked_rate ran found
      cases admitted

/-- A connection is charged for, and an account that is more than a second in debt gets
none. -/
theorem rate_of_admitted {order : HashOrder} {target : AccountId} {hello : Hello}
    {nowMs monoMs : Nat} {revoker : Revoker} {admission : ConnId × List Action}
    {bucket : Bucket}
    (ran : hub.connect order target hello nowMs monoMs revoker = .ok (hub', .ok admission))
    (found : hub'.rate? account = some bucket) :
    (account ≠ target ∧ hub.rate? account = some bucket) ∨
      account = target ∧
        bucket = (((hub.rate? account).getD {}).refill monoMs hub.limits.accountBytesPerSecond
          hub.limits.accountBurstBytes).spend connectCostBytes ∧
        ∀ before, hub.rate? account = some before →
          (before.refill monoMs hub.limits.accountBytesPerSecond
            hub.limits.accountBurstBytes).waitMs hub.limits.accountBytesPerSecond ≤
              connectRefusedAboveMs := by
  unfold Hub.connect at ran
  split at ran
  · cases ran
  split at ran
  next absent =>
    obtain ⟨-, elsewhere | ⟨rfl, drawn⟩⟩ := Hub.connectChecked_rate ran found
    · exact .inl elsewhere
    · refine .inr ⟨rfl, drawn, fun before held => ?_⟩
      simp [Hub.rate?, absent] at held
  next acct present =>
    have rated := Hub.rate?_of_lookup present
    simp only at ran
    split at ran
    · cases ran
    next short =>
      obtain ⟨-, ⟨differs, kept⟩ | ⟨rfl, drawn⟩⟩ := Hub.connectChecked_rate ran found
      · rw [Hub.rate?_setAccount, if_neg differs] at kept
        exact .inl ⟨differs, kept⟩
      · refine .inr ⟨rfl, ?_, fun before held => ?_⟩
        · rw [drawn, Hub.rate?_setAccount, if_pos rfl, rated]
          simp only [Option.getD_some, Hub.setAccount_limits, Bucket.refill_refill]
        · obtain rfl := Option.some.inj (rated.symm.trans held)
          exact Nat.le_of_not_lt short

/-- What a received frame does to the budget of an account: nothing, or it is charged for
what a frame of one of its connections queued. -/
theorem rate_of_receive (order : HashOrder) (ok : hub.Ok) (thrifty : hub.Thrifty)
    {conn : ConnId} {frame : Frame} {actions : List Action} {bucket : Bucket}
    (ran : hub.receive order conn frame = .ok (hub', actions))
    (found : hub'.rate? account = some bucket) :
    hub.rate? account = some bucket ∨
      hub.connAccount.lookup conn = some account ∧
        ∃ before queued, hub.rate? account = some before ∧ queued ≤ hub.limits.mostQueued ∧
          bucket = before.spend (queued * frameCostBytes) := by
  unfold Hub.receive at ran
  split at ran
  · cases ran
    exact .inl found
  next target known =>
    simp only [bind_eq_ok] at ran
    obtain ⟨⟨routed, fx⟩, routing, finishing⟩ := ran
    have spent := (Hub.ratesKept_finish order finishing).rate?_eq found
    have kept := Hub.ratesKept_route order routing
    unfold Hub.chargeQueued at spent
    split at spent
    · exact .inl (kept.rate?_eq spent)
    next acct present =>
      rw [Hub.rate?_setAccount] at spent
      split at spent
      next same =>
        subst same
        obtain ⟨record, recordFound, _⟩ := (ok.known_iff conn account).mp known
        have bound := queued_route order recordFound
          ⟨ok.account_ok recordFound, (thrifty.each recordFound).conns_le⟩
          (ok.account_tidy recordFound) routing
        rw [show ({} : Effects).queued = 0 from rfl, Nat.zero_add] at bound
        exact .inr ⟨known, acct.rate, fx.queued,
          kept.rate?_eq (Hub.rate?_of_lookup present), bound, (Option.some.inj spent).symm⟩
      next differs => exact .inl (kept.rate?_eq spent)

/-- What a charge does to the budget of an account: nothing, or it is brought up to date and
spent from, and the wait that is answered repays what is owed then. -/
theorem rate_of_charge (order : HashOrder) {conn : ConnId} {bytes nowMs wait : Nat}
    {actions : List Action} {bucket : Bucket}
    (ran : hub.charge order conn bytes nowMs = .ok (hub', wait, actions))
    (found : hub'.rate? account = some bucket) :
    (hub.rate? account = some bucket ∧ hub.connAccount.lookup conn ≠ some account) ∨
      hub.connAccount.lookup conn = some account ∧
        ∃ before, hub.rate? account = some before ∧
          bucket = (before.refill nowMs hub.limits.accountBytesPerSecond
            hub.limits.accountBurstBytes).spend bytes ∧
          wait = bucket.waitMs hub.limits.accountBytesPerSecond := by
  unfold Hub.charge at ran
  split at ran
  · next unknown =>
      cases ran
      exact .inl ⟨found, by simp [unknown]⟩
  next target known =>
    split at ran
    · next missing =>
        cases ran
        refine .inl ⟨found, fun same => ?_⟩
        obtain rfl := Option.some.inj (known.symm.trans same)
        simp [Hub.rate?, missing] at found
    next acct present =>
      simp only [bind_eq_ok] at ran
      obtain ⟨⟨final, acted⟩, finishing, done⟩ := ran
      cases done
      have kept := (Hub.ratesKept_finish order finishing).rate?_eq found
      rw [Hub.rate?_setAccount, Hub.notify_rate] at kept
      split at kept
      next same =>
        subst same
        obtain rfl := Option.some.inj kept
        exact .inr ⟨known, acct.rate, Hub.rate?_of_lookup present, rfl, rfl⟩
      next differs =>
        refine .inl ⟨kept, fun same => differs ?_⟩
        exact Option.some.inj (same.symm.trans known)

/-- The wait that a charge answers is that of the account it is for. -/
theorem wait_of_charge (order : HashOrder) {conn : ConnId} {bytes nowMs wait : Nat}
    {actions : List Action}
    (ran : hub.charge order conn bytes nowMs = .ok (hub', wait, actions)) :
    wait = 0 ∨ ∃ account before, hub.connAccount.lookup conn = some account ∧
      hub.rate? account = some before ∧
      wait = ((before.refill nowMs hub.limits.accountBytesPerSecond
        hub.limits.accountBurstBytes).spend bytes).waitMs hub.limits.accountBytesPerSecond := by
  unfold Hub.charge at ran
  split at ran
  · cases ran
    exact .inl rfl
  next account known =>
    split at ran
    · cases ran
      exact .inl rfl
    next acct present =>
      simp only [bind_eq_ok] at ran
      obtain ⟨_, _, done⟩ := ran
      cases done
      exact .inr ⟨account, acct.rate, known, Hub.rate?_of_lookup present, rfl⟩

end Queueing

/-! ## What a bucket is worth -/

namespace Bucket

/-- What a bucket holds at a time, if nothing is spent from it until then. -/
def worth (rate burst : Nat) (bucket : Bucket) (timeMs : Nat) : Int :=
  (bucket.refill timeMs rate burst).balance

variable {rate burst credited : Nat} {bucket : Bucket}

theorem income_nonneg (rate credited timeMs : Nat) :
    0 ≤ ((timeMs - credited : Nat) : Int) * rate :=
  Int.mul_nonneg (Int.natCast_nonneg _) (Int.natCast_nonneg _)

theorem worth_eq (sized : burst < 2 ^ 64) (inRange : bucket.InRange burst)
    (started : bucket.creditedMs = some credited) (timeMs : Nat) :
    bucket.worth rate burst timeMs =
      min (bucket.balance + min (((timeMs - credited : Nat) : Int) * rate) ceiling)
        (burst * 1000) := by
  have high := inRange.high
  have low := inRange.low
  unfold worth refill
  rw [started]
  dsimp only
  split
  next late =>
    rw [Nat.sub_eq_zero_of_le late]
    unfold ceiling
    simp only [Nat.cast_zero, zero_mul]
    omega
  next later =>
    have earned := income_nonneg rate credited timeMs
    dsimp only
    generalize ((timeMs - credited : Nat) : Int) * rate = income at earned
    unfold floor at low
    unfold saturate ceiling
    omega

theorem balance_le_worth (sized : burst < 2 ^ 64) (inRange : bucket.InRange burst)
    (started : bucket.creditedMs = some credited) (timeMs : Nat) :
    bucket.balance ≤ bucket.worth rate burst timeMs := by
  rw [worth_eq sized inRange started]
  have high := inRange.high
  have earned := income_nonneg rate credited timeMs
  unfold ceiling
  omega

theorem worth_mono (sized : burst < 2 ^ 64) (inRange : bucket.InRange burst)
    (started : bucket.creditedMs = some credited) {first second : Nat}
    (ordered : first ≤ second) :
    bucket.worth rate burst first ≤ bucket.worth rate burst second := by
  rw [worth_eq sized inRange started, worth_eq sized inRange started]
  have more : ((first - credited : Nat) : Int) * rate ≤ ((second - credited : Nat) : Int) * rate :=
    mul_le_mul_of_nonneg_right (by omega) (Int.natCast_nonneg _)
  omega

theorem worth_le_refill (sized : burst < 2 ^ 64) (inRange : bucket.InRange burst)
    (started : bucket.creditedMs = some credited) (nowMs timeMs : Nat) :
    bucket.worth rate burst timeMs ≤ (bucket.refill nowMs rate burst).worth rate burst timeMs := by
  have refilled : (bucket.refill nowMs rate burst).creditedMs = some (max credited nowMs) :=
    refill_credited started nowMs
  have balance : (bucket.refill nowMs rate burst).balance = bucket.worth rate burst nowMs := rfl
  rw [worth_eq sized (inRange.refill nowMs) refilled, balance, worth_eq sized inRange started,
    worth_eq sized inRange started]
  have parts : ((timeMs - credited : Nat) : Int) * rate ≤
      ((timeMs - max credited nowMs : Nat) : Int) * rate +
        ((nowMs - credited : Nat) : Int) * rate := by
    rw [← add_mul]
    exact mul_le_mul_of_nonneg_right (by omega) (Int.natCast_nonneg _)
  have first := income_nonneg rate credited nowMs
  have second := income_nonneg rate (max credited nowMs) timeMs
  unfold ceiling
  omega

theorem spend_balance_ge (bytes : Nat) (bucket : Bucket) (high : bucket.balance ≤ ceiling) :
    bucket.balance - bytes * 1000 ≤ (bucket.spend bytes).balance := by
  unfold spend saturate
  unfold ceiling at high
  dsimp only
  omega

theorem worth_le_spend (sized : burst < 2 ^ 64) (inRange : bucket.InRange burst)
    (started : bucket.creditedMs = some credited) (bytes timeMs : Nat) :
    bucket.worth rate burst timeMs ≤
      (bucket.spend bytes).worth rate burst timeMs + bytes * 1000 := by
  have spent := spend_balance_ge bytes bucket (inRange.high.trans (cap_le_ceiling sized))
  rw [worth_eq sized inRange started, worth_eq sized (inRange.spend bytes) started]
  omega

theorem worth_le_drawn (sized : burst < 2 ^ 64) (inRange : bucket.InRange burst)
    (started : bucket.creditedMs = some credited) (bytes nowMs timeMs : Nat) :
    bucket.worth rate burst nowMs ≤
      ((bucket.refill nowMs rate burst).spend bytes).worth rate burst timeMs + bytes * 1000 := by
  have refilled : (bucket.refill nowMs rate burst).creditedMs = some (max credited nowMs) :=
    refill_credited started nowMs
  have held : (bucket.refill nowMs rate burst).InRange burst := inRange.refill nowMs
  have spent := spend_balance_ge bytes _ (held.high.trans (cap_le_ceiling sized))
  have kept : ((bucket.refill nowMs rate burst).spend bytes).balance ≤
      ((bucket.refill nowMs rate burst).spend bytes).worth rate burst timeMs :=
    balance_le_worth sized (held.spend bytes) refilled timeMs
  have balance : (bucket.refill nowMs rate burst).balance = bucket.worth rate burst nowMs := rfl
  omega

theorem worth_repaid (sized : burst < 2 ^ 64) (positive : 0 < rate)
    (inRange : bucket.InRange burst) (started : bucket.creditedMs = some credited)
    (small : -(2 ^ 64 - 1) ≤ bucket.balance) {timeMs : Nat}
    (waited : credited + bucket.waitMs rate ≤ timeMs) :
    0 ≤ bucket.worth rate burst timeMs := by
  by_cases solvent : 0 ≤ bucket.balance
  · exact solvent.trans (balance_le_worth sized inRange started timeMs)
  refine le_trans ?_ (worth_mono sized inRange started waited)
  refine (waitMs_isLeast positive started ⟨bucket.balance.natAbs, by omega, ?_⟩).1
  have earned : (bucket.balance.natAbs : Int) ≤ (bucket.balance.natAbs : Int) * rate :=
    le_mul_of_one_le_right (Int.natCast_nonneg _) (by exact_mod_cast positive)
  change 0 ≤ bucket.worth rate burst _
  rw [worth_eq sized inRange started, Nat.add_sub_cancel_left]
  unfold ceiling
  omega

theorem waitMs_le (positive : 0 < rate) {debt : Nat}
    (owing : -(debt * 1000 : Int) ≤ bucket.balance) :
    bucket.waitMs rate ≤ (debt * 1000 + rate - 1) / rate := by
  unfold waitMs
  split
  · exact Nat.zero_le _
  · refine (min_le_left _ _).trans (Nat.div_le_div_right ?_)
    omega

end Bucket

end WindowMlHub
