import WindowMlHub.RelayQueueHistory
import WindowMlHub.RelayRecords

/-!
# The bounds of the relay

Whatever calls are made, a queue, a ring, an account and the relay itself stay
within their limits.  Counts are checked before anything is added; a byte bound
is checked after a push, and a connection over it is closed before the call
returns; a ring over the account's budget is trimmed by the publish that filled
it.  Only the greeting of a new connection is queued unchecked, so it has to fit.
-/

namespace WindowMlHub

open CheckedEvaluation HashTables

/-! ## Counts -/

/-- An account within its bounds. -/
structure Account.Thrifty (limits : Limits) (acct : Account) : Prop where
  streams_le : HashMap.len acct.streams ≤ limits.maxStreamsPerAccount
  conns_le : HashMap.len acct.conns ≤ limits.maxConnectionsPerAccount
  subs_le : ∀ {id c}, acct.conns.lookup id = some c →
    HashMap.len c.subs ≤ limits.maxSubscriptionsPerConnection
  ringBytes_le : acct.ringBytes ≤ limits.accountRingBytes

/-- Every account is within its bounds, and there are not too many. -/
structure Hub.Thrifty (hub : Hub) : Prop where
  accounts_le : HashMap.len hub.accounts ≤ hub.limits.maxAccounts
  each : ∀ {account acct}, hub.accounts.lookup account = some acct →
    acct.Thrifty hub.limits

/-- A record in which nothing has been added. -/
structure Account.Shrinks (acct acct' : Account) : Prop where
  streams_le : HashMap.len acct'.streams ≤ HashMap.len acct.streams
  conns_le : HashMap.len acct'.conns ≤ HashMap.len acct.conns
  subs_le : ∀ {id c'}, acct'.conns.lookup id = some c' →
    ∃ c, acct.conns.lookup id = some c ∧
      HashMap.len c'.subs ≤ HashMap.len c.subs
  ringBytes_le : acct'.ringBytes ≤ acct.ringBytes

namespace Account

variable {limits : Limits} {acct acct' : Account}

theorem Shrinks.thrifty (shrinks : acct.Shrinks acct')
    (thrifty : acct.Thrifty limits) : acct'.Thrifty limits := by
  refine ⟨shrinks.streams_le.trans thrifty.streams_le,
    shrinks.conns_le.trans thrifty.conns_le, fun found => ?_,
    shrinks.ringBytes_le.trans thrifty.ringBytes_le⟩
  obtain ⟨c, before, le⟩ := shrinks.subs_le found
  exact le.trans (thrifty.subs_le before)

end Account

theorem lasting_shrinks : Lasting Account.Shrinks where
  refl _ := ⟨Nat.le_refl _, Nat.le_refl _,
    fun found => ⟨_, found, Nat.le_refl _⟩, Nat.le_refl _⟩
  trans first second := by
    refine ⟨second.streams_le.trans first.streams_le,
      second.conns_le.trans first.conns_le, fun found => ?_,
      second.ringBytes_le.trans first.ringBytes_le⟩
    obtain ⟨middle, foundBetween, later⟩ := second.subs_le found
    obtain ⟨c, foundBefore, earlier⟩ := first.subs_le foundBetween
    exact ⟨c, foundBefore, later.trans earlier⟩
  conn {acct id c} c' found fewer := by
    refine ⟨Nat.le_refl _, ?_, fun {other c''} foundAfter => ?_, Nat.le_refl _⟩
    · exact (HashMap.len_insert_of_mem (HashMap.mem_of_lookup found) c').le
    · rw [HashMap.lookup_insert_eq] at foundAfter
      split at foundAfter
      next same =>
        cases foundAfter
        exact ⟨c, same ▸ found, fewer⟩
      next differs => exact ⟨c'', foundAfter, Nat.le_refl _⟩
  streams acct streams fewer :=
    ⟨fewer, Nat.le_refl _, fun found => ⟨_, found, Nat.le_refl _⟩,
      Nat.le_refl _⟩
  leave acct id online := by
    refine ⟨Nat.le_refl _, ?_, fun {other c} found => ?_, Nat.le_refl _⟩
    · by_cases member : id ∈ acct.conns
      · exact Nat.le_of_succ_le (HashMap.len_erase_of_mem member).le
      · have same : (acct.conns.erase id).entries = acct.conns.entries :=
          List.kerase_of_notMem_keys member
        simp [HashMap.len, AList.keys, same]
    · rw [HashMap.lookup_erase_eq] at found
      split at found
      · cases found
      · exact ⟨c, found, Nat.le_refl _⟩

namespace Hub

variable {hub hub' : Hub} {account : AccountId} {acct acct' : Account}

theorem Thrifty.follows (thrifty : hub.Thrifty)
    (follows : hub.Follows Account.Shrinks hub') : hub'.Thrifty := by
  refine ⟨?_, fun found => ?_⟩
  · rw [follows.limits_eq]
    exact follows.len_le.trans thrifty.accounts_le
  · obtain ⟨acct, before, shrinks⟩ := follows.record found
    rw [follows.limits_eq]
    exact shrinks.thrifty (thrifty.each before)

theorem Thrifty.setAccount (thrifty : hub.Thrifty)
    (found : hub.accounts.lookup account = some acct)
    (within : acct'.Thrifty hub.limits) :
    (hub.setAccount account acct').Thrifty := by
  refine ⟨?_, fun {other record} recorded => ?_⟩
  · exact (HashMap.len_insert_of_mem (HashMap.mem_of_lookup found) acct').le.trans
      thrifty.accounts_le
  · rw [Hub.setAccount, HashMap.lookup_insert_eq] at recorded
    split at recorded
    next same =>
      cases recorded
      exact within
    next differs => exact thrifty.each recorded

theorem thrifty_ensureStream (order : HashOrder) {key : StreamKey}
    {ensured : Bool} (thrifty : hub.Thrifty)
    (ran : hub.ensureStream order account key = .ok (hub', ensured)) :
    hub'.Thrifty ∧ hub'.limits = hub.limits := by
  simp only [ensureStream, bind_eq_ok, expect_eq_ok] at ran
  obtain ⟨acct, found, ran⟩ := ran
  have within := thrifty.each found
  split at ran
  · cases ran
    exact ⟨thrifty, rfl⟩
  next new =>
    split at ran
    · split at ran
      · cases ran
        exact ⟨thrifty, rfl⟩
      next victim chosen =>
        simp only [bind_eq_ok] at ran
        obtain ⟨ringBytes, subtracted, done⟩ := ran
        cases done
        refine ⟨thrifty.setAccount found { within with
          streams_le := ?_, ringBytes_le := ?_ }, rfl⟩
        · have victimFound := HashMap.lookup_of_mem_entries
            (order.streams.mem_list.mp (List.mem_filter.mp
              (mem_of_minByKey chosen)).1)
          have fewer := HashMap.len_erase_of_mem
            (HashMap.mem_of_lookup victimFound)
          have stillNew : key ∉ acct.streams.erase victim.1 :=
            fun member => new (AList.mem_erase.mp member).2
          rw [HashMap.len_insert_of_notMem stillNew, fewer]
          exact within.streams_le
        · exact (le_of_sub subtracted).trans within.ringBytes_le
    next room =>
      cases ran
      refine ⟨thrifty.setAccount found { within with streams_le := ?_ }, rfl⟩
      rw [HashMap.len_insert_of_notMem new]
      omega

/-- Making room for a stream leaves the connections alone. -/
theorem conns_ensureStream (order : HashOrder) {key : StreamKey}
    {ensured : Bool}
    (ran : hub.ensureStream order account key = .ok (hub', ensured))
    (found : hub.accounts.lookup account = some acct)
    (found' : hub'.accounts.lookup account = some acct') :
    acct'.conns = acct.conns := by
  simp only [ensureStream, bind_eq_ok, expect_eq_ok] at ran
  obtain ⟨record, recordFound, ran⟩ := ran
  obtain rfl : record = acct :=
    Option.some.inj (recordFound.symm.trans found)
  have unchanged (same : hub' = hub) : acct'.conns = record.conns := by
    rw [same, found] at found'
    rw [Option.some.inj found']
  have written (final : Account) (same : hub' = hub.setAccount account final)
      (kept : final.conns = record.conns) : acct'.conns = record.conns := by
    rw [same, setAccount, AList.lookup_insert] at found'
    rw [← Option.some.inj found', kept]
  split at ran
  · cases ran
    exact unchanged rfl
  · split at ran
    · split at ran
      · cases ran
        exact unchanged rfl
      · simp only [bind_eq_ok] at ran
        obtain ⟨ringBytes, _, done⟩ := ran
        cases done
        exact written _ rfl rfl
    · cases ran
      exact written _ rfl rfl

end Hub

namespace Account

variable [Codec] {limits : Limits} {acct acct' : Account}

theorem Ok.ringBytes_eq_zero (ok : acct.Ok limits)
    (empty : ∀ key stream ring, acct.streams.lookup key = some stream →
      stream.ring = some ring → ring.bytes = 0) :
    acct.ringBytes = 0 := by
  rw [ok.ringBytes_eq, HashMap.total]
  apply List.sum_eq_zero
  intro bytes member
  obtain ⟨⟨key, stream⟩, entry, rfl⟩ := List.mem_map.mp member
  cases ringFound : stream.ring with
  | none => simp [Stream.ringBytes, ringFound]
  | some ring =>
      simpa [Stream.ringBytes, ringFound] using empty key stream ring
        (HashMap.lookup_of_mem_entries entry) ringFound

omit [Codec] in
theorem le_largestRing {order : HashOrder} {key other : StreamKey}
    {stream otherStream : Stream} {ring otherRing : Ring}
    (largest : acct.largestRing order = some (key, stream, ring))
    (found : acct.streams.lookup other = some otherStream)
    (ringFound : otherStream.ring = some otherRing) :
    otherRing.bytes ≤ ring.bytes := by
  have member : (other, otherStream, otherRing) ∈
      ((order.streams.list acct.streams.entries).filterMap fun entry =>
        entry.2.ring.map fun ring => (entry.1, entry.2, ring)) := by
    refine List.mem_filterMap.mpr ⟨⟨other, otherStream⟩,
      order.streams.mem_list.mpr (HashMap.mem_entries_of_lookup found), ?_⟩
    simp [ringFound]
  have bound := le_of_maxByKey largest member
  exact bound

omit [Codec] in
theorem no_ring_of_largestRing {order : HashOrder} {key : StreamKey}
    {stream : Stream} (absent : acct.largestRing order = none)
    (found : acct.streams.lookup key = some stream) : stream.ring = none := by
  cases ringFound : stream.ring with
  | none => rfl
  | some ring =>
      have member : (key, stream, ring) ∈
          ((order.streams.list acct.streams.entries).filterMap fun entry =>
            entry.2.ring.map fun ring => (entry.1, entry.2, ring)) := by
        refine List.mem_filterMap.mpr ⟨⟨key, stream⟩,
          order.streams.mem_list.mpr (HashMap.mem_entries_of_lookup found), ?_⟩
        simp [ringFound]
      rw [eq_nil_of_maxByKey_eq_none absent] at member
      cases member

/-- The budget loop touches nothing but rings, and what it leaves is within the
budget. -/
theorem enforceRingBudget_bound (order : HashOrder) {budget fuel : Nat}
    (ran : acct.enforceRingBudget order budget fuel = .ok acct') :
    acct'.conns = acct.conns ∧
      HashMap.len acct'.streams = HashMap.len acct.streams ∧
      (acct'.Ok limits → acct'.ringBytes ≤ budget) := by
  induction fuel generalizing acct with
  | zero => cases ran
  | succ fuel ih =>
      unfold enforceRingBudget at ran
      split at ran
      · split at ran
        next key stream ring largest =>
          obtain ⟨found, ringFound⟩ := mem_of_largestRing largest
          split at ran
          next drained =>
            cases ran
            refine ⟨rfl, rfl, fun ok => ?_⟩
            have nothing : ring.bytes = 0 := by
              rw [(ok.ring_ok_of_lookup found ringFound).bytes_eq, drained]
              rfl
            rw [ok.ringBytes_eq_zero fun other otherStream otherRing
              otherFound otherRingFound => Nat.eq_zero_of_le_zero
                (nothing ▸ le_largestRing largest otherFound otherRingFound)]
            exact Nat.zero_le _
          · simp only [bind_eq_ok] at ran
            obtain ⟨⟨evicted, freed⟩, _, ringBytes, _, ran⟩ := ran
            obtain ⟨conns, streams, bound⟩ := ih ran
            refine ⟨conns, ?_, bound⟩
            rw [streams, HashMap.len_insert_of_mem
              (HashMap.mem_of_lookup found)]
        next none =>
          cases ran
          refine ⟨rfl, rfl, fun ok => ?_⟩
          rw [ok.ringBytes_eq_zero fun key stream ring found ringFound => by
            rw [no_ring_of_largestRing none found] at ringFound
            cases ringFound]
          exact Nat.zero_le _
      next within =>
        cases ran
        exact ⟨rfl, rfl, fun _ => Nat.le_of_not_lt within⟩

end Account

namespace Hub

variable [Codec] {hub hub' : Hub} {account : AccountId} {fx fx' : Effects}

theorem thrifty_publishInto (order : HashOrder) {key : StreamKey}
    {kind : Kind} {epoch : Nat} {env : Envelope} (thrifty : hub.Thrifty)
    (ran : hub.publishInto order account key kind epoch env fx =
      .ok (hub', fx'))
    (finalOk : ∀ {acct'}, hub'.accounts.lookup account = some acct' →
      acct'.Ok hub.limits) :
    hub'.Thrifty := by
  simp only [publishInto, bind_eq_ok, expect_eq_ok] at ran
  obtain ⟨acct, found, stream, streamFound, _, _, ringBytes, _, ⟨conns, fx₁⟩,
    fanned, acct', enforced, done⟩ := ran
  cases done
  have within := thrifty.each found
  have fanShrinks := lasting_fanOut lasting_shrinks acct fanned
  obtain ⟨connsEq, streamsEq, bound⟩ :=
    Account.enforceRingBudget_bound order enforced
  have ticked : ({ hub with clock := hub.clock + 1 } : Hub).Thrifty :=
    ⟨thrifty.accounts_le, thrifty.each⟩
  refine ticked.setAccount found ⟨?_, ?_, ?_, ?_⟩
  · rw [streamsEq]
    refine le_trans (le_of_eq ?_) within.streams_le
    exact HashMap.len_insert_of_mem (HashMap.mem_of_lookup streamFound) _
  · rw [connsEq]
    exact fanShrinks.conns_le.trans within.conns_le
  · intro id c connFound
    rw [connsEq] at connFound
    obtain ⟨old, oldFound, fewer⟩ := fanShrinks.subs_le connFound
    exact fewer.trans (within.subs_le oldFound)
  · exact bound (finalOk (by simp [Hub.setAccount]))

theorem thrifty_publish (order : HashOrder) {conn : ConnId} {key : StreamKey}
    {kind : Kind} {env : Envelope} (thrifty : hub.Thrifty)
    (ran : hub.publish order account conn key kind env fx = .ok (hub', fx'))
    (finalOk : ∀ {acct'}, hub'.accounts.lookup account = some acct' →
      acct'.Ok hub.limits) :
    hub'.Thrifty := by
  simp only [publish, bind_eq_ok] at ran
  obtain ⟨⟨ensuredHub, ensured⟩, ensuring, ran⟩ := ran
  obtain ⟨ensuredThrifty, limitsEq⟩ :=
    thrifty_ensureStream order thrifty ensuring
  split at ran
  · simp only [bind_eq_ok, index_eq_ok] at ran
    obtain ⟨acct, _, stream, _, ran⟩ := ran
    split at ran
    · split at ran
      · exact ensuredThrifty.follows (follows_of_enqueue lasting_shrinks ran)
      · exact thrifty_publishInto order ensuredThrifty ran
          (limitsEq ▸ finalOk)
    · simp only [bind_eq_ok, nextEpoch] at ran
      obtain ⟨⟨numbered, epoch⟩, ⟨_, _, numbering⟩, ran⟩ := ran
      have numberedThrifty : numbered.Thrifty := by
        cases numbering
        exact ⟨ensuredThrifty.accounts_le, ensuredThrifty.each⟩
      have numberedLimits : numbered.limits = hub.limits := by
        cases numbering
        exact limitsEq
      exact thrifty_publishInto order numberedThrifty ran
        (numberedLimits ▸ finalOk)
  · cases ran
    exact ensuredThrifty

theorem thrifty_onEnvelope (order : HashOrder) {conn : ConnId}
    {env : Envelope} (thrifty : hub.Thrifty)
    (ran : hub.onEnvelope order account conn env fx = .ok (hub', fx'))
    (finalOk : ∀ {acct'}, hub'.accounts.lookup account = some acct' →
      acct'.Ok hub.limits) :
    hub'.Thrifty := by
  unfold onEnvelope at ran
  split at ran
  · cases ran
    exact thrifty
  split at ran
  · cases ran
    exact thrifty
  split at ran
  · cases ran
    exact thrifty
  simp only at ran
  split at ran
  · split at ran
    · exact thrifty.follows (follows_of_enqueue lasting_shrinks ran)
    · exact thrifty_publish order thrifty ran finalOk
  · split at ran
    · exact thrifty.follows (follows_of_enqueue lasting_shrinks ran)
    · exact thrifty_publish order thrifty ran finalOk
  · exact thrifty.follows (follows_direct lasting_shrinks ran)
  · exact thrifty.follows (follows_direct lasting_shrinks ran)
  · exact thrifty.follows (follows_direct lasting_shrinks ran)
  · exact thrifty.follows (follows_of_enqueue lasting_shrinks ran)
  · exact thrifty.follows (follows_of_enqueue lasting_shrinks ran)

theorem thrifty_subscribeTo {conn : ConnId} {key : StreamKey}
    {since : Option Position} (thrifty : hub.Thrifty)
    (room : ∀ {acct c}, hub.accounts.lookup account = some acct →
      acct.conns.lookup conn = some c → key ∈ c.subs ∨
        HashMap.len c.subs < hub.limits.maxSubscriptionsPerConnection)
    (ran : hub.subscribeTo account conn key since fx = .ok (hub', fx')) :
    hub'.Thrifty := by
  simp only [subscribeTo, bind_eq_ok, expect_eq_ok] at ran
  obtain ⟨acct, found, stream, streamFound, c, connFound, purged, _,
    ⟨out, queued, pushed⟩, _, ran⟩ := ran
  have within := thrifty.each found
  have subscribed : (hub.setAccount account { acct with
      conns := acct.conns.insert conn
        { c with out, subs := c.subs.insert key () }
      streams := acct.streams.insert key
        { stream with subscribers := stream.subscribers.insert conn () } :
      Account }).Thrifty := by
    refine thrifty.setAccount found ⟨?_, ?_, ?_, within.ringBytes_le⟩
    · exact (HashMap.len_insert_of_mem
        (HashMap.mem_of_lookup streamFound) _).le.trans within.streams_le
    · exact (HashMap.len_insert_of_mem
        (HashMap.mem_of_lookup connFound) _).le.trans within.conns_le
    · intro id c' found'
      rw [HashMap.lookup_insert_eq] at found'
      split at found'
      next same =>
        cases found'
        rcases room found connFound with already | fewer
        · exact (HashMap.len_insert_of_mem already ()).le.trans
            (within.subs_le connFound)
        · by_cases already : key ∈ c.subs
          · exact (HashMap.len_insert_of_mem already ()).le.trans
              (within.subs_le connFound)
          · exact (HashMap.len_insert_of_notMem already ()).le.trans fewer
      next differs => exact within.subs_le found'
  split at ran
  · cases ran
    exact subscribed
  · exact subscribed.follows (follows_of_enqueue lasting_shrinks ran)

theorem thrifty_onSubscribe (order : HashOrder) {conn : ConnId}
    {request : Subscribe} (thrifty : hub.Thrifty)
    (ran : hub.onSubscribe order account conn request fx = .ok (hub', fx')) :
    hub'.Thrifty := by
  unfold onSubscribe at ran
  split at ran
  · exact thrifty.follows (follows_of_enqueue lasting_shrinks ran)
  next stream asked =>
    split at ran
    · exact thrifty.follows (follows_of_enqueue lasting_shrinks ran)
    simp only [bind_eq_ok, index_eq_ok] at ran
    obtain ⟨acct, found, ran⟩ := ran
    split at ran
    · cases ran
      exact thrifty
    next room =>
      simp only [bind_eq_ok] at ran
      obtain ⟨⟨ensuredHub, ensured⟩, ensuring, ran⟩ := ran
      obtain ⟨ensuredThrifty, limitsEq⟩ :=
        thrifty_ensureStream order thrifty ensuring
      split at ran
      · refine thrifty_subscribeTo ensuredThrifty ?_ ran
        intro acct' c found' connFound
        have before := conns_ensureStream order ensuring found found'
        rw [before] at connFound
        simp only [connFound, Option.any_some, Option.map_some,
          Option.getD_some, not_and, Bool.not_eq_true', not_le,
          decide_eq_false_iff_not] at room
        rw [limitsEq]
        by_cases already : (⟨stream.publisher, stream.channel⟩ : StreamKey) ∈
            c.subs
        · exact Or.inl already
        · exact Or.inr (room already)
      · cases ran
        exact ensuredThrifty

theorem thrifty_route (order : HashOrder) {conn : ConnId} {frame : Frame}
    (thrifty : hub.Thrifty)
    (ran : hub.route order account conn frame fx = .ok (hub', fx'))
    (finalOk : ∀ {acct'}, hub'.accounts.lookup account = some acct' →
      acct'.Ok hub.limits) :
    hub'.Thrifty := by
  unfold route at ran
  split at ran
  · exact thrifty_onEnvelope order thrifty ran finalOk
  · exact thrifty_onSubscribe order thrifty ran
  · split at ran
    · cases ran
      exact thrifty
    · simp only [bind_eq_ok] at ran
      obtain ⟨left, leaving, done⟩ := ran
      cases done
      exact thrifty.follows (follows_unsubscribe lasting_shrinks leaving)
  all_goals first
    | exact thrifty.follows (follows_of_enqueue lasting_shrinks ran)
    | cases ran; exact thrifty

omit [Codec] in
theorem thrifty_chargeQueued (thrifty : hub.Thrifty) (account : AccountId)
    (queued : Nat) : (hub.chargeQueued account queued).Thrifty := by
  unfold chargeQueued
  split
  · exact thrifty
  next acct found =>
    have within := thrifty.each found
    exact thrifty.setAccount found ⟨within.streams_le, within.conns_le,
      within.subs_le, within.ringBytes_le⟩

theorem shrinks_notify (limits : Limits) (acct : Account) (conn : ConnId)
    (wait nowMs : Nat) :
    acct.Shrinks (notify limits acct conn wait nowMs).1 := by
  unfold notify
  split
  · split
    · exact lasting_shrinks.refl acct
    next c found =>
      split
      · exact lasting_shrinks.conn _ found (by rw [subs_settle])
      · exact lasting_shrinks.refl acct
  · exact lasting_shrinks.refl acct

omit [Codec] in
/-- What `refuseHello` leaves: room for the account and for the connection. -/
theorem room_of_refuseHello {hello : Hello}
    (passed : hub.refuseHello account hello = none) :
    (account ∉ hub.accounts →
        HashMap.len hub.accounts < hub.limits.maxAccounts) ∧
      ∀ acct, hub.accounts.lookup account = some acct →
        HashMap.len acct.conns < hub.limits.maxConnectionsPerAccount := by
  unfold refuseHello at passed
  split at passed
  · cases passed
  split at passed
  · cases passed
  split at passed
  · cases passed
  next spare =>
    refine ⟨fun new => ?_, fun acct found => ?_⟩
    · exact Nat.lt_of_not_le fun full => spare ⟨new, full⟩
    · simp only [found] at passed
      split at passed
      · cases passed
      split at passed
      · cases passed
      next notFull => exact Nat.lt_of_not_le notFull

theorem thrifty_connectChecked (order : HashOrder) {hello : Hello}
    {nowMs monoMs : Nat} {revoker : Revoker}
    {reply : Except Frame (ConnId × List Action)} (thrifty : hub.Thrifty)
    (unknown : ∀ acct, hub.accounts.lookup account = some acct →
      hub.nextConn ∉ acct.conns)
    (positive : 0 < hub.limits.maxConnectionsPerAccount)
    (newRoom : account ∉ hub.accounts →
      HashMap.len hub.accounts < hub.limits.maxAccounts)
    (connRoom : ∀ acct, hub.accounts.lookup account = some acct →
      HashMap.len acct.conns < hub.limits.maxConnectionsPerAccount)
    (ran : hub.connectChecked order account hello nowMs monoMs revoker =
      .ok (hub', reply)) :
    hub'.Thrifty := by
  simp only [connectChecked, bind_eq_ok] at ran
  obtain ⟨⟨final, actions⟩, finished, done⟩ := ran
  cases done
  refine Thrifty.follows ?_ (Follows.trans lasting_shrinks
    (follows_enqueueAll lasting_shrinks _ _ _ _ _)
    (follows_finish lasting_shrinks order finished))
  refine ⟨?_, fun {other record} recorded => ?_⟩
  · by_cases present : account ∈ hub.accounts
    · exact (HashMap.len_insert_of_mem present _).le.trans thrifty.accounts_le
    · exact (HashMap.len_insert_of_notMem present _).le.trans
        (newRoom present)
  · rw [HashMap.lookup_insert_eq] at recorded
    split at recorded
    next same =>
      cases recorded
      cases found : hub.accounts.lookup account with
      | none =>
          refine ⟨by simp [HashMap.len], ?_, fun connFound => ?_,
            by simp⟩
          · have one : 1 ≤ hub.limits.maxConnectionsPerAccount := positive
            simpa [HashMap.len] using one
          · rw [HashMap.lookup_insert_eq] at connFound
            split at connFound
            · cases connFound
              simp [Conn.arm, HashMap.len]
            · simp at connFound
      | some acct =>
          have within := thrifty.each found
          refine ⟨within.streams_le, ?_, fun connFound => ?_,
            within.ringBytes_le⟩
          · simp only [Option.getD_some]
            rw [HashMap.len_insert_of_notMem (unknown acct found)]
            exact connRoom acct found
          · simp only [Option.getD_some] at connFound
            rw [HashMap.lookup_insert_eq] at connFound
            split at connFound
            · cases connFound
              simp [Conn.arm, HashMap.len]
            · exact within.subs_le connFound
    next differs => exact thrifty.each recorded

theorem thrifty_connect (order : HashOrder) (ok : hub.Ok) {hello : Hello}
    {nowMs monoMs : Nat} {revoker : Revoker}
    {reply : Except Frame (ConnId × List Action)} (thrifty : hub.Thrifty)
    (positive : 0 < hub.limits.maxConnectionsPerAccount)
    (ran : hub.connect order account hello nowMs monoMs revoker =
      .ok (hub', reply)) :
    hub'.Thrifty := by
  have unknown (acct : Account)
      (found : hub.accounts.lookup account = some acct) :
      hub.nextConn ∉ acct.conns := by
    intro member
    have known := (ok.known_iff hub.nextConn account).mpr ⟨acct, found, member⟩
    exact Nat.lt_irrefl _ (ok.fresh _ (HashMap.mem_of_lookup known))
  unfold connect at ran
  split at ran
  · cases ran
    exact thrifty
  next passed =>
    obtain ⟨newRoom, connRoom⟩ := room_of_refuseHello passed
    split at ran
    · exact thrifty_connectChecked order thrifty unknown positive newRoom
        connRoom ran
    next acct found =>
      have within := thrifty.each found
      have rated (rate : Bucket) :
          (hub.setAccount account { acct with rate }).Thrifty :=
        thrifty.setAccount found ⟨within.streams_le, within.conns_le,
          within.subs_le, within.ringBytes_le⟩
      simp only at ran
      split at ran
      · cases ran
        exact rated _
      · refine thrifty_connectChecked order (rated _) ?_ positive ?_ ?_ ran
        · intro record recorded
          rw [setAccount, AList.lookup_insert] at recorded
          cases recorded
          exact unknown acct found
        · intro absent
          exact (absent (by simp [setAccount])).elim
        · intro record recorded
          rw [setAccount, AList.lookup_insert] at recorded
          cases recorded
          exact connRoom acct found

/-- No call takes an account or the relay past its counts. -/
theorem apply_thrifty (order : HashOrder) (ok : hub.Ok) {call : Call}
    {reply : Reply} (thrifty : hub.Thrifty)
    (positive : ∀ account hello nowMs monoMs revoker,
      call = .connect account hello nowMs monoMs revoker →
        0 < hub.limits.maxConnectionsPerAccount)
    (ran : hub.apply order call = .ok (hub', reply)) : hub'.Thrifty := by
  cases call with
  | connect account hello nowMs monoMs revoker =>
      simp only [apply, bind_eq_ok] at ran
      obtain ⟨⟨connected, answer⟩, connecting, ran⟩ := ran
      have next := thrifty_connect order ok thrifty
        (positive account hello nowMs monoMs revoker rfl) connecting
      cases answer with
      | error frame =>
          cases ran
          exact next
      | ok admission =>
          cases ran
          exact next
  | receive conn frame =>
      simp only [apply, bind_eq_ok] at ran
      obtain ⟨⟨received, actions⟩, receiving, done⟩ := ran
      cases done
      unfold receive at receiving
      split at receiving
      · cases receiving
        exact thrifty
      next account known =>
        simp only [bind_eq_ok] at receiving
        obtain ⟨⟨routed, fx⟩, routing, finishing⟩ := receiving
        obtain ⟨acct, found, member⟩ := (ok.known_iff conn account).mp known
        obtain ⟨c, connFound⟩ := HashMap.exists_lookup_of_mem member
        obtain ⟨_, acct', _, _, again, moves, _⟩ := hub.route_spec found
          (ok.account_ok found) (ok.account_tidy found) connFound order frame {}
        rw [routing] at again
        cases again
        have routedThrifty := thrifty_route order thrifty routing (by
          intro record recorded
          rw [moves.within.record] at recorded
          cases recorded
          exact moves.ok)
        refine (thrifty_chargeQueued routedThrifty account fx.queued).follows
          (follows_finish lasting_shrinks order finishing)
  | close conn frame =>
      simp only [apply, bind_eq_ok] at ran
      obtain ⟨⟨closed, actions⟩, closing, done⟩ := ran
      cases done
      unfold close at closing
      split at closing
      · exact thrifty.follows (follows_finish lasting_shrinks order closing)
      · exact thrifty.follows ((follows_forget lasting_shrinks order hub conn
          {}).trans lasting_shrinks
            (follows_finish lasting_shrinks order closing))
  | deliver conn frame =>
      simp only [apply, bind_eq_ok] at ran
      obtain ⟨⟨delivered, actions⟩, delivering, done⟩ := ran
      cases done
      unfold deliver at delivering
      split at delivering
      · cases delivering
        exact thrifty
      next account known =>
        exact thrifty.follows ((follows_enqueue lasting_shrinks hub account
          conn frame {}).trans lasting_shrinks
            (follows_finish lasting_shrinks order delivering))
  | charge conn bytes nowMs =>
      simp only [apply, bind_eq_ok] at ran
      obtain ⟨⟨charged, wait, actions⟩, charging, done⟩ := ran
      cases done
      unfold charge at charging
      split at charging
      · cases charging
        exact thrifty
      next account known =>
        split at charging
        · cases charging
          exact thrifty
        next acct found =>
          simp only [bind_eq_ok] at charging
          obtain ⟨⟨final, acted⟩, finishing, done⟩ := charging
          cases done
          refine Thrifty.follows ?_
            (follows_finish lasting_shrinks order finishing)
          refine thrifty.setAccount found ?_
          refine (shrinks_notify _ _ _ _ _).thrifty ?_
          have within := thrifty.each found
          exact ⟨within.streams_le, within.conns_le, within.subs_le,
            within.ringBytes_le⟩
  | takeOutbound conn budget =>
      simp only [apply, bind_eq_ok] at ran
      obtain ⟨⟨after, taken⟩, taking, done⟩ := ran
      cases done
      unfold takeOutbound at taking
      split at taking
      · cases taking
        exact thrifty
      split at taking
      · cases taking
        exact thrifty
      next acct found =>
        split at taking
        · cases taking
          exact thrifty
        next c connFound =>
          simp only [bind_eq_ok] at taking
          obtain ⟨⟨out, frames⟩, _, done⟩ := taking
          cases done
          exact thrifty.follows (follows_setAccount lasting_shrinks found
            (lasting_shrinks.conn _ connFound (Nat.le_refl _)))

end Hub

end WindowMlHub
