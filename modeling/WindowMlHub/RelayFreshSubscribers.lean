import WindowMlHub.RelayBackfills
import WindowMlHub.RelayFollowing

/-!
# A subscriber with an empty queue

The relay refuses limits under which a full ring of session events has more entries
than a connection's queue takes.  A queue is also bounded in bytes, and a ring is not:
whether a subscriber with nothing queued is served depends on the bytes that the ring
retains after its position, and on those of the marker that ends them.  The marker of an
answer with a gap is longer, and a position that no number comes after gets one.
-/

namespace WindowMlHub

open CheckedEvaluation HashTables

section Serving

variable [Codec] {limits : Limits} {key : StreamKey}

/-- The bytes of a backfill. -/
def backfillBytes (entries : List Entry) : Nat :=
  (entries.map fun entry => wireLen entry.wire).sum

/-- The bytes that a subscriber of this ring is sent at once. -/
def servedBytes (ring : Ring) (key : StreamKey) (since : Option Position) : Nat :=
  backfillBytes (ring.backfill since).entries +
    wireLen (.of (.backfilled (backfillMarker (some ring) key since)))

/-- Whether anything was published after a position that the ring retains no more.  Nothing
is known of a position in another epoch, and of the largest there is the release build makes
the start. -/
def Ring.lacksAfter (ring : Ring) : Option Position → Bool
  | none => decide (ring.entries.length < ring.seq)
  | some position =>
      if position.epoch = ring.epoch then
        decide (ring.entries.length + position.seq < ring.seq ∨
          position.seq = maxPosition)
      else
        decide (ring.entries.length < ring.seq ∨ 0 < position.seq)

/-- The bytes of what a ring retains after a position, and of the marker that tells its
epoch, its newest number, and whether there is a gap. -/
def Ring.owedBytes (ring : Ring) (key : StreamKey) (since : Option Position) : Nat :=
  ((ring.retainedAfter since).map fun entry => wireLen entry.wire).sum +
    wireLen (.of (.backfilled ⟨some key.toRef, ring.epoch, ring.seq,
      ring.lacksAfter since⟩))

theorem Ring.Sound.truncated_eq {ring : Ring} (sound : ring.Sound) {since : Option Position}
    (machine : ∀ position ∈ since, position.seq ≤ maxPosition) :
    (ring.backfill since).truncated = ring.lacksAfter since := by
  have contiguous : ring.Contiguous := ⟨sound.length_le_seq, sound.seqs_eq⟩
  have short := sound.length_le_seq
  rw [Ring.backfill_eq, contiguous.firstRetained, Bool.eq_iff_iff, Bool.or_eq_true,
    decide_eq_true_eq, Ring.nextPosition]
  cases since with
  | none =>
      simp only [Ring.resumeAfter, Ring.lacksAfter, Option.any_none, Bool.false_eq_true,
        or_false, decide_eq_true_eq]
      omega
  | some position =>
      have bounded := machine position rfl
      unfold maxPosition at bounded
      by_cases current : position.epoch = ring.epoch
      · simp only [Ring.resumeAfter, Ring.lacksAfter, current, if_true, Option.any_some, ne_eq,
          not_true_eq_false, false_and, decide_false, Bool.false_eq_true, or_false,
          decide_eq_true_eq]
        unfold maxPosition
        omega
      · simp only [Ring.resumeAfter, Ring.lacksAfter, current, if_false, Option.any_some, ne_eq,
          not_false_eq_true, true_and, decide_eq_true_eq]
        omega

theorem Ring.Sound.servedBytes_eq {ring : Ring} (sound : ring.Sound) (key : StreamKey)
    {since : Option Position}
    (machine : ∀ position ∈ since, position.seq ≤ maxPosition) :
    servedBytes ring key since = ring.owedBytes key since := by
  rw [servedBytes, Ring.owedBytes, backfillMarker, ← sound.truncated_eq machine,
    ring.retainedAfter_eq]
  rfl

/-- The items of a backfill of session events. -/
def backfillItems (key : StreamKey) (epoch : Nat) (entries : List Entry) : List Item :=
  entries.map (Item.ofEntry key .sessionEvents epoch)

theorem counted_backfillItems (key : StreamKey) (epoch : Nat) (entries : List Entry)
    (dropped : HashMap StreamKey Dropped) :
    (Outbound.counted (backfillItems key epoch entries) dropped).bytes =
        backfillBytes entries ∧
      (Outbound.counted (backfillItems key epoch entries) dropped).sessionEvents =
        entries.length := by
  induction entries with
  | nil => exact ⟨rfl, rfl⟩
  | cons entry rest ih =>
      obtain ⟨bytes, events⟩ := ih
      simp only [Outbound.counted, backfillItems, backfillBytes, List.map_cons,
        List.sum_cons, Item.ofEntry, List.length_cons, decide_true,
        Bool.toNat_true] at bytes events ⊢
      omega

/-- A session event that is within its bound is queued, and accepted if the queue is
then within its bytes. -/
theorem pushPublished_session (epoch : Nat) (entry : Entry) (before : List Entry)
    (dropped : HashMap StreamKey Dropped)
    (room : before.length < limits.queueSessionEvents) :
    (Outbound.counted (backfillItems key epoch before) dropped).pushPublished key
        .sessionEvents epoch entry limits =
      .ok (Outbound.counted (backfillItems key epoch (before ++ [entry])) dropped,
        if backfillBytes (before ++ [entry]) > limits.queueBytes then .error ⟨⟩
        else .ok ()) := by
  have accepted : ¬ Outbound.Refuses limits
      (Outbound.counted (backfillItems key epoch before) dropped)
      (Item.ofEntry key .sessionEvents epoch entry) := by
    rintro ⟨-, full⟩
    rw [(counted_backfillItems key epoch before dropped).2] at full
    omega
  have items : backfillItems key epoch before ++
      [Item.ofEntry key .sessionEvents epoch entry] =
        backfillItems key epoch (before ++ [entry]) := by
    simp [backfillItems]
  unfold Outbound.pushPublished
  rw [if_pos (by decide), Outbound.push_counted accepted, items,
    (counted_backfillItems key epoch _ dropped).1]
  rfl

/-- A backfill that is within the bound on session events goes through exactly when
all of it is within the bound on bytes. -/
theorem pushBackfill_session (key : StreamKey) (epoch : Nat) (entries before : List Entry)
    (dropped : HashMap StreamKey Dropped) (queued : Nat)
    (room : (before ++ entries).length ≤ limits.queueSessionEvents)
    (within : backfillBytes before ≤ limits.queueBytes) :
    ∃ out queued' pushed,
      pushBackfill limits key .sessionEvents epoch entries
          (Outbound.counted (backfillItems key epoch before) dropped) queued =
        .ok (out, queued', pushed) ∧
      (pushed = .ok () ↔ backfillBytes (before ++ entries) ≤ limits.queueBytes) ∧
      (pushed = .ok () →
        out = Outbound.counted (backfillItems key epoch (before ++ entries)) dropped) := by
  induction entries generalizing before queued with
  | nil => exact ⟨_, queued, .ok (), rfl, by simpa using within, by simp⟩
  | cons entry rest ih =>
      have all : before ++ entry :: rest = (before ++ [entry]) ++ rest := by simp
      have next : before.length < limits.queueSessionEvents := by
        simp only [List.length_append, List.length_cons] at room
        omega
      have longer : backfillBytes (before ++ [entry]) ≤
          backfillBytes (before ++ entry :: rest) := by
        simp [backfillBytes]
      unfold pushBackfill
      rw [pushPublished_session epoch entry before dropped next, ok_bind]
      by_cases fits : backfillBytes (before ++ [entry]) ≤ limits.queueBytes
      · obtain ⟨out, queued', pushed, ran, iff, eq⟩ :=
          ih (before ++ [entry]) (queued + 1) (all ▸ room) fits
        rw [all]
        refine ⟨out, queued', pushed, ?_, iff, eq⟩
        rw [if_neg (Nat.not_lt.mpr fits)]
        exact ran
      · refine ⟨Outbound.counted (backfillItems key epoch (before ++ [entry])) dropped,
          queued, .error ⟨⟩, ?_, ?_, by simp⟩
        · rw [if_pos (Nat.lt_of_not_le fits)]
          rfl
        · simp only [reduceCtorEq, false_iff]
          omega

theorem finishLoop_closed {order : HashOrder} {fuel : Nat} {hub hub' : Hub}
    {fx fx' : Effects} {closed closed' : List (ConnId × Frame)}
    (ran : Hub.finishLoop order fuel hub fx closed = .ok (hub', fx', closed')) :
    closed <+: closed' := by
  induction fuel generalizing hub fx closed with
  | zero => cases ran
  | succ fuel ih =>
      unfold Hub.finishLoop at ran
      split at ran
      · cases ran
        exact List.prefix_refl _
      · split at ran
        · exact ih ran
        · exact (List.prefix_append _ _).trans (ih ran)

theorem close_mem_of_finish {order : HashOrder} {hub hub' : Hub} {fx : Effects}
    {conn : ConnId} {frame : Frame} {actions : List Action}
    (doomed : fx.close = [(conn, frame)]) (known : conn ∈ hub.connAccount)
    (ran : hub.finish order fx = .ok (hub', actions)) :
    Action.close conn frame ∈ actions := by
  simp only [Hub.finish, bind_eq_ok] at ran
  obtain ⟨⟨last, lastFx, closed⟩, loop, answer⟩ := ran
  obtain ⟨-, rfl⟩ := Prod.mk.inj (Except.ok.inj answer)
  rw [doomed, List.length_singleton, Nat.add_comm 1, Hub.finishLoop, doomed] at loop
  simp only [List.any_nil, Bool.false_eq_true, known, not_true_eq_false, or_self,
    if_false] at loop
  have member : (conn, frame) ∈ closed :=
    (finishLoop_closed loop).subset (by simp)
  exact List.mem_append_right _ (List.mem_map.mpr ⟨_, member, rfl⟩)

theorem close_not_mem_of_finish {order : HashOrder} {hub hub' : Hub} {fx : Effects}
    {conn : ConnId} {frame : Frame} {actions : List Action} (nobody : fx.close = [])
    (ran : hub.finish order fx = .ok (hub', actions)) :
    Action.close conn frame ∉ actions := by
  simp only [Hub.finish, bind_eq_ok] at ran
  obtain ⟨⟨last, lastFx, closed⟩, loop, answer⟩ := ran
  obtain ⟨-, rfl⟩ := Prod.mk.inj (Except.ok.inj answer)
  rw [Hub.finishLoop_nobody order hub nobody (Nat.succ_pos _) []] at loop
  cases loop
  simp [Hub.actionsOf]

/-- The frame that asks for a stream. -/
def subscribeFrame (key : StreamKey) (since : Option Position) : Frame :=
  .of (.subscribe ⟨some key.toRef, since⟩)

/-- A connection of an account with nothing queued, and a stream of session events of
that account that it may subscribe to. -/
structure Hub.Fresh (hub : Hub) (conn : ConnId) (key : StreamKey) (ring : Ring) :
    Prop where
  account : ∃ account acct c stream,
    hub.connAccount.lookup conn = some account ∧
    hub.accounts.lookup account = some acct ∧
    acct.conns.lookup conn = some c ∧ c.out.items = [] ∧
    acct.streams.lookup key = some stream ∧ stream.ring = some ring ∧
    (key ∈ c.subs ∨ HashMap.len c.subs < hub.limits.maxSubscriptionsPerConnection)
  session : ring.kind = .sessionEvents
  publisher : key.publisher ≠ [] ∧ key.publisher.length ≤ hub.limits.maxIdBytes
  channel : key.channel ≠ [] ∧ key.channel.length ≤ hub.limits.maxIdBytes

theorem Hub.Fresh.sound {hub : Hub} {conn : ConnId} {ring : Ring} (ok : hub.Ok)
    (fresh : hub.Fresh conn key ring) : ring.Sound := by
  obtain ⟨account, acct, c, stream, -, record, -, -, streamFound, ringFound, -⟩ :=
    fresh.account
  exact ((ok.account_ok record).ring_ok_of_lookup streamFound ringFound).toSound

theorem pushFrame_backfilled (limits : Limits) (key : StreamKey) (epoch : Nat)
    (entries : List Entry) (dropped : HashMap StreamKey Dropped) (frame : Frame) :
    ((Outbound.counted (backfillItems key epoch entries) dropped).pushFrame frame
        limits).2 =
      if backfillBytes entries + wireLen frame > limits.queueBytes then .error ⟨⟩
      else .ok () := by
  have accepted : ¬ Outbound.Refuses limits
      (Outbound.counted (backfillItems key epoch entries) dropped)
      (.ofFrame frame) := by
    simp [Outbound.Refuses, Item.ofFrame]
  have bytes := (counted_backfillItems key epoch entries dropped).1
  rw [Outbound.pushFrame, Outbound.push_counted accepted]
  simp only [Outbound.counted, List.map_append, List.sum_append, List.map_cons,
    List.map_nil, List.sum_cons, List.sum_nil, Item.ofFrame] at bytes ⊢
  rw [bytes, Nat.add_zero]

/-- Queueing a frame dooms nobody but a connection whose queue it does not fit. -/
theorem enqueue_known {hub : Hub} {account : AccountId} {acct : Account}
    {conn : ConnId} {c : Conn} (record : hub.accounts.lookup account = some acct)
    (found : acct.conns.lookup conn = some c) (frame : Frame) (fx : Effects) :
    (hub.enqueue account conn frame fx).1.connAccount = hub.connAccount ∧
      (hub.enqueue account conn frame fx).2.close =
        if (c.out.pushFrame frame hub.limits).2 = .ok () then fx.close
        else (conn, fellBehind) :: fx.close := by
  unfold Hub.enqueue
  simp only [record, found]
  refine ⟨rfl, ?_⟩
  unfold Conn.settle
  cases answer : (c.out.pushFrame frame hub.limits).2 with
  | error slow => simp [Effects.closing]
  | ok _ =>
      simp only [if_true]
      unfold Conn.arm
      split
      · rfl
      · simp only [Effects.wakeUp]
        split <;> rfl

/-- Routing a Subscribe dooms nobody when what the ring retains fits, and otherwise
exactly the subscriber. -/
theorem route_subscribe_fresh {hub : Hub} {conn : ConnId} {account : AccountId}
    {ring : Ring} (order : HashOrder) (ok : hub.Ok)
    (bounded : hub.limits.ringSessionEvents ≤ hub.limits.queueSessionEvents)
    (fresh : hub.Fresh conn key ring)
    (owner : hub.connAccount.lookup conn = some account) (since : Option Position) :
    ∃ hub' fx, hub.route order account conn (subscribeFrame key since) {} =
        .ok (hub', fx) ∧ hub'.connAccount = hub.connAccount ∧
      fx.close = if servedBytes ring key since ≤ hub.limits.queueBytes then []
        else [(conn, fellBehind)] := by
  obtain ⟨⟨account', acct, c, stream, owner', record, found, empty, streamFound,
    ringFound, room⟩, session, publisher, channel⟩ := fresh
  obtain rfl : account = account' := Option.some.inj (owner.symm.trans owner')
  have acctOk := ok.account_ok record
  have ringOk : ring.Ok hub.limits :=
    acctOk.ring_ok ((Account.ring?_of_lookup streamFound).trans ringFound)
  have history : stream.history since = ((ring.backfill since).entries,
      .sessionEvents, ring.epoch, ring.seq, (ring.backfill since).truncated) := by
    simp [Stream.history, ringFound, session]
  -- the ring has no more entries than the queue takes session events
  have short : ([] ++ (ring.backfill since).entries).length ≤
      hub.limits.queueSessionEvents := by
    have retained := ringOk.length_le_capacity
    rw [session] at retained
    exact (List.length_filter_le _ _).trans (retained.trans bounded)
  obtain ⟨out, queued, pushed, backfilled, fits, outEq⟩ :=
    pushBackfill_session key ring.epoch (ring.backfill since).entries []
      (c.out.dropped.erase key) 0 short (Nat.zero_le _)
  have ran : hub.subscribeTo account conn key since {} = _ :=
    Hub.subscribeTo_eq record acctOk streamFound found history
      (by simpa [empty, backfillItems] using backfilled)
  have routed : hub.route order account conn (subscribeFrame key since) {} =
      hub.subscribeTo account conn key since {} := by
    have named : ¬ (key.toRef.publisher = [] ∨
        key.toRef.publisher.length > hub.limits.maxIdBytes ∨
        key.toRef.channel = [] ∨
        key.toRef.channel.length > hub.limits.maxIdBytes) := by
      simp only [StreamKey.toRef, not_or, gt_iff_lt, not_lt]
      exact ⟨publisher.1, publisher.2, channel.1, channel.2⟩
    have allowed : ¬ ((!decide (key ∈ c.subs)) = true ∧
        HashMap.len c.subs ≥ hub.limits.maxSubscriptionsPerConnection) := by
      simp only [Bool.not_eq_eq_eq_not, Bool.not_true, decide_eq_false_iff_not]
      rintro ⟨absent, full⟩
      rcases room with already | few
      · exact absent already
      · omega
    have there : key ∈ acct.streams := HashMap.mem_of_lookup streamFound
    have sameKey : (⟨key.toRef.publisher, key.toRef.channel⟩ : StreamKey) = key := rfl
    change hub.onSubscribe order account conn ⟨some key.toRef, since⟩ {} = _
    unfold Hub.onSubscribe
    simp only
    rw [if_neg named]
    simp only [record, index_some, ok_bind, found, Option.any_some, Option.map_some,
      Option.getD_some, sameKey]
    rw [if_neg allowed]
    simp only [Hub.ensureStream, record, expect_some, ok_bind, there, if_true,
      pure_eq_ok]
  rw [routed, ran]
  cases pushed with
  | error slow =>
      have exceeds : ¬ servedBytes ring key since ≤ hub.limits.queueBytes := by
        intro fitsAll
        have served : backfillBytes (ring.backfill since).entries ≤
            hub.limits.queueBytes :=
          (Nat.le_add_right _ _).trans fitsAll
        cases fits.mpr served
      exact ⟨_, _, rfl, rfl, by simp [Effects.closing, exceeds]⟩
  | ok _ =>
      obtain rfl := outEq rfl
      have record' : (hub.setAccount account (acct.subscribe conn c key stream
          (Outbound.counted (backfillItems key ring.epoch
            ([] ++ (ring.backfill since).entries)) (c.out.dropped.erase key)))
          ).accounts.lookup account = some _ :=
        AList.lookup_insert hub.accounts
      obtain ⟨owners, close⟩ := enqueue_known record' (AList.lookup_insert acct.conns)
        (.of (.backfilled ⟨some key.toRef, ring.epoch, ring.seq,
          (ring.backfill since).truncated⟩)) { queued }
      refine ⟨_, _, rfl, owners, close.trans ?_⟩
      have answer := pushFrame_backfilled hub.limits key ring.epoch
        (ring.backfill since).entries (c.out.dropped.erase key)
        (.of (.backfilled (backfillMarker (some ring) key since)))
      change (if (Outbound.pushFrame _ _ hub.limits).2 = .ok () then [] else
        [(conn, fellBehind)]) = _
      rw [List.nil_append]
      by_cases served : servedBytes ring key since ≤ hub.limits.queueBytes
      · rw [if_pos served]
        exact if_pos (answer.trans (if_neg (Nat.not_lt.mpr served)))
      · rw [if_neg served]
        refine if_neg fun accepted => ?_
        have refused := answer.trans (if_pos (Nat.lt_of_not_le served))
        cases refused.symm.trans accepted

/-- A subscriber with nothing queued is served exactly when all that it is sent at once
is within the queue's bytes. -/
theorem receive_subscribe_fresh {hub : Hub} {conn : ConnId} {ring : Ring}
    (order : HashOrder) (ok : hub.Ok)
    (bounded : hub.limits.ringSessionEvents ≤ hub.limits.queueSessionEvents)
    (fresh : hub.Fresh conn key ring) (since : Option Position) :
    ∃ hub' actions,
      hub.receive order conn (subscribeFrame key since) = .ok (hub', actions) ∧
        (Action.close conn fellBehind ∉ actions ↔
          servedBytes ring key since ≤ hub.limits.queueBytes) := by
  obtain ⟨account, -, -, -, owner, -⟩ := fresh.account
  obtain ⟨mid, fx, routed, owners, close⟩ :=
    route_subscribe_fresh order ok bounded fresh owner since
  obtain ⟨reply, next, applied, -⟩ :=
    Hub.apply_spec order ok (.receive conn (subscribeFrame key since))
  simp only [Hub.apply, bind_eq_ok] at applied
  obtain ⟨⟨hub', actions⟩, received, -⟩ := applied
  refine ⟨hub', actions, received, ?_⟩
  have finished : (mid.chargeQueued account fx.queued).finish order fx =
      .ok (hub', actions) := by
    unfold Hub.receive at received
    simpa only [owner, routed, ok_bind] using received
  have known : conn ∈ (mid.chargeQueued account fx.queued).connAccount := by
    have charged : (mid.chargeQueued account fx.queued).connAccount =
        hub.connAccount := by
      rw [← owners]
      unfold Hub.chargeQueued
      split <;> rfl
    rw [charged]
    exact HashMap.mem_of_lookup owner
  by_cases served : servedBytes ring key since ≤ hub.limits.queueBytes
  · rw [if_pos served] at close
    exact iff_of_true (close_not_mem_of_finish close finished) served
  · rw [if_neg served] at close
    exact iff_of_false (not_not_intro (close_mem_of_finish close known finished)) served

omit [Codec] in
theorem ringSessionEvents_le_of_accepted {seed : UInt64} {shard : UInt16}
    {start : Hub} (accepted : Hub.withIdSpace limits seed shard = .ok start) :
    limits.ringSessionEvents ≤ limits.queueSessionEvents := by
  unfold Hub.withIdSpace at accepted
  split at accepted
  · cases accepted
  · omega

/-- In every reachable state, a subscriber with nothing queued is served, and not closed
as a slow consumer, exactly when the entries that the ring retains after its position
and the marker that ends them are within the bytes of a queue.  A position is a number of
64 bits. -/
theorem fresh_subscriber_served_iff (limits : Limits) (seed : UInt64) (shard : UInt16)
    (start : Hub) (accepted : Hub.withIdSpace limits seed shard = .ok start)
    (calls : List (HashOrder × Call)) (steps : List Step)
    (ran : start.run calls = .ok steps) (conn : ConnId) (key : StreamKey) (ring : Ring)
    (fresh : (finalHub start steps).Fresh conn key ring) (since : Option Position)
    (machine : ∀ position ∈ since, position.seq ≤ maxPosition) (order : HashOrder) :
    ∃ hub' actions,
      (finalHub start steps).receive order conn (subscribeFrame key since) =
          .ok (hub', actions) ∧
        (Action.close conn fellBehind ∉ actions ↔
          ring.owedBytes key since ≤ limits.queueBytes) := by
  obtain ⟨ok, limitsEq, -, -⟩ := ok_withIdSpace accepted
  obtain ⟨steps', hub, ran', run⟩ := exists_run ok calls
  obtain rfl := Except.ok.inj (ran.symm.trans ran')
  have final := run.finalHub_eq
  rw [final] at fresh ⊢
  have same : hub.limits = limits := (run.limits_eq ok).trans limitsEq
  have bounded := ringSessionEvents_le_of_accepted accepted
  rw [← same] at bounded ⊢
  have hubOk := (run.forall_steps ok).1
  rw [← (fresh.sound hubOk).servedBytes_eq key machine]
  exact receive_subscribe_fresh order hubOk bounded fresh since

end Serving

/-! ## One large event -/

/-- A device publishes an event of so many bytes on channel `[5]`; another device
connects and reads what it is greeted with. -/
def largeEventCalls (bytes : Nat) : List (HashOrder × Call) :=
  [(.stored, .connect [9] { protocol := 1, principal := [1], role := 1 } 0 0 .unknown),
    (.stored, .receive 1 (.of (.envelope {
      sentTo := some (.channel [5]), kind := 1, payload := List.replicate bytes 0 }))),
    (.stored, .connect [9] { protocol := 1, principal := [2], role := 2 } 0 0 .unknown),
    (.stored, .takeOutbound 2 1000)]

/-- Whether connection 2 is as the theorem wants it, and its stream's ring too. -/
def Hub.freshAndRing (hub : Hub) (test : Ring → Bool) : Bool :=
  decide (hub.connAccount.lookup 2 = some [9]) &&
    ((hub.accounts.lookup [9]).any fun acct =>
      (acct.conns.lookup 2).any fun c =>
        (acct.streams.lookup ⟨[1], [5]⟩).any fun stream =>
          stream.ring.any fun ring =>
            decide (c.out.items = [] ∧ ring.kind = .sessionEvents ∧
              HashMap.len c.subs < hub.limits.maxSubscriptionsPerConnection ∧
              1 ≤ hub.limits.maxIdBytes) && test ring)

theorem Hub.fresh_of_freshAndRing {hub : Hub} {test : Ring → Bool}
    (checked : hub.freshAndRing test = true) :
    ∃ ring, hub.Fresh 2 ⟨[1], [5]⟩ ring ∧ test ring = true := by
  simp only [freshAndRing, Bool.and_eq_true, decide_eq_true_eq,
    Option.any_eq_true] at checked
  obtain ⟨owner, acct, record, c, found, stream, streamFound, ring, ringFound,
    ⟨empty, session, room, short⟩, tested⟩ := checked
  exact ⟨ring, ⟨⟨[9], acct, c, stream, owner, record, found, empty, streamFound,
    ringFound, .inr room⟩, session, ⟨by simp, short⟩, ⟨by simp, short⟩⟩, tested⟩

/-- Under limits that the relay accepts, a device with nothing queued is closed as a
slow consumer for subscribing. -/
theorem fresh_subscriber_closed :
    ∃ start steps ring hub' actions,
      Hub.withIdSpace { queueBytes := 300 } 7 0 = .ok start ∧
        start.run (largeEventCalls 400) = .ok steps ∧
        (finalHub start steps).Fresh 2 ⟨[1], [5]⟩ ring ∧
        (finalHub start steps).receive .stored 2 (subscribeFrame ⟨[1], [5]⟩ none) =
          .ok (hub', actions) ∧
        Action.close 2 fellBehind ∈ actions := by
  have accepted : Hub.withIdSpace { queueBytes := 300 } 7 0 =
      .ok ⟨{ queueBytes := 300 }, ∅, ∅, 1, 7, 0⟩ := rfl
  obtain ⟨ok, -, -, -⟩ := ok_withIdSpace accepted
  obtain ⟨steps, hub, ran, run⟩ := exists_run ok (largeEventCalls 400)
  have facts : (Hub.run ⟨{ queueBytes := 300 }, ∅, ∅, 1, 7, 0⟩
      (largeEventCalls 400)).toOption.any (fun steps =>
        (finalHub ⟨{ queueBytes := 300 }, ∅, ∅, 1, 7, 0⟩ steps).freshAndRing fun ring =>
          decide (300 < servedBytes ring ⟨[1], [5]⟩ none)) = true := by
    decide +kernel
  rw [ran] at facts
  obtain ⟨ring, fresh, large⟩ := Hub.fresh_of_freshAndRing facts
  have final := run.finalHub_eq
  have limitsEq : hub.limits = { queueBytes := 300 } := run.limits_eq ok
  rw [final] at fresh
  obtain ⟨hub', actions, received, served⟩ := receive_subscribe_fresh .stored
    (run.forall_steps ok).1 (by rw [limitsEq]; decide) fresh none
  refine ⟨_, steps, ring, hub', actions, accepted, ran, final ▸ fresh,
    final ▸ received, ?_⟩
  by_contra spared
  have fits := served.mp spared
  rw [limitsEq] at fits
  exact absurd fits (Nat.not_le_of_lt (of_decide_eq_true large))

theorem fresh_subscriber_served_default :
    ∃ start steps hub' actions,
      Hub.withIdSpace {} 7 0 = .ok start ∧
        start.run (largeEventCalls 400) = .ok steps ∧
        (finalHub start steps).receive .stored 2 (subscribeFrame ⟨[1], [5]⟩ none) =
          .ok (hub', actions) ∧
        Action.close 2 fellBehind ∉ actions := by
  have accepted : Hub.withIdSpace {} 7 0 = .ok ⟨{}, ∅, ∅, 1, 7, 0⟩ := rfl
  obtain ⟨ok, -, -, -⟩ := ok_withIdSpace accepted
  obtain ⟨steps, hub, ran, -⟩ := exists_run ok (largeEventCalls 400)
  have facts : (Hub.run ⟨{}, ∅, ∅, 1, 7, 0⟩ (largeEventCalls 400)).toOption.any
      (fun steps => (finalHub ⟨{}, ∅, ∅, 1, 7, 0⟩ steps).freshAndRing fun ring =>
        decide (ring.owedBytes ⟨[1], [5]⟩ none ≤ 16777216)) = true := by
    decide +kernel
  rw [ran] at facts
  obtain ⟨ring, fresh, small⟩ := Hub.fresh_of_freshAndRing facts
  obtain ⟨hub', actions, received, served⟩ := fresh_subscriber_served_iff {} 7 0 _
    accepted (largeEventCalls 400) steps ran 2 ⟨[1], [5]⟩ ring fresh none
    (by simp) .stored
  exact ⟨_, steps, hub', actions, accepted, ran, received,
    served.mpr (of_decide_eq_true small)⟩

end WindowMlHub
