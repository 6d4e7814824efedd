import WindowMlHub.RelayStreams

/-!
# Subscribing and leaving streams

A subscription replaces what is queued for the stream by its backfill and the
marker that ends it.  Leaving a stream, by unsubscribing or by closing, removes
the stream itself once neither a subscriber nor a ring is left of it.
-/

namespace WindowMlHub

open CheckedEvaluation HashTables

/-! ## Leaving streams -/

section Leaving

variable {conn : ConnId} {streams : HashMap StreamKey Stream}
  {keys : List StreamKey} {key : StreamKey}

/-- A stream without one of its subscribers, if anything is left of it. -/
def Stream.without (conn : ConnId) (stream : Stream) : Option Stream :=
  let subscribers := stream.subscribers.erase conn
  if HashMap.len subscribers = 0 ∧ stream.ring.isNone then
    none
  else
    some { stream with subscribers }

theorem lookup_leaveStream (conn : ConnId)
    (streams : HashMap StreamKey Stream) (key probe : StreamKey) :
    (leaveStream conn streams key).lookup probe =
      if probe = key then (streams.lookup key).bind (Stream.without conn)
      else streams.lookup probe := by
  unfold leaveStream Stream.without
  by_cases same : probe = key
  · subst same
    cases found : streams.lookup probe with
    | none => simp [found]
    | some stream =>
        simp only [Option.bind_some, if_true]
        split <;> simp
  · rw [if_neg same]
    cases streams.lookup key with
    | none => rfl
    | some stream =>
        simp only
        split <;> simp [same]

theorem total_leaveStream (conn : ConnId)
    (streams : HashMap StreamKey Stream) (key : StreamKey) :
    HashMap.total Stream.ringBytes (leaveStream conn streams key) =
      HashMap.total Stream.ringBytes streams := by
  unfold leaveStream
  cases found : streams.lookup key with
  | none => rfl
  | some stream =>
      simp only
      split
      · rename_i empty
        have removed := HashMap.total_erase_add Stream.ringBytes found
        have nothing : stream.ringBytes = 0 := by
          simp [Stream.ringBytes, Option.isNone_iff_eq_none.mp empty.2]
        omega
      · have replaced := HashMap.total_insert_add Stream.ringBytes found
          { stream with subscribers := stream.subscribers.erase conn }
        have same : ({ stream with
            subscribers := stream.subscribers.erase conn } :
              Stream).ringBytes = stream.ringBytes := rfl
        omega

theorem lookup_foldl_leaveStream (nodup : keys.Nodup) (probe : StreamKey) :
    (keys.foldl (leaveStream conn) streams).lookup probe =
      if probe ∈ keys then
        (streams.lookup probe).bind (Stream.without conn)
      else streams.lookup probe := by
  induction keys generalizing streams with
  | nil => simp
  | cons key rest ih =>
      obtain ⟨new, restNodup⟩ := List.nodup_cons.mp nodup
      rw [List.foldl_cons, ih restNodup, lookup_leaveStream]
      by_cases same : probe = key
      · subst same
        simp [new]
      · simp [same]

theorem total_foldl_leaveStream (conn : ConnId)
    (streams : HashMap StreamKey Stream) (keys : List StreamKey) :
    HashMap.total Stream.ringBytes (keys.foldl (leaveStream conn) streams) =
      HashMap.total Stream.ringBytes streams := by
  induction keys generalizing streams with
  | nil => rfl
  | cons key rest ih =>
      rw [List.foldl_cons, ih, total_leaveStream]

/-- One connection has left some streams. -/
structure Leaves (conn : ConnId) (left : StreamKey → Prop)
    (streams streams' : HashMap StreamKey Stream) : Prop where
  stays : ∀ {key}, ¬ left key → streams'.lookup key = streams.lookup key
  leaves : ∀ {key}, left key →
    streams'.lookup key = (streams.lookup key).bind (Stream.without conn)
  total_eq : HashMap.total Stream.ringBytes streams' =
    HashMap.total Stream.ringBytes streams

theorem leaves_leaveStream (conn : ConnId)
    (streams : HashMap StreamKey Stream) (key : StreamKey) :
    Leaves conn (· = key) streams (leaveStream conn streams key) where
  stays differs := by rw [lookup_leaveStream, if_neg differs]
  leaves same := by rw [lookup_leaveStream, if_pos same, same]
  total_eq := total_leaveStream conn streams key

theorem leaves_foldl (conn : ConnId) (streams : HashMap StreamKey Stream)
    (nodup : keys.Nodup) :
    Leaves conn (· ∈ keys) streams
      (keys.foldl (leaveStream conn) streams) where
  stays absent := by rw [lookup_foldl_leaveStream nodup, if_neg absent]
  leaves member := by rw [lookup_foldl_leaveStream nodup, if_pos member]
  total_eq := total_foldl_leaveStream conn streams keys

namespace Leaves

variable {left : StreamKey → Prop} {streams' : HashMap StreamKey Stream}
  {stream : Stream}

/-- What is found afterwards was there before, with its ring and with all other
subscribers. -/
theorem before (leaves : Leaves conn left streams streams')
    (found : streams'.lookup key = some stream) :
    ∃ old, streams.lookup key = some old ∧ stream.key = old.key ∧
      stream.ring = old.ring ∧
      (∀ id, id ∈ stream.subscribers ↔
        id ∈ old.subscribers ∧ ¬ (id = conn ∧ left key)) ∧
      (left key → stream.ring ≠ none ∨ ∃ id, id ∈ stream.subscribers) := by
  by_cases gone : left key
  · rw [leaves.leaves gone] at found
    obtain ⟨old, oldFound, kept⟩ := Option.bind_eq_some_iff.mp found
    unfold Stream.without at kept
    simp only at kept
    split at kept
    · cases kept
    · rename_i remains
      cases kept
      refine ⟨old, oldFound, rfl, rfl, fun id => ?_, fun _ => ?_⟩
      · simp [AList.mem_erase, gone, and_comm]
      · by_cases hasRing : old.ring = none
        · right
          apply HashMap.exists_mem_of_ne_empty
          intro empty
          exact remains ⟨HashMap.len_eq_zero_iff.mpr empty, by simp [hasRing]⟩
        · exact Or.inl hasRing
  · rw [leaves.stays gone] at found
    exact ⟨stream, found, rfl, rfl, fun id => by simp [gone],
      fun absurdity => (gone absurdity).elim⟩

theorem hears_iff (leaves : Leaves conn left streams streams')
    (key : StreamKey) (id : ConnId) :
    Account.Hears streams' key id ↔
      Account.Hears streams key id ∧ ¬ (id = conn ∧ left key) := by
  constructor
  · rintro ⟨stream, found, subscribed⟩
    obtain ⟨old, oldFound, _, _, subscribers, _⟩ := leaves.before found
    exact ⟨⟨old, oldFound, ((subscribers id).mp subscribed).1⟩,
      ((subscribers id).mp subscribed).2⟩
  · rintro ⟨⟨old, oldFound, subscribed⟩, stays⟩
    by_cases gone : left key
    · have other : id ≠ conn := fun same => stays ⟨same, gone⟩
      have remains : id ∈ old.subscribers.erase conn :=
        AList.mem_erase.mpr ⟨other, subscribed⟩
      refine ⟨{ old with subscribers := old.subscribers.erase conn }, ?_,
        remains⟩
      rw [leaves.leaves gone, oldFound, Option.bind_some, Stream.without]
      apply if_neg
      rintro ⟨empty, _⟩
      rw [HashMap.len_eq_zero_iff] at empty
      exact HashMap.ne_empty_of_mem remains empty
    · exact ⟨old, by rw [leaves.stays gone]; exact oldFound, subscribed⟩

theorem ring_eq (leaves : Leaves conn left streams streams')
    (key : StreamKey) :
    ((streams'.lookup key).bind fun stream => stream.ring) =
      (streams.lookup key).bind fun stream => stream.ring := by
  by_cases gone : left key
  · rw [leaves.leaves gone]
    cases streams.lookup key with
    | none => rfl
    | some old =>
        simp only [Option.bind_some, Stream.without]
        split
        · rename_i empty
          simp [Option.isNone_iff_eq_none.mp empty.2]
        · rfl
  · rw [leaves.stays gone]

theorem tidy_but (leaves : Leaves conn left streams streams')
    (tidy : ∀ key stream, streams.lookup key = some stream →
      stream.ring ≠ none ∨ ∃ id, id ∈ stream.subscribers)
    (found : streams'.lookup key = some stream) :
    stream.ring ≠ none ∨ ∃ id, id ∈ stream.subscribers := by
  obtain ⟨old, oldFound, _, ring, subscribers, remains⟩ := leaves.before found
  by_cases gone : left key
  · exact remains gone
  · rcases tidy key old oldFound with hasRing | ⟨id, subscribed⟩
    · exact Or.inl (by rw [ring]; exact hasRing)
    · exact Or.inr ⟨id, (subscribers id).mpr ⟨subscribed, by simp [gone]⟩⟩

end Leaves

end Leaving

/-! ## One connection's subscriptions -/

section Subscribing

variable [Codec] {limits : Limits} {acct : Account} {conn : ConnId}
  {c : Conn} {key : StreamKey}

/-- Changing the subscriptions and the queue of one connection, with the
subscriber sets following, keeps the invariant. -/
theorem Account.Ok.with_subs (ok : acct.Ok limits)
    (found : acct.conns.lookup conn = some c) {out : Outbound}
    {subs : HashSet StreamKey} {streams : HashMap StreamKey Stream}
    (outOk : out.Ok)
    (hears : ∀ key id, Hears streams key id ↔
      if id = conn then key ∈ subs else Hears acct.streams key id)
    (keys : ∀ {key stream}, streams.lookup key = some stream →
      stream.key = key)
    (rings : ∀ key, ((streams.lookup key).bind fun stream => stream.ring) =
      acct.ring? key)
    (bytes : HashMap.total Stream.ringBytes streams =
      HashMap.total Stream.ringBytes acct.streams) :
    ({ acct with
      conns := acct.conns.insert conn { c with out, subs }
      streams } : Account).Ok limits := by
  constructor
  · intro id changed changedFound
    rw [HashMap.lookup_insert_eq] at changedFound
    split at changedFound
    · rename_i same
      cases changedFound
      have online := ok.online_of_conn found
      rw [same]
      exact online
    · exact ok.online_of_conn changedFound
  · intro principal id role online
    obtain ⟨old, oldFound, oldPrincipal⟩ := ok.conn_of_online online
    simp only [HashMap.lookup_insert_eq]
    by_cases same : id = conn
    · subst same
      obtain rfl : c = old := by simpa [found] using oldFound
      exact ⟨_, if_pos rfl, oldPrincipal⟩
    · exact ⟨old, by rw [if_neg same]; exact oldFound, oldPrincipal⟩
  · intro id changed changedFound other
    rw [HashMap.lookup_insert_eq] at changedFound
    change _ ↔ Hears streams other id
    rw [hears]
    split at changedFound
    · rename_i same
      cases changedFound
      rw [if_pos same]
    · rename_i differs
      rw [if_neg differs]
      exact ok.subs_iff changedFound other
  · intro other stream streamFound id subscribed
    have heard := (hears other id).mp ⟨stream, streamFound, subscribed⟩
    split at heard
    · rename_i same
      simp [same]
    · obtain ⟨old, oldFound, oldSubscribed⟩ := heard
      simp [ok.subscriber_known oldFound id oldSubscribed]
  · exact keys
  · intro id changed changedFound
    rw [HashMap.lookup_insert_eq] at changedFound
    split at changedFound
    · cases changedFound
      exact outOk
    · exact ok.queue_ok changedFound
  · intro other ring ringFound
    exact ok.ring_ok ((rings other).symm.trans ringFound)
  · exact ok.ringBytes_eq.trans bytes.symm

/-- Unsubscribing purges what is queued for the stream. -/
theorem act_unsubscribed {fx : Effects} {out : Outbound}
    {streams : HashMap StreamKey Stream}
    (found : acct.conns.lookup conn = some c)
    (purged : c.out.purgeStream key = .ok out)
    (rings : ∀ key, ((streams.lookup key).bind fun stream => stream.ring) =
      acct.ring? key) :
    Act limits acct fx (.unsubscribed conn key)
      { acct with
        conns := acct.conns.insert conn
          { c with out, subs := c.subs.erase key }
        streams } fx where
  kept {id old} oldFound _ := by
    simp only [HashMap.lookup_insert_eq]
    by_cases same : id = conn
    · subst same
      obtain rfl : c = old := by simpa [found] using oldFound
      refine ⟨_, if_pos rfl, rfl, rfl, fun other => ?_, ?_⟩
      · simp [Event.Subscribes, AList.mem_erase, and_comm]
      · rcases doomed_or_spared fx id with doomed | ⟨spared, _⟩
        · exact Or.inl doomed
        · refine Or.inr ⟨spared, ?_, ?_, ?_⟩
          · simp only [Event.ops, if_true]
            exact .next (.purge purged) (.done _)
          · simp [Event.ops, QueueOp.pushes]
          · simp [Event.ops, QueueOp.pushes]
    · refine ⟨old, by rw [if_neg same]; exact oldFound, .refl ?_ ?_
        (doomed_or_spared fx id)⟩
      · simp [Event.ops, same]
      · simp [Event.Subscribes, same]
  conns_new {id changed} changedFound := by
    left
    have member := HashMap.mem_of_lookup changedFound
    rcases (AList.mem_insert _).mp member with rfl | old
    · exact HashMap.mem_of_lookup found
    · exact old
  joined_new absurdity := by cases absurdity
  left_gone absurdity := by cases absurdity
  online_eq principal := rfl
  ring_kept other _ := Account.ring_kept_of_eq (rings other)
  ring_published absurdity := by cases absurdity
  ring_subscribed absurdity := by cases absurdity
  wake_live id member := Or.inl member
  wake_nodup nodup := nodup
  close_known id doomed := Or.inl doomed

theorem Hub.unsubscribe_spec {account : AccountId} {hub : Hub}
    (record : hub.accounts.lookup account = some acct)
    (ok : acct.Ok hub.limits) (tidy : acct.Tidy)
    (found : acct.conns.lookup conn = some c) (key : StreamKey)
    (fx : Effects) :
    ∃ hub' acct', hub.unsubscribe account conn key = .ok hub' ∧
      Moves account hub acct fx [.unsubscribed conn key] hub' acct' fx := by
  have purged := Outbound.purgeStream_eq (ok.queue_ok found) key
  have leaves := leaves_leaveStream conn acct.streams key
  refine ⟨_, _, ?_, hub.within_setAccount account _, ?_, ?_,
    .single (act_unsubscribed found purged leaves.ring_eq)⟩
  · simp [unsubscribe, record, found, purged]
  · refine ok.with_subs found ((ok.queue_ok found).purged key) ?_ ?_
      leaves.ring_eq leaves.total_eq
    · intro other id
      rw [leaves.hears_iff]
      by_cases same : id = conn
      · subst same
        simp only [if_true, true_and, AList.mem_erase, ok.subs_iff found,
          Account.Hears]
        exact and_comm
      · simp [same]
    · intro other stream streamFound
      obtain ⟨old, oldFound, keyEq, _⟩ := leaves.before streamFound
      exact keyEq.trans (ok.key_eq oldFound)
  · intro other stream streamFound
    exact leaves.tidy_but tidy streamFound

/-- A backfill does not panic, and when it fits the queue has taken it all. -/
theorem pushBackfill_spec (limits : Limits) (key : StreamKey) (kind : Kind)
    (epoch : Nat) (entries : List Entry) {queue : Outbound} (ok : queue.Ok)
    (queued : Nat) :
    ∃ out queued' pushed,
      pushBackfill limits key kind epoch entries queue queued =
        .ok (out, queued', pushed) ∧
      out.Ok ∧
      (pushed = .ok () → Performs limits queue
        (entries.map fun entry => .published key kind epoch entry) out) := by
  induction entries generalizing queue queued with
  | nil => exact ⟨queue, queued, .ok (), rfl, ok, fun _ => .done queue⟩
  | cons entry rest ih =>
      obtain ⟨ran, nextOk⟩ := pushEntry_eq limits key kind epoch entry ok
      unfold pushBackfill
      rw [ran]
      cases answer : (pushEntry limits key kind epoch entry queue).2 with
      | error slow =>
          exact ⟨_, queued, .error slow, by simp [answer], nextOk, by simp⟩
      | ok _ =>
          obtain ⟨out, queued', pushed, restRan, outOk, performs⟩ :=
            ih nextOk (queued + 1)
          refine ⟨out, queued', pushed, by simpa [answer] using restRan,
            outOk, fun fits => .next (.published ?_) (performs fits)⟩
          rw [ran]
          exact congrArg Except.ok (Prod.ext rfl answer)

/-- What a subscription does, given what it does to the subscriber. -/
theorem act_subscribed {fx fx' : Effects} {c' : Conn}
    {since : Option Position} {ring : Option Ring}
    {conns' : HashMap ConnId Conn}
    {streams : HashMap StreamKey Stream}
    (found : acct.conns.lookup conn = some c)
    (ringEq : acct.ring? key = ring)
    (mine : conns'.lookup conn = some c')
    (kept : Kept limits (.subscribed conn key since ring) conn c c' fx fx')
    (others : ∀ id, id ≠ conn →
      conns'.lookup id = acct.conns.lookup id ∧
        (Doomed fx' id ↔ Doomed fx id) ∧ (id ∈ fx'.wake ↔ id ∈ fx.wake))
    (rings : ∀ key, ((streams.lookup key).bind fun stream => stream.ring) =
      acct.ring? key)
    (nodup : fx.wake.Nodup → fx'.wake.Nodup) :
    Act limits acct fx (.subscribed conn key since ring)
      { acct with conns := conns', streams } fx' where
  kept {id old} oldFound _ := by
    by_cases same : id = conn
    · subst same
      obtain rfl : c = old := by simpa [found] using oldFound
      exact ⟨c', mine, kept⟩
    · obtain ⟨unchanged, doomed, wake⟩ := others id same
      refine ⟨old, unchanged.trans oldFound, .refl ?_ ?_ ?_⟩
      · simp [Event.ops, same]
      · simp [Event.Subscribes, same]
      · rw [doomed, wake]
        exact doomed_or_spared fx id
  conns_new {id changed} changedFound := by
    left
    by_cases same : id = conn
    · rw [same]
      exact HashMap.mem_of_lookup found
    · exact HashMap.mem_of_lookup ((others id same).1 ▸ changedFound)
  joined_new absurdity := by cases absurdity
  left_gone absurdity := by cases absurdity
  online_eq principal := rfl
  ring_kept other _ := Account.ring_kept_of_eq (rings other)
  ring_published absurdity := by cases absurdity
  ring_subscribed same := by
    cases same
    exact ⟨ringEq, (rings key).trans ringEq⟩
  wake_live id member := by
    by_cases same : id = conn
    · rw [same]
      exact Or.inr (HashMap.mem_of_lookup mine)
    · exact Or.inl ((others id same).2.2.mp member)
  wake_nodup := nodup
  close_known id doomed := by
    by_cases same : id = conn
    · rw [same]
      exact Or.inr (HashMap.mem_of_lookup found)
    · exact Or.inl ((others id same).2.1.mp doomed)

omit [Codec] in
/-- The history a stream answers with is the backfill and the marker of its
ring. -/
theorem history_spec {stream : Stream} {since : Option Position}
    {entries : List Entry} {kind : Kind} {epoch seq : Nat} {truncated : Bool}
    (key : StreamKey) (history : stream.history since =
      (entries, kind, epoch, seq, truncated)) :
    backfillOps stream.ring key since =
        entries.map (fun entry => .published key kind epoch entry) ∧
      backfillMarker stream.ring key since =
        ⟨some key.toRef, epoch, seq, truncated⟩ := by
  unfold Stream.history at history
  cases ring : stream.ring with
  | none =>
      simp only [ring, Prod.mk.injEq] at history
      obtain ⟨rfl, rfl, rfl, rfl, rfl⟩ := history
      exact ⟨rfl, rfl⟩
  | some found =>
      simp only [ring, Prod.mk.injEq] at history
      obtain ⟨rfl, rfl, rfl, rfl, rfl⟩ := history
      exact ⟨rfl, rfl⟩

/-- The account once a connection has joined a stream, with this queue. -/
def Account.subscribe (acct : Account) (conn : ConnId) (c : Conn)
    (key : StreamKey) (stream : Stream) (out : Outbound) : Account :=
  { acct with
    conns := acct.conns.insert conn
      { c with out, subs := c.subs.insert key () }
    streams := acct.streams.insert key
      { stream with subscribers := stream.subscribers.insert conn () } }

namespace Account

variable {stream : Stream} {out : Outbound}

omit [Codec] in
theorem ring?_subscribe (streamFound : acct.streams.lookup key = some stream)
    (conn : ConnId) (c : Conn) (out : Outbound) (other : StreamKey) :
    (acct.subscribe conn c key stream out).ring? other =
      acct.ring? other := by
  simp only [subscribe, ring?, HashMap.lookup_insert_eq]
  by_cases same : other = key
  · subst same
    simp [streamFound]
  · rw [if_neg same]

theorem Ok.subscribe (ok : acct.Ok limits)
    (found : acct.conns.lookup conn = some c)
    (streamFound : acct.streams.lookup key = some stream)
    (outOk : out.Ok) :
    (acct.subscribe conn c key stream out).Ok limits := by
  refine ok.with_subs found outOk ?_ ?_
    (ring?_subscribe streamFound conn c out) ?_
  · intro other id
    simp only [Hears, HashMap.lookup_insert_eq]
    by_cases sameKey : other = key
    · subst sameKey
      by_cases sameConn : id = conn
      · simp [sameConn]
      · simp [sameConn, streamFound]
    · by_cases sameConn : id = conn
      · subst sameConn
        simp only [sameKey, if_false, if_true, AList.mem_insert, false_or]
        exact (ok.subs_iff found other).symm
      · simp [sameKey, sameConn]
  · intro other changed changedFound
    rw [HashMap.lookup_insert_eq] at changedFound
    split at changedFound
    · rename_i same
      cases changedFound
      have unchanged := ok.key_eq streamFound
      exact unchanged.trans same.symm
    · exact ok.key_eq changedFound
  · have total := HashMap.total_insert_add Stream.ringBytes streamFound
      { stream with subscribers := stream.subscribers.insert conn () }
    have same : ({ stream with
        subscribers := stream.subscribers.insert conn () } :
          Stream).ringBytes = stream.ringBytes := rfl
    omega

omit [Codec] in
theorem TidyBut.subscribe (tidy : acct.TidyBut (· = key)) (conn : ConnId)
    (c : Conn) (stream : Stream) (out : Outbound) :
    (acct.subscribe conn c key stream out).Tidy := by
  intro other changed changedFound
  simp only [Account.subscribe, HashMap.lookup_insert_eq] at changedFound
  split at changedFound
  · cases changedFound
    exact Or.inr ⟨conn, by simp⟩
  · rename_i differs
    exact tidy other changed changedFound differs

end Account

/-- The subscriber after a backfill and its marker. -/
theorem Kept.subscribed {fx fx' : Effects} {conns' : HashMap ConnId Conn}
    {since : Option Position} {ring : Option Ring} {purged out : Outbound}
    (purge : c.out.purgeStream key = .ok purged)
    (performs : Performs limits purged
      (backfillOps ring key since) out)
    {conns : HashMap ConnId Conn}
    (found : conns.lookup conn =
      some { c with out, subs := c.subs.insert key () })
    (offered : Offered (fun c => c.out.pushFrame (.of (.backfilled
        (backfillMarker ring key since))) limits)
      [conn] conns fx conns' fx') :
    ∃ c', conns'.lookup conn = some c' ∧
      Kept limits (.subscribed conn key since ring) conn c c' fx fx' := by
  have foundAfter := offered.lookup_eq conn
  simp only [found, Option.map_some, List.mem_singleton, if_true]
    at foundAfter
  refine ⟨_, foundAfter, rfl, rfl, fun other => ?_, ?_⟩
  · simp [Conn.settled, Event.Subscribes, or_comm]
  · by_cases doomed : Doomed fx' conn
    · exact Or.inl doomed
    · have spared := mt (offered.doomed_iff conn).mpr doomed
      simp only [List.mem_singleton, found, Option.some.injEq, true_and,
        exists_eq_left', not_or, Bool.not_eq_false] at spared
      obtain ⟨before, accepted⟩ := spared
      have taken : (out.pushFrame (.of (.backfilled
          (backfillMarker ring key since))) limits).2 =
            .ok () := by
        cases answer : (out.pushFrame (.of (.backfilled
            (backfillMarker ring key since))) limits).2 with
        | error slow => simp [answer, Except.isOk, Except.toBool] at accepted
        | ok _ => rfl
      refine Or.inr ⟨before, ?_, ?_, ?_⟩
      · simp only [Event.ops, if_true]
        exact .next (.purge purge) (performs.append
          (.next (.frame (Prod.ext rfl taken)) (.done _)))
      · simp [Event.ops, Conn.settled, accepted, QueueOp.pushes]
      · rw [offered.wake_iff]
        simp [Event.ops, found, accepted, QueueOp.pushes]

/-- What replacing a subscription does, given what the backfill did to the
queue. -/
theorem Hub.subscribeTo_eq {account : AccountId} {hub : Hub} {stream : Stream}
    {since : Option Position} {fx : Effects} {entries : List Entry} {kind : Kind}
    {epoch seq queued : Nat} {truncated : Bool} {out : Outbound} {pushed : Pushed}
    (record : hub.accounts.lookup account = some acct) (ok : acct.Ok hub.limits)
    (streamFound : acct.streams.lookup key = some stream)
    (found : acct.conns.lookup conn = some c)
    (history : stream.history since = (entries, kind, epoch, seq, truncated))
    (backfilled : pushBackfill hub.limits key kind epoch entries
      (Outbound.counted
        (c.out.items.filter fun item => decide (item.stream ≠ some key))
        (c.out.dropped.erase key)) fx.queued = .ok (out, queued, pushed)) :
    hub.subscribeTo account conn key since fx =
      match pushed with
      | .error _ => .ok (hub.setAccount account
            (acct.subscribe conn c key stream out),
          ({ fx with queued } : Effects).closing conn fellBehind)
      | .ok _ => .ok ((hub.setAccount account
            (acct.subscribe conn c key stream out)).enqueue account conn
          (.of (.backfilled ⟨some key.toRef, epoch, seq, truncated⟩))
          { fx with queued }) := by
  have purged := Outbound.purgeStream_eq (ok.queue_ok found) key
  unfold subscribeTo
  simp only [record, streamFound, found, expect_some, ok_bind, purged]
  rw [history]
  have keyEq := ok.key_eq streamFound
  nth_rewrite 1 [← keyEq] at backfilled
  simp only [backfilled, ok_bind]
  cases pushed <;> rfl

/-- Replacing a subscription never panics; a backfill that does not fit dooms
the subscriber. -/
theorem Hub.subscribeTo_spec {account : AccountId} {hub : Hub}
    {stream : Stream} (record : hub.accounts.lookup account = some acct)
    (ok : acct.Ok hub.limits) (tidy : acct.TidyBut (· = key))
    (streamFound : acct.streams.lookup key = some stream)
    (found : acct.conns.lookup conn = some c) (since : Option Position)
    (fx : Effects) :
    ∃ hub' acct' fx',
      hub.subscribeTo account conn key since fx = .ok (hub', fx') ∧
      Moves account hub acct fx [.subscribed conn key since (acct.ring? key)]
        hub' acct' fx' := by
  have purged := Outbound.purgeStream_eq (ok.queue_ok found) key
  have ringEq : acct.ring? key = stream.ring :=
    Account.ring?_of_lookup streamFound
  rcases history : stream.history since with
    ⟨entries, kind, epoch, seq, truncated⟩
  obtain ⟨entriesEq, markerEq⟩ := history_spec key history
  rw [← ringEq] at entriesEq markerEq
  obtain ⟨out, queued, pushed, backfilled, outOk, performs⟩ :=
    pushBackfill_spec hub.limits key kind epoch entries
      ((ok.queue_ok found).purged key) fx.queued
  have middleOk := ok.subscribe found streamFound outOk
  have middleTidy := tidy.subscribe conn c stream out
  have within := hub.within_setAccount account
    (acct.subscribe conn c key stream out)
  have ran := subscribeTo_eq record ok streamFound found history backfilled
  cases pushed with
  | error slow =>
      refine ⟨_, _, _, ran, within, middleOk, middleTidy, .single ?_⟩
      refine act_subscribed found rfl (AList.lookup_insert acct.conns)
        ⟨rfl, rfl, fun other => ?_, Or.inl ⟨fellBehind, by simp
          [Effects.closing]⟩⟩ ?_ (Account.ring?_subscribe streamFound conn c out)
        (fun nodup => nodup)
      · simp [Event.Subscribes, or_comm]
      · intro id differs
        simp [differs, Doomed, Effects.closing]
  | ok _ =>
      obtain ⟨hub', conns', fx', enqueued, offered, withinAfter⟩ :=
        enqueueAll_spec within.record
          (.of (.backfilled ⟨some key.toRef, epoch, seq, truncated⟩))
          (List.nodup_singleton conn) { fx with queued }
      rw [within.limits_eq] at offered
      refine ⟨hub', _, fx', ?_, within.trans withinAfter,
        middleOk.offered offered, middleTidy, .single ?_⟩
      · rw [ran, enqueue_eq_enqueueAll, enqueued]
      · rw [← markerEq] at offered
        obtain ⟨c', mine, kept⟩ := Kept.subscribed purged
          (entriesEq ▸ performs rfl) (AList.lookup_insert acct.conns) offered
        refine act_subscribed found rfl mine ⟨kept.principal_eq, kept.chain_eq,
          kept.subs_iff, kept.doomed_or⟩ ?_
          (Account.ring?_subscribe streamFound conn c out) offered.wake_nodup
        intro id differs
        rw [offered.doomed_iff, offered.wake_iff, offered.lookup_eq]
        simp [differs, Account.subscribe, Doomed]

end Subscribing

end WindowMlHub
