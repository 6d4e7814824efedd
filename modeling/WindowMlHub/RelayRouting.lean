import WindowMlHub.RelaySubscriptions

/-!
# Routing one frame

What `receive` does with a frame before any connection is closed.  `Routed`
lists the possible outcomes: which events the frame can cause, and that they are
made from the frame and the sender's principal alone.  None of them panics.
-/

namespace WindowMlHub

open CheckedEvaluation HashTables

/-- Both ids of a stream are present and not too long. -/
def StreamKey.Valid (limits : Limits) (key : StreamKey) : Prop :=
  ¬ (key.publisher = [] ∨ key.publisher.length > limits.maxIdBytes ∨
    key.channel = [] ∨ key.channel.length > limits.maxIdBytes)

namespace Frame

/-- The stream and the position a frame asks to subscribe to. -/
def subscription? : Frame → Option (StreamKey × Option Position)
  | ⟨some (.subscribe ⟨some stream, since⟩)⟩ =>
      some (⟨stream.publisher, stream.channel⟩, since)
  | _ => none

/-- The stream a frame asks to unsubscribe from. -/
def unsubscription? : Frame → Option StreamKey
  | ⟨some (.unsubscribe ⟨some stream⟩)⟩ =>
      some ⟨stream.publisher, stream.channel⟩
  | _ => none

/-- A frame that says nothing about streams or presence. -/
structure Plain (frame : Frame) : Prop where
  envelope : frame.envelope? = none
  presence : frame.presence? = none
  backfilled : frame.backfilled? = none
  gap : frame.gap? = none

end Frame

theorem errorFrame_plain (code : Code) (reference : Nat) (message : String) :
    (errorFrame code reference message).Plain :=
  ⟨rfl, rfl, rfl, rfl⟩

theorem fellBehind_plain : fellBehind.Plain :=
  errorFrame_plain _ _ _

namespace Envelope

/-- An envelope as it is handed to a ring: from its sender, whatever the peer
wrote. -/
def fromSender (env : Envelope) (sender : Bytes) : Envelope :=
  { env with
    sender
    seq := 0
    epoch := 0
    coalesce :=
      if Kind.ofInt env.kind = .telemetry then env.coalesce else [] }

end Envelope

/-- An envelope whose sizes are within what the relay routes. -/
structure Envelope.Fits (limits : Limits) (env : Envelope) : Prop where
  payload : env.payload.length ≤ limits.maxPayloadBytes
  coalesce : env.coalesce.length ≤ limits.maxCoalesceBytes
  channel : ∀ channel, env.sentTo = some (.channel channel) →
    channel.length ≤ limits.maxIdBytes

/-- A kind that is published on streams. -/
def Kind.Streamed (kind : Kind) : Prop :=
  kind = .sessionEvents ∨ kind = .telemetry

/-- A kind that is sent to one principal. -/
def Kind.Directed (kind : Kind) : Prop :=
  kind = .command ∨ kind = .commandResult ∨ kind = .bulk

/-- The events a frame from `conn`, whose principal is `sender`, can cause in an
account that then has these rings. -/
inductive Routed (limits : Limits) (acct : Account)
    (rings : StreamKey → Option Ring) (conn : ConnId) (sender : Bytes) (fx : Effects) :
    Frame → List Event → Prop
  /-- the sender is to be closed -/
  | closed {frame : Frame} (doomed : Doomed fx conn) :
      Routed limits acct rings conn sender fx frame []
  | ignored {frame : Frame} (noSubscribe : frame.subscription? = none)
      (noUnsubscribe : frame.unsubscription? = none) :
      Routed limits acct rings conn sender fx frame []
  | answered {frame notice : Frame} (plain : notice.Plain)
      (noSubscribe : ∀ key since, frame.subscription? = some (key, since) →
        ¬ key.Valid limits)
      (noUnsubscribe : frame.unsubscription? = none) :
      Routed limits acct rings conn sender fx frame [.frame conn notice]
  | published {env : Envelope} {channel : Bytes} {ring : Ring}
      (addressed : env.sentTo = some (.channel channel))
      (origin : acct.ring? ⟨sender, channel⟩ = some ring ∨
        acct.ring? ⟨sender, channel⟩ = none ∧ ring.Fresh)
      (advanced : ∃ next, rings ⟨sender, channel⟩ = some next ∧
        ring.Advanced (env.fromSender sender) next)
      (kind : ring.kind = Kind.ofInt env.kind)
      (streamed : ring.kind.Streamed) (fits : env.Fits limits)
      (room : acct.RoomFor limits ⟨sender, channel⟩) :
      Routed limits acct rings conn sender fx (.of (.envelope env))
        [.published ⟨sender, channel⟩ ring (env.fromSender sender)]
  | direct {env : Envelope} {target : Bytes} {targetConn : ConnId}
      {role : Role} (addressed : env.sentTo = some (.principal target))
      (directed : (Kind.ofInt env.kind).Directed)
      (online : acct.online.lookup target = some (targetConn, role))
      (fits : env.Fits limits) :
      Routed limits acct rings conn sender fx (.of (.envelope env))
        [.frame targetConn (.of (.envelope (env.fromSender sender)))]
  /-- the recipient fell behind, and the sender is told -/
  | undelivered {env : Envelope} {target : Bytes} {targetConn : ConnId}
      {role : Role} {notice : Frame}
      (addressed : env.sentTo = some (.principal target))
      (directed : (Kind.ofInt env.kind).Directed)
      (online : acct.online.lookup target = some (targetConn, role))
      (plain : notice.Plain) (fits : env.Fits limits) :
      Routed limits acct rings conn sender fx (.of (.envelope env))
        [.frame targetConn (.of (.envelope (env.fromSender sender))),
          .frame conn notice]
  | subscribed {frame : Frame} {key : StreamKey} {since : Option Position}
      (asked : frame.subscription? = some (key, since))
      (valid : key.Valid limits) :
      Routed limits acct rings conn sender fx frame
        [.subscribed conn key since (acct.ring? key)]
  | unsubscribed {frame : Frame} {key : StreamKey}
      (asked : frame.unsubscription? = some key) :
      Routed limits acct rings conn sender fx frame [.unsubscribed conn key]

theorem Routed.no_join {limits : Limits} {acct : Account}
    {rings : StreamKey → Option Ring} {conn : ConnId}
    {sender : Bytes} {fx : Effects} {frame : Frame} {events : List Event}
    (routed : Routed limits acct rings conn sender fx frame events) :
    (∀ id c role, .joined id c role ∉ events) ∧
      ∀ id principal role, .left id principal role ∉ events := by
  cases routed <;> simp

section Routing

variable [Codec] {account : AccountId} {hub : Hub} {acct : Account}
  {conn : ConnId} {c : Conn}

/-- What the routing of a frame has to show. -/
def Routes (account : AccountId) (hub : Hub) (acct : Account)
    (conn : ConnId) (sender : Bytes) (fx : Effects) (frame : Frame)
    (result : Checked (Hub × Effects)) : Prop :=
  ∃ hub' acct' fx' events, result = .ok (hub', fx') ∧
    Moves account hub acct fx events hub' acct' fx' ∧
    Routed hub.limits acct acct'.ring? conn sender fx' frame events

variable (record : hub.accounts.lookup account = some acct)
  (ok : acct.Ok hub.limits) (tidy : acct.Tidy)
  (found : acct.conns.lookup conn = some c)

include record ok tidy in
theorem Routes.answer {frame notice : Frame} (plain : notice.Plain)
    (noSubscribe : ∀ key since, frame.subscription? = some (key, since) →
      ¬ key.Valid hub.limits)
    (noUnsubscribe : frame.unsubscription? = none) (sender : Bytes)
    (fx : Effects) :
    Routes account hub acct conn sender fx frame
      (.ok (hub.enqueue account conn notice fx)) := by
  obtain ⟨hub', acct', fx', ran, moves⟩ :=
    hub.enqueue_spec record ok tidy conn notice fx
  exact ⟨hub', acct', fx', _, congrArg Except.ok ran, moves,
    .answered plain noSubscribe noUnsubscribe⟩

include record ok tidy found in
theorem Routes.close (sender : Bytes) (fx : Effects) (frame notice : Frame) :
    Routes account hub acct conn sender fx frame
      (.ok (hub, fx.closing conn notice)) :=
  ⟨hub, acct, _, [], rfl,
    .doom record ok tidy (HashMap.mem_of_lookup found) fx notice,
    .closed ⟨notice, List.mem_cons_self⟩⟩

include record ok tidy in
theorem Routes.ignore {frame : Frame}
    (noSubscribe : frame.subscription? = none)
    (noUnsubscribe : frame.unsubscription? = none) (sender : Bytes)
    (fx : Effects) :
    Routes account hub acct conn sender fx frame (.ok (hub, fx)) :=
  ⟨hub, acct, fx, [], rfl, .refl record ok tidy fx,
    .ignored noSubscribe noUnsubscribe⟩

include record ok tidy found in
/-- A publication that is not refused for the kind of its stream offers no frames. -/
theorem Hub.publish_routes (order : HashOrder) {env : Envelope}
    {channel : Bytes} (sender : Bytes)
    (addressed : env.sentTo = some (.channel channel))
    (streamed : (Kind.ofInt env.kind).Streamed) (fits : env.Fits hub.limits)
    (fx : Effects) :
    ∃ hub' acct' fx' events,
      hub.publish order account conn ⟨sender, channel⟩ (Kind.ofInt env.kind)
        (env.fromSender sender) fx = .ok (hub', fx') ∧
      Moves account hub acct fx events hub' acct' fx' ∧
      Routed hub.limits acct acct'.ring? conn sender fx' (.of (.envelope env)) events ∧
      ((∀ ring, acct.ring? ⟨sender, channel⟩ = some ring →
          ring.kind = Kind.ofInt env.kind) →
        ∀ target given, .frame target given ∉ events) := by
  unfold publish
  rcases hub.ensureStream_spec order record ok tidy ⟨sender, channel⟩ fx with
    refused | ⟨hub', acct', ran, ensured⟩
  · rw [refused, ok_bind]
    exact ⟨hub, acct, _, [], rfl,
      .doom record ok tidy (HashMap.mem_of_lookup found) fx _,
      .closed ⟨_, List.mem_cons_self⟩, by simp⟩
  · obtain ⟨stream, streamFound⟩ := ensured.stream
    have found' : acct'.conns.lookup conn = some c := by
      rw [ensured.conns_eq]
      exact found
    have ok' : acct'.Ok hub'.limits := by
      rw [ensured.within.limits_eq]
      exact ensured.ok
    have ringEq : acct.ring? ⟨sender, channel⟩ = stream.ring :=
      ensured.ring_eq.symm.trans (Account.ring?_of_lookup streamFound)
    simp only [ran, ok_bind, if_true, ensured.within.record, index_some,
      streamFound]
    cases ringFound : stream.ring with
    | none =>
        obtain ⟨epochState, epoch, next, positive, bounded⟩ := hub'.nextEpoch_spec
        have record'' : ({ hub' with epochState } : Hub).accounts.lookup
            account = some acct' := ensured.within.record
        obtain ⟨ring, hub'', acct'', fx', published, moves, origin, advanced,
          kindEq⟩ :=
          Hub.publishInto_spec order record'' ok' ensured.tidy streamFound
            (by simp [ringFound]) epoch (fun _ => ⟨positive, bounded⟩)
            (env.fromSender sender) fx
        -- the drawn epoch is no part of what the account goes through
        have unseen : Moves account hub' acct' fx _ hub'' acct'' fx' :=
          ⟨⟨moves.within.limits_eq, moves.within.connAccount_eq,
            moves.within.nextConn_eq, moves.within.others, moves.within.record⟩,
            moves.ok, moves.tidy, moves.acts⟩
        exact ⟨hub'', acct'', fx', _, by simp [next, published], ensured.moves unseen,
          .published addressed (ringEq ▸ origin) advanced kindEq
            (kindEq ▸ streamed) fits ensured.room, by simp⟩
    | some ring =>
        by_cases otherKind : ring.kind ≠ Kind.ofInt env.kind
        · simp only [if_pos otherKind]
          have tidy' : acct'.Tidy := by
            apply ensured.tidy.tidy
            rintro key changed rfl changedFound
            rw [streamFound] at changedFound
            cases changedFound
            exact Or.inl (by simp [ringFound])
          obtain ⟨hub'', acct'', fx', enqueued, moves⟩ :=
            hub'.enqueue_spec ensured.within.record ok' tidy' conn
              (errorFrame .invalid (env.fromSender sender).ref
                "channel already carries another kind") fx
          exact ⟨hub'', acct'', fx', _, congrArg Except.ok enqueued,
            ensured.moves moves,
            .answered (errorFrame_plain _ _ _) (by simp [Frame.subscription?,
              Frame.of]) rfl,
            fun sameKind => absurd (sameKind ring (ringEq.trans ringFound)) otherKind⟩
        · simp only [if_neg otherKind]
          obtain ⟨ring', hub'', acct'', fx', published, moves, origin, advanced,
          kindEq⟩ :=
            Hub.publishInto_spec order ensured.within.record ok' ensured.tidy
              streamFound
              (fun other same => by
                rw [ringFound] at same
                cases same
                exact not_not.mp otherKind)
              0 (by simp [ringFound]) (env.fromSender sender) fx
          exact ⟨hub'', acct'', fx', _, published, ensured.moves moves,
            .published addressed (ringEq ▸ origin) advanced kindEq
              (kindEq ▸ streamed) fits ensured.room, by simp⟩

include record ok tidy found in
theorem Hub.publish_spec (order : HashOrder) {env : Envelope}
    {channel : Bytes} (sender : Bytes)
    (addressed : env.sentTo = some (.channel channel))
    (streamed : (Kind.ofInt env.kind).Streamed) (fits : env.Fits hub.limits)
    (fx : Effects) :
    Routes account hub acct conn sender fx (.of (.envelope env))
      (hub.publish order account conn ⟨sender, channel⟩ (Kind.ofInt env.kind)
        (env.fromSender sender) fx) := by
  obtain ⟨hub', acct', fx', events, ran, moves, routed, -⟩ :=
    hub.publish_routes record ok tidy found order sender addressed streamed fits fx
  exact ⟨hub', acct', fx', events, ran, moves, routed⟩

omit [Codec] in
theorem not_subscription (env : Envelope) (limits : Limits)
    (key : StreamKey) (since : Option Position)
    (asked : (Frame.of (.envelope env)).subscription? = some (key, since)) :
    ¬ key.Valid limits := by
  cases asked

include record ok tidy in
theorem Hub.direct_spec {env sent : Envelope} {target : Bytes}
    (conn : ConnId) (sender : Bytes) (addressed : env.sentTo = some (.principal target))
    (directed : (Kind.ofInt env.kind).Directed)
    (sentEq : { sent with sentTo := some (.principal target) } =
      env.fromSender sender) (fits : env.Fits hub.limits) (fx : Effects) :
    Routes account hub acct conn sender fx (.of (.envelope env))
      (hub.direct account conn target sent fx) := by
  unfold direct
  simp only [record, Option.bind_some]
  cases online : acct.online.lookup target with
  | none =>
      exact Routes.answer record ok tidy (errorFrame_plain _ _ _)
        (not_subscription env hub.limits) rfl sender fx
  | some entry =>
      obtain ⟨targetConn, role⟩ := entry
      obtain ⟨peer, peerFound, _⟩ := ok.conn_of_online online
      simp only [expect_some, ok_bind, peerFound, sentEq]
      obtain ⟨hub', acct', fx', ran, moves⟩ := hub.enqueue_spec record ok tidy
        targetConn (.of (.envelope (env.fromSender sender))) fx
      -- the push of `direct` is the one `enqueue` makes
      unfold enqueue at ran
      simp only [record, peerFound, Prod.mk.injEq] at ran
      obtain ⟨rfl, rfl⟩ := ran
      cases answer : (peer.out.pushFrame
          (.of (.envelope (env.fromSender sender))) hub.limits).2 with
      | ok _ => exact ⟨_, acct', _, _, rfl, moves,
          .direct addressed directed online fits⟩
      | error slow =>
          obtain ⟨hub'', acct'', fx'', told, later⟩ :=
            Hub.enqueue_spec moves.within.record
              (moves.within.limits_eq ▸ moves.ok) moves.tidy conn
              (errorFrame .unavailable sent.ref "recipient fell behind") _
          exact ⟨hub'', acct'', fx'', _, congrArg Except.ok told,
            moves.trans later,
            .undelivered addressed directed online (errorFrame_plain _ _ _) fits⟩

include record ok tidy found in
theorem Hub.onEnvelope_spec (order : HashOrder) (env : Envelope)
    (fx : Effects) :
    Routes account hub acct conn c.principal fx (.of (.envelope env))
      (hub.onEnvelope order account conn env fx) := by
  have principal : hub.principalOf account conn = some c.principal := by
    simp [principalOf, conn?, record, found]
  have answer (code : Code) (message : String) :
      Routes account hub acct conn c.principal fx (.of (.envelope env))
        (.ok (hub.enqueue account conn (errorFrame code env.ref message) fx)) :=
    Routes.answer record ok tidy (errorFrame_plain _ _ _)
      (not_subscription env hub.limits) rfl c.principal fx
  have publish {channel : Bytes}
      (addressed : env.sentTo = some (.channel channel))
      (streamed : (Kind.ofInt env.kind).Streamed)
      (fits : env.Fits hub.limits) :=
    hub.publish_spec record ok tidy found order c.principal addressed
      streamed fits fx
  have direct {target : Bytes}
      (addressed : env.sentTo = some (.principal target))
      (directed : (Kind.ofInt env.kind).Directed)
      (sent : Envelope) (sentEq : { sent with
        sentTo := some (.principal target) } = env.fromSender c.principal)
      (fits : env.Fits hub.limits) :=
    hub.direct_spec record ok tidy conn c.principal addressed directed sentEq
      fits fx
  unfold onEnvelope
  split
  · exact Routes.close record ok tidy found c.principal fx _ _
  rename_i payload
  split
  · exact Routes.close record ok tidy found c.principal fx _ _
  rename_i coalesce
  rw [principal]
  rcases sentTo : env.sentTo with _ | target | channel
  · cases kind : Kind.ofInt env.kind
    all_goals simp only
    all_goals exact answer _ _
  · cases kind : Kind.ofInt env.kind
    all_goals simp only
    · exact answer _ _
    · exact answer _ _
    · exact answer _ _
    all_goals
      exact direct sentTo (by simp [Kind.Directed, kind]) _
        (by simp [Envelope.fromSender, sentTo, kind])
        ⟨Nat.le_of_not_lt payload, Nat.le_of_not_lt coalesce, by simp [sentTo]⟩
  · have fits (good : ¬ (channel = [] ∨ channel.length > hub.limits.maxIdBytes)) :
        env.Fits hub.limits := by
      refine ⟨Nat.le_of_not_lt payload, Nat.le_of_not_lt coalesce, fun other same => ?_⟩
      rw [sentTo] at same
      cases same
      exact Nat.le_of_not_lt (not_or.mp good).2
    cases kind : Kind.ofInt env.kind
    all_goals simp only
    · exact answer _ _
    · split
      · exact answer _ _
      next good =>
        have published := publish sentTo (by simp [Kind.Streamed, kind]) (fits good)
        simpa [Envelope.fromSender, sentTo, kind] using published
    · split
      · exact answer _ _
      next good =>
        have published := publish sentTo (by simp [Kind.Streamed, kind]) (fits good)
        simpa [Envelope.fromSender, sentTo, kind] using published
    all_goals exact answer _ _

include record ok tidy found in
theorem Hub.onSubscribe_spec (order : HashOrder) (request : Subscribe)
    (sender : Bytes) (fx : Effects) :
    Routes account hub acct conn sender fx (.of (.subscribe request))
      (hub.onSubscribe order account conn request fx) := by
  obtain ⟨stream, since⟩ := request
  unfold onSubscribe
  cases stream with
  | none =>
      exact Routes.answer record ok tidy (errorFrame_plain _ _ _)
        (by simp [Frame.subscription?, Frame.of]) rfl sender fx
  | some stream =>
      have asked : (Frame.of (.subscribe ⟨some stream, since⟩)).subscription? =
          some (⟨stream.publisher, stream.channel⟩, since) := rfl
      simp only
      split
      · rename_i bad
        refine Routes.answer record ok tidy (errorFrame_plain _ _ _) ?_ rfl
          sender fx
        rintro key position same valid
        rw [asked] at same
        cases same
        exact valid bad
      · rename_i good
        simp only [record, index_some, ok_bind]
        split
        · exact Routes.close record ok tidy found sender fx _ _
        · rcases hub.ensureStream_spec order record ok tidy
              ⟨stream.publisher, stream.channel⟩ fx with
            refused | ⟨hub', acct', ran, ensured⟩
          · simp only [refused, ok_bind]
            exact Routes.close record ok tidy found sender fx _ _
          · obtain ⟨ensuredStream, streamFound⟩ := ensured.stream
            obtain ⟨hub'', acct'', fx', subscribed, moves⟩ :=
              Hub.subscribeTo_spec ensured.within.record
                (ensured.within.limits_eq ▸ ensured.ok) ensured.tidy
                streamFound (ensured.conns_eq ▸ found) since fx
            rw [ensured.ring_eq] at moves
            refine ⟨hub'', acct'', fx', _, ?_,
              ensured.moves moves,
              .subscribed asked good⟩
            simpa [ran] using subscribed

include record ok tidy found in
/-- Routing a frame from a known connection never panics. -/
theorem Hub.route_spec (order : HashOrder) (frame : Frame) (fx : Effects) :
    Routes account hub acct conn c.principal fx frame
      (hub.route order account conn frame fx) := by
  obtain ⟨body⟩ := frame
  have close (notice : Frame) :=
    Routes.close record ok tidy found c.principal fx ⟨body⟩ notice
  unfold route
  cases body with
  | none =>
      exact Routes.answer record ok tidy (errorFrame_plain _ _ _)
        (by simp [Frame.subscription?]) rfl c.principal fx
  | some body =>
      cases body with
      | envelope env =>
          exact hub.onEnvelope_spec record ok tidy found order env fx
      | subscribe request =>
          exact hub.onSubscribe_spec record ok tidy found order request
            c.principal fx
      | unsubscribe request =>
          obtain ⟨stream⟩ := request
          cases stream with
          | none => exact Routes.ignore record ok tidy rfl rfl c.principal fx
          | some stream =>
              obtain ⟨hub', acct', ran, moves⟩ := hub.unsubscribe_spec record
                ok tidy found ⟨stream.publisher, stream.channel⟩ fx
              exact ⟨hub', acct', fx, _, by simp [ran], moves,
                .unsubscribed rfl⟩
      | ping nonce =>
          exact Routes.answer record ok tidy ⟨rfl, rfl, rfl, rfl⟩
            (by simp [Frame.subscription?]) rfl c.principal fx
      | pong nonce => exact Routes.ignore record ok tidy rfl rfl c.principal fx
      | error notice =>
          exact Routes.ignore record ok tidy rfl rfl c.principal fx
      | _ => exact close _

end Routing

end WindowMlHub
