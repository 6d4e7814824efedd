import WindowMlHub.ConnectorServing
import WindowMlHub.RelayDirects
import WindowMlHub.RelayEnvelopeSizes
import WindowMlHub.RelayFollowing
import WindowMlHub.RelayedSizes

/-!
# A connector among the devices of its account

A connector and its hub, with what is on the way between them.  The other devices connect,
send and leave as they like; the hub receives what the connector sends when it comes to it,
and hands out what it has queued; the connector publishes, and acts on what it reads.

`run` goes on over a throttle and ends over every other error, as if these were all about its
own connection.  The hub has one that is not: whoever sends to a principal that is not online,
or has fallen behind, is told so.  So a device that asks for the key and leaves before the
answer is routed ends the connector, and so does one to whose agreement key nothing can be
sealed.  Nothing else that other devices do ends it.
-/

namespace WindowMlHub

open CheckedEvaluation HashTables

/-- What the connector sends is sent, what it writes down is written, and a key can be
drawn. -/
structure Circumstances.Sound (now : Circumstances) : Prop where
  sends : ∀ number, now.sends number = true
  writes : ∀ number, now.writes number = true
  freshKey : now.freshKey ≠ none

/-- Something can always be sealed to this key. -/
def Seals (primitives : HpkePrimitives) (agreementKey : Bytes) : Prop :=
  ∀ info plaintext randomness,
    primitives.singleShotSeal agreementKey info plaintext randomness ≠ none

/-- The envelope that `direct` puts a sealed message in. -/
def directEnvelope (target : Bytes) (kind : Kind) (payload : Bytes) : Envelope where
  sentTo := some (.principal target)
  kind := kind.toInt
  payload := payload

/-- Whom an envelope is for, if it is for a principal. -/
def Envelope.recipient? (env : Envelope) : Option Bytes :=
  match env.sentTo with
  | some (.principal target) => some target
  | _ => none

/-- The frame that a deed sends, if it sends one. -/
def Deed.frame? : Deed → Option Frame
  | .grant asked _ wrapped =>
      some (.of (.envelope (directEnvelope asked.sentBy .command wrapped)))
  | .told asked _ sealed =>
      some (.of (.envelope (directEnvelope asked.sentBy .commandResult sealed)))
  | .subscribe revoker channel => some (.of (.subscribe ⟨some ⟨revoker, channel⟩, none⟩))
  | .accepted _ | .rotated _ => none

/-- The frame that `publish` sends for a frame of the box, if it publishes it. -/
def BoxServing.publication? (primitives : ServingPrimitives) (serving : BoxServing)
    (given : Handover) : Option Frame :=
  let relay := serving.publishing.relay
  if frameHash given.frame ∈ serving.publishing.seenSet then
    none
  else
    match (relay.frame primitives.toStreamPrimitives given.nonce given.frame).2 with
    | .publishes lane _ coalesce sealed =>
        some (.of (.envelope (relay.envelope lane coalesce sealed)))
    | .consumed | .unsealed _ => none

/-- A connector on its connection, and the frames that are on the way, oldest first: up to
the hub, and down to the connector. -/
structure ConnectorAtHub where
  hub : Hub
  opener : Opener
  serving : BoxServing
  upward : List Frame
  downward : List Frame := []

/-- What happens next. -/
inductive ConnectorMove
  /-- the hub is called on account of others -/
  | other (order : HashOrder) (call : Call)
  /-- the hub receives the oldest frame that the connector has sent -/
  | hears (order : HashOrder)
  /-- the hub hands out what it has queued for the connector -/
  | hands (order : HashOrder) (budget : Nat)
  /-- the server pings the connector, past the queue -/
  | pings (nonce : Nat)
  /-- the connector reads a frame, and acts on the event -/
  | reads (now : Circumstances)
  /-- the connector is handed a frame by its box -/
  | relays (now : Circumstances) (given : Handover)

namespace ConnectorAtHub

section Moving

variable [Codec] (primitives : ServingPrimitives) (formats : FileFormats)
  (clock : Nat → Nat) (account : AccountId) (conn : ConnId)

/-- What the connector does with the event that it has read. -/
def act (session : ConnectorAtHub) (now : Circumstances) (awaited : Awaited)
    (published : Option Frame) : Except ServeError ConnectorAtHub := do
  let (serving, deeds) ← session.serving.turn primitives formats now awaited
  return { session with
    serving
    upward := session.upward ++ published.toList ++ deeds.filterMap Deed.frame? }

/-- One move: it is the end of `run` if it returns an error. -/
def step (session : ConnectorAtHub) :
    ConnectorMove → Checked (Except ServeError ConnectorAtHub)
  | .other order call => do
      let (hub, _) ← session.hub.apply order call
      return .ok { session with hub }
  | .hears order =>
      match session.upward with
      | [] => .ok (.ok session)
      | frame :: upward => do
          let (hub, _) ← session.hub.apply order (.receive conn frame)
          return .ok { session with hub, upward }
  | .hands order budget => do
      let (hub, reply) ← session.hub.apply order (.takeOutbound conn budget)
      return .ok { session with hub, downward := session.downward ++ reply.frames }
  | .pings nonce =>
      .ok (.ok { session with downward := session.downward ++ [.of (.ping nonce)] })
  | .reads now =>
      match session.downward with
      | [] => .ok (.ok session)
      | frame :: downward =>
          let (opener, outcome) := session.opener.handle primitives.toSealPrimitives clock frame
          let read := { session with opener, downward }
          match outcome with
          | none => .ok (.ok { read with
              upward := read.upward ++ frame.pong?.toList.map .of })
          | some (.ok event) =>
              .ok (read.act primitives formats now (.hub (.ok event)) none)
          | some (.error _) => .ok (.error (.hub .transport))
  | .relays now given =>
      .ok (session.act primitives formats now (.frame (some given))
        (session.serving.publication? primitives given))

/-- Moves one after another, as long as none is the end of `run`. -/
def run (session : ConnectorAtHub) :
    List ConnectorMove → Checked (Except ServeError ConnectorAtHub)
  | [] => .ok (.ok session)
  | move :: rest => do
      match ← session.step primitives formats clock conn move with
      | .error error => return .error error
      | .ok next => next.run rest

/-- Something holds whenever a move is made. -/
def Throughout (Holds : ConnectorAtHub → ConnectorMove → Prop) (session : ConnectorAtHub) :
    List ConnectorMove → Prop
  | [] => True
  | move :: rest => Holds session move ∧
      ∀ next, session.step primitives formats clock conn move = .ok (.ok next) →
        next.Throughout Holds rest

theorem Throughout.imp (Holds : ConnectorAtHub → ConnectorMove → Prop)
    {Weaker : ConnectorAtHub → ConnectorMove → Prop} {session : ConnectorAtHub}
    {moves : List ConnectorMove}
    (weakens : ∀ session, ∀ move ∈ moves, Holds session move → Weaker session move)
    (holds : session.Throughout primitives formats clock conn Holds moves) :
    session.Throughout primitives formats clock conn Weaker moves := by
  induction moves generalizing session with
  | nil => trivial
  | cons move rest ih =>
      obtain ⟨now, later⟩ := holds
      exact ⟨weakens session move List.mem_cons_self now, fun next stepped =>
        ih (fun session move member => weakens session move (List.mem_cons_of_mem _ member))
          (later next stepped)⟩

/-- Something holds of what a move leads to. -/
instance decidableAfter {α ε : Type} (Holds : α → Prop) [DecidablePred Holds] :
    (result : Checked (Except ε α)) →
      Decidable (∀ next, result = .ok (.ok next) → Holds next)
  | .ok (.ok next) => decidable_of_iff (Holds next)
      ⟨fun holds _ same => Except.ok.inj (Except.ok.inj same) ▸ holds, fun holds => holds next rfl⟩
  | .ok (.error _) => isTrue fun _ absurdity => nomatch Except.ok.inj absurdity
  | .error _ => isTrue fun _ absurdity => nomatch absurdity

/-- A run ended with this error. -/
instance decidableEnds {α ε : Type} [DecidableEq ε] (error : ε) :
    (result : Checked (Except ε α)) → Decidable (result = .ok (.error error))
  | .ok (.error other) => decidable_of_iff (other = error) (by simp)
  | .ok (.ok _) => isFalse nofun
  | .error _ => isFalse nofun

instance decidableThroughout (Holds : ConnectorAtHub → ConnectorMove → Prop)
    [∀ session move, Decidable (Holds session move)] : (moves : List ConnectorMove) →
      (session : ConnectorAtHub) →
        Decidable (session.Throughout primitives formats clock conn Holds moves)
  | [], _ => isTrue trivial
  | move :: rest, session =>
      have := decidableThroughout Holds rest
      inferInstanceAs (Decidable (Holds session move ∧
        ∀ next, session.step primitives formats clock conn move = .ok (.ok next) →
          next.Throughout primitives formats clock conn Holds rest))

end Moving

section Conditions

variable [Codec] (primitives : ServingPrimitives) (formats : FileFormats)
  (clock : Nat → Nat) (account : AccountId) (conn : ConnId)

/-- Others are called for, or the connector is only charged; and the connector's own work
does not fail. -/
def Works (session : ConnectorAtHub) : ConnectorMove → Prop
  | .other _ call => call.conn? ≠ some conn ∨ ∃ bytes nowMs, call = .charge conn bytes nowMs
  | .reads now => now.Sound
  | .relays now given => now.Sound ∧ given.accepted = true ∧
      ∀ error, (session.serving.publishing.relay.frame primitives.toStreamPrimitives
        given.nonce given.frame).2 ≠ .unsealed error
  | .hears _ | .hands _ _ | .pings _ => True

/-- The hub keeps the connection. -/
def Keeps (session : ConnectorAtHub) (move : ConnectorMove) : Prop :=
  ∀ next, session.step primitives formats clock conn move = .ok (.ok next) →
    (next.hub.conn? account conn).isSome

/-- The connector's own work does not fail, and the hub keeps its connection. -/
def StaysUp (session : ConnectorAtHub) (move : ConnectorMove) : Prop :=
  session.Works primitives conn move ∧
    session.Keeps primitives formats clock account conn move

/-! ## When nobody ends it -/

/-- Whoever the envelope is for that the hub receives next is online, and has room for it. -/
def Reaches (session : ConnectorAtHub) : Prop :=
  ∀ env ∈ session.upward.head?.bind Frame.envelope?, ∀ target ∈ env.recipient?,
    ∀ sender ∈ session.hub.principalOf account conn,
      ∃ online ∈ (session.hub.record account).online.lookup target,
        ∃ peer ∈ session.hub.conn? account online.1,
          peer.out.bytes + wireLen (.of (.envelope (env.fromSender sender))) ≤
            session.hub.limits.queueBytes

/-- If the connector reads a request for its key next, something can be sealed to the
agreement key of whoever asks. -/
def CanSeal (session : ConnectorAtHub) : Prop :=
  ∀ frame asked, session.downward.head? = some frame →
    (session.opener.handle primitives.toSealPrimitives clock frame).2 =
      some (.ok (.command asked)) →
    isGrant asked = true → asked.leaf.agreementKey.length = 32 →
      Seals primitives.toHpkePrimitives asked.leaf.agreementKey

/-- The condition on a move under which it does not end `run`. -/
def Answerable (session : ConnectorAtHub) : ConnectorMove → Prop
  | .hears _ => session.Reaches account conn
  | .reads _ => session.CanSeal primitives clock
  | .other _ _ | .hands _ _ | .pings _ | .relays _ _ => True

instance (session : ConnectorAtHub) (move : ConnectorMove) :
    Decidable (session.Keeps primitives formats clock account conn move) :=
  decidableAfter _ _

instance (session : ConnectorAtHub) : Decidable (session.Reaches account conn) := by
  unfold Reaches
  infer_instance

end Conditions

end ConnectorAtHub

/-! ## Frames that do not end it -/

/-- A frame that is no error but a throttle, and none that only clients send. -/
def Frame.harmless (frame : Frame) : Bool :=
  match frame.body with
  | some (.error notice) => decide (notice.code = Code.throttled.toInt)
  | some (.envelope _) | some (.presence _) | some (.backfilled _) | some (.gap _)
  | some (.ping _) | some (.pong _) | some (.welcome _) | some (.challenge _)
  | some (.paired _) => true
  | _ => false

/-- A frame that a connector on these channels sends. -/
inductive ByConnector (limits : Limits) (channels : Channels) : Frame → Prop
  | pong (nonce : Nat) : ByConnector limits channels (.of (.pong nonce))
  | subscribes (key : StreamKey) (valid : key.Valid limits) :
      ByConnector limits channels (.of (.subscribe ⟨some key.toRef, none⟩))
  | answers (target : Bytes) (kind : Kind) (directed : kind.Directed) (payload : Bytes) :
      ByConnector limits channels (.of (.envelope (directEnvelope target kind payload)))
  | publishes (relay : Relay) (same : relay.channels = channels) (lane : Lane)
      (coalesce sealed : Bytes) :
      ByConnector limits channels (.of (.envelope (relay.envelope lane coalesce sealed)))

/-! ## What the hub does with them -/

theorem Outbound.pushFrame_of_room [Codec] {queue : Outbound} {frame : Frame}
    {limits : Limits} (room : queue.bytes + wireLen frame ≤ limits.queueBytes) :
    (queue.pushFrame frame limits).2 = .ok () := by
  have notFull : ¬ queue.bytes + wireLen frame > limits.queueBytes := Nat.not_lt.mpr room
  simp [pushFrame, push, Item.ofFrame, notFull]

section Routing

variable [Codec] {account : AccountId} {hub : Hub} {acct : Account} {conn : ConnId} {c : Conn}

/-- An envelope to somebody who is online and has room for it is offered to them, and nothing
else happens. -/
theorem Hub.direct_reaches (record : hub.accounts.lookup account = some acct)
    (ok : acct.Ok hub.limits) (tidy : acct.Tidy) (conn : ConnId) {target : Bytes}
    {sent : Envelope} {id : ConnId} {role : Role} {peer : Conn}
    (online : acct.online.lookup target = some (id, role))
    (found : acct.conns.lookup id = some peer)
    (room : (peer.out.pushFrame
      (.of (.envelope { sent with sentTo := some (.principal target) })) hub.limits).2 =
        .ok ()) (fx : Effects) :
    ∃ hub' acct' fx', hub.direct account conn target sent fx = .ok (hub', fx') ∧
      Moves account hub acct fx
        [.frame id (.of (.envelope { sent with sentTo := some (.principal target) }))]
        hub' acct' fx' := by
  obtain ⟨hub', acct', fx', ran, moves⟩ := hub.enqueue_spec record ok tidy id
    (.of (.envelope { sent with sentTo := some (.principal target) })) fx
  refine ⟨hub', acct', fx', ?_, moves⟩
  unfold direct
  simp only [record, Option.bind_some, online, expect_some, ok_bind, found, room]
  -- the push of `direct` is the one `enqueue` makes
  unfold enqueue at ran
  simp only [record, found, Prod.mk.injEq] at ran
  obtain ⟨rfl, rfl⟩ := ran
  rfl

/-- An envelope within the limits for a channel is published as its sender's. -/
theorem Hub.route_publish (record : hub.accounts.lookup account = some acct)
    (found : acct.conns.lookup conn = some c) {env : Envelope} {channel : Bytes}
    (addressed : env.sentTo = some (.channel channel))
    (streamed : (Kind.ofInt env.kind).Streamed) (fits : env.Fits hub.limits)
    (nonempty : channel ≠ []) (order : HashOrder) (fx : Effects) :
    hub.route order account conn (.of (.envelope env)) fx =
      hub.publish order account conn ⟨c.principal, channel⟩ (Kind.ofInt env.kind)
        (env.fromSender c.principal) fx := by
  have principal : hub.principalOf account conn = some c.principal := by
    simp [principalOf, conn?, record, found]
  have good : ¬ (channel = [] ∨ channel.length > hub.limits.maxIdBytes) :=
    not_or.mpr ⟨nonempty, Nat.not_lt.mpr (fits.channel channel addressed)⟩
  change hub.onEnvelope order account conn env fx = _
  unfold onEnvelope
  rw [if_neg (Nat.not_lt.mpr fits.payload), if_neg (Nat.not_lt.mpr fits.coalesce), principal]
  rcases streamed with kind | kind
  all_goals
    simp only [addressed, kind, if_neg good]
    simp [Envelope.fromSender, addressed, kind]

/-- What the hub does with a frame that tells no connection of an error. -/
def RoutesQuietly (account : AccountId) (hub : Hub) (acct : Account) (conn : ConnId)
    (sender : Bytes) (frame : Frame) (result : Checked (Hub × Effects)) : Prop :=
  ∃ hub' acct' fx' events, result = .ok (hub', fx') ∧
    Moves account hub acct {} events hub' acct' fx' ∧
    Routed hub.limits acct acct'.ring? conn sender fx' frame events ∧
    ∀ target given, .frame target given ∈ events → given.harmless = true

variable (record : hub.accounts.lookup account = some acct)
  (ok : acct.Ok hub.limits) (tidy : acct.Tidy) (found : acct.conns.lookup conn = some c)

include record ok tidy found in
theorem RoutesQuietly.close (sender : Bytes) (frame notice : Frame) :
    RoutesQuietly account hub acct conn sender frame
      (.ok (hub, Effects.closing {} conn notice)) :=
  ⟨hub, acct, _, [], rfl, .doom record ok tidy (HashMap.mem_of_lookup found) {} notice,
    .closed ⟨notice, List.mem_cons_self⟩, by simp⟩

include record ok tidy found in
/-- An answer that reaches its recipient tells nobody of an error. -/
theorem Hub.route_answer (order : HashOrder) {target : Bytes} {kind : Kind}
    (directed : kind.Directed) {payload : Bytes} {id : ConnId} {role : Role} {peer : Conn}
    (online : acct.online.lookup target = some (id, role))
    (peerFound : acct.conns.lookup id = some peer)
    (room : peer.out.bytes + wireLen (.of (.envelope
      ((directEnvelope target kind payload).fromSender c.principal))) ≤
        hub.limits.queueBytes) :
    RoutesQuietly account hub acct conn c.principal
      (.of (.envelope (directEnvelope target kind payload)))
      (hub.route order account conn
        (.of (.envelope (directEnvelope target kind payload))) {}) := by
  have sameKind : Kind.ofInt (directEnvelope target kind payload).kind = kind :=
    Kind.ofInt_toInt kind
  by_cases large : payload.length > hub.limits.maxPayloadBytes
  · have closed : hub.route order account conn
        (.of (.envelope (directEnvelope target kind payload))) {} =
          .ok (hub, Effects.closing {} conn (errorFrame .limit
            (directEnvelope target kind payload).ref "payload too large")) :=
      if_pos large
    rw [closed]
    exact .close record ok tidy found _ _ _
  · have isDirected : (Kind.ofInt (directEnvelope target kind payload).kind).Directed := by
      rw [sameKind]
      exact directed
    obtain ⟨sent, sentEq, routed⟩ := hub.route_direct record found rfl
      isDirected (Nat.le_of_not_lt large) (Nat.zero_le _) order {}
    rw [← sentEq] at room
    obtain ⟨hub', acct', fx', ran, moves⟩ := hub.direct_reaches record ok tidy conn online
      peerFound (Outbound.pushFrame_of_room room) {}
    refine ⟨hub', acct', fx', _, routed.trans ran, moves, ?_, by simp [Frame.harmless, Frame.of]⟩
    rw [sentEq]
    refine .direct rfl isDirected online ⟨Nat.le_of_not_lt large, Nat.zero_le _, ?_⟩
    intro channel absurdity
    cases absurdity

include record ok tidy found in
/-- A publication on a channel of its kind tells nobody of an error. -/
theorem Hub.route_publication (order : HashOrder) {relay : Relay} {lane : Lane}
    {coalesce sealed : Bytes} (nonempty : relay.channels.name lane ≠ [])
    (short : (relay.channels.name lane).length ≤ hub.limits.maxIdBytes)
    (kinds : ∀ ring, acct.ring? ⟨c.principal, relay.channels.name lane⟩ = some ring →
      ring.kind = lane.kind) :
    RoutesQuietly account hub acct conn c.principal
      (.of (.envelope (relay.envelope lane coalesce sealed)))
      (hub.route order account conn
        (.of (.envelope (relay.envelope lane coalesce sealed))) {}) := by
  have sameKind : Kind.ofInt (relay.envelope lane coalesce sealed).kind = lane.kind :=
    Kind.ofInt_toInt lane.kind
  have streamed : lane.kind.Streamed := by cases lane <;> simp [Lane.kind, Kind.Streamed]
  by_cases large : hub.limits.maxPayloadBytes < sealed.length ∨
      hub.limits.maxCoalesceBytes < coalesce.length
  · obtain ⟨message, closed⟩ := @onEnvelope_closes _ order hub account conn
      (relay.envelope lane coalesce sealed) {} large
    change RoutesQuietly account hub acct conn _ _
      (hub.onEnvelope order account conn (relay.envelope lane coalesce sealed) {})
    rw [closed]
    exact .close record ok tidy found _ _ _
  · obtain ⟨payload, key⟩ := not_or.mp large
    have fits : (relay.envelope lane coalesce sealed).Fits hub.limits :=
      ⟨Nat.le_of_not_lt payload, Nat.le_of_not_lt key, fun channel same => by
        cases same
        exact short⟩
    have published := hub.route_publish record found rfl (sameKind ▸ streamed) fits nonempty
      order {}
    obtain ⟨hub', acct', fx', events, ran, moves, routed, quiet⟩ :=
      hub.publish_routes record ok tidy found order c.principal rfl
        (sameKind ▸ streamed) fits {}
    refine ⟨hub', acct', fx', events, published.trans ran, moves, routed, ?_⟩
    intro target given member
    exact absurd member (quiet (fun ring there => (kinds ring there).trans sameKind.symm) _ _)

end Routing

/-! ## What waits for the connector -/

/-- Envelopes from anywhere. -/
def anyOrigins (_ : AccountId) : Origins where
  published _ _ := True
  direct _ _ := True

/-- A hub that keeps a connection for a connector: nothing that waits there ends the
connector, and the rings of its channels are of the kinds that it publishes. -/
structure Hub.Attends [Codec] (limits : Limits) (account : AccountId) (conn : ConnId)
    (me : Bytes) (channels : Channels) (hub : Hub) : Prop where
  ok : hub.Ok
  limits_eq : hub.limits = limits
  sourced : hub.SourcedIn anyOrigins
  present : ∃ c, hub.conn? account conn = some c ∧ c.principal = me ∧
    ∀ frame ∈ c.out.loose, frame.harmless = true
  kinds : ∀ lane ring, hub.ring? account ⟨me, channels.name lane⟩ = some ring →
    ring.kind = lane.kind

section Attending

variable [Codec] {limits : Limits} {account : AccountId} {conn : ConnId} {me : Bytes}
  {channels : Channels} {hub hub' : Hub} {order : HashOrder} {call : Call} {reply : Reply}
  {c c' : Conn}

theorem Effect.anySourced (effect : Effect order hub call reply hub') (ok : hub.Ok)
    (ok' : hub'.Ok) (sourced : hub.SourcedIn anyOrigins) : hub'.SourcedIn anyOrigins := by
  have stamps {account : AccountId} {head tail : List Event} {fx : Effects}
      (heads : Heads order hub account fx (hub'.ring? account) call reply head)
      (departures : ∀ event ∈ tail, ∃ other principal role,
        event = .left other principal role) :
      ∀ event ∈ head ++ tail, event.Stamps (anyOrigins account) := by
    rintro event member key ring env rfl
    obtain ⟨-, conn, peer, original, rfl, publishing⟩ := heads.published_eq
      (Event.mem_head departures member (fun _ _ _ absurdity => by cases absurdity))
    exact ⟨publishing.streamed, ⟨rfl, publishing.publisher_eq, publishing.addressed,
      publishing.kind_eq.symm, rfl, rfl, rfl⟩, trivial⟩
  let step : Step := ⟨hub, order, call, reply, hub'⟩
  have stepEffect : Effect step.order step.before step.call step.reply step.after := effect
  exact stepEffect.sourcedIn ok ok' (fun heads departures _ => stamps heads departures)
    (fun heads departures _ _ event among =>
      ⟨fun _ _ _ _ => trivial, stamps heads departures event among⟩) sourced

theorem Conn.Sourced.harmless {origins : Origins} {acct : Account}
    (sourced : c.Sourced origins acct) (loose : ∀ frame ∈ c.out.loose, frame.harmless = true) :
    ∀ item ∈ c.out.items, item.wire.harmless = true := by
  intro item member
  by_cases ofStream : item.stream = none
  · refine loose item.wire (List.mem_map.mpr ⟨item, ?_, rfl⟩)
    exact List.mem_filter.mpr ⟨member, by simpa using ofStream⟩
  · obtain ⟨env, isEnvelope⟩ := (sourced.items item member).exists_envelope ofStream
    rw [isEnvelope]
    rfl

omit [Codec] in
/-- What is handed out of such a queue ends it neither: gaps are added, and nothing else. -/
theorem Outbound.harmless_handOut {dropped : HashMap StreamKey Dropped} {items : List Item}
    (harmless : ∀ item ∈ items, item.wire.harmless = true) :
    ∀ frame ∈ (handOut dropped items).1, frame.harmless = true := by
  let harmful (frame : Frame) : Option Unit := if frame.harmless then none else some ()
  have none : (handOut dropped items).1.filterMap harmful = [] := by
    rw [filterMap_handOut harmful (fun _ => rfl), List.filterMap_eq_nil_iff]
    intro frame member
    obtain ⟨item, among, rfl⟩ := List.mem_map.mp member
    exact if_pos (harmless item among)
  intro frame member
  have here := List.filterMap_eq_nil_iff.mp none frame member
  by_contra isHarmful
  simp only [harmful, isHarmful, if_false] at here
  cases here

theorem Lived.harmless {id : ConnId} {head tail : List Event} {fx : Effects}
    (lived : Lived order hub call reply hub' account id head tail fx c c')
    (queueOk : c.out.Ok)
    (offered : ∀ frame, .frame id frame ∈ head → frame.harmless = true)
    (loose : ∀ frame ∈ c.out.loose, frame.harmless = true) :
    ∀ frame ∈ c'.out.loose, frame.harmless = true := by
  refine lived.lives.forall_loose (fun _ => rfl) (fun _ => rfl) queueOk ?_ loose
  rintro event member frame rfl
  exact offered frame (Event.mem_head lived.departures member
    (fun _ _ _ absurdity => by cases absurdity))

/-- A hub goes on attending to a connector that is still there, if what is published on its
channels is of their kinds. -/
theorem Hub.Attends.kept (attends : hub.Attends limits account conn me channels)
    (effect : Effect order hub call reply hub') (ok' : hub'.Ok)
    (found' : hub'.conn? account conn = some c') (isMe : c'.principal = me)
    (loose : ∀ frame ∈ c'.out.loose, frame.harmless = true)
    (fitting : ∀ env lane, call = .receive conn (.of (.envelope env)) →
      env.sentTo = some (.channel (channels.name lane)) →
        Kind.ofInt env.kind = lane.kind) :
    hub'.Attends limits account conn me channels := by
  obtain ⟨ok, limitsEq, sourced, ⟨c, found, principal, -⟩, kinds⟩ := attends
  refine ⟨ok', effect.limits_eq.trans limitsEq, effect.anySourced ok ok' sourced,
    ⟨c', found', isMe, loose⟩, fun lane ring there => ?_⟩
  rcases (effect.course account).ring_came there with
    ⟨old, oldFound, precedes⟩ | ⟨stamping, other, peer, original, publishing, precedes⟩
  · exact precedes.kind_eq.trans (kinds lane old oldFound)
  · have peerFound := publishing.found
    rw [Hub.conn?_eq] at found peerFound
    obtain rfl : other = conn := (ok.record_ok account).1.eq_of_principal found peerFound
      (publishing.publisher_eq.trans principal.symm)
    exact precedes.kind_eq.trans (publishing.kind_eq.trans
      (fitting original lane publishing.call_eq publishing.addressed))

/-- The hub goes on attending while it is called for others, or charges the connector. -/
theorem Hub.Attends.other (attends : hub.Attends limits account conn me channels)
    (order : HashOrder) (others : call.conn? ≠ some conn ∨
      ∃ bytes nowMs, call = .charge conn bytes nowMs) :
    ∃ hub' reply, hub.apply order call = .ok (hub', reply) ∧
      ∀ c', hub'.conn? account conn = some c' →
        hub'.Attends limits account conn me channels := by
  obtain ⟨reply, hub', ran, ok', effect⟩ := Hub.apply_spec order attends.ok call
  refine ⟨hub', reply, ran, fun c' found' => ?_⟩
  obtain ⟨c, found, principal, loose⟩ := attends.present
  have notReceived (env : Envelope) : call ≠ .receive conn (.of (.envelope env)) := by
    rintro rfl
    rcases others with notMine | ⟨bytes, nowMs, absurdity⟩
    · exact notMine rfl
    · cases absurdity
  have keeps {c' : Conn} (found' : hub'.conn? account conn = some c')
      (isMe : c'.principal = me) (loose : ∀ frame ∈ c'.out.loose, frame.harmless = true) :=
    attends.kept effect ok' found' isMe loose
      fun env _ isReceive => absurd isReceive (notReceived env)
  cases effect.fate attends.ok ok' found' with
  | rest foundBefore same others unnamed =>
      obtain rfl : c = c' := Option.some.inj (found.symm.trans foundBefore)
      exact keeps found' principal loose
  | took acct c taken rest took after same =>
      obtain ⟨budget, rfl⟩ := took.call_eq
      rcases others with notMine | ⟨bytes, nowMs, absurdity⟩
      · exact absurd rfl notMine
      · cases absurdity
  | lived head tail fx before lived =>
      obtain rfl := Option.some.inj (found.symm.trans lived.there)
      refine keeps found' (lived.lives.stable.1.trans principal)
        (lived.harmless (attends.sourced.conns found).queue_ok ?_ loose)
      intro frame member
      rcases others with notMine | ⟨bytes, nowMs, rfl⟩
      · obtain ⟨env, rfl⟩ := lived.heads.frame_others member notMine
        rfl
      · generalize reply = answer at lived
        have heads := lived.heads
        cases heads with
        | charged => cases member
        | throttled =>
            cases List.mem_singleton.mp member
            rfl
  | born hello newcomer mid tail born =>
      exact absurd found (born.not_there attends.ok)

/-- The hub goes on attending when it receives what the connector sends, if an answer
reaches whom it is for. -/
theorem Hub.Attends.hears (attends : hub.Attends limits account conn me channels)
    (order : HashOrder) {frame : Frame} (sent : ByConnector limits channels frame)
    (names : ∀ lane, channels.name lane ≠ [] ∧ (channels.name lane).length ≤ limits.maxIdBytes)
    (distinct : channels.edge ≠ channels.sample)
    (reaches : ∀ env target, frame = .of (.envelope env) → env.sentTo = some (.principal target) →
      ∃ id role peer, (hub.record account).online.lookup target = some (id, role) ∧
        hub.conn? account id = some peer ∧
        peer.out.bytes + wireLen (.of (.envelope (env.fromSender me))) ≤
          hub.limits.queueBytes) :
    ∃ hub' reply, hub.apply order (.receive conn frame) = .ok (hub', reply) ∧
      ∀ c', hub'.conn? account conn = some c' →
        hub'.Attends limits account conn me channels := by
  obtain ⟨c, present, rfl, loose⟩ := attends.present
  obtain rfl := attends.limits_eq
  have known := attends.ok.known_of_conn? present
  obtain ⟨acct, c', record, found⟩ := attends.ok.exists_conn known
  have recordEq := Hub.record_of_lookup record
  obtain rfl : c' = c := by
    rw [hub.conn?_eq, recordEq] at present
    exact Option.some.inj (found.symm.trans present)
  have acctOk := attends.ok.account_ok record
  have tidy := attends.ok.account_tidy record
  have quiet : RoutesQuietly account hub acct conn c'.principal frame
      (hub.route order account conn frame {}) := by
    cases sent with
    | pong nonce =>
        exact ⟨hub, acct, {}, [], rfl, .refl record acctOk tidy {}, .ignored rfl rfl, by simp⟩
    | subscribes key valid =>
        obtain ⟨hub', acct', fx', events, ran, moves, routed⟩ :=
          hub.route_spec record acctOk tidy found order
            (.of (.subscribe ⟨some key.toRef, none⟩)) {}
        refine ⟨hub', acct', fx', events, ran, moves, routed, fun target given member => ?_⟩
        have asked : (Frame.of (.subscribe ⟨some key.toRef, none⟩)).subscription? =
            some (key, none) := rfl
        generalize Frame.of (.subscribe ⟨some key.toRef, none⟩) = frame at routed asked
        cases routed with
        | answered plain noSubscribe noUnsubscribe =>
            exact absurd valid (noSubscribe key none asked)
        | direct addressed directed online fits => cases asked
        | undelivered addressed directed online plain fits => cases asked
        | _ => simp at member
    | answers target kind directed payload =>
        obtain ⟨id, role, peer, online, peerFound, room⟩ := reaches _ target rfl rfl
        rw [hub.conn?_eq, recordEq] at peerFound
        rw [recordEq] at online
        exact hub.route_answer record acctOk tidy found order directed online peerFound room
    | publishes relay same lane coalesce sealed =>
        subst same
        refine hub.route_publication record acctOk tidy found order (names lane).1 (names lane).2
          fun ring there => attends.kinds lane ring ?_
        rw [Hub.ring?, recordEq]
        exact there
  obtain ⟨hub₁, acct₁, fx, events, routedRan, moves, routed, harmless⟩ := quiet
  obtain ⟨hub', mid, left, wake, ran, ok', acted⟩ :=
    Hub.receive_acted order attends.ok known record found routedRan moves routed
  refine ⟨hub', _, ran, fun after found' => ?_⟩
  rcases acted.lived_or_born found' with
    ⟨tail, before, lived⟩ | ⟨hello, newcomer, _, tail, born⟩
  · obtain rfl := Option.some.inj (present.symm.trans lived.there)
    refine attends.kept (.acted _ _ _ _ _ _ acted) ok' found' lived.lives.stable.1
      (lived.harmless (attends.sourced.conns present).queue_ok
        (fun given member => harmless conn given member) loose) ?_
    intro env lane isReceive addressed
    obtain rfl := (Call.receive.inj isReceive).2
    cases sent with
    | answers target kind directed payload => cases addressed
    | publishes relay same other coalesce sealed =>
        subst same
        have isLane : other = lane := by
          simp only [Relay.envelope, Option.some.injEq, To.channel.injEq] at addressed
          cases other <;> cases lane
          · rfl
          · exact absurd addressed distinct
          · exact absurd addressed.symm distinct
          · rfl
        rw [isLane]
        exact Kind.ofInt_toInt lane.kind
  · obtain ⟨_, _, _, absurdity⟩ := born.call_eq
    cases absurdity

/-- What the hub hands out does not end the connector, and the hub goes on attending. -/
theorem Hub.Attends.hands (attends : hub.Attends limits account conn me channels)
    (order : HashOrder) (budget : Nat) :
    ∃ hub' reply, hub.apply order (.takeOutbound conn budget) = .ok (hub', reply) ∧
      ∀ c', hub'.conn? account conn = some c' →
        hub'.Attends limits account conn me channels ∧
        ∀ frame ∈ reply.frames, frame.harmless = true := by
  obtain ⟨reply, hub', ran, ok', effect⟩ :=
    Hub.apply_spec order attends.ok (.takeOutbound conn budget)
  refine ⟨hub', reply, ran, fun c' found' => ?_⟩
  obtain ⟨c, found, principal, loose⟩ := attends.present
  have harmless := (attends.sourced.conns found).harmless loose
  cases effect.fate attends.ok ok' found' with
  | rest foundBefore same others unnamed => exact absurd rfl others
  | took acct before taken rest took after same =>
      obtain rfl := Option.some.inj (found.symm.trans took.there)
      have among {item : Item} (member : item ∈ taken ∨ item ∈ rest) : item ∈ c.out.items := by
        rw [took.split, List.mem_append]
        exact member
      refine ⟨attends.kept effect ok' found' (after ▸ principal) ?_ ?_, ?_⟩
      · intro frame member
        rw [after] at member
        obtain ⟨item, inRest, rfl⟩ := List.mem_map.mp member
        exact harmless item (among (Or.inr (List.mem_filter.mp inRest).1))
      · intro env lane absurdity
        cases absurdity
      · rw [took.reply_eq]
        exact Outbound.harmless_handOut fun item member => harmless item (among (Or.inl member))
  | lived head tail fx before lived =>
      have heads := lived.heads
      cases heads
  | born hello newcomer mid tail born =>
      obtain ⟨_, _, _, absurdity⟩ := born.call_eq
      cases absurdity

end Attending

/-! ## What the connector does -/

/-- What the client makes of a frame that is harmless is no error but a throttle. -/
theorem Opener.handle_harmless (primitives : SealPrimitives) (clock : Nat → Nat)
    (opener : Opener) {frame : Frame} (harmless : frame.harmless = true) :
    (opener.handle primitives clock frame).2 = none ∨
      ∃ event, (opener.handle primitives clock frame).2 = some (.ok event) ∧
        ∀ notice, event = .error notice → notice.code = Code.throttled.toInt := by
  obtain ⟨body⟩ := frame
  unfold Frame.harmless at harmless
  rcases body with _ | body
  · cases harmless
  · cases body with
    | envelope envelope =>
        cases silent : (Frame.of (.envelope envelope)).silent with
        | true =>
            left
            rw [show (⟨some (.envelope envelope)⟩ : Frame) = .of (.envelope envelope) from rfl,
              Opener.handle_silent primitives clock silent]
        | false =>
            obtain ⟨after, event, made, -, noError⟩ :=
              opener.onEnvelope_loud primitives clock silent
            refine Or.inr ⟨event, ?_, fun notice same => absurd same (noError notice)⟩
            simp [Opener.handle, made]
    | error notice =>
        refine Or.inr ⟨_, rfl, ?_⟩
        rintro other ⟨⟩
        simpa using harmless
    | presence presence => exact Or.inr ⟨_, rfl, by simp⟩
    | backfilled marker => exact Or.inr ⟨_, rfl, by simp⟩
    | gap gap => exact Or.inr ⟨_, rfl, by simp⟩
    | paired paired => exact Or.inr ⟨_, rfl, by simp⟩
    | ping nonce => exact Or.inl rfl
    | pong nonce => exact Or.inl rfl
    | welcome welcome => exact Or.inl rfl
    | challenge challenge => exact Or.inl rfl
    | _ => cases harmless

namespace Seals

variable {primitives : HpkePrimitives} {target : Recipient}

theorem hpkeSeal (seals : Seals primitives target.agreementKey)
    (label sentBy plaintext randomness : Bytes) :
    ∃ sealed, hpkeSeal primitives label sentBy target plaintext randomness = .ok sealed := by
  unfold WindowMlHub.hpkeSeal
  split
  · next failed => exact absurd failed (seals _ _ _)
  · exact ⟨_, rfl⟩

theorem sealResult (seals : Seals primitives target.agreementKey) (sender : Sender)
    (answers body : Bytes) (nowMs : Nat) (nonce randomness : Bytes) :
    ∃ sealed, sealResult primitives sender target answers body nowMs nonce randomness =
      .ok sealed := by
  simp only [WindowMlHub.sealResult, sealMessage]
  obtain ⟨sealed, isSealed⟩ := seals.hpkeSeal sealInfoLabel (sender.id primitives)
    (SignedCommand.encode
      ⟨(commandBody primitives sender target [] body answers nowMs nonce).encode,
        sender.identity.sign (commandLabel ++
          (commandBody primitives sender target [] body answers nowMs nonce).encode),
        sender.chain⟩) randomness
  exact ⟨sealed, by rw [isSealed]; rfl⟩

theorem wrapKey (seals : Seals primitives target.agreementKey) (sender : Sender)
    (channel key : Bytes) (fromCounter nowMs : Nat) (nonce randomness : Bytes) :
    ∃ wrapped, wrapKey primitives sender target channel key fromCounter nowMs nonce
      randomness = .ok wrapped :=
  seals.hpkeSeal _ _ _ _

end Seals

/-- A call of a connector on these channels returned no error, and what it sends is a
connector's. -/
def GoesOn (limits : Limits) (channels : Channels)
    (result : Except ServeError (BoxServing × List Deed)) : Prop :=
  ∃ after deeds, result = .ok (after, deeds) ∧
    after.publishing.relay.channels = channels ∧
    ∀ deed ∈ deeds, ∀ frame ∈ deed.frame?, ByConnector limits channels frame

section Acting

variable {primitives : ServingPrimitives} {formats : FileFormats} {limits : Limits}
  {channels : Channels} {serving : BoxServing} {now : Circumstances}

theorem GoesOn.quietly (same : serving.publishing.relay.channels = channels) :
    GoesOn limits channels (.ok (serving, [])) :=
  ⟨serving, [], rfl, same, by simp⟩

theorem ByConnector.of_direct {deeds : List Deed} (target : Bytes)
    (direct : ∀ deed ∈ deeds, ∃ kind payload, kind.Directed ∧
      deed.frame? = some (.of (.envelope (directEnvelope target kind payload)))) :
    ∀ deed ∈ deeds, ∀ frame ∈ deed.frame?, ByConnector limits channels frame := by
  intro deed member frame isFrame
  obtain ⟨kind, payload, directed, sent⟩ := direct deed member
  obtain rfl := Option.some.inj (sent.symm.trans isFrame)
  exact .answers target kind directed payload

theorem BoxServing.refuse_goes_on (same : serving.publishing.relay.channels = channels)
    (sound : now.Sound) {asked : Opened}
    (seals : asked.leaf.agreementKey.length = 32 →
      Seals primitives.toHpkePrimitives asked.leaf.agreementKey) (why : NotNow) :
    GoesOn limits channels (serving.refuse primitives asked why now) := by
  unfold refuse
  by_cases keyed : asked.leaf.agreementKey.length = 32
  · have sealsToIt : Seals primitives.toHpkePrimitives
        (⟨asked.sentBy, asked.leaf.agreementKey⟩ : Recipient).agreementKey := seals keyed
    obtain ⟨sealed, isSealed⟩ := sealsToIt.sealResult serving.publisher asked.nonce
      (refusalText why) now.clientMs.toNat (now.drawn 0).1 (now.drawn 0).2
    refine ⟨{ serving with counts.revoked := serving.counts.revoked + 1 },
      [.told asked why sealed], ?_, same, .of_direct asked.sentBy ?_⟩
    · simp only [keyed, if_true, isSealed, sound.sends]
      rfl
    · intro deed member
      obtain rfl := List.mem_singleton.mp member
      exact ⟨.commandResult, sealed, Or.inr (Or.inl rfl), rfl⟩
  · simp only [keyed, if_false]
    exact .quietly same

theorem BoxServing.wrapFor_cases (now : Circumstances) {asked : Opened}
    (seals : isGrant asked = true → asked.leaf.agreementKey.length = 32 →
      Seals primitives.toHpkePrimitives asked.leaf.agreementKey) :
    (∃ refused, serving.wrapFor primitives asked now = .ok (.error refused)) ∨
      ∃ edge sample, serving.wrapFor primitives asked now = .ok (.ok (edge, sample)) := by
  unfold wrapFor
  by_cases isCommand : asked.body = grantCommand
  · by_cases views : asked.scope = viewScope
    · by_cases keyed : asked.leaf.agreementKey.length = 32
      · have sealsToIt : Seals primitives.toHpkePrimitives
            (⟨asked.sentBy, asked.leaf.agreementKey⟩ : Recipient).agreementKey :=
          seals (by simp [isGrant, isCommand, views]) keyed
        let relay := serving.publishing.relay
        obtain ⟨edge, isEdge⟩ := sealsToIt.wrapKey serving.publisher relay.channels.edge
          relay.key relay.keyFrom.edge now.nowMs.toNat (now.drawn 0).1 (now.drawn 0).2
        obtain ⟨sample, isSample⟩ := sealsToIt.wrapKey serving.publisher relay.channels.sample
          relay.key relay.keyFrom.sample now.nowMs.toNat (now.drawn 1).1 (now.drawn 1).2
        refine Or.inr ⟨edge, sample, ?_⟩
        simp only [relay] at isEdge isSample
        simp [isCommand, views, keyed, isEdge, isSample, bind, Except.bind, pure, Except.pure]
      · exact Or.inl ⟨.noAgreementKey, by simp [isCommand, views, keyed]⟩
    · exact Or.inl ⟨.wrongScope, by simp [isCommand, views]⟩
  · exact Or.inl ⟨.notTheCommand, by simp [isCommand]⟩

/-- A connector that can seal to whoever asks answers. -/
theorem BoxServing.command_goes_on (same : serving.publishing.relay.channels = channels)
    (sound : now.Sound) {asked : Opened}
    (seals : isGrant asked = true → asked.leaf.agreementKey.length = 32 →
      Seals primitives.toHpkePrimitives asked.leaf.agreementKey) :
    GoesOn limits channels (serving.command primitives asked now) := by
  unfold command
  split
  · next why granting refused => exact refuse_goes_on same sound (seals granting) why
  · rcases serving.wrapFor_cases now seals with ⟨refused, ran⟩ | ⟨edge, sample, ran⟩
    · rw [ran]
      exact ⟨_, [], rfl, same, by simp⟩
    · rw [ran]
      refine ⟨{ serving with counts.granted := serving.counts.granted + 1 },
        [.grant asked serving.key edge, .grant asked serving.key sample], ?_, same,
        .of_direct asked.sentBy ?_⟩
      · simp only [sound.sends]
        rfl
      · intro deed member
        rcases List.mem_cons.mp member with rfl | last
        · exact ⟨.command, edge, Or.inl rfl, rfl⟩
        · obtain rfl := List.mem_singleton.mp last
          exact ⟨.command, sample, Or.inl rfl, rfl⟩

theorem BoxServing.revocationsChannel_valid
    (hmacLength : ∀ key message, (primitives.hmac key message).length = 32)
    (wide : 32 ≤ limits.maxIdBytes) (revoker : Bytes32) :
    (⟨revoker.val, serving.revocationsChannel primitives revoker⟩ : StreamKey).Valid
      limits := by
  have channel : (serving.revocationsChannel primitives revoker).length = 16 := by
    simp [revocationsChannel, channelOf, hmacLength, channelBytes]
  have publisher : revoker.val.length = 32 := revoker.property
  unfold StreamKey.Valid
  simp only [not_or, ← List.length_eq_zero_iff]
  omega

/-- A connector follows whichever revoker comes online. -/
theorem BoxServing.presence_goes_on (same : serving.publishing.relay.channels = channels)
    (sound : now.Sound)
    (hmacLength : ∀ key message, (primitives.hmac key message).length = 32)
    (wide : 32 ≤ limits.maxIdBytes) (seen : Presence) :
    GoesOn limits channels (serving.presence primitives seen now) := by
  unfold presence
  by_cases silent : seen.online = false ∨ seen.chain = []
  · rw [if_pos silent]
    exact .quietly same
  · rw [if_neg silent]
    cases verifyChain primitives.toKeyPrimitives serving.revocations.root seen.chain
        now.nowMs.toNat with
    | error refused => exact .quietly same
    | ok verified =>
        dsimp only
        by_cases unable : verified.leaf.mayRevoke = false ∨ seen.principal ≠ verified.principal
        · rw [if_pos unable]
          exact .quietly same
        · rw [if_neg unable]
          generalize primitives.lists.digest32 verified.leafKey = revoker
          obtain ⟨revocations, isNew⟩ := serving.revocations.sawRevoker revoker now.nowMs
          cases isNew with
          | false => exact ⟨_, [], rfl, same, by simp⟩
          | true =>
              let after : BoxServing := { serving with
                revocations, files := serving.files.writeRevokers revocations }
              refine ⟨after, [.subscribe revoker.val
                (after.revocationsChannel primitives revoker)], ?_, same, ?_⟩
              · simp only [if_true, sound.writes, follow, sound.sends]
                rfl
              · intro deed member frame isFrame
                obtain rfl := List.mem_singleton.mp member
                obtain rfl := Option.some.inj isFrame
                exact .subscribes _ (revocationsChannel_valid hmacLength wide revoker)

/-- A connector that can write and draw a key takes what is published. -/
theorem BoxServing.list_goes_on (same : serving.publishing.relay.channels = channels)
    (sound : now.Sound) (stream : StreamRef) (payload : Bytes) :
    GoesOn limits channels (serving.list primitives formats stream payload now) := by
  unfold BoxServing.list
  cases Bytes32.ofBytes? stream.publisher with
  | none => exact .quietly same
  | some publisher =>
      dsimp only
      split
      · exact .quietly same
      · cases formats.decodeList payload with
        | none => exact .quietly same
        | some list =>
            dsimp only
            rcases serving.revocations.apply primitives.lists list now.nowMs with
              refused | ⟨revocations, rotate⟩
            · exact .quietly same
            · obtain ⟨key, drawn⟩ := Option.ne_none_iff_exists'.mp sound.freshKey
              simp only [keep, sound.writes, drawn]
              cases rotate with
              | false =>
                  refine ⟨_, _, rfl, same, ?_⟩
                  simp [Deed.frame?]
              | true =>
                  refine ⟨_, _, rfl, same, ?_⟩
                  simp [Deed.frame?, or_imp, forall_and]

/-- A connector goes on over every event but an error that is no throttle. -/
theorem BoxServing.event_goes_on (same : serving.publishing.relay.channels = channels)
    (sound : now.Sound)
    (hmacLength : ∀ key message, (primitives.hmac key message).length = 32)
    (wide : 32 ≤ limits.maxIdBytes) {event : ClientEvent}
    (throttles : ∀ notice, event = .error notice → notice.code = Code.throttled.toInt)
    (seals : ∀ asked, event = .command asked → isGrant asked = true →
      asked.leaf.agreementKey.length = 32 →
        Seals primitives.toHpkePrimitives asked.leaf.agreementKey) :
    GoesOn limits channels (serving.event primitives formats now event) := by
  cases event with
  | command asked => exact command_goes_on same sound (seals asked rfl)
  | error notice =>
      rw [event, if_pos (throttles notice rfl)]
      exact .quietly same
  | presence seen => exact presence_goes_on same sound hmacLength wide seen
  | published stream kind sender seq epoch payload =>
      exact list_goes_on same sound stream payload
  | result opened => exact .quietly same
  | unopened sender kind payload error => exact .quietly same
  | backfilled marker => exact .quietly same
  | gap gap => exact .quietly same
  | paired paired => exact .quietly same

theorem BoxServing.channels_frame (relay : Relay) (nonce frame : Bytes) :
    (relay.frame primitives.toStreamPrimitives nonce frame).1.channels = relay.channels := by
  unfold Relay.frame
  split
  · rfl
  · next lane coalesce _ =>
      dsimp only
      split <;> cases lane <;> rfl

/-- A connector goes on over a frame of its box that can be sealed and sent. -/
theorem BoxServing.publish_goes_on (same : serving.publishing.relay.channels = channels)
    {given : Handover} (accepted : given.accepted = true)
    (seals : ∀ error, (serving.publishing.relay.frame primitives.toStreamPrimitives
      given.nonce given.frame).2 ≠ .unsealed error) :
    GoesOn limits channels (serving.publish primitives given) := by
  have sameAfter : (serving.publishing.publish primitives.toStreamPrimitives
      given).1.relay.channels = channels := by
    rcases @relay_publish primitives serving.publishing given with kept | framed
    · rw [kept, same]
    · rw [framed, channels_frame, same]
  refine ⟨{ serving with publishing :=
    (serving.publishing.publish primitives.toStreamPrimitives given).1 }, [], ?_, sameAfter,
    by simp⟩
  unfold publish
  dsimp only
  split
  · rfl
  · generalize relayed : serving.publishing.relay.frame primitives.toStreamPrimitives
      given.nonce given.frame = out at seals
    obtain ⟨relay, relaying⟩ := out
    cases relaying with
    | consumed => rfl
    | unsealed error => exact absurd rfl (seals error)
    | publishes lane counter coalesce sealed => rfl

theorem BoxServing.publication?_byConnector
    (same : serving.publishing.relay.channels = channels) (given : Handover) :
    ∀ frame ∈ serving.publication? primitives given, ByConnector limits channels frame := by
  intro frame isFrame
  unfold publication? at isFrame
  dsimp only at isFrame
  split at isFrame
  · cases isFrame
  · split at isFrame
    · obtain rfl := Option.some.inj isFrame
      exact .publishes _ same _ _ _
    · cases isFrame
    · cases isFrame

theorem BoxServing.followAll_byConnector {deeds : List Deed}
    (hmacLength : ∀ key message, (primitives.hmac key message).length = 32)
    (wide : 32 ≤ limits.maxIdBytes)
    (followed : serving.followAll primitives now = .ok deeds) :
    ∀ frame ∈ deeds.filterMap Deed.frame?, ByConnector limits channels frame := by
  intro frame member
  obtain ⟨deed, among, isFrame⟩ := List.mem_filterMap.mp member
  obtain ⟨revoker, -, rfl⟩ := (mem_followAll followed).mp among
  obtain rfl := Option.some.inj isFrame
  exact .subscribes _ (revocationsChannel_valid hmacLength wide _)

end Acting

/-! ## Runs -/

theorem Run.anySourced [Codec] {start hub : Hub} {steps : List Step}
    (run : Run start steps hub) (ok : start.Ok) (empty : start.accounts = ∅) :
    hub.SourcedIn anyOrigins :=
  run.induct (fun _ hub => hub.SourcedIn anyOrigins) ok (Hub.sourcedIn_empty empty _)
    fun _ _ _ beforeOk afterOk effect _ sourced => effect.anySourced beforeOk afterOk sourced

theorem Hub.Newcomer.harmless [Codec] {order : HashOrder} {hub : Hub} {account : AccountId}
    {hello : Hello} {conn : Conn} (newcomer : hub.Newcomer order account hello conn) :
    conn.out.Ok ∧ ∀ frame ∈ conn.out.loose, frame.harmless = true := by
  obtain ⟨welcome, queued⟩ := newcomer.queue_eq
  refine ⟨(newcomer.sourced (anyOrigins account) {}).queue_ok,
    fun frame member => ?_⟩
  obtain ⟨item, among, rfl⟩ := List.mem_map.mp member
  have waits := (List.mem_filter.mp among).1
  rw [queued] at waits
  obtain ⟨greeting, first, rfl⟩ := List.mem_map.mp waits
  rcases List.mem_cons.mp first with rfl | online
  · rfl
  · obtain ⟨entry, -, rfl⟩ := List.mem_map.mp online
    rfl

/-- A hub attends to a connector that it has just admitted. -/
theorem Hub.attends_of_admitted [Codec] {limits : Limits} {start hub hub' : Hub}
    {steps : List Step} {order : HashOrder} {account : AccountId} {hello : Hello}
    {nowMs monoMs : Nat} {revoker : Revoker} {conn : ConnId} {actions : List Action}
    {channels : Channels} {c : Conn} (run : Run start steps hub) (ok : start.Ok)
    (empty : start.accounts = ∅) (limits_eq : start.limits = limits)
    (ran : hub.apply order (.connect account hello nowMs monoMs revoker) =
      .ok (hub', .admitted conn actions))
    (found : hub'.conn? account conn = some c)
    (kinds : ∀ lane ring, hub.ring? account ⟨hello.principal, channels.name lane⟩ = some ring →
      ring.kind = lane.kind) :
    hub'.Attends limits account conn hello.principal channels := by
  obtain ⟨before, -⟩ := run.forall_steps ok
  obtain ⟨reply, next, ranAgain, ok', effect⟩ := Hub.apply_spec order before
    (.connect account hello nowMs monoMs revoker)
  obtain ⟨rfl, rfl⟩ := Prod.mk.inj (Except.ok.inj (ran.symm.trans ranAgain))
  have sourced := run.anySourced ok empty
  refine ⟨ok', effect.limits_eq.trans ((run.limits_eq ok).trans limits_eq),
    effect.anySourced before ok' sourced, ⟨c, found, ?_⟩, fun lane ring there => ?_⟩
  · have isNew := effect.admitted_eq
    have notBefore {c₀ : Conn} (known : hub.conn? account conn = some c₀) : False :=
      Nat.lt_irrefl hub.nextConn
        (isNew ▸ before.fresh _ (HashMap.mem_of_lookup (before.known_of_conn? known)))
    cases effect.fate before ok' found with
    | rest known => exact (notBefore known).elim
    | took acct c taken rest took =>
        obtain ⟨_, absurdity⟩ := took.call_eq
        cases absurdity
    | lived head tail fx c lived =>
        exact (notBefore lived.there).elim
    | born newHello newcomer mid tail born =>
        obtain ⟨_, _, _, isConnect⟩ := born.call_eq
        cases isConnect
        obtain ⟨queueOk, harmless⟩ := born.newcomer.harmless
        refine ⟨born.lives.stable.1.trans born.newcomer.principal_eq,
          born.lives.forall_loose (fun _ => rfl) (fun _ => rfl) queueOk ?_ harmless⟩
        rintro event member frame rfl
        obtain ⟨_, _, _, absurdity⟩ := born.departures _ member
        cases absurdity
  · rcases (effect.course account).ring_came there with
      ⟨old, oldFound, precedes⟩ | ⟨stamping, other, peer, original, publishing, -⟩
    · exact precedes.kind_eq.trans (kinds lane old oldFound)
    · cases publishing.call_eq

namespace ConnectorAtHub

variable [Codec] {primitives : ServingPrimitives} {formats : FileFormats}
  {clock : Nat → Nat} {account : AccountId} {conn : ConnId} {me : Bytes} {limits : Limits}
  {channels : Channels} {session : ConnectorAtHub} {move : ConnectorMove}

/-- Nothing is on the way that would end the connector, or that is not its own. -/
structure Steady (limits : Limits) (account : AccountId) (conn : ConnId) (me : Bytes)
    (channels : Channels) (session : ConnectorAtHub) : Prop where
  attends : session.hub.Attends limits account conn me channels
  upward : ∀ frame ∈ session.upward, ByConnector limits channels frame
  downward : ∀ frame ∈ session.downward, frame.harmless = true
  channels_eq : session.serving.publishing.relay.channels = channels

/-- What the setting of a connector is: the keyed hash is of 32 bytes, principals are taken,
and the two channels have different names that are taken too. -/
structure Setting (primitives : ServingPrimitives) (limits : Limits) (channels : Channels) :
    Prop where
  hmacLength : ∀ key message, (primitives.hmac key message).length = 32
  wide : 32 ≤ limits.maxIdBytes
  names : ∀ lane, channels.name lane ≠ [] ∧
    (channels.name lane).length ≤ limits.maxIdBytes
  distinct : channels.edge ≠ channels.sample

/-- A connector that acts without an error sends only what is its own. -/
theorem Steady.act (steady : session.Steady limits account conn me channels)
    (now : Circumstances) (awaited : Awaited) (published : Option Frame)
    (goesOn : GoesOn limits channels
      (session.serving.turn primitives formats now awaited))
    (own : ∀ frame ∈ published, ByConnector limits channels frame) :
    ∃ next, session.act primitives formats now awaited published = .ok next ∧
      next.Steady limits account conn me channels := by
  obtain ⟨serving, deeds, ran, same, sent⟩ := goesOn
  let next : ConnectorAtHub := { session with
    serving
    upward := session.upward ++ published.toList ++ deeds.filterMap Deed.frame? }
  have acted : session.act primitives formats now awaited published = .ok next := by
    rw [ConnectorAtHub.act, ran]
    rfl
  refine ⟨next, acted, steady.attends, fun frame member => ?_, steady.downward, same⟩
  simp only [next, List.mem_append, Option.mem_toList, List.mem_filterMap] at member
  rcases member with (old | isPublished) | ⟨deed, among, isFrame⟩
  · exact steady.upward frame old
  · exact own frame isPublished
  · exact sent deed among frame isFrame

/-- A move that meets the condition does not end the connector. -/
theorem Steady.step (steady : session.Steady limits account conn me channels)
    (setting : Setting primitives limits channels)
    (stays : session.StaysUp primitives formats clock account conn move)
    (answerable : session.Answerable primitives clock account conn move) :
    ∃ next, session.step primitives formats clock conn move = .ok (.ok next) ∧
      next.Steady limits account conn me channels := by
  obtain ⟨works, remains⟩ := stays
  obtain ⟨attends, upward, downward, same⟩ := steady
  cases move with
  | other order call =>
      obtain ⟨hub, reply, ran, kept⟩ := attends.other order works
      have stepped : session.step primitives formats clock conn (.other order call) =
          .ok (.ok { session with hub }) := by
        simp [ConnectorAtHub.step, ran]
      obtain ⟨c, found⟩ := Option.isSome_iff_exists.mp (remains _ stepped)
      exact ⟨_, stepped, kept c found, upward, downward, same⟩
  | hears order =>
      cases waiting : session.upward with
      | nil =>
          exact ⟨session, by simp [ConnectorAtHub.step, waiting], attends, by simp [waiting],
            downward, same⟩
      | cons frame rest =>
          have member : frame ∈ session.upward := by simp [waiting]
          obtain ⟨c, present, isMe, -⟩ := attends.present
          have principal : session.hub.principalOf account conn = some me := by
            simp [Hub.principalOf, present, isMe]
          obtain ⟨hub, reply, ran, kept⟩ := attends.hears order (upward frame member)
            setting.names setting.distinct fun env target isEnvelope addressed => by
              obtain ⟨online, isOnline, peer, isPeer, room⟩ := answerable env
                (by simp [waiting, isEnvelope, Frame.of, Frame.envelope?]) target
                (by simp [Envelope.recipient?, addressed]) me principal
              exact ⟨online.1, online.2, peer, isOnline, isPeer, room⟩
          have stepped : session.step primitives formats clock conn (.hears order) =
              .ok (.ok { session with hub, upward := rest }) := by
            simp [ConnectorAtHub.step, waiting, ran]
          obtain ⟨c, found⟩ := Option.isSome_iff_exists.mp (remains _ stepped)
          exact ⟨_, stepped, kept c found,
            fun other among => upward other (waiting ▸ List.mem_cons_of_mem _ among),
            downward, same⟩
  | hands order budget =>
      obtain ⟨hub, reply, ran, kept⟩ := attends.hands order budget
      have stepped : session.step primitives formats clock conn (.hands order budget) =
          .ok (.ok { session with hub, downward := session.downward ++ reply.frames }) := by
        simp [ConnectorAtHub.step, ran]
      obtain ⟨c, found⟩ := Option.isSome_iff_exists.mp (remains _ stepped)
      obtain ⟨attendsAfter, harmless⟩ := kept c found
      refine ⟨_, stepped, attendsAfter, upward, fun frame among => ?_, same⟩
      rcases List.mem_append.mp among with old | new
      · exact downward frame old
      · exact harmless frame new
  | pings nonce =>
      refine ⟨_, rfl, attends, upward, fun frame among => ?_, same⟩
      rcases List.mem_append.mp among with old | new
      · exact downward frame old
      · rw [List.mem_singleton.mp new]
        rfl
  | reads now =>
      cases waiting : session.downward with
      | nil =>
          exact ⟨session, by simp [ConnectorAtHub.step, waiting], attends, upward,
            by simp [waiting], same⟩
      | cons frame rest =>
          obtain ⟨isHarmless, harmless⟩ := List.forall_mem_cons.mp (waiting ▸ downward)
          have outcome := session.opener.handle_harmless primitives.toSealPrimitives clock
            isHarmless
          have seals := fun asked => answerable frame asked (by simp [waiting])
          generalize handled : session.opener.handle primitives.toSealPrimitives clock frame =
            out at outcome seals
          obtain ⟨opener, made⟩ := out
          dsimp only at outcome seals
          have read : ({ session with opener, downward := rest } : ConnectorAtHub).Steady
              limits account conn me channels := ⟨attends, upward, harmless, same⟩
          rcases outcome with rfl | ⟨event, rfl, throttles⟩
          · refine ⟨{ session with
              opener
              upward := session.upward ++ frame.pong?.toList.map .of
              downward := rest }, ?_, attends, fun other among => ?_, harmless, same⟩
            · simp only [ConnectorAtHub.step, waiting, handled]
            rcases List.mem_append.mp among with old | pong
            · exact upward other old
            · obtain ⟨body, isPong, rfl⟩ := List.mem_map.mp pong
              unfold Frame.pong? at isPong
              split at isPong
              · obtain rfl := List.mem_singleton.mp isPong
                exact .pong _
              · cases isPong
          · have goesOn : GoesOn limits channels
                (session.serving.turn primitives formats now (.hub (.ok event))) :=
              BoxServing.event_goes_on same works setting.hmacLength setting.wide throttles
                fun asked isCommand => seals asked (by rw [isCommand])
            obtain ⟨next, ran, nextSteady⟩ := read.act now _ none goesOn (by simp)
            refine ⟨next, ?_, nextSteady⟩
            simp only [ConnectorAtHub.step, waiting, handled]
            exact congrArg Except.ok ran
  | relays now given =>
      obtain ⟨sound, accepted, sealable⟩ := works
      have steady : session.Steady limits account conn me channels :=
        ⟨attends, upward, downward, same⟩
      have goesOn : GoesOn limits channels
          (session.serving.turn primitives formats now (.frame (some given))) :=
        BoxServing.publish_goes_on same accepted sealable
      obtain ⟨next, ran, nextSteady⟩ := steady.act now _ _ goesOn
        (BoxServing.publication?_byConnector same given)
      exact ⟨next, congrArg Except.ok ran, nextSteady⟩

theorem Steady.run {moves : List ConnectorMove}
    (steady : session.Steady limits account conn me channels)
    (setting : Setting primitives limits channels)
    (stays : session.Throughout primitives formats clock conn
      (StaysUp primitives formats clock account conn) moves)
    (answerable : session.Throughout primitives formats clock conn
      (Answerable primitives clock account conn) moves) :
    ∃ final, session.run primitives formats clock conn moves = .ok (.ok final) := by
  induction moves generalizing session with
  | nil => exact ⟨session, rfl⟩
  | cons move rest ih =>
      obtain ⟨staysNow, staysLater⟩ := stays
      obtain ⟨answerableNow, answerableLater⟩ := answerable
      obtain ⟨next, stepped, nextSteady⟩ := steady.step setting staysNow answerableNow
      obtain ⟨final, ran⟩ := ih nextSteady (staysLater next stepped)
        (answerableLater next stepped)
      refine ⟨final, ?_⟩
      simp only [ConnectorAtHub.run, stepped, ok_bind]
      exact ran

/-- A connector whose connection was just admitted by a hub that has been running, and which
has sent for the lists of the revokers that it knows.  What the hub retains of its two
channels is of the kinds that a connector publishes there. -/
structure Starts (primitives : ServingPrimitives) (account : AccountId) (conn : ConnId)
    (session : ConnectorAtHub) : Prop where
  admitted : ∃ limits seed shard start steps before order hello nowMs monoMs revoker actions,
    Hub.withIdSpace limits seed shard = .ok start ∧ Run start steps before ∧
    before.apply order (.connect account hello nowMs monoMs revoker) =
      .ok (session.hub, .admitted conn actions) ∧
    hello.principal = session.serving.publisher.id primitives.toHpkePrimitives ∧
    ∀ lane ring, before.ring? account
      ⟨hello.principal, session.serving.publishing.relay.channels.name lane⟩ = some ring →
        ring.kind = lane.kind
  names : ∀ lane, (session.serving.publishing.relay.channels.name lane).length = 16
  distinct : session.serving.publishing.relay.channels.edge ≠
    session.serving.publishing.relay.channels.sample
  followed : ∃ now deeds, session.serving.followAll primitives now = .ok deeds ∧
    session.upward = deeds.filterMap Deed.frame?
  nothingRead : session.downward = []
  present : ∃ c, session.hub.conn? account conn = some c

/-- A connector starts with nothing on the way that would end it. -/
theorem Starts.steady (starts : session.Starts primitives account conn)
    (hmacLength : ∀ key message, (primitives.hmac key message).length = 32) :
    ∃ limits, Setting primitives limits session.serving.publishing.relay.channels ∧
      session.Steady limits account conn
        (session.serving.publisher.id primitives.toHpkePrimitives)
        session.serving.publishing.relay.channels := by
  obtain ⟨⟨limits, seed, shard, start, steps, before, order, hello, nowMs, monoMs, revoker,
    actions, accepted, run, ran, isMe, kinds⟩, names, distinct, ⟨now, deeds, followed, upward⟩,
    nothingRead, c, found⟩ := starts
  obtain ⟨ok, limitsEq, empty, -⟩ := ok_withIdSpace accepted
  have wide : 32 ≤ limits.maxIdBytes := by
    have short := Hub.principal_le_of_refuseHello (Hub.refuseHello_of_admitted ran)
    rwa [isMe, Sender.length_id, run.limits_eq ok, limitsEq] at short
  have setting : Setting primitives limits session.serving.publishing.relay.channels :=
    ⟨hmacLength, wide, fun lane => ⟨by simp [← List.length_pos_iff_ne_nil, names lane],
      by rw [names lane]; omega⟩, distinct⟩
  refine ⟨limits, setting, isMe ▸ Hub.attends_of_admitted run ok empty limitsEq ran found kinds,
    ?_, by simp [nothingRead], rfl⟩
  rw [upward]
  exact BoxServing.followAll_byConnector hmacLength wide followed

/-- No other device ends the connector, as long as its answers reach who asked for the key
and can be sealed to them. -/
theorem connector_survives_others (formats : FileFormats) (clock : Nat → Nat)
    {moves : List ConnectorMove}
    (hmacLength : ∀ key message, (primitives.hmac key message).length = 32)
    (starts : session.Starts primitives account conn)
    (stays : session.Throughout primitives formats clock conn
      (StaysUp primitives formats clock account conn) moves)
    (answerable : session.Throughout primitives formats clock conn
      (Answerable primitives clock account conn) moves) :
    ∃ final, session.run primitives formats clock conn moves = .ok (.ok final) := by
  obtain ⟨limits, setting, steady⟩ := starts.steady hmacLength
  exact steady.run setting stays answerable

end ConnectorAtHub

/-! ## A device that asks and leaves -/

/-- The primitives of sealed messages, a decoder that takes no list, and a keyed hash of 32
bytes. -/
def attendedPrimitives : ServingPrimitives where
  toHpkePrimitives := roundTripPrimitives
  decodeRevocation _ := none
  hmac _ _ := List.replicate 32 0

/-- A hub that nobody has connected to. -/
def emptyHub : Hub := ⟨{}, ∅, ∅, 1, 7, 0⟩

/-- The connector of the box of the key 2. -/
def attendedHello : Hello where
  protocol := 1
  principal := overlooked.principal
  role := Role.boxConnector.toInt

/-- Who was admitted, if somebody was. -/
def Reply.admitted? : Reply → Option ConnId
  | .admitted id _ => some id
  | _ => none

/-- That hub, with the connector connected to it. -/
def attendedHub : Hub :=
  match emptyHub.apply .stored (.connect [9] attendedHello 1500 5 .unknown) with
  | .ok (hub, _) => hub
  | .error _ => emptyHub

/-- That connector, which knows of no revoker. -/
def attended : ConnectorAtHub where
  hub := attendedHub
  opener := ⟨⟨overlooked, Receiver.new_ok _ _ _ _⟩, 0⟩
  serving := ⟨.new (identityOf 2) (List.replicate 32 7)
    ⟨List.replicate 16 4, List.replicate 16 5⟩, [], [],
    { root := (identityOf 0).publicKey }, {}, {}⟩
  upward := []

/-- The device of the key 1, which may view. -/
def asker : Sender where
  identity := identityOf 1
  chain := [(identityOf 0).certify ((specOf 1 [viewScope] false []).body (identityOf 0))]

/-- Its hello. -/
def askerHello : Hello where
  protocol := 1
  principal := asker.id roundTripPrimitives
  role := Role.client.toInt

/-- Its request for the key. -/
def requestForKey : Bytes :=
  match sealCommand roundTripPrimitives asker atOverlooked viewScope grantCommand 1400
      (List.replicate 16 9) [] with
  | .ok (sealed, _) => sealed
  | .error _ => []

/-- At 1500, with everything sent and written. -/
def attendedNow : Circumstances where
  nowMs := 1500
  clientMs := 1500
  drawn _ := (List.replicate 16 6, [])
  sends _ := true
  writes _ := true
  freshKey := some (List.replicate 32 8)

/-- The device connects and asks for the key, and the connector answers it. -/
def asksForKey : List ConnectorMove :=
  [.other .stored (.connect [9] askerHello 1500 6 .unknown),
    .other .stored (.receive 2 (.of (.envelope (directEnvelope overlooked.principal .command
      requestForKey)))),
    .hands .stored 100000, .reads attendedNow, .reads attendedNow, .reads attendedNow]

/-- The hub receives both grants while the device is there. -/
def answered : List ConnectorMove :=
  asksForKey ++ [.hears .stored, .hears .stored]

/-- The device leaves before the hub receives the first grant. -/
def departed : List ConnectorMove :=
  asksForKey ++ [.other .stored (.close 2 none), .hears .stored, .hands .stored 100000,
    .reads attendedNow, .reads attendedNow]

namespace ConnectorAtHub

theorem attendedNow_sound : attendedNow.Sound where
  sends _ := rfl
  writes _ := rfl
  freshKey := by simp [attendedNow]

theorem attendedPrimitives_seals {agreementKey : Bytes} (length : agreementKey.length = 32) :
    Seals attendedPrimitives.toHpkePrimitives agreementKey := by
  intro info plaintext randomness
  simp [attendedPrimitives, roundTripPrimitives, length]

theorem attended_starts : attended.Starts attendedPrimitives [9] 1 where
  admitted := by
    have admits : (emptyHub.apply .stored (.connect [9] attendedHello 1500 5
        .unknown)).toOption.bind (fun out => out.2.admitted?) = some 1 := by
      decide +kernel
    cases ran : emptyHub.apply .stored (.connect [9] attendedHello 1500 5 .unknown) with
    | error error =>
        rw [ran] at admits
        cases admits
    | ok out =>
        obtain ⟨hub, reply⟩ := out
        rw [ran] at admits
        cases reply with
        | admitted conn actions =>
            obtain rfl : conn = 1 := Option.some.inj admits
            refine ⟨{}, 7, 0, emptyHub, [], emptyHub, .stored, attendedHello, 1500, 5, .unknown,
              actions, rfl, .start, ?_, rfl, ?_⟩
            · rw [ran, attended, attendedHub, ran]
            · intro lane ring there
              cases there
        | refused | done | charged | taken => cases admits
  names lane := by cases lane <;> rfl
  distinct := by decide
  followed := ⟨attendedNow, [], by simp [BoxServing.followAll, attended], rfl⟩
  nothingRead := rfl
  present := Option.isSome_iff_exists.mp (by decide +kernel)

theorem works_asksForKey {rest : List ConnectorMove}
    (works : ∀ session, ∀ move ∈ rest, Works attendedPrimitives 1 session move)
    (session : ConnectorAtHub) :
    ∀ move ∈ asksForKey ++ rest, Works attendedPrimitives 1 session move := by
  intro move member
  rcases List.mem_append.mp member with asks | later
  · simp only [asksForKey, List.mem_cons, List.not_mem_nil, or_false] at asks
    rcases asks with rfl | rfl | rfl | rfl | rfl | rfl
    · exact Or.inl (by simp [Call.conn?])
    · exact Or.inl (by simp [Call.conn?])
    · trivial
    · exact attendedNow_sound
    · exact attendedNow_sound
    · exact attendedNow_sound
  · exact works session move later

theorem connector_survives_others_answered :
    ∃ final, attended.run attendedPrimitives plainFormats (fun _ => 1500) 1 answered =
      .ok (.ok final) := by
  refine connector_survives_others plainFormats (fun _ => 1500) (fun _ _ => rfl)
    attended_starts ?_ ?_
  · refine Throughout.imp _ _ _ _ (Keeps attendedPrimitives plainFormats
      (fun _ => 1500) [9] 1) ?_ (by decide +kernel)
    intro session move member keeps
    refine ⟨works_asksForKey ?_ session move member, keeps⟩
    intro session move member
    simp only [List.mem_cons, List.not_mem_nil, or_false, or_self] at member
    subst member
    trivial
  · refine Throughout.imp _ _ _ _ (fun session _ => session.Reaches [9] 1) ?_ (by decide +kernel)
    intro session move member reaches
    cases move with
    | hears order => exact reaches
    | reads now => exact fun _ _ _ _ _ length => attendedPrimitives_seals length
    | other | hands | pings | relays => trivial

/-- The device that leaves too early ends the connector. -/
theorem connector_ended_by_another :
    attended.Starts attendedPrimitives [9] 1 ∧
      attended.Throughout attendedPrimitives plainFormats (fun _ => 1500) 1
        (StaysUp attendedPrimitives plainFormats (fun _ => 1500) [9] 1) departed ∧
      ∃ notice, notice.code = Code.unavailable.toInt ∧
        attended.run attendedPrimitives plainFormats (fun _ => 1500) 1 departed =
          .ok (.error (.refused notice)) := by
  refine ⟨attended_starts, ?_, ⟨Code.unavailable.toInt, 0, "recipient is not online"⟩, rfl, ?_⟩
  · refine Throughout.imp _ _ _ _ (Keeps attendedPrimitives plainFormats
      (fun _ => 1500) [9] 1) ?_ (by decide +kernel)
    intro session move member keeps
    refine ⟨works_asksForKey ?_ session move member, keeps⟩
    intro session move member
    simp only [List.mem_cons, List.not_mem_nil, or_false] at member
    rcases member with rfl | rfl | rfl | rfl | rfl
    · exact Or.inl (by simp [Call.conn?])
    · trivial
    · trivial
    · exact attendedNow_sound
    · exact attendedNow_sound
  · decide +kernel

end ConnectorAtHub

end WindowMlHub
