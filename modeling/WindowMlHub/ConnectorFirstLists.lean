import WindowMlHub.ConnectorAvailability
import WindowMlHub.ConnectorPairings
import WindowMlHub.RelaySubscriptionRuns

/-!
# Lists that come before grants

A connector that has just connected asks for the list of every revoker that it knows.  What
it is sent then waits for it behind what was queued for it already, and the hub queues the
requests of devices from the moment at which it has admitted the connector.  So a request may
come first, and a device that the list revokes is granted the key.

The list does come, as it was retained when the hub got to the question: nothing but the end
of the connection takes it out of the queue.  The connector then holds it, and whoever asks
after that is refused.
-/

namespace WindowMlHub

/-- A list that a revoker has published, and the envelope in which the hub keeps it. -/
structure PostedList where
  revoker : Bytes32
  envelope : Envelope
  list : RevocationList

/-- What the hub hands out for that list. -/
def PostedList.wire (posted : PostedList) : Frame :=
  .of (.envelope posted.envelope)

/-- The question for a stream from its start. -/
def StreamKey.question (key : StreamKey) : Frame :=
  .of (.subscribe ⟨some key.toRef, none⟩)

namespace ConnectorAtHub

section Conditions

variable [Codec] (primitives : ServingPrimitives) (formats : FileFormats)
  (clock : Nat → Nat) (account : AccountId) (conn : ConnId) (posted : PostedList)
  (chain : List Certificate)

/-- The event that the connector reads next, if it reads one. -/
def event? (session : ConnectorAtHub) : Option ClientEvent :=
  match session.downward with
  | [] => none
  | frame :: _ =>
      match (session.opener.handle primitives.toSealPrimitives clock frame).2 with
      | some (.ok event) => some event
      | _ => none

/-- The request for its key that the connector reads next, if it reads one by who has this
chain. -/
def request? (session : ConnectorAtHub) : Option Opened :=
  match session.event? primitives clock with
  | some (.command asked) => if isGrant asked ∧ asked.chain = chain then some asked else none
  | _ => none

/-- The stream of a revoker's lists. -/
def listStream (session : ConnectorAtHub) (revoker : Bytes32) : StreamKey where
  publisher := revoker.val
  channel := session.serving.revocationsChannel primitives revoker

/-- The hub's ring of the revoker holds the list. -/
def Retains (session : ConnectorAtHub) : Prop :=
  ∃ ring ∈ session.hub.ring? account (session.listStream primitives posted.revoker),
    ∃ entry ∈ ring.entries, entry.wire = posted.wire

/-- The connector holds a list that revokes the chain. -/
def Knows (session : ConnectorAtHub) : Prop :=
  ∃ held ∈ session.serving.revocations.held, held.revokes primitives.lists chain = true

/-- The list waits at the hub for the connector. -/
def Waits (session : ConnectorAtHub) : Prop :=
  ∃ c ∈ session.hub.conn? account conn,
    ∃ item ∈ c.out.ofStream (session.listStream primitives posted.revoker),
      item.wire = posted.wire

/-- The list is on its way to the connector, or the question for it to the hub. -/
def IsComing (session : ConnectorAtHub) : Prop :=
  (session.listStream primitives posted.revoker).question ∈ session.upward ∨
    posted.wire ∈ session.downward ∨ session.Waits primitives account conn posted

/-- When the hub gets to a question for the list, the list is there for it; or else the
connector has no need of it, or it comes all the same. -/
def AsksInTime (session : ConnectorAtHub) : Prop :=
  session.upward.head? = some (session.listStream primitives posted.revoker).question →
    session.Retains primitives account posted ∨ session.Knows primitives chain ∨
      posted.wire ∈ session.downward ∨
      (session.listStream primitives posted.revoker).question ∈ session.upward.tail

/-- When the connector reads a request for its key by who has this chain, and knows of nothing
against it, the list is not still to come: the connection is there, and neither the list nor
the question for it is on its way. -/
def AskedLater (session : ConnectorAtHub) (nowMs : UInt64) : Prop :=
  (session.request? primitives clock chain).isSome →
    (session.serving.revocations.mayGrant primitives.lists chain nowMs).isOk →
      (session.hub.conn? account conn).isSome ∧
        ¬ session.IsComing primitives account conn posted

/-- When the connector reads the list, it still accepts it. -/
def ReadInTime (session : ConnectorAtHub) (nowMs : UInt64) : Prop :=
  session.downward.head? = some posted.wire →
    session.Knows primitives chain ∨
      (session.serving.revocations.apply primitives.lists posted.list nowMs).isOk

/-- A list that the connector takes in place of one that revokes the chain revokes it too, or
this list is still to come. -/
def StaysRevoked (session : ConnectorAtHub) (nowMs : UInt64) : Prop :=
  session.Knows primitives chain →
    ∀ event ∈ session.event? primitives clock,
      ∀ learning ∈ session.serving.learns primitives formats nowMs (.hub (.ok event)),
        (∃ held ∈ learning.revocations.held, held.revokes primitives.lists chain = true) ∨
          ({ session with downward := session.downward.tail } : ConnectorAtHub).IsComing
            primitives account conn posted

/-- The condition on a move under which the list comes before a grant. -/
def InOrder (session : ConnectorAtHub) : ConnectorMove → Prop
  | .hears _ => session.AsksInTime primitives account posted chain
  | .reads now =>
      session.AskedLater primitives clock account conn posted chain now.nowMs ∧
      session.ReadInTime primitives posted chain now.nowMs ∧
      session.StaysRevoked primitives formats clock account conn posted chain now.nowMs
  | .other _ _ | .hands _ _ | .pings _ | .relays _ _ => True

/-- Nobody else sends on the connection, or takes what waits there. -/
def Apart (_ : ConnectorAtHub) : ConnectorMove → Prop
  | .other _ call => (∀ frame, call ≠ .receive conn frame) ∧
      ∀ budget, call ≠ .takeOutbound conn budget
  | .hears _ | .hands _ _ | .pings _ | .reads _ | .relays _ _ => True

/-- If the connector reads a request for its key by who has this chain, it refuses it. -/
def Refuses (session : ConnectorAtHub) : ConnectorMove → Prop
  | .reads now => ∀ asked ∈ session.request? primitives clock chain,
      ∃ why, session.serving.turn primitives formats now (.hub (.ok (.command asked))) =
        session.serving.refuse primitives asked why now
  | .other _ _ | .hears _ | .hands _ _ | .pings _ | .relays _ _ => True

/-- A connector whose connection was just admitted by a hub that has been running.  It has
sent for the lists of the revokers that it knows, and the hub holds one that it would accept
and that revokes the chain. -/
structure BeginsBehind (session : ConnectorAtHub) : Prop where
  admitted : ∃ limits seed shard start steps before order hello nowMs monoMs revoker actions,
    Hub.withIdSpace limits seed shard = .ok start ∧ Run start steps before ∧
    before.apply order (.connect account hello nowMs monoMs revoker) =
      .ok (session.hub, .admitted conn actions) ∧
    hello.principal = session.serving.publisher.id primitives.toHpkePrimitives
  follows : posted.revoker ∈ session.serving.revocations.revokers
  followed : ∃ now deeds, session.serving.followAll primitives now = .ok deeds ∧
    session.upward = deeds.filterMap Deed.frame?
  nothingRead : session.downward = []
  retains : session.Retains primitives account posted
  decodes : formats.decodeList posted.envelope.payload = some posted.list
  accepted : ∃ nowMs revocations rotate,
    session.serving.revocations.apply primitives.lists posted.list nowMs =
      .ok (revocations, rotate) ∧
    ∃ held ∈ revocations.held, held.revokes primitives.lists chain = true

instance (session : ConnectorAtHub) : Decidable (session.Retains primitives account posted) := by
  unfold Retains
  infer_instance

instance (session : ConnectorAtHub) : Decidable (session.Knows primitives chain) := by
  unfold Knows
  infer_instance

instance (session : ConnectorAtHub) :
    Decidable (session.IsComing primitives account conn posted) := by
  unfold IsComing Waits
  infer_instance

instance (session : ConnectorAtHub) : (move : ConnectorMove) →
    Decidable (session.InOrder primitives formats clock account conn posted chain move)
  | .hears _ => by
      unfold InOrder AsksInTime
      infer_instance
  | .reads _ => by
      unfold InOrder AskedLater ReadInTime StaysRevoked
      infer_instance
  | .other _ _ | .hands _ _ | .pings _ | .relays _ _ => isTrue trivial

end Conditions

end ConnectorAtHub

/-! ## What a turn leaves as it was -/

section Turns

open CheckedConditions

namespace BoxServing

variable {primitives : ServingPrimitives} {formats : FileFormats} {serving after : BoxServing}
  {now : Circumstances} {deeds : List Deed} {awaited : Awaited} {chain : List Certificate}

theorem channelKey_command {asked : Opened}
    (ran : serving.command primitives asked now = .ok (after, deeds)) :
    after.channelKey = serving.channelKey := by
  unfold command at ran
  split at ran
  · unfold refuse at ran
    dsimp only at ran
    split at ran
    · simp only [bind_eq_ok, ensure_eq_ok, exists_const, pure_eq_ok_iff] at ran
      obtain ⟨sealed, -, -, same⟩ := ran
      cases same
      rfl
    · cases ran
      rfl
  · split at ran
    · cases ran
    · cases ran
      rfl
    · simp only [bind_eq_ok, ensure_eq_ok, exists_const, pure_eq_ok_iff] at ran
      obtain ⟨-, -, same⟩ := ran
      cases same
      rfl

theorem channelKey_presence {seen : Presence}
    (ran : serving.presence primitives seen now = .ok (after, deeds)) :
    after.channelKey = serving.channelKey := by
  unfold presence at ran
  split at ran
  · cases ran
    rfl
  · split at ran
    · cases ran
      rfl
    · split at ran
      · cases ran
        rfl
      · dsimp only at ran
        split at ran
        · simp only [bind_eq_ok, ensure_eq_ok, exists_const, pure_eq_ok_iff] at ran
          obtain ⟨-, followed, -, same⟩ := ran
          cases same
          rfl
        · cases ran
          rfl

theorem channelKey_list {stream : StreamRef} {payload : Bytes}
    (ran : serving.list primitives formats stream payload now = .ok (after, deeds)) :
    after.channelKey = serving.channelKey := by
  unfold BoxServing.list at ran
  split at ran
  · cases ran
    rfl
  · split at ran
    · cases ran
      rfl
    · split at ran
      · cases ran
        rfl
      · split at ran
        · cases ran
          rfl
        · simp only [keep, bind_eq_ok, ensure_eq_ok, exists_const] at ran
          obtain ⟨-, -, rest⟩ := ran
          split at rest
          · simp only [bind_eq_ok, pure_eq_ok_iff] at rest
            obtain ⟨key, -, same⟩ := rest
            cases same
            rfl
          · cases rest
            rfl

/-- The key that names the channels stays. -/
theorem channelKey_turn
    (ran : serving.turn primitives formats now awaited = .ok (after, deeds)) :
    after.channelKey = serving.channelKey := by
  cases awaited with
  | frame handed =>
      cases handed with
      | none => cases ran
      | some given =>
          obtain ⟨rfl, -⟩ := publish_eq_ok ran
          rfl
  | hub event =>
      cases event with
      | error error => cases ran
      | ok event =>
          cases event with
          | command asked => exact channelKey_command ran
          | presence seen => exact channelKey_presence ran
          | published stream _ _ _ _ payload => exact channelKey_list ran
          | error notice =>
              simp only [turn, BoxServing.event] at ran
              split at ran
              · cases ran
                rfl
              · cases ran
          | _ =>
              cases ran
              rfl

theorem command_refuses {asked : Opened} {why : NotNow} (granting : isGrant asked = true)
    (refused : serving.revocations.mayGrant primitives.lists asked.chain now.nowMs =
      .error why) :
    serving.command primitives asked now = serving.refuse primitives asked why now := by
  simp only [command, granting, refused]

end BoxServing

theorem revokes_of_verifyRevocations {primitives : RevocationPrimitives} {root root' : Bytes}
    {list : RevocationList} {nowMs nowMs' : UInt64} {held held' : Option Revoked}
    {revoked revoked' : Revoked}
    (first : verifyRevocations primitives root list nowMs held = .ok revoked)
    (second : verifyRevocations primitives root' list nowMs' held' = .ok revoked') :
    revoked'.revokes primitives = revoked.revokes primitives := by
  simp only [verifyRevocations, bind_eq_ok, ensure_eq_ok, require_eq_ok, pure_eq_ok_iff]
    at first second
  obtain ⟨-, -, body, decoded, -, -, principals, arePrincipals, certificates, areCertificates,
    -, -, -, -, -, -, -, -, -, -, -, -, -, -, rfl⟩ := first
  obtain ⟨-, -, again, decodedAgain, -, -, principalsAgain, arePrincipalsAgain,
    certificatesAgain, areCertificatesAgain, -, -, -, -, -, -, -, -, -, -, -, -, -, -, rfl⟩ :=
    second
  obtain rfl := Option.some.inj (decoded.symm.trans decodedAgain)
  obtain rfl := Except.ok.inj (arePrincipals.symm.trans arePrincipalsAgain)
  obtain rfl := Except.ok.inj (areCertificates.symm.trans areCertificatesAgain)
  rfl

end Turns

/-! ## What is on its way -/

section Ways

open HashTables

/-- A frame that asks for streams from their start only, and gives none up. -/
structure Frame.FromStart (frame : Frame) : Prop where
  since : ∀ key since, frame.subscription? = some (key, since) → since = none
  stays : frame.unsubscription? = none

theorem Frame.eq_question {frame : Frame} {key : StreamKey}
    (asked : frame.subscription? = some (key, none)) : frame = key.question := by
  unfold subscription? at asked
  split at asked
  · cases asked
    rfl
  · cases asked

theorem Deed.fromStart {deed : Deed} : ∀ frame ∈ deed.frame?, frame.FromStart := by
  intro frame isFrame
  cases deed with
  | grant | told =>
      obtain rfl := Option.some.inj isFrame
      exact ⟨fun key since asked => (nomatch asked), rfl⟩
  | subscribe revoker channel =>
      obtain rfl := Option.some.inj isFrame
      refine ⟨fun key since asked => ?_, rfl⟩
      cases asked
      rfl
  | accepted | rotated => cases isFrame

theorem BoxServing.publication?_fromStart {primitives : ServingPrimitives}
    {serving : BoxServing} {given : Handover} :
    ∀ frame ∈ serving.publication? primitives given, frame.FromStart := by
  intro frame isFrame
  unfold publication? at isFrame
  dsimp only at isFrame
  split at isFrame
  · cases isFrame
  · split at isFrame
    · obtain rfl := Option.some.inj isFrame
      exact ⟨fun key since asked => (nomatch asked), rfl⟩
    · cases isFrame
    · cases isFrame

theorem Frame.pong?_fromStart {frame : Frame} :
    ∀ body ∈ frame.pong?, (Frame.of body).FromStart := by
  intro body isPong
  unfold Frame.pong? at isPong
  split at isPong
  · obtain rfl := Option.some.inj isPong
    exact ⟨fun key since asked => (nomatch asked), rfl⟩
  · cases isPong

variable [Codec] {account : AccountId} {conn : ConnId} {hub hub' : Hub} {order : HashOrder}
  {call : Call} {reply : Reply}

theorem Effect.admitted_lt {actions : List Action}
    (effect : Effect order hub call (.admitted conn actions) hub') : conn < hub'.nextConn := by
  have isNew := effect.admitted_eq
  generalize answered : Reply.admitted conn actions = reply at effect
  cases effect with
  | idle unknown same noActions noFrames noAdmission =>
      subst answered
      cases noAdmission
  | took account other acct c taken rest took =>
      rw [took.reply_eq] at answered
      cases answered
  | acted account head mid fx left wake acted =>
      rw [acted.nextConn_eq, ← answered, isNew]
      exact Nat.lt_succ_self _

theorem Conn.Sourced.telemetry_eq {origins : Origins} {acct : Account} {c : Conn}
    (sourced : c.Sourced origins acct) {item : Item} (member : item ∈ c.out.items)
    (ofStream : item.stream ≠ none) {env : Envelope}
    (carries : item.wire = .of (.envelope env)) :
    item.telemetry = decide (Kind.ofInt env.kind = .telemetry) := by
  cases sourced.items item member with
  | loose direct => exact absurd rfl ofStream
  | published streamed same published =>
      cases carries.symm.trans same.wire_eq
      rw [same.kind_eq]
      rfl

end Ways

/-! ## The list comes -/

namespace ConnectorAtHub

section Coming

open CheckedEvaluation HashTables

variable [Codec] {primitives : ServingPrimitives} {formats : FileFormats} {clock : Nat → Nat}
  {account : AccountId} {conn : ConnId} {posted : PostedList} {chain : List Certificate}
  {session next : ConnectorAtHub} {move : ConnectorMove} {moves : List ConnectorMove}

/-- A list in an envelope of its revoker's stream, which is no telemetry, that revokes the
chain whenever it verifies. -/
structure Binds (primitives : ServingPrimitives) (formats : FileFormats) (posted : PostedList)
    (chain : List Certificate) (stream : StreamKey) : Prop where
  sender_eq : posted.envelope.sender = stream.publisher
  sentTo_eq : posted.envelope.sentTo = some (.channel stream.channel)
  kind_eq : Kind.ofInt posted.envelope.kind = .sessionEvents
  decodes : formats.decodeList posted.envelope.payload = some posted.list
  revokes : ∀ {root nowMs held revoked},
    verifyRevocations primitives.lists root posted.list nowMs held = .ok revoked →
      revoked.revokes primitives.lists chain = true

/-- A connector that has the list, or has it coming, as long as its connection is there. -/
structure Heeds (primitives : ServingPrimitives) (formats : FileFormats) (account : AccountId)
    (conn : ConnId) (posted : PostedList) (chain : List Certificate)
    (session : ConnectorAtHub) : Prop where
  ok : session.hub.Ok
  sourced : session.hub.SourcedIn anyOrigins
  admitted : conn < session.hub.nextConn
  valid : (session.listStream primitives posted.revoker).Valid session.hub.limits
  binds : Binds primitives formats posted chain (session.listStream primitives posted.revoker)
  follows : posted.revoker ∈ session.serving.revocations.revokers
  fromStart : ∀ frame ∈ session.upward, frame.FromStart
  comes : (session.hub.conn? account conn).isSome → session.Knows primitives chain ∨
    session.IsComing primitives account conn posted

omit [Codec] in
theorem IsComing.mono (coming : session.IsComing primitives account conn posted)
    (hub : next.hub = session.hub)
    (stream : next.listStream primitives posted.revoker =
      session.listStream primitives posted.revoker)
    (upward : ∀ frame ∈ session.upward, frame ∈ next.upward)
    (downward : posted.wire ∈ session.downward → posted.wire ∈ next.downward) :
    next.IsComing primitives account conn posted := by
  unfold IsComing Waits at coming ⊢
  rw [hub, stream]
  exact coming.imp (upward _) (Or.imp_left downward)

/-- A list that waits for the connector goes on waiting through a call, or is handed out,
unless the connector asks for it again. -/
theorem Heeds.waits (heeds : session.Heeds primitives formats account conn posted chain)
    {order : HashOrder} {call : Call} {reply : Reply} {hub' : Hub} {c' : Conn}
    (effect : Effect order session.hub call reply hub') (ok' : hub'.Ok)
    (found' : hub'.conn? account conn = some c')
    (others : ∀ frame, call = .receive conn frame → frame.FromStart ∧
      frame ≠ (session.listStream primitives posted.revoker).question)
    (waits : session.Waits primitives account conn posted) :
    (∃ item ∈ c'.out.ofStream (session.listStream primitives posted.revoker),
        item.wire = posted.wire) ∨
      ∃ budget, call = .takeOutbound conn budget ∧ posted.wire ∈ reply.frames := by
  obtain ⟨c, found, item, member, carries⟩ := waits
  obtain ⟨inQueue, ofStream⟩ := Outbound.mem_ofStream.mp member
  have lasting : item.telemetry = false := by
    rw [(heeds.sourced.conns found).telemetry_eq inQueue (by simp [ofStream]) carries,
      heeds.binds.kind_eq]
    rfl
  have unasked (key : StreamKey) (frame : Frame) (isStream : item.stream = some key)
      (isReceive : call = .receive conn frame) : frame.unsubscription? ≠ some key ∧
        ∀ since, frame.subscription? ≠ some (key, since) := by
    obtain rfl := Option.some.inj (ofStream.symm.trans isStream)
    obtain ⟨fromStart, another⟩ := others frame isReceive
    refine ⟨by simp [fromStart.stays], fun since asked => another ?_⟩
    obtain rfl := fromStart.since _ since asked
    exact Frame.eq_question asked
  rcases effect.keeps heeds.ok ok' found found' inQueue lasting unasked with
    stays | ⟨budget, isTake, handed⟩
  · exact Or.inl ⟨item, Outbound.mem_ofStream.mpr ⟨stays, ofStream⟩, carries⟩
  · exact Or.inr ⟨budget, isTake, carries ▸ handed⟩

theorem Heeds.backfilled (heeds : session.Heeds primitives formats account conn posted chain)
    {order : HashOrder} {reply : Reply} {hub' : Hub} {c' : Conn}
    (effect : Effect order session.hub
      (.receive conn (session.listStream primitives posted.revoker).question) reply hub')
    (ok' : hub'.Ok) (found' : hub'.conn? account conn = some c')
    (retains : session.Retains primitives account posted) :
    ∃ item ∈ c'.out.ofStream (session.listStream primitives posted.revoker),
      item.wire = posted.wire := by
  obtain ⟨ring, isRing, entry, member, carries⟩ := retains
  obtain ⟨-, env, same, -⟩ := (heeds.sourced.rings account _ ring isRing).entries entry member
  have lasting : ring.kind ≠ .telemetry := by
    cases carries.symm.trans same.wire_eq
    rw [← same.kind_eq, heeds.binds.kind_eq]
    decide
  exact ⟨_, Outbound.mem_ofStream.mpr ⟨effect.backfills heeds.ok ok' found' rfl heeds.valid
    isRing lasting member, rfl⟩, carries⟩

/-- A call of the hub, and what is on the way after it. -/
theorem Heeds.called (heeds : session.Heeds primitives formats account conn posted chain)
    {order : HashOrder} {call : Call} {reply : Reply} {hub' : Hub}
    {upward downward : List Frame}
    (ran : session.hub.apply order call = .ok (hub', reply))
    (fromStart : ∀ frame ∈ upward, frame.FromStart)
    (comes : ∀ c', hub'.conn? account conn = some c' → hub'.Ok →
      Effect order session.hub call reply hub' →
      session.IsComing primitives account conn posted →
        session.Knows primitives chain ∨
          (session.listStream primitives posted.revoker).question ∈ upward ∨
          posted.wire ∈ downward ∨
          ∃ item ∈ c'.out.ofStream (session.listStream primitives posted.revoker),
            item.wire = posted.wire) :
    ({ session with hub := hub', upward, downward } : ConnectorAtHub).Heeds primitives formats
      account conn posted chain := by
  obtain ⟨answer, hub₁, ranAgain, ok', effect⟩ := Hub.apply_spec order heeds.ok call
  cases ran.symm.trans ranAgain
  have sourced := effect.anySourced heeds.ok ok' heeds.sourced
  refine ⟨ok', sourced, heeds.admitted.trans_le effect.nextConn_le,
    effect.limits_eq ▸ heeds.valid, heeds.binds, heeds.follows, fromStart, fun there => ?_⟩
  obtain ⟨c', found'⟩ := Option.isSome_iff_exists.mp there
  obtain ⟨c, found⟩ := effect.was_there heeds.ok ok' found' heeds.admitted
  rcases heeds.comes (by simp [found]) with knows | coming
  · exact Or.inl knows
  · rcases comes c' found' ok' effect coming with knows | asked | down | ⟨item, member, carries⟩
    · exact Or.inl knows
    · exact Or.inr (Or.inl asked)
    · exact Or.inr (Or.inr (Or.inl down))
    · exact Or.inr (Or.inr (Or.inr ⟨c', found', item, member, carries⟩))

omit [Codec] in
theorem act_eq_ok {now : Circumstances} {awaited : Awaited} {published : Option Frame}
    (acted : session.act primitives formats now awaited published = .ok next) :
    ∃ serving deeds, session.serving.turn primitives formats now awaited =
        .ok (serving, deeds) ∧
      next = { session with
        serving
        upward := session.upward ++ published.toList ++ deeds.filterMap Deed.frame? } := by
  unfold act at acted
  simp only [CheckedConditions.bind_eq_ok, CheckedConditions.pure_eq_ok_iff] at acted
  obtain ⟨⟨serving, deeds⟩, ran, rfl⟩ := acted
  exact ⟨serving, deeds, ran, rfl⟩

/-- What is known of revocations after a turn, if it goes through. -/
def view (primitives : ServingPrimitives) (formats : FileFormats) (session : ConnectorAtHub)
    (nowMs : UInt64) (awaited : Awaited) : Revocations :=
  (session.serving.learns primitives formats nowMs awaited).elim session.serving.revocations
    Learning.revocations

/-- A turn, once a frame was read or none, and what is on the way after it. -/
theorem Heeds.turned (heeds : session.Heeds primitives formats account conn posted chain)
    (opener : Opener) (downward : List Frame) {now : Circumstances} {awaited : Awaited}
    {published : Option Frame}
    (acted : ({ session with opener, downward } : ConnectorAtHub).act primitives formats now
      awaited published = .ok next)
    (own : ∀ frame ∈ published, frame.FromStart)
    (comes : session.Knows primitives chain ∨ session.IsComing primitives account conn posted →
      (∃ held ∈ (session.view primitives formats now.nowMs awaited).held,
          held.revokes primitives.lists chain = true) ∨
        ({ session with downward } : ConnectorAtHub).IsComing primitives account conn posted) :
    next.Heeds primitives formats account conn posted chain := by
  obtain ⟨serving, deeds, ran, rfl⟩ := act_eq_ok acted
  have stream : ({ session with serving } : ConnectorAtHub).listStream primitives
      posted.revoker = session.listStream primitives posted.revoker := by
    simp only [listStream, BoxServing.revocationsChannel, BoxServing.channelKey_turn ran]
  have view : serving.revocations = session.view primitives formats now.nowMs awaited :=
    (BoxServing.tookIn_turn ran).revocations_eq
  refine ⟨heeds.ok, heeds.sourced, heeds.admitted, stream ▸ heeds.valid, stream ▸ heeds.binds,
    ?_, fun frame member => ?_, fun there => ?_⟩
  · rw [view, ConnectorAtHub.view]
    cases learned : session.serving.learns primitives formats now.nowMs awaited with
    | none => exact heeds.follows
    | some learning =>
        obtain ⟨-, -, known, -⟩ := BoxServing.learns_eq_some learned
        exact known heeds.follows
  · simp only [List.mem_append, Option.mem_toList, List.mem_filterMap] at member
    rcases member with (old | isPublished) | ⟨deed, -, isFrame⟩
    · exact heeds.fromStart frame old
    · exact own frame isPublished
    · exact Deed.fromStart frame isFrame
  · refine (comes (heeds.comes there)).imp (fun knows => ?_) fun coming => ?_
    · rw [← view] at knows
      exact knows
    · exact coming.mono rfl stream (fun frame member => by simp [member]) id

/-- Once the list was read, the connector knows of it. -/
theorem Heeds.told (heeds : session.Heeds primitives formats account conn posted chain)
    {nowMs : UInt64} (inTime : session.Knows primitives chain ∨
      (session.serving.revocations.apply primitives.lists posted.list nowMs).isOk) :
    ∃ event, (session.opener.handle primitives.toSealPrimitives clock posted.wire).2 =
        some (.ok event) ∧
      ∃ held ∈ (session.view primitives formats nowMs (.hub (.ok event))).held,
        held.revokes primitives.lists chain = true := by
  obtain ⟨sender, sentTo, kind, decodes, revokes⟩ := heeds.binds
  let env := posted.envelope
  refine ⟨.published ⟨env.sender, session.serving.revocationsChannel primitives posted.revoker⟩
    .sessionEvents env.sender env.seq env.epoch env.payload, ?_, ?_⟩
  · simp [PostedList.wire, Opener.handle, Frame.of, Opener.onEnvelope, kind, sentTo, env,
      listStream]
  · have sameRevoker : Bytes32.ofBytes? env.sender = some posted.revoker := by
      rw [show env.sender = posted.revoker.val from sender]
      exact dif_pos posted.revoker.property
    have decodes : formats.decodeList env.payload = some posted.list := decodes
    cases applied : session.serving.revocations.apply primitives.lists posted.list nowMs with
    | error refused =>
        obtain ⟨held, isHeld, revoked⟩ : session.Knows primitives chain :=
          inTime.resolve_right (by simp [applied, Except.isOk, Except.toBool])
        refine ⟨held, ?_, revoked⟩
        simpa [view, BoxServing.learns, BoxServing.newList, sameRevoker, heeds.follows, decodes,
          applied] using isHeld
    | ok taken =>
        obtain ⟨revocations, rotate⟩ := taken
        have verified := applied
        simp only [Revocations.apply, CheckedConditions.bind_eq_ok,
          CheckedConditions.pure_eq_ok_iff, Prod.mk.injEq] at verified
        obtain ⟨revoked, verified, isView, -⟩ := verified
        refine ⟨revoked, ?_, revokes verified⟩
        simp [view, BoxServing.learns, BoxServing.newList, sameRevoker, heeds.follows, decodes,
          applied, ← isView]

omit [Codec] in
theorem event?_eq_some {frame : Frame} {rest : List Frame} {event : ClientEvent}
    (waiting : session.downward = frame :: rest)
    (made : (session.opener.handle primitives.toSealPrimitives clock frame).2 =
      some (.ok event)) : session.event? primitives clock = some event := by
  unfold event?
  rw [waiting]
  simp only [made]

omit [Codec] in
theorem request?_eq_some {asked : Opened}
    (isRequest : session.request? primitives clock chain = some asked) :
    isGrant asked = true ∧ asked.chain = chain := by
  unfold request? at isRequest
  split at isRequest
  · split at isRequest
    · next holds =>
        cases isRequest
        exact holds
    · cases isRequest
  · cases isRequest

/-- The list is still known or coming once the hub has heard the next frame. -/
theorem Heeds.hears (heeds : session.Heeds primitives formats account conn posted chain)
    {order : HashOrder} (inTime : session.AsksInTime primitives account posted chain)
    (stepped : session.step primitives formats clock conn (.hears order) = .ok (.ok next)) :
    next.Heeds primitives formats account conn posted chain := by
  cases waiting : session.upward with
  | nil =>
      simp only [ConnectorAtHub.step, waiting, Except.ok.injEq] at stepped
      exact stepped ▸ heeds
  | cons frame rest =>
      simp only [ConnectorAtHub.step, waiting, bind_eq_ok, pure, Except.pure,
        Except.ok.injEq] at stepped
      obtain ⟨⟨hub, reply⟩, ran, rfl⟩ := stepped
      have fromStart := List.forall_mem_cons.mp (waiting ▸ heeds.fromStart)
      refine heeds.called ran fromStart.2 fun c' found' ok' effect coming => ?_
      by_cases isQuestion :
          frame = (session.listStream primitives posted.revoker).question
      · -- what waits is purged, and what the ring retains takes its place
        subst isQuestion
        rcases inTime (by rw [waiting]; rfl) with retains | knows | down | again
        · exact Or.inr (Or.inr (Or.inr (heeds.backfilled effect ok' found' retains)))
        · exact Or.inl knows
        · exact Or.inr (Or.inr (Or.inl down))
        · exact Or.inr (Or.inl (by simpa [waiting] using again))
      · rcases coming with asked | down | waits
        · rw [waiting] at asked
          exact Or.inr (Or.inl ((List.mem_cons.mp asked).resolve_left (Ne.symm isQuestion)))
        · exact Or.inr (Or.inr (Or.inl down))
        · rcases heeds.waits effect ok' found' (fun other isReceive => by
            cases isReceive
            exact ⟨fromStart.1, isQuestion⟩) waits with stays | ⟨budget, absurdity, -⟩
          · exact Or.inr (Or.inr (Or.inr stays))
          · cases absurdity

/-- The list is still known or coming once the connector has read the next frame. -/
theorem Heeds.reads (heeds : session.Heeds primitives formats account conn posted chain)
    {now : Circumstances} (inTime : session.ReadInTime primitives posted chain now.nowMs)
    (staysRevoked : session.StaysRevoked primitives formats clock account conn posted chain
      now.nowMs)
    (stepped : session.step primitives formats clock conn (.reads now) = .ok (.ok next)) :
    next.Heeds primitives formats account conn posted chain := by
  cases waiting : session.downward with
  | nil =>
      simp only [ConnectorAtHub.step, waiting, Except.ok.injEq] at stepped
      exact stepped ▸ heeds
  | cons frame rest =>
      simp only [ConnectorAtHub.step, waiting] at stepped
      have told : frame = posted.wire → ∃ event,
          (session.opener.handle primitives.toSealPrimitives clock frame).2 =
            some (.ok event) ∧
          ∃ held ∈ (session.view primitives formats now.nowMs (.hub (.ok event))).held,
            held.revokes primitives.lists chain = true := by
        rintro rfl
        exact heeds.told (inTime (by rw [waiting]; rfl))
      have goesOn (another : frame ≠ posted.wire)
          (coming : session.IsComing primitives account conn posted) :
          ({ session with downward := rest } : ConnectorAtHub).IsComing primitives account
            conn posted := by
        refine coming.mono rfl rfl (fun _ => id) fun down => ?_
        rw [waiting] at down
        exact (List.mem_cons.mp down).resolve_left (Ne.symm another)
      have reads : ∀ event, (session.opener.handle primitives.toSealPrimitives clock
          frame).2 = some (.ok event) → session.event? primitives clock = some event :=
        fun event made => event?_eq_some waiting made
      generalize session.opener.handle primitives.toSealPrimitives clock frame = out
        at stepped told reads
      obtain ⟨opener, outcome⟩ := out
      rcases outcome with _ | error | event
      · simp only [Except.ok.injEq] at stepped
        subst stepped
        have another (isPosted : frame = posted.wire) : False := by
          obtain ⟨event, made, -⟩ := told isPosted
          cases made
        refine { heeds with
          fromStart := fun other member => ?_
          comes := fun there => (heeds.comes there).imp_right fun coming =>
            (goesOn another coming).mono rfl rfl
              (fun _ => List.mem_append_left _) id }
        rcases List.mem_append.mp member with old | pong
        · exact heeds.fromStart other old
        · obtain ⟨body, isPong, rfl⟩ := List.mem_map.mp pong
          exact Frame.pong?_fromStart body (Option.mem_toList.mp isPong)
      · cases stepped
      · simp only [Except.ok.injEq] at stepped
        refine heeds.turned opener rest stepped (by simp) fun known => ?_
        by_cases isPosted : frame = posted.wire
        · obtain ⟨other, made, holds⟩ := told isPosted
          cases made
          exact Or.inl holds
        · refine known.elim (fun knows => ?_) fun coming => Or.inr (goesOn isPosted coming)
          have kept := staysRevoked knows event (reads event rfl)
          rw [waiting, List.tail_cons] at kept
          unfold view
          cases learned : session.serving.learns primitives formats now.nowMs
              (.hub (.ok event)) with
          | none => exact Or.inl knows
          | some learning => exact kept learning learned

/-- The list is still known or coming after a move that is in order. -/
theorem Heeds.step (heeds : session.Heeds primitives formats account conn posted chain)
    (apart : session.Apart conn move)
    (inOrder : session.InOrder primitives formats clock account conn posted chain move)
    (stepped : session.step primitives formats clock conn move = .ok (.ok next)) :
    next.Heeds primitives formats account conn posted chain := by
  cases move with
  | other order call =>
      simp only [ConnectorAtHub.step, bind_eq_ok, pure, Except.pure,
        Except.ok.injEq] at stepped
      obtain ⟨⟨hub, reply⟩, ran, rfl⟩ := stepped
      refine heeds.called ran heeds.fromStart fun c' found' ok' effect coming => ?_
      rcases coming with asked | down | waits
      · exact Or.inr (Or.inl asked)
      · exact Or.inr (Or.inr (Or.inl down))
      · rcases heeds.waits effect ok' found'
          (fun frame isReceive => absurd isReceive (apart.1 frame)) waits with
          stays | ⟨budget, isTake, -⟩
        · exact Or.inr (Or.inr (Or.inr stays))
        · exact absurd isTake (apart.2 budget)
  | hears order => exact heeds.hears inOrder stepped
  | hands order budget =>
      simp only [ConnectorAtHub.step, bind_eq_ok, pure, Except.pure,
        Except.ok.injEq] at stepped
      obtain ⟨⟨hub, reply⟩, ran, rfl⟩ := stepped
      refine heeds.called ran heeds.fromStart fun c' found' ok' effect coming => ?_
      rcases coming with asked | down | waits
      · exact Or.inr (Or.inl asked)
      · exact Or.inr (Or.inr (Or.inl (List.mem_append_left _ down)))
      · rcases heeds.waits effect ok' found' (fun _ absurdity => by cases absurdity) waits with
          stays | ⟨-, -, handed⟩
        · exact Or.inr (Or.inr (Or.inr stays))
        · exact Or.inr (Or.inr (Or.inl (List.mem_append_right _ handed)))
  | pings nonce =>
      simp only [ConnectorAtHub.step, Except.ok.injEq] at stepped
      subst stepped
      exact { heeds with
        comes := fun there => (heeds.comes there).imp_right fun coming =>
          coming.mono rfl rfl (fun _ => id) (List.mem_append_left _) }
  | reads now => exact heeds.reads inOrder.2.1 inOrder.2.2 stepped
  | relays now given =>
      simp only [ConnectorAtHub.step, Except.ok.injEq] at stepped
      exact heeds.turned session.opener session.downward stepped
        BoxServing.publication?_fromStart id

theorem Throughout.of_forall (primitives : ServingPrimitives) (formats : FileFormats)
    (clock : Nat → Nat) (conn : ConnId) {Holds : ConnectorAtHub → ConnectorMove → Prop}
    (holds : ∀ session, ∀ move ∈ moves, Holds session move) :
    session.Throughout primitives formats clock conn Holds moves := by
  induction moves generalizing session with
  | nil => trivial
  | cons move rest ih =>
      exact ⟨holds session move List.mem_cons_self, fun next _ =>
        ih fun session move member => holds session move (List.mem_cons_of_mem _ member)⟩

theorem Heeds.refuses (heeds : session.Heeds primitives formats account conn posted chain)
    (inOrder : session.InOrder primitives formats clock account conn posted chain move) :
    session.Refuses primitives formats clock chain move := by
  cases move with
  | reads now =>
      intro asked isRequest
      obtain ⟨askedLater, -⟩ := inOrder
      obtain ⟨granting, rfl⟩ := request?_eq_some isRequest
      cases may : session.serving.revocations.mayGrant primitives.lists asked.chain
          now.nowMs with
      | error why => exact ⟨why, BoxServing.command_refuses granting may⟩
      | ok =>
          obtain ⟨there, arrived⟩ := askedLater (Option.isSome_of_mem isRequest)
            (by rw [may]; rfl)
          obtain ⟨held, isHeld, revokes⟩ := (heeds.comes there).resolve_right arrived
          exact absurd (BoxServing.spared_of_mayGrant may held isHeld) (by simp [revokes])
  | other | hears | hands | pings | relays => trivial

theorem Heeds.throughout (heeds : session.Heeds primitives formats account conn posted chain)
    (apart : session.Throughout primitives formats clock conn (Apart conn) moves)
    (inOrder : session.Throughout primitives formats clock conn
      (InOrder primitives formats clock account conn posted chain) moves) :
    session.Throughout primitives formats clock conn
      (Refuses primitives formats clock chain) moves := by
  induction moves generalizing session with
  | nil => trivial
  | cons move rest ih =>
      obtain ⟨apartNow, apartLater⟩ := apart
      obtain ⟨inOrderNow, inOrderLater⟩ := inOrder
      exact ⟨heeds.refuses inOrderNow, fun next stepped =>
        ih (heeds.step apartNow inOrderNow stepped) (apartLater next stepped)
          (inOrderLater next stepped)⟩

/-- A connector that has just connected has asked for the list. -/
theorem BeginsBehind.heeds
    (begins : session.BeginsBehind primitives formats account conn posted chain)
    (hmacLength : ∀ key message, (primitives.hmac key message).length = 32)
    (lasting : Kind.ofInt posted.envelope.kind ≠ .telemetry) :
    session.Heeds primitives formats account conn posted chain := by
  obtain ⟨⟨limits, seed, shard, start, steps, before, order, hello, nowMs, monoMs, revoker,
    actions, accepted, run, ran, isMe⟩, follows, ⟨now, deeds, followed, upward⟩, nothingRead,
    retains, decodes, appliedMs, revocations, rotate, applied, held, isHeld, revokes⟩ := begins
  obtain ⟨ok, -, empty, -⟩ := ok_withIdSpace accepted
  obtain ⟨beforeOk, -⟩ := run.forall_steps ok
  obtain ⟨reply, hub, ranAgain, ok', effect⟩ := Hub.apply_spec order beforeOk
    (.connect account hello nowMs monoMs revoker)
  obtain ⟨isHub, rfl⟩ := Prod.mk.inj (Except.ok.inj (ran.symm.trans ranAgain))
  subst isHub
  have sourced := effect.anySourced beforeOk ok' (run.anySourced ok empty)
  have wide : 32 ≤ session.hub.limits.maxIdBytes := by
    have short := Hub.principal_le_of_refuseHello (Hub.refuseHello_of_admitted ran)
    rwa [isMe, Sender.length_id, ← effect.limits_eq] at short
  refine ⟨ok', sourced, effect.admitted_lt,
    BoxServing.revocationsChannel_valid hmacLength wide _, ?_, follows,
    fun frame member => ?_, fun _ => Or.inr (Or.inl ?_)⟩
  · obtain ⟨ring, isRing, entry, member, carries⟩ := retains
    obtain ⟨-, env, same, -⟩ := (sourced.rings account _ ring isRing).entries entry member
    have streamed := (sourced.rings account _ ring isRing).streamed
    cases carries.symm.trans same.wire_eq
    refine ⟨same.sender_eq, same.sentTo_eq, ?_, decodes, fun verified => ?_⟩
    · rw [← same.kind_eq] at streamed
      exact streamed.resolve_right lasting
    · simp only [Revocations.apply, CheckedConditions.bind_eq_ok,
        CheckedConditions.pure_eq_ok_iff, Prod.mk.injEq] at applied
      obtain ⟨revoked, verifiedFirst, rfl, -⟩ := applied
      cases isHeld
      rw [revokes_of_verifyRevocations verifiedFirst verified]
      exact revokes
  · rw [upward] at member
    obtain ⟨deed, -, isFrame⟩ := List.mem_filterMap.mp member
    exact Deed.fromStart frame isFrame
  · rw [upward]
    exact List.mem_filterMap.mpr ⟨_, (BoxServing.mem_followAll followed).mpr
      ⟨posted.revoker, follows, rfl⟩, rfl⟩

/-- A connector refuses whom a list revokes that was retained when it connected, as long as
it reads requests for its key when the list is no longer on its way. -/
theorem connector_lists_first (formats : FileFormats) (clock : Nat → Nat)
    (hmacLength : ∀ key message, (primitives.hmac key message).length = 32)
    (begins : session.BeginsBehind primitives formats account conn posted chain)
    (lasting : Kind.ofInt posted.envelope.kind ≠ .telemetry)
    (apart : session.Throughout primitives formats clock conn (Apart conn) moves)
    (inOrder : session.Throughout primitives formats clock conn
      (InOrder primitives formats clock account conn posted chain) moves) :
    session.Throughout primitives formats clock conn
      (Refuses primitives formats clock chain) moves :=
  (begins.heeds hmacLength lasting).throughout apart inOrder

end Coming

end ConnectorAtHub

/-! ## A device that asks first -/

/-- The hub after these calls. -/
def Hub.after (hub : Hub) (calls : List Call) : Hub :=
  calls.foldl (fun hub call =>
    match hub.apply .stored call with
    | .ok (next, _) => next
    | .error _ => hub) hub

theorem Hub.after_singleton {hub next : Hub} {call : Call} {reply : Reply}
    (ran : hub.apply .stored call = .ok (next, reply)) : hub.after [call] = next := by
  simp [Hub.after, ran]

theorem Run.after {start hub : Hub} {steps : List Step} (run : Run start steps hub)
    (calls : List Call) : ∃ steps', Run start steps' (hub.after calls) := by
  induction calls generalizing hub steps with
  | nil => exact ⟨steps, run⟩
  | cons call rest ih =>
      unfold Hub.after
      rw [List.foldl_cons]
      cases ran : hub.apply .stored call with
      | error error => exact ih run
      | ok out => exact ih (run.call ran)

/-- The device of the key 3, which may revoke. -/
def revokingDevice : Sender where
  identity := identityOf 3
  chain := [(identityOf 0).certify
    { (specOf 3 [] false []).body (identityOf 0) with mayRevoke := true }]

/-- Every list is of version 1400, of the account that it names, and revokes the device that
asks for the key. -/
def firstPrimitives : ServingPrimitives := { attendedPrimitives with
  decodeRevocation := fun body =>
    some ⟨body, 1400, [asker.id roundTripPrimitives], []⟩ }

/-- A list of the device that may revoke. -/
def firstList (body : Bytes) : RevocationList where
  body
  signature := (identityOf 3).sign body
  chain := revokingDevice.chain

/-- Lists are written as their bodies. -/
def firstFormats : FileFormats := { plainFormats with
  decodeList := fun bytes => some (firstList bytes) }

/-- The device that may revoke connects and publishes a list. -/
def firstCalls : List Call :=
  [.connect [9] { protocol := 1, principal := List.replicate 32 3, role := Role.client.toInt }
      1500 4 .unknown,
    .receive 1 (.of (.envelope
      { sentTo := some (.channel (List.replicate 16 0))
        kind := Kind.sessionEvents.toInt
        payload := List.replicate 32 0 }))]

/-- That list, as the hub keeps it. -/
def firstPosted : PostedList where
  revoker := firstPrimitives.lists.digest32 (identityOf 3).publicKey
  envelope := {
    sentTo := some (.channel (List.replicate 16 0))
    kind := Kind.sessionEvents.toInt
    sender := List.replicate 32 3
    seq := 1
    epoch := 3344595609062871
    payload := List.replicate 32 0 }
  list := firstList (List.replicate 32 0)

/-- Then the connector connects, which knows the revoker. -/
def behind : ConnectorAtHub where
  hub := (emptyHub.after firstCalls).after [.connect [9] attendedHello 1500 5 .unknown]
  opener := attended.opener
  serving := { attended.serving with
    revocations := {
      root := (identityOf 0).publicKey
      revokers := {firstPosted.revoker}
      armedAt := some 1400 } }
  upward := [(⟨List.replicate 32 3, List.replicate 16 0⟩ : StreamKey).question]

/-- The device connects and asks for the key, and the connector reads what it is handed, up
to the request. -/
def asksFirst : List ConnectorMove :=
  [.other .stored (.connect [9] askerHello 1500 6 .unknown),
    .other .stored (.receive 3 (.of (.envelope (directEnvelope overlooked.principal .command
      requestForKey)))),
    .hands .stored 100000, .reads attendedNow, .reads attendedNow, .reads attendedNow]

/-- The hub hears the connector before all that. -/
def listFirst : List ConnectorMove :=
  .hears .stored :: asksFirst ++ [.reads attendedNow, .reads attendedNow, .reads attendedNow]

/-- Whether a turn grants this key to who asked. -/
def isGranted (asked : Opened) (key : Bytes) :
    Except ServeError (BoxServing × List Deed) → Bool
  | .ok (_, [.grant first firstKey _, .grant second secondKey _]) =>
      decide ((first, firstKey) = (asked, key) ∧ (second, secondKey) = (asked, key))
  | _ => false

theorem of_isGranted {asked : Opened} {key : Bytes}
    {result : Except ServeError (BoxServing × List Deed)}
    (granted : isGranted asked key result = true) :
    ∃ after edge sample,
      result = .ok (after, [.grant asked key edge, .grant asked key sample]) := by
  unfold isGranted at granted
  split at granted
  · next after first firstKey edge second secondKey sample =>
      obtain ⟨one, other⟩ := of_decide_eq_true granted
      cases one
      cases other
      exact ⟨after, edge, sample, rfl⟩
  · cases granted

namespace ConnectorAtHub

theorem behind_begins : behind.BeginsBehind firstPrimitives firstFormats [9] 2 firstPosted
    asker.chain where
  admitted := by
    have admits : ((emptyHub.after firstCalls).apply .stored (.connect [9] attendedHello 1500 5
        .unknown)).toOption.bind (fun out => out.2.admitted?) = some 2 := by
      decide +kernel
    obtain ⟨steps, run⟩ := (.start : Run emptyHub [] emptyHub).after firstCalls
    cases ran : (emptyHub.after firstCalls).apply .stored (.connect [9] attendedHello 1500 5
        .unknown) with
    | error error =>
        rw [ran] at admits
        cases admits
    | ok out =>
        obtain ⟨hub, reply⟩ := out
        rw [ran] at admits
        cases reply with
        | admitted conn actions =>
            obtain rfl : conn = 2 := Option.some.inj admits
            refine ⟨{}, 7, 0, emptyHub, steps, _, .stored, attendedHello, 1500, 5, .unknown,
              actions, rfl, run, ?_, rfl⟩
            rw [ran, show behind.hub = hub from Hub.after_singleton ran]
        | refused | done | charged | taken => cases admits
  follows := Finset.mem_singleton_self _
  followed := by
    refine ⟨attendedNow, [.subscribe (List.replicate 32 3) (List.replicate 16 0)], ?_, rfl⟩
    simp only [BoxServing.followAll, behind, Finset.sort_singleton]
    rfl
  nothingRead := rfl
  retains := by decide +kernel
  decodes := rfl
  accepted := by
    have accepts : (behind.serving.revocations.apply firstPrimitives.lists firstPosted.list
        1500).toOption.any (fun out => out.1.held.any
          (·.revokes firstPrimitives.lists asker.chain)) = true := by
      decide +kernel
    cases applied : behind.serving.revocations.apply firstPrimitives.lists firstPosted.list
        1500 with
    | error error =>
        rw [applied] at accepts
        cases accepts
    | ok taken =>
        obtain ⟨revocations, rotate⟩ := taken
        rw [applied] at accepts
        exact ⟨1500, revocations, rotate, applied, (Option.any_eq_true _ _).mp accepts⟩

theorem listFirst_apart (session : ConnectorAtHub) :
    ∀ move ∈ listFirst, session.Apart 2 move := by
  intro move member
  simp only [listFirst, asksFirst, List.cons_append, List.nil_append, List.mem_cons,
    List.not_mem_nil, or_false] at member
  rcases member with rfl | rfl | rfl | rfl | rfl | rfl | rfl | rfl | rfl | rfl
  · trivial
  · exact ⟨by simp, by simp⟩
  · exact ⟨by simp, by simp⟩
  all_goals trivial

/-- The hub hears the connector first, and the device that the list revokes is refused. -/
theorem connector_lists_first_heard :
    behind.Throughout firstPrimitives firstFormats (fun _ => 1500) 2
      (Refuses firstPrimitives firstFormats (fun _ => 1500) asker.chain) listFirst :=
  connector_lists_first firstFormats (fun _ => 1500) (fun _ _ => rfl) behind_begins
    (by decide) (.of_forall _ _ _ _ listFirst_apart) (by decide +kernel)

/-- The device asks before the hub hears the connector, and is granted the key. -/
theorem connector_grants_first :
    behind.BeginsBehind firstPrimitives firstFormats [9] 2 firstPosted asker.chain ∧
      Kind.ofInt firstPosted.envelope.kind = .sessionEvents ∧
      behind.Throughout firstPrimitives firstFormats (fun _ => 1500) 2 (Apart 2) asksFirst ∧
      ∃ session, behind.run firstPrimitives firstFormats (fun _ => 1500) 2 asksFirst =
          .ok (.ok session) ∧
        ∃ asked ∈ session.request? firstPrimitives (fun _ => 1500) asker.chain,
          ∃ after edge sample, session.serving.turn firstPrimitives firstFormats attendedNow
              (.hub (.ok (.command asked))) =
            .ok (after, [.grant asked session.serving.key edge,
              .grant asked session.serving.key sample]) := by
  refine ⟨behind_begins, rfl, .of_forall _ _ _ _ fun session move member =>
    listFirst_apart session move (by simp [listFirst, member]), ?_⟩
  have grants : ((behind.run firstPrimitives firstFormats (fun _ => 1500) 2
      asksFirst).toOption.bind (·.toOption)).any (fun session =>
        (session.request? firstPrimitives (fun _ => 1500) asker.chain).any fun asked =>
          isGranted asked session.serving.key (session.serving.turn firstPrimitives
            firstFormats attendedNow (.hub (.ok (.command asked))))) = true := by
    decide +kernel
  cases ran : behind.run firstPrimitives firstFormats (fun _ => 1500) 2 asksFirst with
  | error error =>
      rw [ran] at grants
      cases grants
  | ok result =>
      rw [ran] at grants
      cases result with
      | error error => cases grants
      | ok session =>
          obtain ⟨found, isFound, granting⟩ := (Option.any_eq_true _ _).mp grants
          cases isFound
          obtain ⟨asked, isRequest, granted⟩ := (Option.any_eq_true _ _).mp granting
          exact ⟨session, rfl, asked, isRequest, of_isGranted granted⟩

end ConnectorAtHub

end WindowMlHub
