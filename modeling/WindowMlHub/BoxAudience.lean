import WindowMlHub.ConnectorFirstLists
import WindowMlHub.RelaySessionEvents
import Mathlib.Data.List.Sort

/-!
# What devices hear of a box

From the box to a device: a connector seals what its box says and sends it to the hub, the
hub gives what it takes to whoever subscribes to the channel, and a device opens it with the
key that it was granted.

Each part keeps the order.  What is on the way or was published is part of what was sealed,
in the order of the counters; a device gets all that was published since it subscribed; and
so its reader is never ahead of what comes next, and opens everything that was sealed under
its key.
-/

namespace WindowMlHub

open CheckedConditions
open CheckedEvaluation (Checked)

/-- A frame of the box that a connector sealed and sent, with the relay that sealed it. -/
structure SentFrame where
  relay : Relay
  nonce : Bytes
  batch : Bytes
  sealed : Bytes

/-- The frame that a handover makes a connector send on a channel, if it does. -/
def BoxServing.sends? (primitives : ServingPrimitives) (serving : BoxServing) (lane : Lane)
    (given : Handover) : Option SentFrame :=
  let relayed := serving.publishing.relay.frame primitives.toStreamPrimitives given.nonce
    given.frame
  if frameHash given.frame ∈ serving.publishing.seenSet then
    none
  else
    match relayed.2 with
    | .publishes on _ _ sealed =>
        if on = lane then some ⟨relayed.1, given.nonce, given.frame, sealed⟩ else none
    | .consumed | .unsealed _ => none

/-- What a frame carries for a channel. -/
def Frame.payloadFor? (channel : Bytes) (frame : Frame) : Option Bytes :=
  match frame.envelope? with
  | some env => if env.sentTo = some (.channel channel) then some env.payload else none
  | none => none

/-! ## What was sealed so far -/

/-- A relay after one more thing that its connector does with it. -/
inductive Relay.Next (relay : Relay) : Relay → Prop
  | same : relay.Next relay
  | count (lane : Lane) : relay.Next (relay.count lane)
  | rotate (key : Bytes) : relay.Next (relay.rotate key)

/-- A frame was sealed for a channel by a relay as it was some time before: if the key of
now covers its counter, it was sealed under that key. -/
structure SentFrame.Past (primitives : StreamPrimitives) (lane : Lane) (now : Relay)
    (sent : SentFrame) : Prop where
  nonce_length : sent.nonce.length = frameNonceBytes
  isSealed : sent.relay.sealBatch primitives lane sent.nonce sent.batch = .ok sent.sealed
  publisher_eq : sent.relay.publisher = now.publisher
  channels_eq : sent.relay.channels = now.channels
  counter_pos : 0 < sent.relay.counter lane
  covered : sent.relay.keyFrom.at lane ≤ sent.relay.counter lane
  counted : sent.relay.counter lane ≤ now.counter lane
  current : now.keyFrom.at lane ≤ sent.relay.counter lane →
    sent.relay.key = now.key ∧ sent.relay.keyFrom.at lane = now.keyFrom.at lane

/-- All that was sent on a channel, in the order of the counters. -/
structure Relay.HasSent (primitives : StreamPrimitives) (lane : Lane) (now : Relay)
    (sent : List SentFrame) : Prop where
  past : ∀ one ∈ sent, one.Past primitives lane now
  increasing : sent.Pairwise fun one other =>
    one.relay.counter lane < other.relay.counter lane
  keyFrom_le : now.keyFrom.at lane ≤ now.counter lane + 1

section Sending

variable {primitives : StreamPrimitives} {lane : Lane} {relay later : Relay}
  {sent : List SentFrame} {one : SentFrame}

theorem Relay.publisher_count (relay : Relay) (on : Lane) :
    (relay.count on).publisher = relay.publisher := by
  cases on <;> rfl

theorem Relay.channels_count (relay : Relay) (on : Lane) :
    (relay.count on).channels = relay.channels := by
  cases on <;> rfl

theorem Relay.counter_le_count (relay : Relay) (on lane : Lane) :
    relay.counter lane ≤ (relay.count on).counter lane := by
  rw [Relay.counter_count]
  split <;> omega

theorem Relay.Next.publisher_eq (next : relay.Next later) :
    later.publisher = relay.publisher := by
  cases next with
  | same | rotate => rfl
  | count on => exact relay.publisher_count on

theorem Relay.Next.channels_eq (next : relay.Next later) :
    later.channels = relay.channels := by
  cases next with
  | same | rotate => rfl
  | count on => exact relay.channels_count on

theorem Relay.Next.counter_le (next : relay.Next later) (lane : Lane) :
    later.counter lane ≤ relay.counter lane + 1 := by
  cases next with
  | same => exact Nat.le_succ _
  | count on =>
      rw [Relay.counter_count]
      split <;> omega
  | rotate key =>
      rw [counter_rotate]
      exact Nat.le_succ _

/-- What was sealed before was sealed before what comes next. -/
theorem SentFrame.Past.next (past : one.Past primitives lane relay) (next : relay.Next later) :
    one.Past primitives lane later := by
  cases next with
  | same => exact past
  | count on =>
      refine { past with
        publisher_eq := past.publisher_eq.trans (relay.publisher_count on).symm
        channels_eq := past.channels_eq.trans (relay.channels_count on).symm
        counted := past.counted.trans (relay.counter_le_count on lane)
        current := ?_ }
      rw [keyFrom_count, key_count]
      exact past.current
  | rotate key =>
      refine { past with
        publisher_eq := past.publisher_eq
        channels_eq := past.channels_eq
        counted := ?_
        current := fun covered => ?_ }
      · rw [counter_rotate]
        exact past.counted
      · rw [keyFrom_rotate] at covered
        have := past.counted
        omega

theorem Relay.HasSent.next (hasSent : relay.HasSent primitives lane sent)
    (next : relay.Next later) : later.HasSent primitives lane sent where
  past one member := (hasSent.past one member).next next
  increasing := hasSent.increasing
  keyFrom_le := by
    have before := hasSent.keyFrom_le
    cases next with
    | same => exact before
    | count on =>
        rw [keyFrom_count]
        have := relay.counter_le_count on lane
        omega
    | rotate key =>
        rw [keyFrom_rotate, counter_rotate]

/-- One more frame is sealed. -/
theorem Relay.HasSent.seal (hasSent : relay.HasSent primitives lane sent)
    {nonce batch sealed : Bytes} (isNonce : nonce.length = frameNonceBytes)
    (isSealed : (relay.count lane).sealBatch primitives lane nonce batch = .ok sealed) :
    (relay.count lane).HasSent primitives lane
      (sent ++ [⟨relay.count lane, nonce, batch, sealed⟩]) := by
  have later := hasSent.next (.count lane)
  have isCounter : (relay.count lane).counter lane = relay.counter lane + 1 := by
    simp [Relay.counter_count]
  refine ⟨fun one member => ?_, ?_, later.keyFrom_le⟩
  · rcases List.mem_append.mp member with old | new
    · exact later.past one old
    · obtain rfl := List.mem_singleton.mp new
      refine ⟨isNonce, isSealed, rfl, rfl, ?_, ?_, le_rfl, fun _ => ⟨rfl, rfl⟩⟩
      · rw [isCounter]
        exact Nat.succ_pos _
      · rw [keyFrom_count, isCounter]
        exact hasSent.keyFrom_le
  · refine List.pairwise_append.mpr ⟨later.increasing, List.pairwise_singleton _ _, ?_⟩
    intro old among new isNew
    obtain rfl := List.mem_singleton.mp isNew
    have counted := (hasSent.past old among).counted
    dsimp only
    omega

end Sending

section Serving

variable {primitives : ServingPrimitives} {formats : FileFormats} {serving after : BoxServing}
  {now : Circumstances} {awaited : Awaited} {deeds : List Deed} {lane : Lane}
  {given : Handover}

/-- What a relay does with a frame. -/
theorem Relay.frame_cases (primitives : StreamPrimitives) (relay : Relay)
    (nonce frame : Bytes) :
    (relay.frame primitives nonce frame = (relay, .consumed)) ∨
      ∃ on coalesce, (∃ error, relay.frame primitives nonce frame =
          (relay.count on, .unsealed error)) ∨
        ∃ sealed, (relay.count on).sealBatch primitives on nonce frame = .ok sealed ∧
          relay.frame primitives nonce frame =
            (relay.count on, .publishes on ((relay.count on).counter on) coalesce sealed) := by
  unfold Relay.frame
  cases Relay.lane? frame with
  | none => exact .inl rfl
  | some found =>
      obtain ⟨on, coalesce⟩ := found
      refine .inr ⟨on, coalesce, ?_⟩
      dsimp only
      cases (relay.count on).sealBatch primitives on nonce frame with
      | error error => exact .inl ⟨error, rfl⟩
      | ok sealed => exact .inr ⟨sealed, rfl, rfl⟩

theorem Relay.next_frame (primitives : StreamPrimitives) (relay : Relay)
    (nonce frame : Bytes) : relay.Next (relay.frame primitives nonce frame).1 := by
  rcases relay.frame_cases primitives nonce frame with
    same | ⟨on, coalesce, ⟨error, unsealed⟩ | ⟨sealed, -, published⟩⟩
  · rw [same]
    exact .same
  · rw [unsealed]
    exact .count on
  · rw [published]
    exact .count on

namespace BoxServing

/-- A command that is answered does not concern the relay. -/
theorem publishing_of_command {asked : Opened}
    (ran : serving.command primitives asked now = .ok (after, deeds)) :
    after.publishing = serving.publishing := by
  unfold command at ran
  split at ran
  · unfold refuse at ran
    dsimp only at ran
    split at ran
    · simp only [bind_eq_ok, ensure_eq_ok, exists_const, pure_eq_ok_iff] at ran
      obtain ⟨sealed, -, -, same⟩ := ran
      cases same
      rfl
    · cases ran
      rfl
  · split at ran
    · cases ran
    · cases ran
      rfl
    · simp only [bind_eq_ok, ensure_eq_ok, exists_const, pure_eq_ok_iff] at ran
      obtain ⟨-, -, same⟩ := ran
      cases same
      rfl

theorem publishing_of_presence {seen : Presence}
    (ran : serving.presence primitives seen now = .ok (after, deeds)) :
    after.publishing = serving.publishing := by
  unfold presence at ran
  split at ran
  · cases ran
    rfl
  split at ran
  · cases ran
    rfl
  split at ran
  · cases ran
    rfl
  dsimp only [Revocations.sawRevoker] at ran
  split at ran
  · simp only [bind_eq_ok, ensure_eq_ok, exists_const, pure_eq_ok_iff] at ran
    obtain ⟨-, followed, -, same⟩ := ran
    cases same
    rfl
  · cases ran
    rfl

/-- A list leaves the relay as it was, or has its key replaced. -/
theorem next_of_list {stream : StreamRef} {payload : Bytes}
    (ran : serving.list primitives formats stream payload now = .ok (after, deeds)) :
    serving.publishing.relay.Next after.publishing.relay := by
  unfold list at ran
  split at ran
  · cases ran
    exact .same
  split at ran
  · cases ran
    exact .same
  split at ran
  · cases ran
    exact .same
  split at ran
  · cases ran
    exact .same
  simp only [keep, bind_eq_ok, ensure_eq_ok, exists_const] at ran
  obtain ⟨-, -, rest⟩ := ran
  split at rest
  · simp only [bind_eq_ok, require_eq_ok, pure_eq_ok_iff] at rest
    obtain ⟨key, -, same⟩ := rest
    cases same
    exact .rotate key
  · cases rest
    exact .same

/-- A turn of the loop takes the relay one step on, if it concerns it. -/
theorem next_of_turn
    (ran : serving.turn primitives formats now awaited = .ok (after, deeds)) :
    serving.publishing.relay.Next after.publishing.relay := by
  cases awaited with
  | frame handed =>
      cases handed with
      | none => cases ran
      | some given =>
          obtain ⟨rfl, -⟩ := publish_eq_ok ran
          rcases @relay_publish primitives serving.publishing given with same | framed
          · dsimp only
            rw [same]
            exact .same
          · dsimp only
            rw [framed]
            exact Relay.next_frame _ _ _ _
  | hub event =>
      cases event with
      | error error => cases ran
      | ok event =>
          cases event with
          | command asked =>
              rw [publishing_of_command ran]
              exact .same
          | presence seen =>
              rw [publishing_of_presence ran]
              exact .same
          | published stream _ _ _ _ payload => exact next_of_list ran
          | error notice =>
              simp only [turn, BoxServing.event] at ran
              split at ran
              · cases ran
                exact .same
              · cases ran
          | _ =>
              cases ran
              exact .same

/-- A frame that is not a duplicate and is sealed has its counter spent. -/
theorem relay_publish_of_unseen {publishing : Serving} {relay : Relay} {on : Lane}
    {counter : Nat} {coalesce sealed : Bytes}
    (unseen : frameHash given.frame ∉ publishing.seenSet)
    (framed : publishing.relay.frame primitives.toStreamPrimitives given.nonce given.frame =
      (relay, .publishes on counter coalesce sealed)) :
    (publishing.publish primitives.toStreamPrimitives given).1.relay = relay := by
  have remembered (serving : Serving) (digest : UInt64) :
      (serving.remember digest).relay = serving.relay := by
    unfold Serving.remember
    dsimp only
    split
    · split <;> rfl
    · rfl
  have resumed (serving : Serving) (frame : Bytes) :
      (serving.resumeAfter frame).relay = serving.relay := by
    unfold Serving.resumeAfter
    split <;> rfl
  unfold Serving.publish
  dsimp only
  rw [if_neg unseen, framed]
  dsimp only
  split
  · rw [resumed]
    dsimp only
    rw [remembered]
  · rfl

/-- What a handover makes the connector send is what its relay sealed. -/
theorem hasSent_of_turn {sent : List SentFrame}
    (hasSent : serving.publishing.relay.HasSent primitives.toStreamPrimitives lane sent)
    (isNonce : given.nonce.length = frameNonceBytes)
    (ran : serving.turn primitives formats now (.frame (some given)) = .ok (after, deeds)) :
    after.publishing.relay.HasSent primitives.toStreamPrimitives lane
      (sent ++ (serving.sends? primitives lane given).toList) := by
  have next := next_of_turn ran
  cases sends : serving.sends? primitives lane given with
  | none => simpa using hasSent.next next
  | some one =>
      obtain ⟨rfl, -⟩ := publish_eq_ok ran
      unfold sends? at sends
      dsimp only at sends next ⊢
      split at sends
      · cases sends
      next unseen =>
        rcases serving.publishing.relay.frame_cases primitives.toStreamPrimitives given.nonce
            given.frame with same | ⟨on, coalesce, ⟨error, unsealed⟩ | ⟨sealed, isSealed, framed⟩⟩
        · rw [same] at sends
          cases sends
        · rw [unsealed] at sends
          cases sends
        · rw [framed] at sends
          dsimp only at sends
          split at sends
          next isLane =>
            subst isLane
            obtain rfl := Option.some.inj sends
            rw [relay_publish_of_unseen unseen framed]
            exact hasSent.seal isNonce isSealed
          next => cases sends

/-- The frame that is sent for a handover carries what was sealed for a channel, or nothing
that is for this channel. -/
theorem payloadFor?_publication? (lane : Lane)
    (distinct : serving.publishing.relay.channels.edge ≠
      serving.publishing.relay.channels.sample) (given : Handover) :
    (serving.publication? primitives given).toList.filterMap
        (Frame.payloadFor? (serving.publishing.relay.channels.name lane)) =
      (serving.sends? primitives lane given).toList.map SentFrame.sealed := by
  unfold publication? sends?
  dsimp only
  split
  · rfl
  · rcases serving.publishing.relay.frame_cases primitives.toStreamPrimitives given.nonce
        given.frame with same | ⟨on, coalesce, ⟨error, unsealed⟩ | ⟨sealed, isSealed, framed⟩⟩
    · rw [same]
      rfl
    · rw [unsealed]
      rfl
    · rw [framed]
      dsimp only
      by_cases isLane : on = lane
      · subst isLane
        simp [Frame.payloadFor?, Frame.of, Frame.envelope?, Relay.envelope]
      · have elsewhere : serving.publishing.relay.channels.name on ≠
            serving.publishing.relay.channels.name lane := by
          cases on <;> cases lane <;> simp_all [Channels.name, Ne.symm]
        simp [Frame.payloadFor?, Frame.of, Frame.envelope?, Relay.envelope, elsewhere, isLane]

end BoxServing

end Serving

/-! ## What is published of it -/

/-- A frame is of a kind, if it is an envelope for a channel. -/
def Frame.KindFor (kind : Kind) (channel : Bytes) (frame : Frame) : Prop :=
  ∀ env, frame.envelope? = some env → env.sentTo = some (.channel channel) →
    env.kind = kind.toInt

theorem Deed.payloadFor?_frame? {deed : Deed} {frame : Frame}
    (isFrame : deed.frame? = some frame) (channel : Bytes) :
    frame.payloadFor? channel = none := by
  cases deed <;> cases isFrame <;>
    simp [Frame.payloadFor?, Frame.of, Frame.envelope?, directEnvelope]

theorem Frame.kindFor_of_payloadFor? {kind : Kind} {channel : Bytes} {frame : Frame}
    (nothing : frame.payloadFor? channel = none) : frame.KindFor kind channel := by
  intro env isEnvelope addressed
  simp [payloadFor?, isEnvelope, addressed] at nothing

/-- The frame that is sent for a handover is of its channel's kind. -/
theorem BoxServing.kindFor_of_publication? {primitives : ServingPrimitives}
    {serving : BoxServing} (lane : Lane)
    (distinct : serving.publishing.relay.channels.edge ≠
      serving.publishing.relay.channels.sample) (given : Handover) :
    ∀ frame ∈ (serving.publication? primitives given).toList,
      frame.KindFor lane.kind (serving.publishing.relay.channels.name lane) := by
  intro frame member env isEnvelope addressed
  unfold publication? at member
  dsimp only at member
  split at member
  · cases member
  split at member
  · next on _ coalesce sealed _ =>
      obtain rfl := List.mem_singleton.mp member
      obtain rfl : serving.publishing.relay.envelope on coalesce sealed = env :=
        Option.some.inj isEnvelope
      have sameName : serving.publishing.relay.channels.name on =
          serving.publishing.relay.channels.name lane :=
        To.channel.inj (Option.some.inj addressed)
      cases on <;> cases lane
      · rfl
      · exact absurd sameName distinct
      · exact absurd sameName.symm distinct
      · rfl
  · cases member
  · cases member

section Publishing

variable [Codec] {account : AccountId} {key : StreamKey} {step : Step} {id : ConnId}
  {frame : Frame} {env : Envelope}

omit [Codec] in
theorem Step.payloadFor?_of_publication (received : step.call = .receive id frame)
    (published : step.publication account key = some env) :
    frame.payloadFor? key.channel = some env.payload := by
  obtain ⟨conn, peer, original, ring, isReceive, -, -, -, addressed, -, rfl⟩ :=
    Step.publication_eq_some published
  obtain ⟨rfl, rfl⟩ := Call.receive.inj (received.symm.trans isReceive)
  simp [Frame.payloadFor?, Frame.of, Frame.envelope?, addressed, Envelope.fromSender]

end Publishing

section Retaining

variable [Codec] {start hub : Hub} {steps : List Step} {step : Step} {account : AccountId}
  {key : StreamKey} {ring ring' : Ring}

/-- What a ring retains, as frames, is the newest of these envelopes. -/
def Ring.Recalls (ring : Ring) (envs : List Envelope) : Prop :=
  ring.entries.map (·.wire) <:+ envs.map fun env => .of (.envelope env)

omit [Codec] in
theorem Ring.Recalls.of_suffix {envs : List Envelope} (recalls : ring.Recalls envs)
    (suffix : ring'.entries <:+ ring.entries) : ring'.Recalls envs :=
  (suffix.map _).trans recalls

/-- A call publishes nothing on a stream, and its ring retains nothing new; or it publishes
one envelope, which the ring retains after what it retained before. -/
theorem Effect.ring_recalls {envs : List Envelope}
    (effect : Effect step.order step.before step.call step.reply step.after)
    (before : ∀ ring, step.before.ring? account key = some ring → ring.Recalls envs)
    (found' : step.after.ring? account key = some ring') :
    ring'.Recalls (envs ++ (step.publication account key).toList) := by
  cases effect.course account with
  | still same =>
      rw [same.ring?_eq] at found'
      have nothing : step.publication account key = none := by
        refine Step.publication_eq_none fun ring found => ?_
        rw [same.ring?_eq] at found
        rw [Hub.newestSeq_of_ring? found]
      rw [nothing, Option.toList_none, List.append_nil]
      exact before ring' found'
  | acted head tail fx fx' heads departures acts =>
      by_cases publishes : ∃ stamping env, .published key stamping env ∈ head
      · obtain ⟨stamping, env, member⟩ := publishes
        have whole : (head ++ tail).filterMap (Event.publication key) =
            (step.publication account key).toList :=
          Step.publication_eq heads departures acts
        have among : stamping.stamped env ∈ (step.publication account key).toList := by
          rw [← whole]
          exact List.mem_filterMap.mpr ⟨_, List.mem_append_left _ member,
            by simp [Event.publication]⟩
        obtain ⟨_, conn, peer, original, rfl, publishing⟩ := heads.published_eq member
        obtain ⟨next, nextFound, advanced⟩ := publishing.advanced
        obtain rfl : next = ring' := Option.some.inj (nextFound.symm.trans found')
        have recalls : stamping.Recalls envs := by
          rcases publishing.origin with same | ⟨_, fresh⟩
          · exact before stamping same
          · simp [Ring.Recalls, fresh.entries_eq]
        have published := Option.mem_toList.mp among
        rw [published, Option.toList_some]
        have stamped : (stamping.entries ++
            [stamping.stamp (original.fromSender peer.principal)]).map (·.wire) <:+
              (envs ++ [stamping.stamped (original.fromSender peer.principal)]).map
                fun env => .of (.envelope env) := by
          rw [List.map_append, List.map_append]
          exact List.suffix_append_self_iff.mpr recalls
        exact (advanced.entries_suffix.map _).trans stamped
      · push Not at publishes
        have silent (stamping : Ring) (env : Envelope) :
            .published key stamping env ∉ head ++ tail := by
          rw [List.mem_append, not_or]
          refine ⟨publishes stamping env, fun member => ?_⟩
          obtain ⟨_, _, _, absurdity⟩ := departures _ member
          cases absurdity
        rw [Step.publication_of_silent acts silent, Option.toList_none, List.append_nil]
        rcases acts.ring_kept silent with gone | ⟨old, new, oldFound, newFound, trimmed⟩
        · rw [Hub.ring?, gone] at found'
          cases found'
        · obtain rfl : new = ring' := Option.some.inj (newFound.symm.trans found')
          exact (before old oldFound).of_suffix trimmed.entries_suffix

theorem Run.ring_recalls (ok : start.Ok) (empty : start.accounts = ∅)
    (run : Run start steps hub) (account : AccountId) (key : StreamKey) :
    ∀ ring, hub.ring? account key = some ring →
      ring.Recalls (steps.filterMap fun step => step.publication account key) := by
  refine run.induct (fun steps hub => ∀ ring, hub.ring? account key = some ring →
    ring.Recalls (steps.filterMap fun step => step.publication account key)) ok ?_ ?_
  · intro ring found
    rw [Hub.ring?, Hub.record, empty] at found
    cases found
  · rintro earlier step _ _ _ effect _ before ring' found'
    rw [List.filterMap_append]
    have recalls := effect.ring_recalls before found'
    cases published : step.publication account key <;>
      simpa [published] using recalls

end Retaining

section Callers

variable [Codec] {account : AccountId} {key : StreamKey} {step : Step} {env : Envelope}
  {kind : Kind}

/-- A call has published what the publisher sent in it. -/
theorem Effect.publishing
    (effect : Effect step.order step.before step.call step.reply step.after)
    (published : step.publication account key = some env) :
    ∃ stamping conn peer original,
      Publishing step.before (step.after.ring? account) account step.call key stamping conn peer
        original ∧ env = stamping.stamped (original.fromSender peer.principal) := by
  cases effect.course account with
  | still same =>
      obtain ⟨_, _, _, ring, _, _, found, _, _, newer, -⟩ := Step.publication_eq_some published
      rw [same.ring?_eq] at found
      rw [Hub.newestSeq_of_ring? found] at newer
      exact (Nat.lt_irrefl _ newer).elim
  | acted head tail fx fx' heads departures acts =>
      have among : env ∈ (head ++ tail).filterMap (Event.publication key) := by
        rw [Step.publication_eq heads departures acts, published]
        exact List.mem_singleton_self env
      obtain ⟨event, member, stamped⟩ := List.mem_filterMap.mp among
      cases event with
      | published other stamping sent =>
          rw [Event.publication] at stamped
          split at stamped
          · next sameKey =>
              subst sameKey
              have inHead := Event.mem_head departures member fun _ _ _ absurdity => by
                cases absurdity
              obtain ⟨rfl, conn, peer, original, rfl, publishing⟩ := heads.published_eq inHead
              exact ⟨stamping, conn, peer, original, publishing, (Option.some.inj stamped).symm⟩
          · cases stamped
      | _ => cases stamped

theorem Effect.ring_kind
    (effect : Effect step.order step.before step.call step.reply step.after)
    (only : ∀ id peer frame, step.call = .receive id frame →
      step.before.conn? account id = some peer → peer.principal = key.publisher →
        frame.KindFor kind key.channel)
    (before : ∀ ring, step.before.ring? account key = some ring → ring.kind = kind) :
    ∀ ring, step.after.ring? account key = some ring → ring.kind = kind := by
  intro ring found
  rcases (effect.course account).ring_came found with
    ⟨old, oldFound, precedes⟩ | ⟨stamping, conn, peer, original, publishing, precedes⟩
  · exact precedes.kind_eq.trans (before old oldFound)
  · have sameKind : original.kind = kind.toInt :=
      only conn peer _ publishing.call_eq publishing.found publishing.publisher_eq original rfl
        publishing.addressed
    rw [precedes.kind_eq, publishing.kind_eq, sameKind, Kind.ofInt_toInt]

omit [Codec] in
theorem Step.publication_of_quiet
    (quiet : ∀ id frame, step.call = .receive id frame →
      ∀ c ∈ step.before.conn? account id, c.principal = key.publisher →
        frame.payloadFor? key.channel = none) :
    step.publication account key = none := by
  rw [Option.eq_none_iff_forall_ne_some]
  intro env published
  obtain ⟨conn, peer, original, -, isReceive, found, -, publisher, addressed, -, -⟩ :=
    Step.publication_eq_some published
  have nothing := quiet conn _ isReceive peer found publisher
  simp [Frame.payloadFor?, Frame.of, Frame.envelope?, addressed] at nothing

theorem Run.payload_le {start hub : Hub} {steps : List Step} (ok : start.Ok)
    (run : Run start steps hub) :
    ∀ step ∈ steps, ∀ env ∈ step.publication account key,
      env.payload.length ≤ start.limits.maxPayloadBytes := by
  intro step member env published
  obtain ⟨_, _, effect⟩ := (run.forall_steps ok).2 step member
  obtain ⟨stamping, conn, peer, original, publishing, rfl⟩ := effect.publishing published
  obtain ⟨earlier, later, rfl⟩ := List.append_of_mem member
  obtain ⟨before, earlierRun, rest⟩ := run.split
  obtain ⟨rfl, -, -⟩ := rest.uncons
  rw [← earlierRun.limits_eq ok]
  exact publishing.fits.payload

theorem Hub.run_append {hub middle : Hub} {first second : List (HashOrder × Call)}
    {steps more : List Step} (ran : hub.run first = .ok steps) (run : Run hub steps middle)
    (moreRan : middle.run second = .ok more) :
    hub.run (first ++ second) = .ok (steps ++ more) := by
  induction first generalizing hub steps with
  | nil =>
      cases ran
      rw [run.of_nil] at moreRan
      exact moreRan
  | cons entry rest ih =>
      obtain ⟨order, call⟩ := entry
      obtain ⟨⟨next, reply⟩, applied, restRan⟩ := CheckedEvaluation.bind_eq_ok.mp ran
      obtain ⟨later, laterRan, same⟩ := CheckedEvaluation.bind_eq_ok.mp restRan
      cases same
      have joined := ih laterRan run.uncons.2.2
      simp [Hub.run, applied, joined]

end Callers

/-! ## What a subscriber is handed of it -/

section Handing

variable {key : StreamKey} {kind : Kind} {epoch : Nat} {given : List Frame}
  {pushed : List Envelope} {items : List Item}
  {dropped : HashTables.HashMap StreamKey Dropped} {tally : Tally} {last : Nat}

theorem Tallied.sublist
    (tallied : Tallied key kind epoch given pushed items dropped tally last)
    (increasing : pushed.Pairwise fun first second => first.seq < second.seq) :
    (envelopesOf key given ++ waiting key items).Sublist pushed := by
  have : Std.Antisymm fun first second : Envelope => first.seq < second.seq :=
    ⟨fun _ _ less greater => absurd less (Nat.lt_asymm greater)⟩
  refine List.sublist_of_subperm_of_pairwise ?_ tallied.in_order increasing
  have part : (envelopesOf key given ++ waiting key items).Subperm
      (envelopesOf key given ++ waiting key items ++ tally.superseded ++
        (tally.reported.flatten ++ tally.pending)) := by
    rw [List.append_assoc _ tally.superseded]
    exact (List.sublist_append_left _ _).subperm
  exact part.trans tallied.balance.subperm

variable [Codec] {start hub : Hub} {steps later : List Step} {account : AccountId}
  {id : ConnId} {c : Conn} {since : Option Position} {subscribe : Step}

omit [Codec] in
theorem Conn.Followed.sublist (followed : c.Followed key given pushed (hub.record account)) :
    (envelopesOf key given ++ envelopesOf key c.out.frames).Sublist pushed := by
  obtain ⟨_, _, increasing⟩ := followed.numbered.consecutive
  cases found : (hub.record account).ring? key with
  | none =>
      obtain ⟨tally, last, -, tallied⟩ := followed.tallied .sessionEvents 0 (by simp [found])
      exact tallied.sublist increasing
  | some ring =>
      obtain ⟨tally, last, -, tallied⟩ :=
        followed.tallied ring.kind ring.epoch (by simp [found])
      exact tallied.sublist increasing

theorem LatestSubscribe.retained_eq (ok : start.Ok) (empty : start.accounts = ∅)
    (run : Run start steps hub) (plain : ∀ step ∈ steps, step.call.DeliversOnly Frame.Plain)
    (latest : LatestSubscribe steps id key since subscribe later) :
    (backlog key (subscribe.before.ring? account key) since).map
        (fun env => Frame.of (.envelope env)) =
      (subscribe.before.retainedAfter account key since).map (·.wire) := by
  obtain ⟨earlier, rfl⟩ := latest.split
  obtain ⟨before, earlierRun, rest⟩ := run.split
  obtain ⟨rfl, -, -⟩ := rest.uncons
  have sourced := earlierRun.sourced ok (Hub.sourced_empty empty)
    fun step member => (plain step (by simp [member])).mono fun _ isPlain => isPlain.envelope
  exact Hub.backlog_eq (earlierRun.forall_steps ok).1 sourced account key since

/-- What a subscriber is owed is part of what was published on the stream, in its order. -/
theorem LatestSubscribe.sublist (ok : start.Ok) (empty : start.accounts = ∅)
    (run : Run start steps hub) (plain : ∀ step ∈ steps, step.call.DeliversOnly Frame.Plain)
    (latest : LatestSubscribe steps id key since subscribe later) :
    (backlog key (subscribe.before.ring? account key) since ++
        later.filterMap fun step => step.publication account key).Sublist
      (steps.filterMap fun step => step.publication account key) := by
  have same : (backlog key (subscribe.before.ring? account key) since).map
      (fun env => Frame.of (.envelope env)) =
        (subscribe.before.retainedAfter account key since).map (·.wire) :=
    latest.retained_eq ok empty run plain
  obtain ⟨earlier, rfl⟩ := latest.split
  obtain ⟨before, earlierRun, rest⟩ := run.split
  obtain ⟨rfl, -, -⟩ := rest.uncons
  have recalls := earlierRun.ring_recalls ok empty account key
  have retained : (backlog key (subscribe.before.ring? account key) since).Sublist
      (earlier.filterMap fun step => step.publication account key) := by
    unfold Hub.retainedAfter at same
    cases found : subscribe.before.ring? account key with
    | none => exact List.nil_sublist _
    | some ring =>
        rw [found] at same
        have part : ((ring.retainedAfter since).map (·.wire)).Sublist
            (ring.entries.map (·.wire)) :=
          List.filter_sublist.map _
        rw [← same] at part
        obtain ⟨kept, among, isKept⟩ :=
          List.sublist_map_iff.mp (part.trans (recalls ring found).sublist)
        have injective : Function.Injective fun env => Frame.of (.envelope env) := by
          intro one other sameFrame
          cases sameFrame
          rfl
        rw [List.map_injective_iff.mpr injective isKept]
        exact among
  rw [List.filterMap_append]
  refine retained.append ?_
  cases published : subscribe.publication account key <;> simp [published]

theorem LatestSubscribe.delivered_in_full (ok : start.Ok) (empty : start.accounts = ∅)
    (run : Run start steps hub) (plain : ∀ step ∈ steps, step.call.DeliversOnly Frame.Plain)
    (latest : LatestSubscribe steps id key since subscribe later)
    (found : hub.conn? account id = some c) (hears : key ∈ c.subs)
    (events : ∀ ring, hub.ring? account key = some ring → ring.kind = .sessionEvents) :
    ∃ retained, c.DeliveredInFull account id key since subscribe later retained :=
  ⟨_, (run.followed ok empty plain latest found hears).delivered_in_full
    (latest.retained_eq ok empty run plain) events⟩

end Handing

/-! ## What a device opens of it -/

/-- A device that was granted the key of now opens a frame as what was sealed in it, if the
key covers its counter, and else refuses it. -/
def SentFrame.ReadAs (now : Relay) (lane : Lane) (sent : SentFrame)
    (answer : Except StreamError PublishedBatch) : Prop :=
  if now.keyFrom.at lane ≤ sent.relay.counter lane then
    ∃ skipped, answer = .ok ⟨sent.relay.counter lane, skipped, sent.batch⟩
  else
    ∃ refusal, answer = .error refusal

/-- A device that has read some way, and holds no key but the one that it was granted. -/
structure StreamReader.HoldsOnly (grant : Grant) (reader : StreamReader) : Prop where
  readsFor : reader.ReadsFor grant
  keys_eq : reader.keys = (StreamReader.new grant).keys

section Opening

variable {primitives : StreamPrimitives} {lane : Lane} {now : Relay} {one : SentFrame}
  {reader : StreamReader} {grant : Grant}

theorem StreamReader.HoldsOnly.new (grant : Grant) :
    (StreamReader.new grant).HoldsOnly grant :=
  ⟨StreamReader.new_readsFor grant, rfl⟩

theorem StreamReader.HoldsOnly.moved (holds : reader.HoldsOnly grant) (counter : Nat) :
    ({ reader with last := counter } : StreamReader).HoldsOnly grant :=
  ⟨⟨holds.readsFor.publisher_eq, holds.readsFor.publisherKey_eq, holds.readsFor.channel_eq⟩,
    holds.keys_eq⟩

theorem StreamReader.HoldsOnly.reads (holds : reader.HoldsOnly grant) {bytes key batch : Bytes}
    {frame : StreamFrame} {fromCounter : Nat}
    (reads : Reads primitives reader bytes frame key fromCounter batch) :
    frame.keyId = grant.keyId ∧ fromCounter = grant.fromCounter := by
  have held := reads.held
  rw [holds.keys_eq] at held
  by_cases same : frame.keyId = grant.keyId
  · refine ⟨same, ?_⟩
    have lookup := HashTables.HashMap.lookup_insert_eq ∅ grant.keyId frame.keyId
      (grant.key, grant.fromCounter)
    rw [if_pos same] at lookup
    simp only [StreamReader.new, StreamReader.addKey, ne_eq, not_true, or_self, if_false]
      at held
    rw [lookup] at held
    exact (Prod.mk.inj (Option.some.inj held)).2.symm
  · rw [StreamReader.lookup_new same] at held
    cases held

theorem StreamReader.HoldsOnly.refuses (holds : reader.HoldsOnly grant) {bytes : Bytes}
    (other : ∀ frame, primitives.decodeStreamFrame bytes = some frame →
      frame.keyId ≠ grant.keyId) :
    ∃ refusal, reader.openFrame primitives bytes = .ok (reader, .error refusal) := by
  obtain ⟨after, answer, ran, outcome⟩ := reader.openFrame_spec primitives bytes
  rcases outcome with ⟨refusal, -, rfl, rfl⟩ | ⟨counter, batch, isRead, -⟩
  · exact ⟨refusal, ran⟩
  · obtain ⟨frame, key, fromCounter, -, reads⟩ := StreamReader.readFrame_eq_ok_iff.mp isRead
    exact absurd (holds.reads reads).1 (other frame reads.decodes)

/-- A device that is behind a frame reads it as it must. -/
theorem SentFrame.Past.read (past : one.Past primitives lane now)
    (codes : primitives.CodesStreamFrames) (ideal : primitives.IdealAead)
    (signs : now.publisher.SignsFor primitives.toKeyPrimitives)
    (keyFrom_le : now.keyFrom.at lane ≤ now.counter lane + 1)
    (counted : now.counter lane < 2 ^ 64) (small : one.sealed.length ≤ maxStreamFrameBytes)
    (holds : reader.HoldsOnly (now.grant primitives lane))
    (behind : reader.last < one.relay.counter lane) :
    ∃ after answer, reader.openFrame primitives one.sealed = .ok (after, answer) ∧
      after.HoldsOnly (now.grant primitives lane) ∧ after.last ≤ one.relay.counter lane ∧
      one.ReadAs now lane answer := by
  have short : one.relay.counter lane < 2 ^ 64 := past.counted.trans_lt counted
  obtain ⟨after, answer, ran, outcome⟩ := reader.openFrame_spec primitives one.sealed
  refine ⟨after, answer, ran, ?_⟩
  unfold SentFrame.ReadAs
  by_cases covered : now.keyFrom.at lane ≤ one.relay.counter lane
  · obtain ⟨sameKey, sameStart⟩ := past.current covered
    have readsFor : reader.ReadsFor (one.relay.grant primitives lane) := by
      refine ⟨?_, ?_, ?_⟩
      · rw [holds.readsFor.publisher_eq, Relay.grant, Relay.grant, past.publisher_eq]
      · rw [holds.readsFor.publisherKey_eq, Relay.grant, Relay.grant, past.publisher_eq]
      · rw [holds.readsFor.channel_eq, Relay.grant, Relay.grant, past.channels_eq]
    have held : reader.keys.lookup (primitives.streamKeyId one.relay.key) =
        some (one.relay.key, one.relay.keyFrom.at lane) := by
      rw [holds.keys_eq, sameKey, sameStart]
      exact (StreamReader.KeepsUp.new keyFrom_le).held
    have opens := readFrame_sealed codes ideal (past.publisher_eq ▸ signs) past.nonce_length
      readsFor held past.covered short past.isSealed small behind
    rw [if_pos covered]
    rcases outcome with ⟨refusal, isRefused, -⟩ | ⟨counter, batch, isRead, -, rfl, rfl⟩
    · rw [isRefused] at opens
      cases opens
    · rw [opens] at isRead
      obtain ⟨rfl, rfl⟩ := Prod.mk.inj (Except.ok.inj isRead)
      exact ⟨holds.moved _, le_rfl, _, rfl⟩
  · rw [if_neg covered]
    rcases outcome with ⟨refusal, -, rfl, rfl⟩ | ⟨counter, batch, isRead, -⟩
    · exact ⟨holds, behind.le, refusal, rfl⟩
    · obtain ⟨-, isCounter, -⟩ := counter_of_readFrame_sealed codes past.isSealed short isRead
      obtain ⟨frame, key, fromCounter, isFrame, reads⟩ :=
        StreamReader.readFrame_eq_ok_iff.mp isRead
      have starts : fromCounter = now.keyFrom.at lane := (holds.reads reads).2
      have granted := reads.granted
      omega

/-- One frame after another, in the order of the counters. -/
theorem StreamReader.HoldsOnly.openAll (codes : primitives.CodesStreamFrames)
    (ideal : primitives.IdealAead)
    (signs : now.publisher.SignsFor primitives.toKeyPrimitives)
    (keyFrom_le : now.keyFrom.at lane ≤ now.counter lane + 1)
    (counted : now.counter lane < 2 ^ 64) {heard : List SentFrame}
    (past : ∀ one ∈ heard, one.Past primitives lane now)
    (increasing : heard.Pairwise fun one other =>
      one.relay.counter lane < other.relay.counter lane)
    (small : ∀ one ∈ heard, one.sealed.length ≤ maxStreamFrameBytes)
    (holds : reader.HoldsOnly (now.grant primitives lane))
    (behind : ∀ one ∈ heard, reader.last < one.relay.counter lane) :
    ∃ final answers, reader.openAll primitives (heard.map SentFrame.sealed) =
        .ok (final, answers) ∧
      List.Forall₂ (SentFrame.ReadAs now lane) heard answers := by
  induction heard generalizing reader with
  | nil => exact ⟨reader, [], rfl, .nil⟩
  | cons one rest ih =>
      obtain ⟨onePast, restPast⟩ := List.forall_mem_cons.mp past
      obtain ⟨oneSmall, restSmall⟩ := List.forall_mem_cons.mp small
      obtain ⟨below, restIncreasing⟩ := List.pairwise_cons.mp increasing
      obtain ⟨after, answer, ran, afterHolds, afterLast, isRead⟩ :=
        onePast.read codes ideal signs keyFrom_le counted oneSmall holds
          (behind one List.mem_cons_self)
      obtain ⟨final, answers, restRan, each⟩ := ih restPast restIncreasing restSmall afterHolds
        fun other member => afterLast.trans_lt (below other member)
      exact ⟨final, answer :: answers, by simp [StreamReader.openAll, ran, restRan],
        .cons isRead each⟩

theorem StreamReader.HoldsOnly.openAll_older (holds : reader.HoldsOnly grant)
    {older later : List Bytes}
    (other : ∀ bytes ∈ older, ∀ frame, primitives.decodeStreamFrame bytes = some frame →
      frame.keyId ≠ grant.keyId) {final : StreamReader}
    {answers : List (Except StreamError PublishedBatch)}
    (ran : reader.openAll primitives later = .ok (final, answers)) :
    ∃ refusals : List StreamError, refusals.length = older.length ∧
      reader.openAll primitives (older ++ later) =
        .ok (final, refusals.map .error ++ answers) := by
  induction older with
  | nil => exact ⟨[], rfl, ran⟩
  | cons bytes rest ih =>
      obtain ⟨isOther, restOther⟩ := List.forall_mem_cons.mp other
      obtain ⟨refusal, refused⟩ := holds.refuses isOther
      obtain ⟨refusals, length, restRan⟩ := ih restOther
      exact ⟨refusal :: refusals, by simp [length],
        by simp [StreamReader.openAll, refused, restRan]⟩

end Opening

/-! ## The connector and its hub -/

namespace ConnectorAtHub

section Conveying

variable [Codec] (primitives : ServingPrimitives) (formats : FileFormats)
  (clock : Nat → Nat) (account : AccountId) (conn : ConnId) (key : StreamKey) (lane : Lane)

/-- The moves of a run, each with what it is made from. -/
def along (session : ConnectorAtHub) : List ConnectorMove → List (ConnectorAtHub × ConnectorMove)
  | [] => []
  | move :: rest => (session, move) ::
      match session.step primitives formats clock conn move with
      | .ok (.ok next) => next.along rest
      | .ok (.error _) | .error _ => []

/-- What the hub is called for in a move. -/
def call? (session : ConnectorAtHub) : ConnectorMove → Option (HashOrder × Call)
  | .other order call => some (order, call)
  | .hears order => session.upward.head?.map fun frame => (order, .receive conn frame)
  | .hands order budget => some (order, .takeOutbound conn budget)
  | .pings _ | .reads _ | .relays _ _ => none

/-- The frame that the connector seals for a channel in a move. -/
def seals? (session : ConnectorAtHub) : ConnectorMove → Option SentFrame
  | .relays _ given => session.serving.sends? primitives lane given
  | .other _ _ | .hears _ | .hands _ _ | .pings _ | .reads _ => none

/-- What the hub is called for in a run. -/
def calls (session : ConnectorAtHub) (moves : List ConnectorMove) : List (HashOrder × Call) :=
  (session.along primitives formats clock conn moves).filterMap fun made => made.1.call? conn made.2

/-- What the connector seals for a channel in a run. -/
def sealed (session : ConnectorAtHub) (moves : List ConnectorMove) : List SentFrame :=
  (session.along primitives formats clock conn moves).filterMap fun made =>
    made.1.seals? primitives lane made.2

/-- Nobody else sends as the publisher of a stream, the server delivers no frames about
streams of its own, and the nonce that is drawn for a frame is as long as it must be. -/
def SpeaksAlone (session : ConnectorAtHub) : ConnectorMove → Prop
  | .other _ call => call.DeliversOnly Frame.Plain ∧ ∀ id frame, call = .receive id frame →
      ∀ c ∈ session.hub.conn? account id, c.principal = key.publisher →
        frame.payloadFor? key.channel = none
  | .relays _ given => given.nonce.length = frameNonceBytes
  | .hears _ | .hands _ _ | .pings _ | .reads _ => True

/-- What the hub has published on a stream since the connector came, and then what is on
the way to it, is part of what the connector has sealed, in its order. -/
structure Conveys (publisher : Identity) (session : ConnectorAtHub) (steps : List Step)
    (sent : List SentFrame) : Prop where
  plain : ∀ step ∈ steps, step.call.DeliversOnly Frame.Plain
  publisher_eq : session.serving.publishing.relay.publisher = publisher
  channel_eq : session.serving.publishing.relay.channels.name lane = key.channel
  distinct : session.serving.publishing.relay.channels.edge ≠
    session.serving.publishing.relay.channels.sample
  hasSent : session.serving.publishing.relay.HasSent primitives.toStreamPrimitives lane sent
  conveyed : ((steps.filterMap fun step => step.publication account key).map
      (fun env => env.payload) ++ session.upward.filterMap (Frame.payloadFor? key.channel)).Sublist
    (sent.map SentFrame.sealed)
  kinds : ∀ frame ∈ session.upward, frame.KindFor lane.kind key.channel
  ring_kind : ∀ ring, session.hub.ring? account key = some ring → ring.kind = lane.kind

end Conveying

section Steps

variable [Codec] {primitives : ServingPrimitives} {formats : FileFormats} {clock : Nat → Nat}
  {account : AccountId} {conn : ConnId} {key : StreamKey} {lane : Lane} {publisher : Identity}
  {session next : ConnectorAtHub} {steps : List Step} {sent : List SentFrame}

/-- What the hub does on account of others conveys nothing more. -/
theorem Conveys.quiet (conveys : session.Conveys primitives account key lane publisher steps sent)
    (ok : session.hub.Ok) {order : HashOrder} {call : Call} {hub : Hub} {reply : Reply}
    (ran : session.hub.apply order call = .ok (hub, reply))
    (plain : call.DeliversOnly Frame.Plain)
    (quiet : ∀ id frame, call = .receive id frame → ∀ c ∈ session.hub.conn? account id,
      c.principal = key.publisher → frame.payloadFor? key.channel = none) :
    ({ session with hub } : ConnectorAtHub).Conveys primitives account key lane publisher
      (steps ++ [⟨session.hub, order, call, reply, hub⟩]) sent := by
  obtain ⟨_, _, ranAgain, -, effect⟩ := Hub.apply_spec order ok call
  rw [ran] at ranAgain
  cases ranAgain
  have nothing : Step.publication ⟨session.hub, order, call, reply, hub⟩ account key = none :=
    Step.publication_of_quiet quiet
  refine { conveys with
    plain := fun step member => ?_
    conveyed := ?_
    ring_kind := ?_ }
  · rcases List.mem_append.mp member with old | new
    · exact conveys.plain step old
    · rw [List.mem_singleton.mp new]
      exact plain
  · simp only [List.filterMap_append, List.filterMap_cons, nothing, List.filterMap_nil,
      List.append_nil]
    exact conveys.conveyed
  · exact @Effect.ring_kind _ account key ⟨session.hub, order, call, reply, hub⟩ lane.kind effect
      (fun id peer frame isReceive found publisher =>
        Frame.kindFor_of_payloadFor? (quiet id frame isReceive peer found publisher))
      conveys.ring_kind

/-- What the hub publishes of what it receives from the connector was on the way to it. -/
theorem Conveys.hears (conveys : session.Conveys primitives account key lane publisher steps sent)
    (ok : session.hub.Ok) {order : HashOrder} {hub : Hub} {reply : Reply} {frame : Frame}
    {upward : List Frame} (waiting : session.upward = frame :: upward)
    (ran : session.hub.apply order (.receive conn frame) = .ok (hub, reply)) :
    ({ session with hub, upward } : ConnectorAtHub).Conveys primitives account key lane publisher
      (steps ++ [⟨session.hub, order, .receive conn frame, reply, hub⟩]) sent := by
  obtain ⟨_, _, ranAgain, -, effect⟩ := Hub.apply_spec order ok (.receive conn frame)
  rw [ran] at ranAgain
  cases ranAgain
  obtain ⟨isKind, kinds⟩ := List.forall_mem_cons.mp (waiting ▸ conveys.kinds)
  refine { conveys with
    plain := fun step member => ?_
    conveyed := ?_
    kinds := kinds
    ring_kind := ?_ }
  · rcases List.mem_append.mp member with old | new
    · exact conveys.plain step old
    · rw [List.mem_singleton.mp new]
      trivial
  · refine List.Sublist.trans ?_ conveys.conveyed
    rw [waiting, List.filterMap_append, List.map_append, List.append_assoc]
    refine List.Sublist.append_left ?_ _
    cases published : Step.publication
        ⟨session.hub, order, .receive conn frame, reply, hub⟩ account key with
    | none =>
        simp only [List.filterMap_cons, published, List.filterMap_nil, List.map_nil,
          List.nil_append]
        cases frame.payloadFor? key.channel with
        | none => exact List.Sublist.refl _
        | some payload => exact List.sublist_cons_self _ _
    | some env =>
        have carried := Step.payloadFor?_of_publication rfl published
        simp [published, carried]
  · refine @Effect.ring_kind _ account key ⟨session.hub, order, .receive conn frame, reply, hub⟩
      lane.kind effect (fun id peer other isReceive found publisher => ?_) conveys.ring_kind
    obtain ⟨rfl, rfl⟩ := Call.receive.inj isReceive
    exact isKind

omit [Codec] in
theorem counter_le_of_act {now : Circumstances} {awaited : Awaited} {published : Option Frame}
    (acted : session.act primitives formats now awaited published = .ok next) (lane : Lane) :
    next.serving.publishing.relay.counter lane ≤
      session.serving.publishing.relay.counter lane + 1 := by
  obtain ⟨after, deeds, ran, rfl⟩ := act_eq_ok acted
  exact (BoxServing.next_of_turn ran).counter_le lane

omit [Codec] in
/-- What the connector does leaves what the hub has published, and sends at most what it has
sealed. -/
theorem Conveys.acts (conveys : session.Conveys primitives account key lane publisher steps sent)
    {more : List SentFrame} {now : Circumstances} {awaited : Awaited} {published : Option Frame}
    (acted : session.act primitives formats now awaited published = .ok next)
    (hasSent : ∀ after deeds, session.serving.turn primitives formats now awaited =
        .ok (after, deeds) → after.publishing.relay.HasSent primitives.toStreamPrimitives lane
      (sent ++ more))
    (carries : published.toList.filterMap (Frame.payloadFor? key.channel) =
      more.map SentFrame.sealed)
    (isKind : ∀ frame ∈ published.toList, frame.KindFor lane.kind key.channel) :
    next.Conveys primitives account key lane publisher steps (sent ++ more) := by
  obtain ⟨after, deeds, ran, rfl⟩ := act_eq_ok acted
  have nothing : (deeds.filterMap Deed.frame?).filterMap (Frame.payloadFor? key.channel) = [] := by
    rw [List.filterMap_eq_nil_iff]
    intro frame member
    obtain ⟨deed, -, isFrame⟩ := List.mem_filterMap.mp member
    exact Deed.payloadFor?_frame? isFrame key.channel
  have turned := BoxServing.next_of_turn ran
  refine ⟨conveys.plain, turned.publisher_eq.trans conveys.publisher_eq, ?_, ?_,
    hasSent after deeds ran, ?_, fun frame member => ?_, conveys.ring_kind⟩
  · rw [turned.channels_eq]
    exact conveys.channel_eq
  · rw [turned.channels_eq]
    exact conveys.distinct
  · rw [List.filterMap_append, List.filterMap_append, nothing, carries, List.append_nil,
      List.map_append, ← List.append_assoc]
    exact conveys.conveyed.append_right _
  · rcases List.mem_append.mp member with earlier | deed
    · rcases List.mem_append.mp earlier with old | new
      · exact conveys.kinds frame old
      · exact isKind frame new
    · obtain ⟨deed, -, isFrame⟩ := List.mem_filterMap.mp deed
      exact Frame.kindFor_of_payloadFor? (Deed.payloadFor?_frame? isFrame key.channel)

/-- One move. -/
theorem Conveys.step (conveys : session.Conveys primitives account key lane publisher steps sent)
    (ok : session.hub.Ok) {move : ConnectorMove} (alone : session.SpeaksAlone account key move)
    (stepped : session.step primitives formats clock conn move = .ok (.ok next)) :
    ∃ more, session.hub.run (session.call? conn move).toList = .ok more ∧
      Run session.hub more next.hub ∧
      next.serving.publishing.relay.counter lane ≤
        session.serving.publishing.relay.counter lane + 1 ∧
      next.Conveys primitives account key lane publisher (steps ++ more)
        (sent ++ (session.seals? primitives lane move).toList) := by
  cases move with
  | other order call =>
      obtain ⟨⟨hub, reply⟩, ran, same⟩ := CheckedEvaluation.bind_eq_ok.mp stepped
      cases same
      refine ⟨_, by simp [call?, Hub.run, ran], .call .start ran, Nat.le_succ _, ?_⟩
      simpa [seals?] using conveys.quiet ok ran alone.1 alone.2
  | hears order =>
      cases waiting : session.upward with
      | nil =>
          simp only [ConnectorAtHub.step, waiting] at stepped
          cases stepped
          exact ⟨[], by simp [call?, waiting, Hub.run], .start, Nat.le_succ _,
            by simpa [seals?] using conveys⟩
      | cons frame upward =>
          simp only [ConnectorAtHub.step, waiting] at stepped
          obtain ⟨⟨hub, reply⟩, ran, same⟩ := CheckedEvaluation.bind_eq_ok.mp stepped
          cases same
          refine ⟨_, by simp [call?, waiting, Hub.run, ran], .call .start ran, Nat.le_succ _, ?_⟩
          simpa [seals?] using conveys.hears ok waiting ran
  | hands order budget =>
      obtain ⟨⟨hub, reply⟩, ran, same⟩ := CheckedEvaluation.bind_eq_ok.mp stepped
      cases same
      refine ⟨_, by simp [call?, Hub.run, ran], .call .start ran, Nat.le_succ _, ?_⟩
      have quiet := conveys.quiet ok ran trivial (by simp)
      simpa [seals?] using { quiet with }
  | pings nonce =>
      cases stepped
      exact ⟨[], rfl, .start, Nat.le_succ _, by simpa [seals?] using { conveys with }⟩
  | reads now =>
      cases waiting : session.downward with
      | nil =>
          simp only [ConnectorAtHub.step, waiting] at stepped
          cases stepped
          exact ⟨[], rfl, .start, Nat.le_succ _, by simpa [seals?] using conveys⟩
      | cons frame downward =>
          simp only [ConnectorAtHub.step, waiting] at stepped
          generalize session.opener.handle primitives.toSealPrimitives clock frame = out at stepped
          obtain ⟨opener, outcome⟩ := out
          have read : ({ session with opener, downward } : ConnectorAtHub).Conveys primitives
              account key lane publisher steps sent := { conveys with }
          cases outcome with
          | none =>
              cases stepped
              refine ⟨[], rfl, .start, Nat.le_succ _, ?_⟩
              have nothing : ∀ other ∈ frame.pong?.toList.map Frame.of,
                  other.payloadFor? key.channel = none := by
                intro other member
                obtain ⟨body, isPong, rfl⟩ := List.mem_map.mp member
                unfold Frame.pong? at isPong
                split at isPong
                · rw [List.mem_singleton.mp isPong]
                  rfl
                · cases isPong
              refine { read with
                plain := by simpa using conveys.plain
                hasSent := by simpa [seals?] using conveys.hasSent
                conveyed := ?_
                kinds := fun other member => ?_ }
              · have same : (session.upward ++ frame.pong?.toList.map Frame.of).filterMap
                    (Frame.payloadFor? key.channel) =
                      session.upward.filterMap (Frame.payloadFor? key.channel) := by
                  rw [List.filterMap_append, List.filterMap_eq_nil_iff.mpr nothing,
                    List.append_nil]
                simpa [seals?, same] using conveys.conveyed
              · rcases List.mem_append.mp member with old | new
                · exact conveys.kinds other old
                · exact Frame.kindFor_of_payloadFor? (nothing other new)
          | some made =>
              cases made with
              | error error => cases stepped
              | ok event =>
                  have acted := Except.ok.inj stepped
                  refine ⟨[], rfl, ?_, counter_le_of_act acted lane, ?_⟩
                  · obtain ⟨after, deeds, -, rfl⟩ := act_eq_ok acted
                    exact .start
                  · have acts : next.Conveys primitives account key lane publisher steps
                        (sent ++ []) := read.acts acted (fun after deeds ran => by
                      simpa using conveys.hasSent.next (BoxServing.next_of_turn ran)) rfl (by simp)
                    simpa [seals?] using acts
  | relays now given =>
      have acted := Except.ok.inj stepped
      refine ⟨[], rfl, ?_, counter_le_of_act acted lane, ?_⟩
      · obtain ⟨after, deeds, -, rfl⟩ := act_eq_ok acted
        exact .start
      · rw [List.append_nil]
        refine conveys.acts acted (fun after deeds ran =>
          BoxServing.hasSent_of_turn conveys.hasSent alone ran) ?_ ?_
        · rw [← conveys.channel_eq]
          exact BoxServing.payloadFor?_publication? lane conveys.distinct given
        · rw [← conveys.channel_eq]
          exact BoxServing.kindFor_of_publication? lane conveys.distinct given

theorem calls_cons {move : ConnectorMove} (rest : List ConnectorMove)
    (stepped : session.step primitives formats clock conn move = .ok (.ok next)) :
    session.calls primitives formats clock conn (move :: rest) =
      (session.call? conn move).toList ++ next.calls primitives formats clock conn rest := by
  simp only [calls, along, stepped, List.filterMap_cons]
  cases session.call? conn move <;> rfl

theorem sealed_cons {move : ConnectorMove} (rest : List ConnectorMove)
    (stepped : session.step primitives formats clock conn move = .ok (.ok next)) :
    session.sealed primitives formats clock conn lane (move :: rest) =
      (session.seals? primitives lane move).toList ++
        next.sealed primitives formats clock conn lane rest := by
  simp only [sealed, along, stepped, List.filterMap_cons]
  cases session.seals? primitives lane move <;> rfl

/-- Whatever happens, in whatever order. -/
theorem Conveys.run {final : ConnectorAtHub} {moves : List ConnectorMove}
    (conveys : session.Conveys primitives account key lane publisher steps sent)
    (ok : session.hub.Ok)
    (alone : session.Throughout primitives formats clock conn (SpeaksAlone account key) moves)
    (ran : session.run primitives formats clock conn moves = .ok (.ok final)) :
    ∃ more, session.hub.run (session.calls primitives formats clock conn moves) = .ok more ∧
      Run session.hub more final.hub ∧
      final.serving.publishing.relay.counter lane ≤
        session.serving.publishing.relay.counter lane + moves.length ∧
      final.Conveys primitives account key lane publisher (steps ++ more)
        (sent ++ session.sealed primitives formats clock conn lane moves) := by
  induction moves generalizing session steps sent with
  | nil =>
      cases ran
      exact ⟨[], rfl, .start, le_rfl, by simpa [sealed, along] using conveys⟩
  | cons move rest ih =>
      obtain ⟨outcome, stepped, restRan⟩ := CheckedEvaluation.bind_eq_ok.mp ran
      cases outcome with
      | error error => cases restRan
      | ok next =>
          obtain ⟨now, later⟩ := alone
          obtain ⟨first, firstRan, firstRun, counted, nextConveys⟩ :=
            conveys.step ok now stepped
          obtain ⟨more, moreRan, moreRun, moreCounted, finalConveys⟩ :=
            ih nextConveys (firstRun.forall_steps ok).1 (later next stepped) restRan
          refine ⟨first ++ more, ?_, firstRun.append moreRun, ?_, ?_⟩
          · rw [calls_cons rest stepped]
            exact Hub.run_append firstRan firstRun moreRan
          · rw [List.length_cons]
            omega
          · rw [sealed_cons rest stepped, ← List.append_assoc, ← List.append_assoc]
            exact finalConveys

omit [Codec] in
/-- A device that begins with the grant of the key of now refuses what names other keys, and
reads as it must whatever it is handed of what was sealed. -/
theorem Conveys.opens (conveys : session.Conveys primitives account key lane publisher steps sent)
    (codes : primitives.CodesStreamFrames) (ideal : primitives.IdealAead)
    (signs : publisher.SignsFor primitives.toKeyPrimitives)
    (counted : session.serving.publishing.relay.counter lane < 2 ^ 64)
    {older : List Bytes} {heard : List SentFrame} (among : heard.Sublist sent)
    (small : ∀ one ∈ heard, one.sealed.length ≤ maxStreamFrameBytes)
    (other : ∀ bytes ∈ older, ∀ frame, primitives.decodeStreamFrame bytes = some frame →
      frame.keyId ≠ primitives.streamKeyId session.serving.publishing.relay.key) :
    ∃ reader, ∃ refusals : List StreamError, ∃ answers,
      (StreamReader.new (session.serving.publishing.relay.grant primitives.toStreamPrimitives
          lane)).openAll primitives.toStreamPrimitives (older ++ heard.map SentFrame.sealed) =
        .ok (reader, refusals.map .error ++ answers) ∧
      refusals.length = older.length ∧
      List.Forall₂ (SentFrame.ReadAs session.serving.publishing.relay lane) heard answers := by
  have past : ∀ one ∈ heard,
      one.Past primitives.toStreamPrimitives lane session.serving.publishing.relay :=
    fun one member => conveys.hasSent.past one (among.subset member)
  obtain ⟨reader, answers, opened, each⟩ := StreamReader.HoldsOnly.openAll codes ideal
    (conveys.publisher_eq ▸ signs) conveys.hasSent.keyFrom_le counted past
    (conveys.hasSent.increasing.sublist among) small (.new _) fun one member => by
      rw [StreamReader.last_new]
      exact (past one member).counter_pos
  obtain ⟨refusals, length, ran⟩ := (StreamReader.HoldsOnly.new _).openAll_older other opened
  exact ⟨reader, refusals, answers, ran, length, each⟩

end Steps

/-- A connector that has just begun, with a relay of its own, at a hub that has been running.
What the hub retains of its channel is of the kind that it publishes there. -/
structure Begins [Codec] (start : Hub) (earlier : List Step) (account : AccountId)
    (key : StreamKey) (lane : Lane) (session : ConnectorAtHub) : Prop where
  run : Run start earlier session.hub
  plain : ∀ step ∈ earlier, step.call.DeliversOnly Frame.Plain
  relay_eq : ∃ publisher streamKey channels,
    session.serving.publishing.relay = .new publisher streamKey channels
  channel_eq : session.serving.publishing.relay.channels.name lane = key.channel
  distinct : session.serving.publishing.relay.channels.edge ≠
    session.serving.publishing.relay.channels.sample
  followed : ∃ deeds : List Deed, session.upward = deeds.filterMap Deed.frame?
  ring_kind : ∀ ring, session.hub.ring? account key = some ring → ring.kind = lane.kind

theorem Begins.conveys [Codec] {start : Hub} {earlier : List Step} {account : AccountId}
    {key : StreamKey} {lane : Lane} {session : ConnectorAtHub}
    (begins : session.Begins start earlier account key lane) (primitives : ServingPrimitives) :
    session.serving.publishing.relay.counter lane = 0 ∧
      session.Conveys primitives account key lane session.serving.publishing.relay.publisher
        [] [] := by
  obtain ⟨publisher, streamKey, channels, isRelay⟩ := begins.relay_eq
  obtain ⟨deeds, upward⟩ := begins.followed
  have fromDeed : ∀ frame ∈ session.upward, frame.payloadFor? key.channel = none := by
    intro frame member
    rw [upward] at member
    obtain ⟨deed, -, isFrame⟩ := List.mem_filterMap.mp member
    exact Deed.payloadFor?_frame? isFrame key.channel
  refine ⟨?_, by simp, rfl, begins.channel_eq, begins.distinct, ⟨by simp, .nil, ?_⟩, ?_,
    fun frame member => Frame.kindFor_of_payloadFor? (fromDeed frame member), begins.ring_kind⟩
  · rw [isRelay]
    cases lane <;> rfl
  · rw [isRelay]
    cases lane <;> exact le_rfl
  · rw [List.filterMap_eq_nil_iff.mpr fromDeed]
    exact List.Sublist.refl _

end ConnectorAtHub

/-- What a connection has been handed of a stream, and then what waits in its queue: some of
what was published there before, and then frames of what the connector has sealed since,
both in their order.  A device that begins with the grant of the key of now refuses the
former, and reads the latter as it must. -/
def Conn.HearsOf (primitives : StreamPrimitives) (now : Relay) (lane : Lane) (key : StreamKey)
    (before : List Envelope) (sent : List SentFrame) (given : List Frame) (c : Conn) : Prop :=
  ∃ older heard, (envelopesOf key given ++ envelopesOf key c.out.frames).map
        (fun env => env.payload) = older ++ heard.map SentFrame.sealed ∧
    older.Sublist (before.map fun env => env.payload) ∧ heard.Sublist sent ∧
    ∃ reader, ∃ refusals : List StreamError, ∃ answers,
      (StreamReader.new (now.grant primitives lane)).openAll primitives
          (older ++ heard.map SentFrame.sealed) =
        .ok (reader, refusals.map .error ++ answers) ∧
      refusals.length = older.length ∧ List.Forall₂ (SentFrame.ReadAs now lane) heard answers

/-- From the box to its devices, whatever the connector, the hub and all others do and in
whatever order: what the hub publishes of a connector is what it has sealed, in its order;
of its session events every device is handed all since it subscribed; and with the current
key it opens exactly what was sealed under it. -/
theorem box_heard_by_devices [Codec] (primitives : ServingPrimitives)
    (codes : primitives.CodesStreamFrames) (ideal : primitives.IdealAead)
    (formats : FileFormats) (clock : Nat → Nat) (limits : Limits) (seed : UInt64)
    (shard : UInt16) (start : Hub) (accepted : Hub.withIdSpace limits seed shard = .ok start)
    (fits : limits.maxPayloadBytes ≤ maxStreamFrameBytes) (account : AccountId) (conn : ConnId)
    (key : StreamKey) (lane : Lane) (earlier : List Step) (session final : ConnectorAtHub)
    (begins : session.Begins start earlier account key lane)
    (signs : session.serving.publishing.relay.publisher.SignsFor primitives.toKeyPrimitives)
    (moves : List ConnectorMove) (short : moves.length < 2 ^ 64)
    (alone : session.Throughout primitives formats clock conn
      (ConnectorAtHub.SpeaksAlone account key) moves)
    (ran : session.run primitives formats clock conn moves = .ok (.ok final))
    (fresh : ∀ step ∈ earlier, ∀ env ∈ step.publication account key, ∀ frame,
      primitives.decodeStreamFrame env.payload = some frame →
        frame.keyId ≠ primitives.streamKeyId final.serving.publishing.relay.key) :
    ∃ steps, session.hub.run (session.calls primitives formats clock conn moves) = .ok steps ∧
      ((steps.filterMap fun step => step.publication account key).map
          fun env => env.payload).Sublist
        ((session.sealed primitives formats clock conn lane moves).map SentFrame.sealed) ∧
      ∀ id c, final.hub.conn? account id = some c → key ∈ c.subs →
        ∃ since subscribe later,
          LatestSubscribe (earlier ++ steps) id key since subscribe later ∧
          (lane = .edge → ∃ retained,
            c.DeliveredInFull account id key since subscribe later retained) ∧
          c.HearsOf primitives.toStreamPrimitives final.serving.publishing.relay lane key
            (earlier.filterMap fun step => step.publication account key)
            (session.sealed primitives formats clock conn lane moves) (handed id later) := by
  obtain ⟨ok, limitsEq, empty, -⟩ := ok_withIdSpace accepted
  obtain ⟨counter, starts⟩ := begins.conveys primitives
  obtain ⟨steps, hubRan, run, counted, conveys⟩ :=
    starts.run (begins.run.forall_steps ok).1 alone ran
  rw [List.nil_append, List.nil_append] at conveys
  have whole := begins.run.append run
  have plain : ∀ step ∈ earlier ++ steps, step.call.DeliversOnly Frame.Plain := by
    intro step member
    rcases List.mem_append.mp member with before | since
    · exact begins.plain step before
    · exact conveys.plain step since
  have conveyed := (List.sublist_append_left _ _).trans conveys.conveyed
  refine ⟨steps, hubRan, conveyed, fun id c found hears => ?_⟩
  obtain ⟨since, subscribe, later, latest⟩ :=
    exists_latestSubscribe (whole.asked ok empty account id c key found hears)
  have followed := whole.followed ok empty plain latest found hears
  refine ⟨since, subscribe, later, latest, ?_, ?_⟩
  · rintro rfl
    exact latest.delivered_in_full ok empty whole plain found hears conveys.ring_kind
  · have part : ((envelopesOf key (handed id later) ++ envelopesOf key c.out.frames).map
        fun env => env.payload).Sublist
          (((earlier.filterMap fun step => step.publication account key).map
              fun env => env.payload) ++
            (steps.filterMap fun step => step.publication account key).map
              fun env => env.payload) := by
      rw [← List.map_append, ← List.filterMap_append]
      exact (followed.sublist.trans (latest.sublist ok empty whole plain)).map _
    obtain ⟨older, sealed, isSplit, isOlder, isSealed⟩ := List.sublist_append_iff.mp part
    obtain ⟨heard, among, rfl⟩ := List.sublist_map_iff.mp (isSealed.trans conveyed)
    have small : ∀ one ∈ heard, one.sealed.length ≤ maxStreamFrameBytes := by
      intro one member
      obtain ⟨env, published, isPayload⟩ := List.mem_map.mp
        (isSealed.subset (List.mem_map_of_mem member))
      obtain ⟨step, isStep, published⟩ := List.mem_filterMap.mp published
      have within := whole.payload_le ok step (List.mem_append_right _ isStep) env published
      rw [isPayload, limitsEq] at within
      exact within.trans fits
    obtain ⟨reader, refusals, answers, opened, length, each⟩ :=
      conveys.opens codes ideal signs (by omega) among small fun bytes member => by
        obtain ⟨env, published, rfl⟩ := List.mem_map.mp (isOlder.subset member)
        obtain ⟨step, isStep, published⟩ := List.mem_filterMap.mp published
        exact fresh step isStep env published
    exact ⟨older, heard, isSplit, isOlder, among, reader, refusals, answers, opened, length,
      each⟩

/-- What goes on the edges of the box of the key 2. -/
def attendedEdges : StreamKey := ⟨overlooked.principal, List.replicate 16 4⟩

/-- A device connects and subscribes, the box says something, and the device takes what it
is sent. -/
def listened : List ConnectorMove :=
  [.other .stored (.connect [9] askerHello 1500 6 .unknown),
    .other .stored (.receive 2 (.of (.subscribe ⟨some attendedEdges.toRef, none⟩))),
    .relays attendedNow ⟨loneSealing.nonce, [], true⟩, .hears .stored,
    .other .stored (.takeOutbound 2 100000)]

example : ((attended.sealed attendedPrimitives plainFormats (fun _ => 1500) 1 .edge listened).map
    fun sent => (sent.relay.counter .edge, sent.batch)) = [(1, [])] := by
  decide +kernel

theorem attended_begins : ∃ earlier, attended.Begins emptyHub earlier [9] attendedEdges .edge ∧
    ∀ step ∈ earlier, step.publication [9] attendedEdges = none := by
  have accepted : Hub.withIdSpace {} 7 0 = .ok emptyHub := rfl
  obtain ⟨reply, next, ran, -⟩ := Hub.apply_spec .stored (ok_withIdSpace accepted).1
    (.connect [9] attendedHello 1500 5 .unknown)
  have isHub : attended.hub = next := by
    rw [attended, attendedHub, ran]
  refine ⟨[⟨emptyHub, .stored, .connect [9] attendedHello 1500 5 .unknown, reply, next⟩], {
    run := ?_
    plain := ?_
    relay_eq := ⟨_, _, _, rfl⟩
    channel_eq := rfl
    distinct := by decide
    followed := ⟨[], rfl⟩
    ring_kind := ?_ }, ?_⟩
  · rw [isHub]
    exact .call .start ran
  · simp [Call.DeliversOnly]
  · have missing : (attended.hub.ring? [9] attendedEdges).isNone = true := by
      decide +kernel
    intro ring found
    rw [found] at missing
    cases missing
  · simp [Step.publication]

theorem box_heard_by_devices_listened : ∃ earlier steps final,
    attended.run attendedPrimitives plainFormats (fun _ => 1500) 1 listened = .ok (.ok final) ∧
      attended.hub.run (attended.calls attendedPrimitives plainFormats (fun _ => 1500) 1
        listened) = .ok steps ∧
      ((steps.filterMap fun step => step.publication [9] attendedEdges).map
          fun env => env.payload).Sublist
        ((attended.sealed attendedPrimitives plainFormats (fun _ => 1500) 1 .edge listened).map
          SentFrame.sealed) ∧
      ∀ id c, final.hub.conn? [9] id = some c → attendedEdges ∈ c.subs →
        ∃ since subscribe later,
          LatestSubscribe (earlier ++ steps) id attendedEdges since subscribe later ∧
          (Lane.edge = .edge → ∃ retained,
            c.DeliveredInFull [9] id attendedEdges since subscribe later retained) ∧
          c.HearsOf attendedPrimitives.toStreamPrimitives final.serving.publishing.relay .edge
            attendedEdges (earlier.filterMap fun step => step.publication [9] attendedEdges)
            (attended.sealed attendedPrimitives plainFormats (fun _ => 1500) 1 .edge listened)
            (handed id later) := by
  obtain ⟨earlier, begins, unpublished⟩ := attended_begins
  have goesOn : ((attended.run attendedPrimitives plainFormats (fun _ => 1500) 1
      listened).toOption.bind Except.toOption).isSome = true := by
    decide +kernel
  cases ran : attended.run attendedPrimitives plainFormats (fun _ => 1500) 1 listened with
  | error panic =>
      rw [ran] at goesOn
      cases goesOn
  | ok outcome =>
      cases outcome with
      | error error =>
          rw [ran] at goesOn
          cases goesOn
      | ok final =>
          have alone : attended.Throughout attendedPrimitives plainFormats (fun _ => 1500) 1
              (ConnectorAtHub.SpeaksAlone [9] attendedEdges) listened := by
            refine ConnectorAtHub.Throughout.of_forall _ _ _ _ fun session move member => ?_
            simp only [listened, List.mem_cons, List.not_mem_nil, or_false] at member
            rcases member with rfl | rfl | rfl | rfl | rfl
            · exact ⟨trivial, nofun⟩
            · refine ⟨trivial, fun id frame isReceive c found publisher => ?_⟩
              obtain ⟨rfl, rfl⟩ := Call.receive.inj isReceive
              rfl
            · exact loneSealing.nonce_length
            · trivial
            · exact ⟨trivial, nofun⟩
          obtain ⟨steps, heard⟩ := box_heard_by_devices attendedPrimitives
            (mergesStreamFrames _ rfl rfl) ⟨lonePrimitives_ideal.opens, lonePrimitives_ideal.only⟩
            plainFormats (fun _ => 1500) {} 7 0 emptyHub rfl (by decide) [9] 1 attendedEdges
            .edge earlier attended final begins
            (fun _ => by simp [attendedPrimitives, roundTripPrimitives, restartPrimitives,
              attended, Serving.new, Relay.new, identityOf])
            listened (by decide) alone ran
            (fun step member env published => by
              rw [unpublished step member] at published
              cases published)
          exact ⟨earlier, steps, final, rfl, heard⟩

end WindowMlHub
