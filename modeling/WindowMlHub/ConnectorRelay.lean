import WindowMlHub.BoxRouting
import WindowMlHub.StreamReaders

/-!
# Publishing a box's frames

A connector publishes on two channels, each with a counter of its own: an edge on a
lossless one, a sample on one that coalesces.  Both are sealed under one key, which may be
replaced; a grant of the key covers each channel from the first counter the key seals.

Whether the client could publish what it is handed makes no difference to the relay: the
counter is spent.
-/

namespace WindowMlHub

open CheckedConditions TextFormats

/-- The two channels of a box. -/
inductive Lane
  | edge
  | sample
  deriving DecidableEq, Repr

/-- `Channels`: what they are called. -/
structure Channels where
  edge : Bytes
  sample : Bytes
  deriving DecidableEq, Repr

/-- `KeyStart`: the counter on each channel a key starts at. -/
structure KeyStart where
  edge : Nat
  sample : Nat
  deriving DecidableEq, Repr

/-- What a relay did with a frame, and what it handed to the client. -/
inductive Relaying
  | consumed
  | unsealed (error : StreamSealError)
  | publishes (lane : Lane) (counter : Nat) (coalesce sealed : Bytes)
  deriving DecidableEq, Repr

/-- `Relay`: one box's traffic. -/
structure Relay where
  publisher : Identity
  key : Bytes
  channels : Channels
  edgeCounter : Nat
  sampleCounter : Nat
  keyFrom : KeyStart

def Channels.name (channels : Channels) : Lane → Bytes
  | .edge => channels.edge
  | .sample => channels.sample

def KeyStart.at (start : KeyStart) : Lane → Nat
  | .edge => start.edge
  | .sample => start.sample

namespace Relay

/-- `Relay::new`. -/
def new (publisher : Identity) (key : Bytes) (channels : Channels) : Relay where
  publisher := publisher
  key := key
  channels := channels
  edgeCounter := 0
  sampleCounter := 0
  keyFrom := ⟨1, 1⟩

/-- The counter of a channel. -/
def counter (relay : Relay) : Lane → Nat
  | .edge => relay.edgeCounter
  | .sample => relay.sampleCounter

/-- `rotate`: seal everything from the next frame on under another key. -/
def rotate (relay : Relay) (key : Bytes) : Relay :=
  { relay with key := key, keyFrom := ⟨relay.edgeCounter + 1, relay.sampleCounter + 1⟩ }

/-- The channel that a frame goes on and the key that it coalesces under, if it is
relayed. -/
def lane? (frame : Bytes) : Option (Lane × Bytes) :=
  match routeBoxFrame frame with
  | .consume => none
  | .edge => some (.edge, [])
  | .sample coalesce => some (.sample, coalesce)

/-- One more frame counted on a channel. -/
def count (relay : Relay) : Lane → Relay
  | .edge => { relay with edgeCounter := relay.edgeCounter + 1 }
  | .sample => { relay with sampleCounter := relay.sampleCounter + 1 }

variable (primitives : StreamPrimitives)

/-- `seal`: a frame under the counter that its channel has come to. -/
def sealBatch (relay : Relay) (lane : Lane) (nonce frame : Bytes) :
    Except StreamSealError Bytes :=
  sealFrame primitives relay.publisher (relay.channels.name lane) relay.key
    (UInt64.ofNat (relay.counter lane)) nonce frame

/-- `Relay::frame`, with the nonce that is drawn: what it hands to the client, whatever
becomes of it. -/
def frame (relay : Relay) (nonce frame : Bytes) : Relay × Relaying :=
  match lane? frame with
  | none => (relay, .consumed)
  | some (lane, coalesce) =>
      let relay := relay.count lane
      match relay.sealBatch primitives lane nonce frame with
      | .error refusal => (relay, .unsealed refusal)
      | .ok sealed => (relay, .publishes lane (relay.counter lane) coalesce sealed)

end Relay

/-- The body that `wrap_key` signs for a device, with the nonce that it draws. -/
def wrapBody (primitives : StreamPrimitives) (publisher : Identity)
    (device channel key : Bytes) (fromCounter nowMs : Nat) (nonce : Bytes) : GrantBody where
  sentBy := primitives.principalId publisher.publicKey
  sentTo := device
  nonce := nonce
  timeMs := nowMs
  channel := channel
  keyId := primitives.streamKeyId key
  key := key
  fromCounter := fromCounter

/-- The body for a channel of those that `wrap_for` wraps: the relay's key, from where it
starts. -/
def Relay.wrapFor (primitives : StreamPrimitives) (relay : Relay) (device : Bytes)
    (lane : Lane) (nowMs : Nat) (nonce : Bytes) : GrantBody :=
  wrapBody primitives relay.publisher device (relay.channels.name lane) relay.key
    (relay.keyFrom.at lane) nowMs nonce

/-- What a device has when it has opened it. -/
def Relay.grant (primitives : StreamPrimitives) (relay : Relay) (lane : Lane) : Grant where
  publisher := primitives.principalId relay.publisher.publicKey
  publisherKey := relay.publisher.publicKey
  channel := relay.channels.name lane
  keyId := primitives.streamKeyId relay.key
  key := relay.key
  fromCounter := relay.keyFrom.at lane

/-- A device has this grant of a relay's current key on a channel: it is what `open_grant`
answers for what was wrapped for it at some moment, which the publisher's certified key had
signed. -/
def Relay.Granted (primitives : StreamPrimitives) (relay : Relay) (lane : Lane)
    (grant : Grant) : Prop :=
  ∃ receiver after sender sealed device wrappedMs nonce nowMs verified,
    Receiver.readGrant primitives.toSealPrimitives receiver sender sealed nowMs =
        .ok (verified, relay.wrapFor primitives device lane wrappedMs nonce) ∧
      verified.leafKey = relay.publisher.publicKey ∧
      Receiver.openGrant primitives.toSealPrimitives receiver sender sealed nowMs =
        .ok (after, .ok grant)

theorem openGrant_wrapFor {primitives : StreamPrimitives} {relay : Relay} {lane : Lane}
    {receiver after : Receiver} {sender sealed device nonce : Bytes} {wrappedMs nowMs : Nat}
    {verified : Verified} {grant : Grant}
    (read : receiver.readGrant primitives.toSealPrimitives sender sealed nowMs =
      .ok (verified, relay.wrapFor primitives device lane wrappedMs nonce))
    (certified : verified.leafKey = relay.publisher.publicKey)
    (opened : receiver.openGrant primitives.toSealPrimitives sender sealed nowMs =
      .ok (after, .ok grant)) :
    grant = relay.grant primitives lane := by
  simp only [Receiver.openGrant, read, Receiver.checkAddressing] at opened
  cases addressed : receiver.addressed sender
      (relay.wrapFor primitives device lane wrappedMs nonce).sentBy
      (relay.wrapFor primitives device lane wrappedMs nonce).sentTo
      (relay.wrapFor primitives device lane wrappedMs nonce).nonce
      (relay.wrapFor primitives device lane wrappedMs nonce).timeMs nowMs with
  | error refusal =>
      rw [addressed] at opened
      cases opened
  | ok _ =>
      rw [addressed] at opened
      simp only [Receiver.addressed, bind_eq_ok, ensure_eq_ok, exists_const] at addressed
      obtain ⟨sentBy, -⟩ := addressed
      obtain ⟨⟨next, answer⟩, -, returned⟩ := CheckedEvaluation.bind_eq_ok.mp opened
      cases answer with
      | error refusal => cases returned
      | ok _ =>
          cases returned
          rw [certified, ← sentBy]
          rfl

theorem Relay.Granted.eq {primitives : StreamPrimitives} {relay : Relay} {lane : Lane}
    {grant : Grant} (granted : relay.Granted primitives lane grant) :
    grant = relay.grant primitives lane := by
  obtain ⟨receiver, after, sender, sealed, device, wrappedMs, nonce, nowMs, verified, read,
    certified, opened⟩ := granted
  exact openGrant_wrapFor read certified opened

end WindowMlHub
