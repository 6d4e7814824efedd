import WindowMlHub.BigEndianBytes
import WindowMlHub.CertificateIssuing
import WindowMlHub.SealedCommands

/-!
# Published streams

A publisher seals each batch of a channel under a stream key and signs it together with a
header that says whose it is, on which channel, under which key and at which place.  A
reader holds keys that it was granted, each from some place on, and moves forward only.

The stream key is symmetric, so whoever holds it can encrypt.  What a reader opens is the
publisher's all the same: the header is read back unambiguously from what was signed,
and a ciphertext opens only under the key that it was made with.

Decoding, encryption, signatures and hashing come from libraries and are parameters.
-/

namespace WindowMlHub

open BigEndianBytes HashTables TextFormats
open CheckedEvaluation (Checked sub)

/-- `StreamFrame`. -/
structure StreamFrame where
  keyId : Bytes
  counter : UInt64
  nonce : Bytes
  ciphertext : Bytes
  signature : Bytes
  deriving DecidableEq, Repr

/-- The primitives of seals, with the coding of stream frames, authenticated encryption
(the key, the nonce, the associated data, the message) and a hash of 32 bytes. -/
structure StreamPrimitives extends SealPrimitives where
  encodeStreamFrame : StreamFrame → Bytes
  decodeStreamFrame : Bytes → Option StreamFrame
  encrypt : Bytes → Bytes → Bytes → Bytes → Option Bytes
  decrypt : Bytes → Bytes → Bytes → Bytes → Option Bytes
  digest_length : ∀ bytes, (digest bytes).length = 32

/-- `MAX_STREAM_FRAME_BYTES`. -/
def maxStreamFrameBytes : Nat := 2 ^ 20

/-- `FRAME_NONCE_BYTES`. -/
def frameNonceBytes : Nat := 12

/-- `STREAM_LABEL`. -/
def streamLabel : Bytes :=
  asciiBytes "wmlhub/stream/v1\x00".toList

/-- `header`: a frame's place in the world. -/
def streamHeader (publisher channel keyId : Bytes) (counter : UInt64) (nonce : Bytes) :
    Bytes :=
  publisher ++ bigEndian 2 (min channel.length 65535) ++ channel ++ keyId ++
    bigEndian 8 counter.toNat ++ nonce

/-- `SealError`, where it concerns a stream. -/
inductive StreamSealError
  | aead
  deriving DecidableEq, Repr

/-- `seal_frame`, with the nonce that it draws.  A stream key names itself. -/
def sealFrame (primitives : StreamPrimitives) (publisher : Identity) (channel key : Bytes)
    (counter : UInt64) (nonce batch : Bytes) : Except StreamSealError Bytes :=
  let keyId := primitives.streamKeyId key
  let header := streamHeader (primitives.principalId publisher.publicKey) channel keyId
    counter nonce
  match primitives.encrypt key nonce header batch with
  | none => .error .aead
  | some ciphertext =>
      let signature := publisher.sign (streamLabel ++ (header ++ ciphertext))
      .ok (primitives.encodeStreamFrame ⟨keyId, counter, nonce, ciphertext, signature⟩)

/-- `StreamError`. -/
inductive StreamError
  | tooLarge
  | malformed
  | unknownKey
  | signature
  | decrypt
  | outOfOrder (last counter : Nat)
  | beforeGrant (fromCounter counter : Nat)
  deriving DecidableEq, Repr

/-- `Published`: one batch, opened. -/
structure PublishedBatch where
  counter : Nat
  skipped : Nat
  batch : Bytes
  deriving DecidableEq, Repr

/-- One subscriber's view of one stream. -/
structure StreamReader where
  publisher : Bytes
  publisherKey : Bytes
  channel : Bytes
  /-- each granted key, with the first counter that the grant covers -/
  keys : HashMap Bytes (Bytes × Nat) := ∅
  last : Nat := 0

namespace StreamReader

/-- `add_key`. -/
def addKey (reader : StreamReader) (grant : Grant) : StreamReader × Bool :=
  if grant.publisher ≠ reader.publisher ∨ grant.channel ≠ reader.channel then
    (reader, false)
  else
    ({ reader with
        keys := reader.keys.insert grant.keyId (grant.key, grant.fromCounter) }, true)

/-- `StreamReader::new`. -/
def new (grant : Grant) : StreamReader :=
  (({ publisher := grant.publisher, publisherKey := grant.publisherKey,
      channel := grant.channel } : StreamReader).addKey grant).1

/-- `counter`. -/
def counter (reader : StreamReader) : Nat :=
  reader.last

section Opening

open CheckedConditions

variable (primitives : StreamPrimitives)

/-- The part of `open` before the reader moves: the counter of the frame and its batch. -/
def readFrame (reader : StreamReader) (bytes : Bytes) :
    Except StreamError (Nat × Bytes) := do
  ensure (bytes.length ≤ maxStreamFrameBytes) .tooLarge
  let frame ← require (primitives.decodeStreamFrame bytes) .malformed
  ensure (frame.keyId.length = keyIdBytes) .malformed
  ensure (frame.nonce.length = frameNonceBytes) .malformed
  let (key, fromCounter) ← require (reader.keys.lookup frame.keyId) .unknownKey
  let header := streamHeader reader.publisher reader.channel frame.keyId frame.counter
    frame.nonce
  ensure (primitives.verify reader.publisherKey streamLabel (header ++ frame.ciphertext)
    frame.signature) .signature
  ensure (fromCounter ≤ frame.counter.toNat)
    (.beforeGrant fromCounter frame.counter.toNat)
  ensure (reader.last < frame.counter.toNat)
    (.outOfOrder reader.last frame.counter.toNat)
  let batch ← require (primitives.decrypt key frame.nonce header frame.ciphertext) .decrypt
  return (frame.counter.toNat, batch)

/-- `open`: verify and decrypt one published frame. -/
def openFrame (reader : StreamReader) (bytes : Bytes) :
    Checked (StreamReader × Except StreamError PublishedBatch) :=
  match reader.readFrame primitives bytes with
  | .error refusal => .ok (reader, .error refusal)
  | .ok (counter, batch) => do
      let ahead ← sub counter reader.last
      let skipped ← sub ahead 1
      return ({ reader with last := counter }, .ok ⟨counter, skipped, batch⟩)

end Opening

end StreamReader

/-! ## Reading the header back -/

/-- A header in front of anything is read back unambiguously, if the channel is shorter
than its length field can say. -/
theorem streamHeader_inj {publisher publisher' channel channel' keyId keyId' nonce nonce'
    rest rest' : Bytes} {counter counter' : UInt64}
    (publishers : publisher.length = publisher'.length) (short : channel.length < 65535)
    (keyIds : keyId.length = keyId'.length) (nonces : nonce.length = nonce'.length)
    (same : streamHeader publisher channel keyId counter nonce ++ rest =
      streamHeader publisher' channel' keyId' counter' nonce' ++ rest') :
    channel = channel' ∧ keyId = keyId' ∧ counter = counter' ∧ nonce = nonce' ∧
      rest = rest' := by
  simp only [streamHeader, List.append_assoc] at same
  obtain ⟨-, fromLength⟩ := List.append_inj same publishers
  obtain ⟨lengths, fromChannel⟩ := List.append_inj fromLength (by simp)
  have channels : channel.length = channel'.length := by
    have := bigEndian_inj (by omega) (by omega) lengths
    omega
  obtain ⟨rfl, fromKeyId⟩ := List.append_inj fromChannel channels
  obtain ⟨rfl, fromCounter⟩ := List.append_inj fromKeyId keyIds
  obtain ⟨counters, fromNonce⟩ := List.append_inj fromCounter (by simp)
  obtain ⟨rfl, rfl⟩ := List.append_inj fromNonce nonces
  have fits (counter : UInt64) : counter.toNat < 256 ^ 8 := counter.toNat_lt
  exact ⟨rfl, rfl, UInt64.toNat_inj.mp (bigEndian_inj (fits _) (fits _) counters), rfl, rfl⟩

end WindowMlHub
