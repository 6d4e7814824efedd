import WindowMlHub.BoxEvents
import WindowMlHub.ProtobufLengths
import WindowMlHub.RelayHub
import WindowMlHub.StreamRestarts

/-!
# Room for a box's frame

A frame of a box is encrypted and signed, wrapped in an envelope and sent to the hub, and
a device opens what the hub delivers.  Four limits apply on the way, each with what the
step before it added.

The largest frame that is accepted from a box is as large as the largest frame of the hub's
protocol, so there is no room for what is added.  A frame is carried exactly when it and the
varint of its counter leave what the hub's payload limit has for the rest.
-/

namespace WindowMlHub

open ProtobufFields

/-! ## Exact lengths -/

theorem length_writeVarint_eq {value : Nat} (width : Nat) (reaches : 128 ^ width ≤ value)
    (fits : value < 128 ^ (width + 1)) : (writeVarint value).length = width + 1 := by
  induction width generalizing value with
  | zero => rw [writeVarint_small (by simpa using fits)]; rfl
  | succ width ih =>
      have large : ¬ value < 0x80 := by
        have : 128 ^ 1 ≤ 128 ^ (width + 1) := Nat.pow_le_pow_right (by decide) (by omega)
        omega
      rw [writeVarint, if_neg large, List.length_cons]
      have shifted : value >>> 7 = value / 128 := Nat.shiftRight_eq_div_pow value 7
      rw [shifted, ih]
      · rw [Nat.le_div_iff_mul_le (by decide), ← pow_succ]
        exact reaches
      · rw [Nat.div_lt_iff_lt_mul (by decide), ← pow_succ]
        exact fits

/-- The encoder's varints are as long as is counted. -/
theorem length_writeVarint {value : Nat} (fits : value < 2 ^ 64) :
    (writeVarint value).length = Protobuf.varint value := by
  unfold Protobuf.varint
  split
  · exact (congrArg List.length (writeVarint_small (by omega))).trans rfl
  split
  · exact length_writeVarint_eq 1 (by omega) (by omega)
  split
  · exact length_writeVarint_eq 2 (by omega) (by omega)
  split
  · exact length_writeVarint_eq 3 (by omega) (by omega)
  split
  · exact length_writeVarint_eq 4 (by omega) (by omega)
  split
  · exact length_writeVarint_eq 5 (by omega) (by omega)
  split
  · exact length_writeVarint_eq 6 (by omega) (by omega)
  split
  · exact length_writeVarint_eq 7 (by omega) (by omega)
  split
  · exact length_writeVarint_eq 8 (by omega) (by omega)
  · exact length_writeVarint_eq 9 (by omega) (by omega)

theorem length_bytesField {tag : Nat} {content : Bytes} (small : tag < 16)
    (present : content ≠ []) (fits : content.length < 2 ^ 64) :
    (writeFields varints (bytesField tag content)).length =
      1 + Protobuf.varint content.length + content.length := by
  have key : (writeVarint (8 * tag + 2)).length = 1 := by
    rw [writeVarint_small (by omega)]
    rfl
  have counted := length_writeVarint fits
  simp only [bytesField, present, if_false, writeFields_cons, writeFields_nil, Field.write,
    varints, List.length_append, List.length_nil]
  omega

theorem length_numberField {tag number : Nat} (small : tag < 16) (present : number ≠ 0)
    (fits : number < 2 ^ 64) :
    (writeFields varints (numberField tag number)).length = 1 + Protobuf.varint number := by
  have key : (writeVarint (8 * tag)).length = 1 := by
    rw [writeVarint_small (by omega)]
    rfl
  have counted := length_writeVarint fits
  simp only [numberField, present, if_false, writeFields_cons, writeFields_nil, Field.write,
    varints, List.length_append, List.length_nil]
  omega

theorem varint_le_three {value : Nat} (fits : value < 2 ^ 21) : Protobuf.varint value ≤ 3 := by
  simp only [Protobuf.varint, fits, if_true]
  split
  · omega
  split <;> omega

theorem varint_eq_three {value : Nat} (reaches : 2 ^ 14 ≤ value) (fits : value < 2 ^ 21) :
    Protobuf.varint value = 3 := by
  simp only [Protobuf.varint, fits, if_true]
  split
  · omega
  split <;> omega

/-! ## What a frame meets -/

/-- AES-256-GCM, by its sizes: what is not too long is encrypted, and a tag of sixteen
bytes is added. -/
def StreamPrimitives.SizesAead (primitives : StreamPrimitives) : Prop :=
  ∀ key nonce header batch : Bytes, key.length = 32 → nonce.length = frameNonceBytes →
    header.length < 2 ^ 36 → batch.length < 2 ^ 36 - 32 →
      ∃ ciphertext, primitives.encrypt key nonce header batch = some ciphertext ∧
        ciphertext.length = batch.length + 16

/-- The kind of envelope that a channel carries. -/
def Lane.kind : Lane → Kind
  | .edge => .sessionEvents
  | .sample => .telemetry

/-- The envelope that `publish_coalesced` puts a sealed frame in. -/
def Relay.envelope (relay : Relay) (lane : Lane) (coalesce sealed : Bytes) : Envelope where
  sentTo := some (.channel (relay.channels.name lane))
  kind := lane.kind.toInt
  coalesce := coalesce
  payload := sealed

/-- `encoded_len` of a frame. -/
def Frame.encodedLength (frame : Frame) : Nat :=
  (frame.body.map Protobuf.body).getD 0

/-- `max_frame` of a client that was told these limits. -/
def clientMaxFrame (announced : AnnouncedLimits) : Nat :=
  max announced.maxFrameBytes (2 ^ 16)

/-- What becomes of a frame that a relay was given: it cannot be sealed, the client does
not send it, the hub closes the connection over it, or it is carried.  `run` returns in
every case but the last. -/
inductive FrameFate
  | unsealed
  | refused
  | closed
  | carried
  deriving DecidableEq, Repr

/-- What becomes of it under these limits of the hub. -/
def Relaying.fate (limits : Limits) (relay : Relay) : Relaying → FrameFate
  | .consumed => .carried
  | .unsealed _ => .unsealed
  | .publishes lane _ coalesce sealed =>
      let envelope := relay.envelope lane coalesce sealed
      if clientMaxFrame limits.announce <
          (Frame.of (.envelope envelope)).encodedLength then .refused
      else if limits.maxPayloadBytes < envelope.payload.length ∨
          limits.maxCoalesceBytes < envelope.coalesce.length then .closed
      else .carried

theorem onEnvelope_closes [Codec] {order : HashOrder} {hub : Hub} {account : AccountId}
    {conn : ConnId} {envelope : Envelope} {fx : Effects}
    (large : hub.limits.maxPayloadBytes < envelope.payload.length ∨
      hub.limits.maxCoalesceBytes < envelope.coalesce.length) :
    ∃ message, hub.onEnvelope order account conn envelope fx =
      .ok (hub, fx.closing conn (errorFrame .limit envelope.ref message)) := by
  unfold Hub.onEnvelope
  by_cases payload : envelope.payload.length > hub.limits.maxPayloadBytes
  · exact ⟨_, if_pos payload⟩
  · have coalesce : envelope.coalesce.length > hub.limits.maxCoalesceBytes :=
      large.resolve_left payload
    exact ⟨_, by rw [if_neg payload, if_pos coalesce]⟩

/-- The sealed frame fits the payload of an envelope, the envelope the hub's frames, and
itself what a device reads; and the connector goes on. -/
structure Relaying.Carried (limits : Limits) (relay : Relay) (lane : Lane)
    (coalesce sealed : Bytes) (relaying : Relaying) : Prop where
  payload : sealed.length ≤ limits.maxPayloadBytes
  frame : (Frame.of (.envelope (relay.envelope lane coalesce sealed))).encodedLength ≤
    limits.maxFrameBytes
  stream : sealed.length ≤ maxStreamFrameBytes
  goesOn : relaying.fate limits relay = .carried

/-! ## How long a sealed frame is -/

section Sealed

variable {primitives : StreamPrimitives} {relay : Relay} {lane : Lane} {nonce frame : Bytes}

/-- Everything but the frame and the two numbers takes the same room in every frame. -/
theorem sealBatch_length (encodes : primitives.encodeStreamFrame = StreamFrame.encode)
    (sizes : primitives.SizesAead) (isKey : relay.key.length = 32)
    (signatures : ∀ message, (relay.publisher.sign message).length = 64)
    (channel : (relay.channels.name lane).length = 16) (started : 0 < relay.counter lane)
    (counted : relay.counter lane < 2 ^ 64) (isNonce : nonce.length = frameNonceBytes)
    (small : frame.length ≤ maxBoxFrameBytes) :
    ∃ sealed, relay.sealBatch primitives lane nonce frame = .ok sealed ∧
      sealed.length = frame.length + Protobuf.varint (relay.counter lane) +
        Protobuf.varint (frame.length + 16) + 108 := by
  have fits : frame.length ≤ 2 ^ 20 := small
  have keyId := primitives.length_streamKeyId relay.key
  have header : (streamHeader (primitives.principalId relay.publisher.publicKey)
      (relay.channels.name lane) (primitives.streamKeyId relay.key)
      (UInt64.ofNat (relay.counter lane)) nonce).length = 78 := by
    simp [streamHeader, primitives.length_principalId, keyId, channel, isNonce, keyIdBytes,
      frameNonceBytes]
  obtain ⟨ciphertext, encrypted, length⟩ := sizes relay.key nonce _ frame isKey isNonce
    (by rw [header]; decide) (by omega)
  have isCounter : (UInt64.ofNat (relay.counter lane)).toNat = relay.counter lane :=
    UInt64.toNat_ofNat_of_lt' counted
  have present {content : Bytes} {count : Nat} (isLength : content.length = count + 1) :
      content ≠ [] := by
    rintro rfl
    simp at isLength
  have signature := signatures (streamLabel ++ (streamHeader
    (primitives.principalId relay.publisher.publicKey) (relay.channels.name lane)
    (primitives.streamKeyId relay.key) (UInt64.ofNat (relay.counter lane)) nonce ++
      ciphertext))
  have isSealed : relay.sealBatch primitives lane nonce frame =
      .ok (primitives.encodeStreamFrame ⟨primitives.streamKeyId relay.key,
        UInt64.ofNat (relay.counter lane), nonce, ciphertext,
        relay.publisher.sign (streamLabel ++ (streamHeader
          (primitives.principalId relay.publisher.publicKey) (relay.channels.name lane)
          (primitives.streamKeyId relay.key) (UInt64.ofNat (relay.counter lane)) nonce ++
            ciphertext))⟩) := by
    simp only [Relay.sealBatch, sealFrame, encrypted]
  refine ⟨_, isSealed, ?_⟩
  rw [encodes, StreamFrame.encode, StreamFrame.fields]
  simp only [writeFields_append, List.length_append, isCounter]
  rw [length_bytesField (by decide) (present keyId) (by rw [keyId]; decide),
    length_numberField (by decide) (by omega) counted,
    length_bytesField (by decide) (present isNonce) (by rw [isNonce]; decide),
    length_bytesField (by decide) (present length) (by omega),
    length_bytesField (by decide) (present signature) (by rw [signature]; decide),
    keyId, isNonce, signature, length]
  have eight : Protobuf.varint keyIdBytes = 1 := rfl
  have twelve : Protobuf.varint frameNonceBytes = 1 := rfl
  have sixtyFour : Protobuf.varint 64 = 1 := rfl
  rw [eight, twelve, sixtyFour, keyIdBytes, frameNonceBytes]
  omega

theorem coalesce_of_route {read : BoxRead} {coalesce : Bytes}
    (sampled : read.route = .sample coalesce) : coalesce.length ≤ 1 := by
  unfold BoxRead.route at sampled
  split at sampled
  · cases sampled
  split at sampled
  · cases sampled
  split at sampled
  · obtain rfl := BoxRoute.sample.inj sampled
    decide
  split at sampled
  · obtain rfl := BoxRoute.sample.inj sampled
    split <;> decide
  · cases sampled

theorem coalesce_short {coalesce : Bytes}
    (routed : Relay.lane? frame = some (lane, coalesce)) : coalesce.length ≤ 1 := by
  unfold Relay.lane? at routed
  cases route : routeBoxFrame frame with
  | consume => simp [route] at routed
  | edge =>
      simp only [route, Option.some.injEq, Prod.mk.injEq] at routed
      obtain ⟨-, rfl⟩ := routed
      exact Nat.zero_le _
  | sample found =>
      simp only [route, Option.some.injEq, Prod.mk.injEq] at routed
      obtain ⟨-, rfl⟩ := routed
      exact coalesce_of_route route

/-- An envelope whose payload is within the limit is within the limit of frames. -/
theorem envelope_length_le {coalesce sealed : Bytes}
    (channel : (relay.channels.name lane).length = 16) (short : coalesce.length ≤ 1)
    (payload : sealed.length ≤ 1047552) :
    (Frame.of (.envelope (relay.envelope lane coalesce sealed))).encodedLength ≤ 1048576 := by
  have counted := @varint_le_three sealed.length (by omega)
  have payloadLe : Protobuf.bytes sealed ≤ 4 + sealed.length := by
    unfold Protobuf.bytes Protobuf.delimited
    split <;> omega
  have coalesceLe : Protobuf.bytes coalesce ≤ 3 := by
    have one : Protobuf.varint coalesce.length ≤ 1 := by
      unfold Protobuf.varint
      split <;> omega
    unfold Protobuf.bytes Protobuf.delimited
    split <;> omega
  have kindLe : Protobuf.enum lane.kind.toInt ≤ 2 := by
    cases lane <;> decide
  have inner : Protobuf.envelope (relay.envelope lane coalesce sealed) ≤ 1047600 := by
    have sixteen : Protobuf.varint 16 = 1 := rfl
    simp only [Protobuf.envelope, Relay.envelope, Option.map_some, Option.getD_some,
      Protobuf.sentTo, Protobuf.delimited, channel, sixteen]
    have nothing : Protobuf.bytes [] = 0 := rfl
    have zero : Protobuf.uint 0 = 0 := rfl
    rw [nothing, zero]
    omega
  have outer := @varint_le_three (Protobuf.envelope (relay.envelope lane coalesce sealed))
    (by omega)
  simp only [Frame.encodedLength, Frame.of, Option.map_some, Option.getD_some, Protobuf.body,
    Protobuf.delimited]
  omega

/-- A frame is carried when what is sealed is within the payload limit. -/
theorem carried_iff_payload {coalesce sealed : Bytes} {counter : Nat}
    (channel : (relay.channels.name lane).length = 16) (short : coalesce.length ≤ 1) :
    (Relaying.publishes lane counter coalesce sealed).Carried {} relay lane coalesce sealed ↔
      sealed.length ≤ 1047552 := by
  constructor
  · exact fun carried => carried.payload
  · intro payload
    have frameLe := @envelope_length_le relay lane _ _ channel short payload
    have atMost : sealed.length ≤ maxStreamFrameBytes := by
      unfold maxStreamFrameBytes
      omega
    have announced : clientMaxFrame (Limits.announce {}) = 1048576 := by
      simp [clientMaxFrame, Limits.announce, Limits.clampU32]
    have payloadLimit : ({} : Limits).maxPayloadBytes = 1047552 := rfl
    have coalesceLimit : ({} : Limits).maxCoalesceBytes = 16 := rfl
    have sent : ¬ clientMaxFrame (Limits.announce {}) <
        (Frame.of (.envelope (relay.envelope lane coalesce sealed))).encodedLength := by
      rw [announced]
      omega
    have kept : ¬ (({} : Limits).maxPayloadBytes <
          (relay.envelope lane coalesce sealed).payload.length ∨
        ({} : Limits).maxCoalesceBytes <
          (relay.envelope lane coalesce sealed).coalesce.length) := by
      rw [payloadLimit, coalesceLimit]
      simp only [Relay.envelope]
      omega
    exact ⟨payload, frameLe, atMost, by simp only [Relaying.fate, if_neg sent, if_neg kept]⟩

end Sealed

/-- A frame of a box is carried to the devices, under the limits that a hub has by default,
exactly when it and the varint of its counter are at most this long. -/
theorem box_frame_carried_iff (primitives : StreamPrimitives)
    (encodes : primitives.encodeStreamFrame = StreamFrame.encode)
    (sizes : primitives.SizesAead) (relay : Relay) (isKey : relay.key.length = 32)
    (signatures : ∀ message, (relay.publisher.sign message).length = 64)
    (nonce : { nonce : Bytes // nonce.length = frameNonceBytes }) (frame : Bytes)
    (accepted : frame.length ≤ maxBoxFrameBytes) {lane : Lane} {coalesce : Bytes}
    (routed : Relay.lane? frame = some (lane, coalesce))
    (channel : (relay.channels.name lane).length = 16)
    (counted : relay.counter lane + 1 < 2 ^ 64) :
    ∃ sealed, (relay.frame primitives nonce.val frame).2 =
        .publishes lane (relay.counter lane + 1) coalesce sealed ∧
      ((relay.frame primitives nonce.val frame).2.Carried {} relay lane coalesce sealed ↔
        frame.length + Protobuf.varint (relay.counter lane + 1) ≤ 1047441) := by
  have isCounter : (relay.count lane).counter lane = relay.counter lane + 1 := by
    simp [Relay.counter_count]
  obtain ⟨sealed, isSealed, length⟩ := @sealBatch_length primitives (relay.count lane) lane
    nonce.val frame encodes sizes (by cases lane <;> exact isKey)
    (by cases lane <;> exact signatures) (by cases lane <;> exact channel)
    (by omega) (by omega) nonce.property accepted
  have publishes : (relay.frame primitives nonce.val frame).2 =
      .publishes lane (relay.counter lane + 1) coalesce sealed := by
    simp only [Relay.frame, routed, isSealed, isCounter]
  refine ⟨sealed, publishes, ?_⟩
  rw [publishes, carried_iff_payload channel (coalesce_short routed), length, isCounter]
  have fits : frame.length ≤ 2 ^ 20 := accepted
  have atMostTen := Protobuf.varint_le (relay.counter lane + 1)
  have atMostThree := @varint_le_three (frame.length + 16) (by omega)
  constructor
  · intro payload
    by_cases long : 2 ^ 14 ≤ frame.length + 16
    · have three := varint_eq_three long (by omega)
      omega
    · omega
  · omega

/-! ## The largest frame -/

/-- A cipher that adds sixteen bytes of the key. -/
def tagPrimitives : StreamPrimitives where
  toSealPrimitives := restartPrimitives.toSealPrimitives
  encodeStreamFrame := StreamFrame.encode
  decodeStreamFrame := decodeStreamFrameBytes
  encrypt key _ _ batch := some (key.take 16 ++ batch)
  decrypt _ _ _ ciphertext := some (ciphertext.drop 16)
  digest_length := restartPrimitives.digest_length

theorem tagPrimitives_sizes : tagPrimitives.SizesAead := by
  intro key nonce header batch isKey _ _ _
  refine ⟨key.take 16 ++ batch, rfl, ?_⟩
  simp [isKey]
  omega

/-- The relay of a connector that has relayed nothing. -/
def freshRelay : Relay :=
  .new (identityOf 1) (List.replicate 32 7) ⟨List.replicate 16 5, List.replicate 16 6⟩

theorem unreadable_routed (rest : Bytes) : Relay.lane? (7 :: rest) = some (.edge, []) := by
  have key : BoxRead.varint (7 :: rest) = some (7, rest) := rfl
  have unreadable : readBoxFrame (7 :: rest) = BoxRead.unreadable {} := by
    rw [readBoxFrame, List.length_cons, BoxRead.tags, key]
    rfl
  rw [Relay.lane?, routeBoxFrame, unreadable]
  rfl

/-- An unreadable frame of so many bytes and one more. -/
def unreadableFrame (more : Nat) : Bytes :=
  7 :: List.replicate more 0

theorem unreadable_not_carried {more : Nat} (accepted : more + 1 ≤ maxBoxFrameBytes)
    (long : 1047440 < more) :
    ∃ sealed, (freshRelay.frame tagPrimitives loneSealing.nonce (unreadableFrame more)).2 =
        .publishes .edge 1 [] sealed ∧
      ¬ (freshRelay.frame tagPrimitives loneSealing.nonce (unreadableFrame more)).2.Carried {}
        freshRelay .edge [] sealed := by
  have isLength : (unreadableFrame more).length = more + 1 := by
    rw [unreadableFrame, List.length_cons, List.length_replicate]
  have routed : Relay.lane? (unreadableFrame more) = some (.edge, []) := unreadable_routed _
  obtain ⟨sealed, isSealed, length⟩ := @sealBatch_length tagPrimitives (freshRelay.count .edge)
    .edge loneSealing.nonce (unreadableFrame more) rfl tagPrimitives_sizes rfl (fun _ => rfl) rfl
    (by decide) (by decide) loneSealing.nonce_length (by rw [isLength]; exact accepted)
  have publishes : (freshRelay.frame tagPrimitives loneSealing.nonce
      (unreadableFrame more)).2 = .publishes .edge 1 [] sealed := by
    simp only [Relay.frame, routed, isSealed]
    rfl
  refine ⟨sealed, publishes, fun carried => ?_⟩
  have payload := carried.payload
  have limit : ({} : Limits).maxPayloadBytes = 1047552 := rfl
  have fits : more + 1 ≤ 2 ^ 20 := accepted
  have one : Protobuf.varint ((freshRelay.count .edge).counter .edge) = 1 := rfl
  have three := @varint_eq_three (more + 1 + 16) (by omega) (by omega)
  rw [isLength, one, three] at length
  omega

/-- The largest frame that is accepted from a box stops the connector. -/
theorem largest_frame_not_carried :
    (unreadableFrame (2 ^ 20 - 1)).length = maxBoxFrameBytes ∧
      ∃ sealed, (freshRelay.frame tagPrimitives loneSealing.nonce
          (unreadableFrame (2 ^ 20 - 1))).2 = .publishes .edge 1 [] sealed ∧
        ¬ (freshRelay.frame tagPrimitives loneSealing.nonce
          (unreadableFrame (2 ^ 20 - 1))).2.Carried {} freshRelay .edge [] sealed := by
  have isLength (more : Nat) : (unreadableFrame more).length = more + 1 := by
    rw [unreadableFrame, List.length_cons, List.length_replicate]
  refine ⟨(isLength _).trans ?_, unreadable_not_carried ?_ ?_⟩
  · unfold maxBoxFrameBytes
    omega
  · unfold maxBoxFrameBytes
    omega
  · omega

/-- The largest first frame that is carried. -/
theorem box_frame_carried_iff_edge :
    ∃ sealed, (freshRelay.frame tagPrimitives loneSealing.nonce
        (unreadableFrame 1047439)).2 =
          .publishes .edge (freshRelay.counter .edge + 1) [] sealed ∧
      (freshRelay.frame tagPrimitives loneSealing.nonce (unreadableFrame 1047439)).2.Carried {}
        freshRelay .edge [] sealed := by
  have isLength : (unreadableFrame 1047439).length = 1047440 := by
    rw [unreadableFrame, List.length_cons, List.length_replicate]
  have one : Protobuf.varint (freshRelay.counter .edge + 1) = 1 := rfl
  obtain ⟨sealed, publishes, carried⟩ := box_frame_carried_iff tagPrimitives rfl
    tagPrimitives_sizes freshRelay rfl (fun _ => rfl)
    ⟨loneSealing.nonce, loneSealing.nonce_length⟩ (unreadableFrame 1047439)
    (by rw [isLength]; unfold maxBoxFrameBytes; omega) (unreadable_routed _) rfl (by decide)
  exact ⟨sealed, publishes, carried.mpr (by omega)⟩

end WindowMlHub
