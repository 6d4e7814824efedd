import WindowMlHub.PublishedStreams
import WindowMlHub.ReplayProtection

/-!
# What a stream reader opens

A reader takes grants and opens byte strings in any order, whoever they come from.
Every batch that it accepts is one that the publisher sealed for its channel under a key
that it holds, the counters that it accepts go up, and it accounts for every counter that
it passed over.

What carries the proof is that a signed header says one thing only
(`streamHeader_inj`): the signature is the publisher's, so the channel, the key, the
counter and the nonce are those that the publisher sealed under, and an ideal cipher then
opens to nothing but the batch.
-/

namespace WindowMlHub

open CheckedConditions HashTables
open CheckedEvaluation (Checked sub)

/-- What a publisher passed to `seal_frame`, with the nonce that was drawn. -/
structure Sealing where
  channel : Bytes
  key : Bytes
  counter : UInt64
  nonce : Bytes
  batch : Bytes
  nonce_length : nonce.length = frameNonceBytes

namespace StreamPrimitives

variable (primitives : StreamPrimitives)

/-- The header that the holder of a key puts on what it seals. -/
def headerOf (publisherKey : Bytes) (sealing : Sealing) : Bytes :=
  streamHeader (primitives.principalId publisherKey) sealing.channel
    (primitives.streamKeyId sealing.key) sealing.counter sealing.nonce

/-- What the holder of a key signs when it seals this. -/
def Signs (publisherKey : Bytes) (sealing : Sealing) (message : Bytes) : Prop :=
  ∃ ciphertext, primitives.encrypt sealing.key sealing.nonce
      (primitives.headerOf publisherKey sealing) sealing.batch = some ciphertext ∧
    message = primitives.headerOf publisherKey sealing ++ ciphertext

/-- The holder of the key signs under the label of streams only what it seals. -/
def PublishesOnly (signed : Signings) (publisherKey : Bytes) (sealings : Sealing → Prop) :
    Prop :=
  ∀ message, signed publisherKey streamLabel message →
    ∃ sealing, sealings sealing ∧ primitives.Signs publisherKey sealing message

/-- Ideal authenticated encryption: a ciphertext opens to what was encrypted, and it
opens under no other key than the one that made it. -/
structure IdealAead : Prop where
  opens : ∀ key nonce header batch ciphertext,
    primitives.encrypt key nonce header batch = some ciphertext →
      primitives.decrypt key nonce header ciphertext = some batch
  only : ∀ key other nonce header batch opened ciphertext,
    primitives.encrypt key nonce header batch = some ciphertext →
      primitives.decrypt other nonce header ciphertext = some opened → other = key

theorem length_streamKeyId (key : Bytes) :
    (primitives.streamKeyId key).length = keyIdBytes := by
  simp [SealPrimitives.streamKeyId, primitives.digest_length, keyIdBytes]

theorem length_principalId (key : Bytes) : (primitives.principalId key).length = 32 :=
  primitives.digest_length key

end StreamPrimitives

/-- The grant was verified and opened by some recipient of commands. -/
def Grant.IsOpened (primitives : SealPrimitives) (grant : Grant) : Prop :=
  ∃ receiver after sender sealed nowMs,
    Receiver.openGrant primitives receiver sender sealed nowMs = .ok (after, .ok grant)

section Granted

variable {primitives : SealPrimitives} {grant : Grant}

theorem Grant.IsOpened.sizes (opened : grant.IsOpened primitives) :
    grant.publisher.length = 32 ∧ grant.channel.length ≤ maxChannelBytes := by
  obtain ⟨receiver, after, sender, sealed, nowMs, ran⟩ := opened
  unfold Receiver.openGrant at ran
  split at ran
  · cases ran
  · rename_i verified body read
    simp only [Receiver.readGrant, bind_eq_ok, ensure_eq_ok, require_eq_ok,
      pure_eq_ok_iff, exists_const] at read
    obtain ⟨sender32, _, -, _, -, _, -, -, _, -, -, -, ⟨-, short⟩, -, same⟩ := read
    obtain ⟨⟨next, answer⟩, -, returned⟩ := CheckedEvaluation.bind_eq_ok.mp ran
    cases answer with
    | error refusal => cases returned
    | ok nonce =>
        cases returned
        cases same
        exact ⟨sender32, short⟩

end Granted

/-- A call on a reader: take a key, or open what the hub delivered. -/
inductive ReaderCall
  | addKey (grant : Grant)
  | openFrame (bytes : Bytes)
  deriving DecidableEq, Repr

/-- What a call returned. -/
inductive ReaderAnswer
  | took (added : Bool)
  | opened (answer : Except StreamError PublishedBatch)
  deriving DecidableEq, Repr

/-- The batch that was accepted, if one was. -/
def ReaderAnswer.batch? : ReaderAnswer → Option PublishedBatch
  | opened (.ok batch) => some batch
  | _ => none

/-- A call, the reader before and after it, and what it returned. -/
structure ReaderStep where
  call : ReaderCall
  before : StreamReader
  answer : ReaderAnswer
  after : StreamReader

namespace StreamReader

variable (primitives : StreamPrimitives)

/-- Make a call. -/
def perform (reader : StreamReader) : ReaderCall → Checked (StreamReader × ReaderAnswer)
  | .addKey grant =>
      let (after, added) := reader.addKey grant
      .ok (after, .took added)
  | .openFrame bytes => do
      let (after, answer) ← reader.openFrame primitives bytes
      return (after, .opened answer)

/-- One call after another. -/
def run (reader : StreamReader) :
    List ReaderCall → Checked (List ReaderStep × StreamReader)
  | [] => .ok ([], reader)
  | call :: rest => do
      let (after, answer) ← reader.perform primitives call
      let (steps, final) ← after.run rest
      return (⟨call, reader, answer, after⟩ :: steps, final)

/-- The reader is for the stream of this grant. -/
structure ReadsFor (grant : Grant) (reader : StreamReader) : Prop where
  publisher_eq : reader.publisher = grant.publisher
  publisherKey_eq : reader.publisherKey = grant.publisherKey
  channel_eq : reader.channel = grant.channel

/-- What a call does: it takes a key or not, it refuses and changes nothing, or it reads a
frame ahead of the reader and moves there. -/
inductive Performed (reader : StreamReader) :
    ReaderCall → StreamReader → ReaderAnswer → Prop
  | took (grant : Grant) :
      Performed reader (.addKey grant) (reader.addKey grant).1
        (.took (reader.addKey grant).2)
  | refused (bytes : Bytes) (refusal : StreamError) :
      Performed reader (.openFrame bytes) reader (.opened (.error refusal))
  | read (bytes : Bytes) (counter : Nat) (batch : Bytes)
      (ahead : reader.last < counter)
      (isRead : reader.readFrame primitives bytes = .ok (counter, batch)) :
      Performed reader (.openFrame bytes) { reader with last := counter }
        (.opened (.ok ⟨counter, counter - reader.last - 1, batch⟩))

variable {primitives} {reader after : StreamReader} {grant : Grant} {call : ReaderCall}
  {answer : ReaderAnswer}

theorem new_readsFor (grant : Grant) : (StreamReader.new grant).ReadsFor grant := by
  simp only [new, addKey]
  split <;> exact ⟨rfl, rfl, rfl⟩

@[simp]
theorem last_addKey (reader : StreamReader) (grant : Grant) :
    (reader.addKey grant).1.last = reader.last := by
  unfold addKey
  split <;> rfl

theorem last_new (grant : Grant) : (StreamReader.new grant).last = 0 := by
  simp [new]

theorem addKey_readsFor (readsFor : reader.ReadsFor grant) (other : Grant) :
    (reader.addKey other).1.ReadsFor grant := by
  unfold addKey
  split
  · exact readsFor
  · exact ⟨readsFor.publisher_eq, readsFor.publisherKey_eq, readsFor.channel_eq⟩

theorem Performed.readsFor (performed : reader.Performed primitives call after answer)
    (readsFor : reader.ReadsFor grant) : after.ReadsFor grant := by
  cases performed with
  | took other => exact addKey_readsFor readsFor other
  | refused bytes refusal => exact readsFor
  | read bytes counter batch ahead isRead =>
      exact ⟨readsFor.publisher_eq, readsFor.publisherKey_eq, readsFor.channel_eq⟩

/-- What a reader checks about a frame. -/
structure Reads (primitives : StreamPrimitives) (reader : StreamReader) (bytes : Bytes)
    (frame : StreamFrame) (key : Bytes) (fromCounter : Nat) (batch : Bytes) : Prop where
  small : bytes.length ≤ maxStreamFrameBytes
  decodes : primitives.decodeStreamFrame bytes = some frame
  keyId_length : frame.keyId.length = keyIdBytes
  nonce_length : frame.nonce.length = frameNonceBytes
  held : reader.keys.lookup frame.keyId = some (key, fromCounter)
  genuine : primitives.verify reader.publisherKey streamLabel
    (streamHeader reader.publisher reader.channel frame.keyId frame.counter frame.nonce
      ++ frame.ciphertext) frame.signature = true
  granted : fromCounter ≤ frame.counter.toNat
  ahead : reader.last < frame.counter.toNat
  opens : primitives.decrypt key frame.nonce
    (streamHeader reader.publisher reader.channel frame.keyId frame.counter frame.nonce)
    frame.ciphertext = some batch

theorem readFrame_eq_ok_iff {bytes batch : Bytes} {counter : Nat} :
    reader.readFrame primitives bytes = .ok (counter, batch) ↔
      ∃ frame key fromCounter, frame.counter.toNat = counter ∧
        Reads primitives reader bytes frame key fromCounter batch := by
  simp only [readFrame, bind_eq_ok, ensure_eq_ok, require_eq_ok, pure_eq_ok_iff,
    exists_const]
  constructor
  · rintro ⟨small, frame, decodes, keyId, nonce, ⟨key, fromCounter⟩, held, genuine, granted,
      ahead, opened, opens, same⟩
    obtain ⟨isCounter, rfl⟩ := Prod.mk.inj same
    exact ⟨frame, key, fromCounter, isCounter,
      ⟨small, decodes, keyId, nonce, held, genuine, granted, ahead, opens⟩⟩
  · rintro ⟨frame, key, fromCounter, rfl, reads⟩
    exact ⟨reads.small, frame, reads.decodes, reads.keyId_length, reads.nonce_length,
      (key, fromCounter), reads.held, reads.genuine, reads.granted, reads.ahead, batch,
      reads.opens, rfl⟩

/-- Opening does not panic: a frame is behind the reader or the distance is positive. -/
theorem openFrame_spec (primitives : StreamPrimitives) (reader : StreamReader)
    (bytes : Bytes) :
    ∃ after answer, reader.openFrame primitives bytes = .ok (after, answer) ∧
      ((∃ refusal, reader.readFrame primitives bytes = .error refusal ∧ after = reader ∧
          answer = .error refusal) ∨
        ∃ counter batch, reader.readFrame primitives bytes = .ok (counter, batch) ∧
          reader.last < counter ∧ after = { reader with last := counter } ∧
          answer = .ok ⟨counter, counter - reader.last - 1, batch⟩) := by
  unfold openFrame
  cases isRead : reader.readFrame primitives bytes with
  | error refusal => exact ⟨reader, .error refusal, rfl, .inl ⟨refusal, rfl, rfl, rfl⟩⟩
  | ok found =>
      obtain ⟨counter, batch⟩ := found
      obtain ⟨frame, key, fromCounter, rfl, reads⟩ := readFrame_eq_ok_iff.mp isRead
      have ahead := reads.ahead
      have first : sub frame.counter.toNat reader.last =
          .ok (frame.counter.toNat - reader.last) :=
        CheckedEvaluation.sub_of_le ahead.le
      have second : sub (frame.counter.toNat - reader.last) 1 =
          .ok (frame.counter.toNat - reader.last - 1) :=
        CheckedEvaluation.sub_of_le (by omega)
      refine ⟨_, _, ?_, .inr ⟨frame.counter.toNat, batch, rfl, ahead, rfl, rfl⟩⟩
      simp [first, second]

theorem perform_spec (primitives : StreamPrimitives) (reader : StreamReader)
    (call : ReaderCall) :
    ∃ after answer, reader.perform primitives call = .ok (after, answer) ∧
      reader.Performed primitives call after answer := by
  cases call with
  | addKey grant => exact ⟨_, _, rfl, .took grant⟩
  | openFrame bytes =>
      obtain ⟨after, answer, ran, outcome⟩ := openFrame_spec primitives reader bytes
      refine ⟨after, .opened answer, ?_, ?_⟩
      · simp [perform, ran]
      · rcases outcome with ⟨refusal, -, rfl, rfl⟩ | ⟨counter, batch, isRead, ahead, rfl, rfl⟩
        · exact .refused bytes refusal
        · exact .read bytes counter batch ahead isRead

end StreamReader

/-! ## Runs -/

/-- The frame in these bytes carries what the publisher sealed: on the channel of the
grant, under a key that the reader holds by that key's name, from a counter on that the
frame has reached. -/
structure OpensSealing (primitives : StreamPrimitives) (grant : Grant)
    (reader : StreamReader) (bytes : Bytes) (batch : PublishedBatch) (frame : StreamFrame)
    (sealing : Sealing) (fromCounter : Nat) : Prop where
  decodes : primitives.decodeStreamFrame bytes = some frame
  channel_eq : sealing.channel = grant.channel
  keyId_eq : primitives.streamKeyId sealing.key = frame.keyId
  counter_eq : sealing.counter = frame.counter
  nonce_eq : sealing.nonce = frame.nonce
  position : batch.counter = frame.counter.toNat
  batch_eq : batch.batch = sealing.batch
  held : reader.keys.lookup frame.keyId = some (sealing.key, fromCounter)
  granted : fromCounter ≤ batch.counter

/-- The call opened a frame that the publisher sealed. -/
def ReaderStep.Genuine (primitives : StreamPrimitives) (sealings : Sealing → Prop)
    (grant : Grant) (step : ReaderStep) (batch : PublishedBatch) : Prop :=
  ∃ bytes frame sealing fromCounter, step.call = .openFrame bytes ∧ sealings sealing ∧
    OpensSealing primitives grant step.before bytes batch frame sealing fromCounter

/-- The call was to open a frame, and failed. -/
def ReaderStep.Failed (step : ReaderStep) : Prop :=
  ∃ refusal, step.answer = .opened (.error refusal)

/-- The batches that were accepted, in order. -/
def acceptedBatches (steps : List ReaderStep) : List PublishedBatch :=
  steps.filterMap (·.answer.batch?)

section Running

variable {primitives : StreamPrimitives} {signed : Signings} {sealings : Sealing → Prop}
  {grant : Grant} {reader : StreamReader}

/-- A frame that is read was sealed by the publisher, whoever holds its key besides. -/
theorem StreamReader.ReadsFor.opensSealing (readsFor : reader.ReadsFor grant)
    (unforgeable : primitives.Unforgeable signed)
    (publishes : primitives.PublishesOnly signed grant.publisherKey sealings)
    (ideal : primitives.IdealAead) (opened : grant.IsOpened primitives.toSealPrimitives)
    {bytes batch : Bytes} {counter : Nat} (skipped : Nat)
    (isRead : reader.readFrame primitives bytes = .ok (counter, batch)) :
    ∃ frame sealing fromCounter, sealings sealing ∧
      OpensSealing primitives grant reader bytes ⟨counter, skipped, batch⟩ frame sealing
        fromCounter := by
  obtain ⟨frame, key, fromCounter, rfl, reads⟩ := readFrame_eq_ok_iff.mp isRead
  have genuine := reads.genuine
  have decrypted := reads.opens
  obtain ⟨publisher32, short⟩ := opened.sizes
  rw [readsFor.publisherKey_eq] at genuine
  rw [readsFor.publisher_eq, readsFor.channel_eq] at genuine decrypted
  -- the publisher signed it, so it is the header of something that it sealed
  obtain ⟨sealing, isSealed, ciphertext, encrypted, message⟩ :=
    publishes _ (unforgeable _ _ _ _ genuine)
  have headers := message
  unfold StreamPrimitives.headerOf at headers
  obtain ⟨channels, keyIds, counters, nonces, ciphertexts⟩ := streamHeader_inj
    (by rw [publisher32, primitives.length_principalId])
    (by unfold maxChannelBytes at short; omega)
    (by rw [reads.keyId_length, primitives.length_streamKeyId])
    (by rw [reads.nonce_length, sealing.nonce_length]) headers
  have sameHeader : streamHeader grant.publisher grant.channel frame.keyId frame.counter
      frame.nonce = primitives.headerOf grant.publisherKey sealing := by
    rw [ciphertexts] at message
    exact List.append_cancel_right message
  rw [sameHeader, ciphertexts, nonces] at decrypted
  -- it opens under no key but its own, and then to what was sealed
  obtain rfl : key = sealing.key := ideal.only _ _ _ _ _ _ _ encrypted decrypted
  have batches := (ideal.opens _ _ _ _ _ encrypted).symm.trans decrypted
  exact ⟨frame, sealing, fromCounter, isSealed, reads.decodes, channels.symm, keyIds.symm,
    counters.symm, nonces.symm, rfl, (Option.some.inj batches).symm, reads.held,
    reads.granted⟩

/-- What holds of a run from any reader for the stream of the grant. -/
theorem StreamReader.ReadsFor.run_spec (readsFor : reader.ReadsFor grant)
    (unforgeable : primitives.Unforgeable signed)
    (publishes : primitives.PublishesOnly signed grant.publisherKey sealings)
    (ideal : primitives.IdealAead) (opened : grant.IsOpened primitives.toSealPrimitives)
    (calls : List ReaderCall) :
    ∃ steps final, reader.run primitives calls = .ok (steps, final) ∧
      (∀ step ∈ steps, ∀ batch ∈ step.answer.batch?,
        step.Genuine primitives sealings grant batch) ∧
      (∀ step ∈ steps, step.Failed → step.after = step.before) ∧
      (∀ batch ∈ acceptedBatches steps, reader.last < batch.counter) ∧
      (acceptedBatches steps).Pairwise (·.counter < ·.counter) ∧
      reader.last + ((acceptedBatches steps).map (·.skipped + 1)).sum = final.last := by
  induction calls generalizing reader with
  | nil => exact ⟨[], reader, rfl, by simp, by simp, by simp [acceptedBatches],
      by simp [acceptedBatches], by simp [acceptedBatches]⟩
  | cons call rest ih =>
      obtain ⟨after, answer, ran, performed⟩ := perform_spec primitives reader call
      obtain ⟨steps, final, restRan, genuine, unchanged, ahead, increasing, sum⟩ :=
        ih (performed.readsFor readsFor)
      refine ⟨⟨call, reader, answer, after⟩ :: steps, final, ?_, ?_, ?_, ?_⟩
      · simp [StreamReader.run, ran, restRan]
      · rintro step (_ | ⟨_, later⟩) batch accepted
        · cases performed with
          | took other => cases accepted
          | refused bytes refusal => cases accepted
          | read bytes counter body _ isRead =>
              obtain rfl := Option.some.inj accepted
              obtain ⟨frame, sealing, fromCounter, isSealed, opens⟩ :=
                readsFor.opensSealing unforgeable publishes ideal opened _ isRead
              exact ⟨bytes, frame, sealing, fromCounter, rfl, isSealed, opens⟩
        · exact genuine step later batch accepted
      · rintro step (_ | ⟨_, later⟩) ⟨refusal, failed⟩
        · cases performed with
          | took other => cases failed
          | refused bytes refusal => rfl
          | read bytes counter body _ isRead => cases failed
        · exact unchanged step later ⟨refusal, failed⟩
      · cases performed with
        | took other =>
            rw [last_addKey] at ahead sum
            exact ⟨ahead, increasing, sum⟩
        | refused bytes refusal => exact ⟨ahead, increasing, sum⟩
        | read bytes counter body moves isRead =>
            have accepted : acceptedBatches (⟨.openFrame bytes, reader,
                .opened (.ok ⟨counter, counter - reader.last - 1, body⟩),
                { reader with last := counter }⟩ :: steps) =
                ⟨counter, counter - reader.last - 1, body⟩ :: acceptedBatches steps :=
              rfl
            simp only [accepted, List.forall_mem_cons, List.pairwise_cons, List.map_cons,
              List.sum_cons]
            refine ⟨⟨moves, fun batch member => moves.trans (ahead batch member)⟩,
              ⟨ahead, increasing⟩, ?_⟩
            simp only at sum
            omega

end Running

/-- A reader that was built from a grant, whatever it is given to take and to open: no
subtraction underflows, it accepts only what the publisher sealed for its channel, under a
key that it holds and from where that key's grant begins, in the order of the counters,
and what it accepted and skipped adds up to its own counter.  What it refuses leaves it as
it was. -/
theorem stream_reader_safe (primitives : StreamPrimitives) (signed : Signings)
    (sealings : Sealing → Prop) (grant : Grant)
    (unforgeable : primitives.Unforgeable signed)
    (publishes : primitives.PublishesOnly signed grant.publisherKey sealings)
    (ideal : primitives.IdealAead) (opened : grant.IsOpened primitives.toSealPrimitives)
    (calls : List ReaderCall) :
    ∃ steps final, (StreamReader.new grant).run primitives calls = .ok (steps, final) ∧
      (∀ step ∈ steps, ∀ batch ∈ step.answer.batch?,
        step.Genuine primitives sealings grant batch) ∧
      (acceptedBatches steps).Pairwise (·.counter < ·.counter) ∧
      ((acceptedBatches steps).map (·.skipped + 1)).sum = final.counter ∧
      ∀ step ∈ steps, step.Failed → step.after = step.before := by
  obtain ⟨steps, final, ran, genuine, unchanged, -, increasing, sum⟩ :=
    (StreamReader.new_readsFor grant).run_spec unforgeable publishes ideal opened calls
  rw [StreamReader.last_new, zero_add] at sum
  exact ⟨steps, final, ran, genuine, increasing, sum, unchanged⟩

/-! ## A stream of one batch -/

/-- What the publisher, whose key is all ones, sealed: one batch of one byte. -/
def loneSealing : Sealing where
  channel := [5]
  key := List.replicate 32 7
  counter := 1
  nonce := List.replicate 12 3
  batch := [9]
  nonce_length := rfl

/-- The key's name, under a hash that keeps what its argument begins with. -/
def loneKeyId : Bytes :=
  keyIdLabel.take keyIdBytes

/-- The header of the batch. -/
def loneHeader : Bytes :=
  streamHeader (List.replicate 32 1) [5] loneKeyId 1 (List.replicate 12 3)

theorem length_padded_digest (bytes : Bytes) :
    ((bytes ++ List.replicate 32 0).take 32).length = 32 := by
  simp

/-- Messages that are known by one byte, a cipher that puts the key in front, and a
signature under the label of streams for that one batch. -/
def lonePrimitives : StreamPrimitives where
  decodeCertificate bytes := if bytes = [0] then some viewer else none
  verifyStrict _ message _ := decide (message.take streamLabel.length ≠ streamLabel ∨
    message = streamLabel ++ (loneHeader ++ (loneSealing.key ++ loneSealing.batch)))
  digest bytes := (bytes ++ List.replicate 32 0).take 32
  decodeSealed bytes := some ⟨[], bytes⟩
  decodeSignedCommand _ := none
  decodeCommandBody _ := none
  decodeSignedGrant bytes := some ⟨bytes, [], [⟨[0], []⟩]⟩
  decodeGrantBody _ := some ⟨List.replicate 32 1, List.replicate 32 2,
    List.replicate 16 4, 200000, [5], loneKeyId, List.replicate 32 7, 1⟩
  isEncappedKey _ := true
  singleShotOpen _ _ _ ciphertext := some ciphertext
  encodeStreamFrame frame := frame.ciphertext
  decodeStreamFrame bytes := some ⟨loneKeyId, 1, List.replicate 12 3, bytes, []⟩
  encrypt key _ _ batch := if key.length = 32 then some (key ++ batch) else none
  decrypt key _ _ ciphertext :=
    if key.length = 32 ∧ ciphertext.take 32 = key then some (ciphertext.drop 32) else none
  digest_length := length_padded_digest

/-- The grant of the key, from the first counter on. -/
def loneGrant : Grant where
  publisher := List.replicate 32 1
  publisherKey := List.replicate 32 1
  channel := [5]
  keyId := loneKeyId
  key := List.replicate 32 7
  fromCounter := 1

theorem loneGrant_isOpened : loneGrant.IsOpened lonePrimitives.toSealPrimitives := by
  refine ⟨.new lonePrimitives.toSealPrimitives (List.replicate 32 2) []
    (List.replicate 32 0), _, List.replicate 32 1, [1], 200000, rfl⟩

theorem lonePrimitives_ideal : lonePrimitives.IdealAead where
  opens := by
    intro key nonce header batch ciphertext encrypted
    simp only [lonePrimitives, Option.ite_none_right_eq_some, Option.some.injEq]
      at encrypted ⊢
    obtain ⟨whole, rfl⟩ := encrypted
    exact ⟨⟨whole, by rw [← whole, List.take_left]⟩, by rw [← whole, List.drop_left]⟩
  only := by
    intro key other nonce header batch opened ciphertext encrypted decrypted
    simp only [lonePrimitives, Option.ite_none_right_eq_some, Option.some.injEq]
      at encrypted decrypted
    obtain ⟨whole, rfl⟩ := encrypted
    obtain ⟨⟨-, same⟩, -⟩ := decrypted
    rw [← same, ← whole, List.take_left]

theorem lonePrimitives_publishesOnly :
    lonePrimitives.PublishesOnly
      (fun key label message => ∃ signature,
        lonePrimitives.verify key label message signature = true)
      loneGrant.publisherKey (· = loneSealing) := by
  rintro message ⟨signature, verified⟩
  simp only [KeyPrimitives.verify, lonePrimitives, List.take_left, ne_eq,
    not_true_eq_false, false_or, decide_eq_true_eq, List.append_cancel_left_eq] at verified
  exact ⟨loneSealing, rfl, _, rfl, verified⟩

/-- The batch is opened once, and what is not the publisher's is not opened. -/
theorem stream_reader_safe_lone :
    ∃ steps final, (StreamReader.new loneGrant).run lonePrimitives
        [.openFrame [1], .openFrame (loneSealing.key ++ [9]), .addKey loneGrant,
          .openFrame (loneSealing.key ++ [9])] = .ok (steps, final) ∧
      (∀ step ∈ steps, ∀ batch ∈ step.answer.batch?,
        step.Genuine lonePrimitives (· = loneSealing) loneGrant batch) ∧
      (acceptedBatches steps).Pairwise (·.counter < ·.counter) ∧
      ((acceptedBatches steps).map (·.skipped + 1)).sum = final.counter ∧
      ∀ step ∈ steps, step.Failed → step.after = step.before :=
  stream_reader_safe lonePrimitives _ (· = loneSealing) loneGrant
    (fun _ _ _ signature verified => ⟨signature, verified⟩) lonePrimitives_publishesOnly
    lonePrimitives_ideal loneGrant_isOpened _

example :
    ((StreamReader.new loneGrant).run lonePrimitives
      [.openFrame [1], .openFrame (loneSealing.key ++ [9]),
        .openFrame (loneSealing.key ++ [9])]).toOption.map
          (fun ran => ran.1.map (·.answer)) =
      some [.opened (.error .signature), .opened (.ok ⟨1, 0, [9]⟩),
        .opened (.error (.outOfOrder 1 1))] := by
  decide +kernel

end WindowMlHub
