import WindowMlHub.SealedRoundTrips

/-!
# Restarts and rotations

A connector seals frames, replaces its key and starts again with another; a device takes
the grant of whatever key is current and opens the frames of one channel as they are
published.

After a rotation the counters carry on, and the device reads on.  After a restart they
begin again while the device has read to where the old ones had come: a frame is opened
exactly when it is counted past that.
-/

namespace WindowMlHub

open CheckedConditions
open CheckedEvaluation (Checked holds_of_check)

/-- What happens: a frame of the box is relayed, with the nonce that is drawn and whether
the client could publish it, the key is replaced, the connector starts again, and the
device takes a grant. -/
inductive Occurrence
  | frame (nonce : { nonce : Bytes // nonce.length = frameNonceBytes }) (batch : Bytes)
      (published : Bool)
  | rotate (key : Bytes)
  | restart (key : Bytes)
  | take (grant : Grant)

/-- A connector and a device that reads one of its channels.  Each key is fresh, so the
grant of a key was taken if one was taken since the key was put in place. -/
structure Broadcast where
  relay : Relay
  reader : Option StreamReader := none
  granted : Bool := false

/-- A published frame that came to the device: whether it holds the key's grant, where the
two had come to before, what was sealed and to what, and what the device made of it. -/
structure Hearing where
  granted : Bool
  last : Nat
  spent : Nat
  batch : Bytes
  sealed : Bytes
  answer : Except StreamError PublishedBatch

namespace Broadcast

variable (primitives : StreamPrimitives) (lane : Lane)

/-- The device takes a grant: it reads on with it, or begins. -/
def take (now : Broadcast) (grant : Grant) : Broadcast :=
  match now.reader with
  | none => { now with reader := some (.new grant), granted := true }
  | some reader =>
      let (reader, added) := reader.addKey grant
      { now with reader := some reader, granted := added }

/-- A frame comes to the device, if it reads the channel. -/
def hear (now : Broadcast) (spent : Nat) (batch sealed : Bytes) :
    Checked (Broadcast × List Hearing) :=
  match now.reader with
  | none => .ok (now, [])
  | some reader => do
      let (after, answer) ← reader.openFrame primitives sealed
      return ({ now with reader := some after },
        [⟨now.granted, reader.counter, spent, batch, sealed, answer⟩])

/-- One thing happens, and what the device heard of it. -/
def step (now : Broadcast) : Occurrence → Checked (Broadcast × List Hearing)
  | .frame nonce batch published =>
      match now.relay.frame primitives nonce.val batch with
      | (relay, .publishes on _ _ sealed) =>
          if on = lane ∧ published then
            hear primitives { now with relay } (now.relay.counter lane) batch sealed
          else .ok ({ now with relay }, [])
      | (relay, _) => .ok ({ now with relay }, [])
  | .rotate key => .ok ({ now with relay := now.relay.rotate key, granted := false }, [])
  | .restart key =>
      .ok ({ now with
        relay := .new now.relay.publisher key now.relay.channels
        granted := false }, [])
  | .take grant => .ok (now.take grant, [])

/-- One thing after another. -/
def run (now : Broadcast) : List Occurrence → Checked (Broadcast × List Hearing)
  | [] => .ok (now, [])
  | occurrence :: rest => do
      let (after, heard) ← now.step primitives lane occurrence
      let (final, later) ← after.run rest
      return (final, heard ++ later)

end Broadcast

/-- What becomes of the connector's part. -/
def Relay.next (primitives : StreamPrimitives) (relay : Relay) : Occurrence → Relay
  | .frame nonce batch _ => (relay.frame primitives nonce.val batch).1
  | .rotate key => relay.rotate key
  | .restart key => .new relay.publisher key relay.channels
  | .take _ => relay

/-- Whatever grants are taken, each is of the key that is current then. -/
def Relay.Grants (primitives : StreamPrimitives) (lane : Lane) : Relay → List Occurrence → Prop
  | _, [] => True
  | relay, occurrence :: rest =>
      (∀ grant, occurrence = .take grant → relay.Granted primitives lane grant) ∧
        Relay.Grants primitives lane (relay.next primitives occurrence) rest

/-- The device opens what it was granted, and finds in it what was sealed. -/
def Hearing.Kept (hearing : Hearing) : Prop :=
  hearing.granted = true →
    ∃ skipped, hearing.answer = .ok ⟨hearing.spent + 1, skipped, hearing.batch⟩

/-- The device has not read past what the connector has counted to, and the frame is not
over its limit. -/
def Hearing.Timely (hearing : Hearing) : Prop :=
  hearing.granted = true →
    hearing.last ≤ hearing.spent ∧ hearing.sealed.length ≤ maxStreamFrameBytes

/-! ## What a frame is and when it opens -/

theorem sealFrame_eq_ok {primitives : StreamPrimitives} {publisher : Identity}
    {channel key nonce batch sealed : Bytes} {counter : UInt64}
    (isSealed : sealFrame primitives publisher channel key counter nonce batch = .ok sealed) :
    ∃ ciphertext, primitives.encrypt key nonce (streamHeader
        (primitives.principalId publisher.publicKey) channel (primitives.streamKeyId key)
        counter nonce) batch = some ciphertext ∧
      sealed = primitives.encodeStreamFrame ⟨primitives.streamKeyId key, counter, nonce,
        ciphertext, publisher.sign (streamLabel ++ (streamHeader
          (primitives.principalId publisher.publicKey) channel (primitives.streamKeyId key)
          counter nonce ++ ciphertext))⟩ := by
  simp only [sealFrame] at isSealed
  split at isSealed
  · cases isSealed
  · next ciphertext encrypted => exact ⟨ciphertext, encrypted, (Except.ok.inj isSealed).symm⟩

section Sealed

variable {primitives : StreamPrimitives} {relay : Relay} {lane : Lane}
  {reader after : StreamReader} {nonce batch sealed : Bytes} {spent : Nat}

/-- A frame that the relay sealed under its current key is read by a device that holds
the key from there on, if the device is not ahead and the frame not too long. -/
theorem readFrame_sealed (codes : primitives.CodesStreamFrames)
    (ideal : primitives.IdealAead)
    (signs : relay.publisher.SignsFor primitives.toKeyPrimitives)
    (isNonce : nonce.length = frameNonceBytes)
    (readsFor : reader.ReadsFor (relay.grant primitives lane))
    (held : reader.keys.lookup (primitives.streamKeyId relay.key) =
      some (relay.key, relay.keyFrom.at lane))
    (covered : relay.keyFrom.at lane ≤ relay.counter lane)
    (counted : relay.counter lane < 2 ^ 64)
    (isSealed : relay.sealBatch primitives lane nonce batch = .ok sealed)
    (small : sealed.length ≤ maxStreamFrameBytes) (behind : reader.last < relay.counter lane) :
    reader.readFrame primitives sealed = .ok (relay.counter lane, batch) := by
  obtain ⟨ciphertext, encrypted, rfl⟩ := sealFrame_eq_ok isSealed
  have isCounter : (UInt64.ofNat (relay.counter lane)).toNat = relay.counter lane :=
    UInt64.toNat_ofNat_of_lt' counted
  have publisher : reader.publisher = primitives.principalId relay.publisher.publicKey :=
    readsFor.publisher_eq
  have publisherKey : reader.publisherKey = relay.publisher.publicKey :=
    readsFor.publisherKey_eq
  have channel : reader.channel = relay.channels.name lane := readsFor.channel_eq
  refine StreamReader.readFrame_eq_ok_iff.mpr ⟨_, relay.key, relay.keyFrom.at lane, isCounter, {
    small := small
    decodes := codes _ (by unfold maxStreamFrameBytes at small; omega)
    keyId_length := primitives.length_streamKeyId relay.key
    nonce_length := isNonce
    held := held
    genuine := ?_
    granted := by rw [isCounter]; exact covered
    ahead := by rw [isCounter]; exact behind
    opens := ?_ }⟩
  · rw [publisher, publisherKey, channel]
    exact signs _
  · rw [publisher, channel]
    exact ideal.opens _ _ _ _ _ encrypted

theorem counter_of_readFrame_sealed (codes : primitives.CodesStreamFrames)
    (isSealed : relay.sealBatch primitives lane nonce batch = .ok sealed)
    (counted : relay.counter lane < 2 ^ 64) {counter : Nat} {opened : Bytes}
    (isRead : reader.readFrame primitives sealed = .ok (counter, opened)) :
    sealed.length ≤ maxStreamFrameBytes ∧ counter = relay.counter lane ∧
      reader.last < relay.counter lane := by
  obtain ⟨ciphertext, -, rfl⟩ := sealFrame_eq_ok isSealed
  obtain ⟨frame, key, fromCounter, rfl, reads⟩ := StreamReader.readFrame_eq_ok_iff.mp isRead
  have small := reads.small
  have decoded := codes _ (lt_of_le_of_lt small (by decide : maxStreamFrameBytes < 2 ^ 64))
  obtain rfl := Option.some.inj (decoded.symm.trans reads.decodes)
  have isCounter : (UInt64.ofNat (relay.counter lane)).toNat = relay.counter lane :=
    UInt64.toNat_ofNat_of_lt' counted
  have ahead := reads.ahead
  rw [isCounter] at ahead
  exact ⟨small, isCounter, ahead⟩

end Sealed

/-! ## Runs -/

/-- What the connector and the device know of each other after so many steps: the device
reads the publisher's channel, and if it was granted the current key it holds it. -/
structure Broadcast.Ok (primitives : StreamPrimitives) (lane : Lane) (publisher : Identity)
    (steps : Nat) (now : Broadcast) : Prop where
  publisher_eq : now.relay.publisher = publisher
  counter_le : now.relay.counter lane ≤ steps
  keyFrom_le : now.relay.keyFrom.at lane ≤ now.relay.counter lane + 1
  readsFor : ∀ reader ∈ now.reader, reader.ReadsFor (now.relay.grant primitives lane)
  holds : now.granted = true → ∃ reader, now.reader = some reader ∧
    reader.keys.lookup (primitives.streamKeyId now.relay.key) =
      some (now.relay.key, now.relay.keyFrom.at lane)

/-- The device has not read past what the connector has counted to. -/
def Broadcast.InStep (lane : Lane) (now : Broadcast) : Prop :=
  ∀ reader ∈ now.reader, reader.counter ≤ now.relay.counter lane

def Occurrence.isRestart : Occurrence → Bool
  | restart _ => true
  | _ => false

section Running

variable {primitives : StreamPrimitives} {lane : Lane} {publisher : Identity}
  {steps : Nat} {now : Broadcast}

theorem Relay.counter_count (relay : Relay) (on lane : Lane) :
    (relay.count on).counter lane =
      if on = lane then relay.counter lane + 1 else relay.counter lane := by
  cases on <;> cases lane <;> rfl

theorem Relay.grant_count (relay : Relay) (on lane : Lane) :
    (relay.count on).grant primitives lane = relay.grant primitives lane := by
  cases on <;> rfl

/-- A frame that the connector counts leaves what the two know. -/
theorem Broadcast.Ok.count (ok : now.Ok primitives lane publisher steps) (on : Lane) :
    Broadcast.Ok primitives lane publisher (steps + 1)
      { now with relay := now.relay.count on } := by
  have counter := now.relay.counter_count on lane
  have counted := ok.counter_le
  have start := ok.keyFrom_le
  refine ⟨?_, ?_, ?_, ?_, ?_⟩
  · rw [← ok.publisher_eq]
    cases on <;> rfl
  · rw [counter]
    split <;> omega
  · have same : (now.relay.count on).keyFrom = now.relay.keyFrom := by cases on <;> rfl
    rw [counter, same]
    split <;> omega
  · simp only [Relay.grant_count]
    exact ok.readsFor
  · intro isGranted
    obtain ⟨reader, found, held⟩ := ok.holds isGranted
    refine ⟨reader, found, ?_⟩
    cases on <;> exact held

theorem Broadcast.InStep.count (inStep : now.InStep lane) (on : Lane) :
    Broadcast.InStep lane { now with relay := now.relay.count on } := by
  intro reader found
  have := inStep reader found
  simp only [Relay.counter_count]
  split <;> omega

/-- The device hears a frame: if it is granted it opens it exactly when it is timely, and
then it has come to the frame's counter. -/
theorem hear_spec (codes : primitives.CodesStreamFrames) (ideal : primitives.IdealAead)
    (signs : publisher.SignsFor primitives.toKeyPrimitives) (counted : steps < 2 ^ 64)
    (ok : now.Ok primitives lane publisher steps) {nonce batch sealed : Bytes} {spent : Nat}
    (isNonce : nonce.length = frameNonceBytes) (isSpent : now.relay.counter lane = spent + 1)
    (covered : now.relay.keyFrom.at lane ≤ now.relay.counter lane)
    (isSealed : now.relay.sealBatch primitives lane nonce batch = .ok sealed) :
    ∃ after heard, now.hear primitives spent batch sealed = .ok (after, heard) ∧
      after.Ok primitives lane publisher steps ∧ (now.InStep lane → after.InStep lane) ∧
      ∀ hearing ∈ heard, (hearing.Kept ↔ hearing.Timely) ∧
        ((∀ reader ∈ now.reader, reader.counter ≤ spent) → hearing.last ≤ hearing.spent) := by
  have small := lt_of_le_of_lt ok.counter_le counted
  unfold Broadcast.hear
  cases found : now.reader with
  | none => exact ⟨now, [], rfl, ok, id, by simp⟩
  | some reader =>
      have readsFor := ok.readsFor reader found
      rw [← ok.publisher_eq] at signs
      have opens (granted : now.granted = true) (behind : reader.last ≤ spent)
          (short : sealed.length ≤ maxStreamFrameBytes) :
          reader.readFrame primitives sealed = .ok (now.relay.counter lane, batch) := by
        obtain ⟨holder, isHolder, held⟩ := ok.holds granted
        obtain rfl := Option.some.inj (found.symm.trans isHolder)
        exact readFrame_sealed codes ideal signs isNonce readsFor held covered small isSealed
          short (by omega)
      obtain ⟨after, answer, ran, outcome⟩ := reader.openFrame_spec primitives sealed
      simp only [ran, CheckedEvaluation.ok_bind, CheckedEvaluation.pure_eq_ok]
      refine ⟨_, _, rfl, ?_⟩
      simp only [List.mem_singleton, forall_eq, Hearing.Kept, Hearing.Timely]
      rcases outcome with ⟨refusal, isRefused, rfl, rfl⟩ |
        ⟨counter, opened, isRead, ahead, rfl, rfl⟩
      · have same : ({ now with reader := some after } : Broadcast) = now := by
          rw [← found]
        rw [same]
        refine ⟨ok, id, ⟨fun kept granted => ?_, fun timely granted => ?_⟩,
          fun behind => behind after rfl⟩
        · obtain ⟨skipped, isOk⟩ := kept granted
          cases isOk
        · obtain ⟨behind, short⟩ := timely granted
          rw [opens granted behind short] at isRefused
          cases isRefused
      · obtain ⟨short, rfl, behind⟩ := counter_of_readFrame_sealed codes isSealed small isRead
        refine ⟨⟨ok.publisher_eq, ok.counter_le, ok.keyFrom_le, ?_, ?_⟩, ?_,
          ⟨fun _ _ => ⟨by change reader.last ≤ spent; omega, short⟩, fun _ granted => ?_⟩,
          fun behind => behind reader rfl⟩
        · rintro _ ⟨⟩
          exact ⟨readsFor.publisher_eq, readsFor.publisherKey_eq, readsFor.channel_eq⟩
        · intro granted
          obtain ⟨holder, isHolder, held⟩ := ok.holds granted
          obtain rfl := Option.some.inj (found.symm.trans isHolder)
          exact ⟨_, rfl, held⟩
        · rintro - _ ⟨⟩
          exact le_rfl
        · rw [opens granted (by omega) short] at isRead
          obtain ⟨-, rfl⟩ := Prod.mk.inj (Except.ok.inj isRead)
          exact ⟨_, by rw [isSpent]⟩

theorem Broadcast.Ok.later (ok : now.Ok primitives lane publisher steps) :
    now.Ok primitives lane publisher (steps + 1) :=
  ⟨ok.publisher_eq, ok.counter_le.trans (Nat.le_succ steps), ok.keyFrom_le, ok.readsFor,
    ok.holds⟩

theorem StreamReader.lookup_addKey {reader : StreamReader} {grant : Grant}
    (readsFor : reader.ReadsFor grant) :
    (reader.addKey grant).2 = true ∧ (reader.addKey grant).1.last = reader.last ∧
      (reader.addKey grant).1.keys.lookup grant.keyId =
        some (grant.key, grant.fromCounter) := by
  have same : ¬ (grant.publisher ≠ reader.publisher ∨ grant.channel ≠ reader.channel) := by
    simp [readsFor.publisher_eq, readsFor.channel_eq]
  simp [StreamReader.addKey, same]

/-- A device that takes the grant holds the current key from where it starts. -/
theorem take_spec (ok : now.Ok primitives lane publisher steps) :
    (now.take (now.relay.grant primitives lane)).Ok primitives lane publisher steps ∧
      (now.InStep lane → (now.take (now.relay.grant primitives lane)).InStep lane) := by
  unfold Broadcast.take
  cases found : now.reader with
  | none =>
      have fresh : StreamReader.ReadsFor (now.relay.grant primitives lane)
          { publisher := (now.relay.grant primitives lane).publisher
            publisherKey := (now.relay.grant primitives lane).publisherKey
            channel := (now.relay.grant primitives lane).channel } :=
        ⟨rfl, rfl, rfl⟩
      obtain ⟨-, last, held⟩ := StreamReader.lookup_addKey fresh
      refine ⟨⟨ok.publisher_eq, ok.counter_le, ok.keyFrom_le, ?_, fun _ => ⟨_, rfl, held⟩⟩, ?_⟩
      · rintro _ ⟨⟩
        exact StreamReader.new_readsFor _
      · rintro - _ ⟨⟩
        change (StreamReader.new (now.relay.grant primitives lane)).last ≤ _
        rw [StreamReader.last_new]
        exact Nat.zero_le _
  | some reader =>
      have readsFor := ok.readsFor reader found
      obtain ⟨-, last, held⟩ := StreamReader.lookup_addKey readsFor
      refine ⟨⟨ok.publisher_eq, ok.counter_le, ok.keyFrom_le, ?_, fun _ => ⟨_, rfl, held⟩⟩, ?_⟩
      · rintro _ ⟨⟩
        exact StreamReader.addKey_readsFor readsFor _
      · rintro inStep _ ⟨⟩
        change (reader.addKey (now.relay.grant primitives lane)).1.last ≤ _
        rw [last]
        exact inStep reader found

theorem Broadcast.Ok.readsFor_relay (ok : now.Ok primitives lane publisher steps)
    {relay : Relay} (same : relay.publisher = now.relay.publisher)
    (channels : relay.channels = now.relay.channels) :
    ∀ reader ∈ now.reader, reader.ReadsFor (relay.grant primitives lane) := by
  intro reader found
  have readsFor := ok.readsFor reader found
  simp only [Relay.grant, same, channels]
  exact ⟨readsFor.publisher_eq, readsFor.publisherKey_eq, readsFor.channel_eq⟩

theorem keyFrom_rotate (relay : Relay) (key : Bytes) (lane : Lane) :
    (relay.rotate key).keyFrom.at lane = relay.counter lane + 1 := by
  cases lane <;> rfl

theorem counter_rotate (relay : Relay) (key : Bytes) (lane : Lane) :
    (relay.rotate key).counter lane = relay.counter lane := by
  cases lane <;> rfl

/-- What one thing does. -/
theorem step_spec (codes : primitives.CodesStreamFrames) (ideal : primitives.IdealAead)
    (signs : publisher.SignsFor primitives.toKeyPrimitives) (counted : steps + 1 < 2 ^ 64)
    (ok : now.Ok primitives lane publisher steps) {occurrence : Occurrence}
    (granted : ∀ grant, occurrence = .take grant → now.relay.Granted primitives lane grant) :
    ∃ after heard, now.step primitives lane occurrence = .ok (after, heard) ∧
      after.Ok primitives lane publisher (steps + 1) ∧
      (occurrence.isRestart = false → now.InStep lane → after.InStep lane) ∧
      ∀ hearing ∈ heard, (hearing.Kept ↔ hearing.Timely) ∧
        (now.InStep lane → hearing.last ≤ hearing.spent) := by
  cases occurrence with
  | frame nonce batch published =>
      simp only [Broadcast.step, Relay.frame]
      cases Relay.lane? batch with
      | none => exact ⟨_, _, rfl, ok.later, fun _ => id, by simp⟩
      | some found =>
          obtain ⟨on, coalesce⟩ := found
          have countedOk := ok.count on
          dsimp only
          cases isSealed : (now.relay.count on).sealBatch primitives on nonce.val batch with
          | error refusal =>
              exact ⟨_, _, rfl, countedOk, fun _ inStep => inStep.count on, by simp⟩
          | ok sealed =>
              dsimp only
              split
              · next reached =>
                  obtain ⟨rfl, -⟩ := reached
                  have isSpent : (now.relay.count on).counter on =
                      now.relay.counter on + 1 := by
                    simp [Relay.counter_count]
                  have covered : (now.relay.count on).keyFrom.at on ≤
                      (now.relay.count on).counter on := by
                    rw [isSpent]
                    refine le_trans (le_of_eq ?_) ok.keyFrom_le
                    cases on <;> rfl
                  obtain ⟨after, heard, ran, afterOk, stays, each⟩ := hear_spec codes ideal
                    signs counted countedOk nonce.property isSpent covered isSealed
                  exact ⟨after, heard, ran, afterOk, fun _ inStep => stays (inStep.count on),
                    each⟩
              · exact ⟨_, _, rfl, countedOk, fun _ inStep => inStep.count on, by simp⟩
  | rotate key =>
      refine ⟨_, _, rfl, ⟨ok.publisher_eq, ?_, ?_, ok.readsFor_relay rfl rfl, by simp⟩, ?_,
        by simp⟩
      · rw [counter_rotate]
        exact ok.later.counter_le
      · rw [counter_rotate, keyFrom_rotate]
      · intro _ inStep reader found
        rw [counter_rotate]
        exact inStep reader found
  | restart key =>
      refine ⟨_, _, rfl, ⟨ok.publisher_eq, ?_, ?_, ok.readsFor_relay rfl rfl, by simp⟩,
        by simp [Occurrence.isRestart], by simp⟩
      · cases lane <;> exact Nat.zero_le _
      · cases lane <;> exact le_rfl
  | take grant =>
      obtain rfl := (granted grant rfl).eq
      obtain ⟨afterOk, stays⟩ := take_spec ok.later
      exact ⟨_, _, rfl, afterOk, fun _ => stays, by simp⟩

theorem relay_take (grant : Grant) : (now.take grant).relay = now.relay := by
  unfold Broadcast.take
  split <;> rfl

theorem Broadcast.relay_step {occurrence : Occurrence} {after : Broadcast}
    {heard : List Hearing}
    (ran : now.step primitives lane occurrence = .ok (after, heard)) :
    after.relay = now.relay.next primitives occurrence := by
  cases occurrence with
  | frame nonce batch published =>
      simp only [Broadcast.step] at ran
      simp only [Relay.next]
      cases isFrame : now.relay.frame primitives nonce.val batch with
      | mk relay relaying =>
          rw [isFrame] at ran
          cases relaying with
          | publishes on counter coalesce sealed =>
              dsimp only at ran
              split at ran
              · unfold Broadcast.hear at ran
                split at ran
                · cases ran
                  rfl
                · obtain ⟨⟨reader, answer⟩, -, returned⟩ :=
                    CheckedEvaluation.bind_eq_ok.mp ran
                  cases returned
                  rfl
              · cases ran
                rfl
          | consumed | unsealed =>
              cases ran
              rfl
  | rotate | restart =>
      cases ran
      rfl
  | take grant =>
      cases ran
      exact relay_take grant

/-- What a run does, from any point. -/
theorem run_spec (codes : primitives.CodesStreamFrames) (ideal : primitives.IdealAead)
    (signs : publisher.SignsFor primitives.toKeyPrimitives)
    (ok : now.Ok primitives lane publisher steps) {occurrences : List Occurrence}
    (grants : now.relay.Grants primitives lane occurrences)
    (counted : steps + occurrences.length < 2 ^ 64) :
    ∃ final heard, now.run primitives lane occurrences = .ok (final, heard) ∧
      (∀ hearing ∈ heard, (hearing.Kept ↔ hearing.Timely)) ∧
      ((∀ occurrence ∈ occurrences, occurrence.isRestart = false) → now.InStep lane →
        ∀ hearing ∈ heard, hearing.last ≤ hearing.spent) := by
  induction occurrences generalizing now steps with
  | nil => exact ⟨now, [], rfl, by simp, by simp⟩
  | cons occurrence rest ih =>
      rw [List.length_cons] at counted
      obtain ⟨granted, laterGrants⟩ := grants
      obtain ⟨after, heard, ran, afterOk, stays, each⟩ :=
        step_spec codes ideal signs (by omega) ok granted
      rw [← Broadcast.relay_step ran] at laterGrants
      obtain ⟨final, later, restRan, laterEach, laterInStep⟩ :=
        ih afterOk laterGrants (by omega)
      refine ⟨final, heard ++ later, ?_, ?_, ?_⟩
      · simp [Broadcast.run, ran, restRan]
      · intro hearing member
        rcases List.mem_append.mp member with first | others
        · exact (each hearing first).1
        · exact laterEach hearing others
      · intro noRestart inStep hearing member
        have goesOn := stays (noRestart occurrence List.mem_cons_self) inStep
        rcases List.mem_append.mp member with first | others
        · exact (each hearing first).2 inStep
        · exact laterInStep (fun other among =>
            noRestart other (List.mem_cons_of_mem _ among)) goesOn hearing others

end Running

/-- A device that takes every grant opens each frame that is published after its key's
grant was taken exactly when it has not read past what the connector has counted to, and
the frame is not over its limit; and it never has while the connector does not start
again. -/
theorem restarts_heard_iff (primitives : StreamPrimitives)
    (codes : primitives.CodesStreamFrames) (ideal : primitives.IdealAead)
    (publisher : Identity) (signs : publisher.SignsFor primitives.toKeyPrimitives)
    (key : Bytes) (channels : Channels) (lane : Lane) (occurrences : List Occurrence)
    (grants : (Relay.new publisher key channels).Grants primitives lane occurrences)
    (counted : occurrences.length < 2 ^ 64) :
    ∃ final heard, Broadcast.run primitives lane { relay := .new publisher key channels }
        occurrences = .ok (final, heard) ∧
      ((∀ hearing ∈ heard, hearing.Kept) ↔ ∀ hearing ∈ heard, hearing.Timely) ∧
      ((∀ occurrence ∈ occurrences, occurrence.isRestart = false) →
        (∀ hearing ∈ heard, hearing.sealed.length ≤ maxStreamFrameBytes) →
          ∀ hearing ∈ heard, hearing.Kept) := by
  have ok : Broadcast.Ok primitives lane publisher 0
      { relay := .new publisher key channels } := by
    refine ⟨rfl, ?_, ?_, by simp, by simp⟩
    · cases lane <;> exact le_rfl
    · cases lane <;> exact le_rfl
  have inStep : Broadcast.InStep lane { relay := .new publisher key channels } := by
    rintro _ ⟨⟩
  obtain ⟨final, heard, ran, each, behind⟩ :=
    run_spec codes ideal signs ok grants (by omega)
  refine ⟨final, heard, ran, forall₂_congr each, fun noRestart short hearing member => ?_⟩
  exact (each hearing member).mpr fun _ =>
    ⟨behind noRestart inStep hearing member, short hearing member⟩

/-- A device is granted what a sender that it expects wraps for it. -/
theorem Relay.granted_of_wrapKey {primitives : HpkePrimitives}
    (codes : primitives.CodesMessages) (hpke : primitives.IdealHpke) {relay : Relay}
    {lane : Lane} {receiver : Receiver} {sender : Sender} {target : Recipient}
    {sealedMs nowMs : Nat} {nonce randomness sealed : Bytes} {verified : Verified}
    (isPublisher : sender.identity = relay.publisher)
    (signs : sender.identity.SignsFor primitives.toKeyPrimitives)
    (expects : receiver.Expects primitives sender target sealedMs nonce verified nowMs)
    (isTime : sealedMs < 2 ^ 64) (isNonce : nonce.length = nonceBytes)
    (isCounter : relay.keyFrom.at lane < 2 ^ 64) (isKey : relay.key.length = 32)
    (isChannel : relay.channels.name lane ≠ [] ∧
      (relay.channels.name lane).length ≤ maxChannelBytes)
    (made : wrapKey primitives sender target (relay.channels.name lane) relay.key
      (relay.keyFrom.at lane) sealedMs nonce randomness = .ok sealed)
    (small : sealed.length ≤ maxSealedBytes) :
    relay.Granted primitives.toStreamPrimitives lane
      (relay.grant primitives.toStreamPrimitives lane) := by
  have read := readGrant_wrapped codes hpke signs expects isTime isCounter isKey isChannel
    small made
  obtain ⟨after, opened⟩ := openGrant_wrapped codes hpke signs expects isTime isNonce
    isCounter isKey isChannel small made
  rw [isPublisher] at read
  rw [Sender.id, isPublisher] at opened
  refine ⟨receiver, after, _, sealed, target.principal, sealedMs, nonce, nowMs, verified,
    read, expects.leafKey.trans (congrArg Identity.publicKey isPublisher), ?_⟩
  rw [Sender.id, isPublisher]
  exact opened

/-! ## A connector that starts again -/

/-- An edge of no bytes is relayed and published. -/
def edgePublished : Occurrence :=
  .frame ⟨loneSealing.nonce, loneSealing.nonce_length⟩ [] true

/-- The connector of the key 1, whose keys are all of one byte. -/
def publishing (key : UInt8) : Relay :=
  .new (identityOf 1) (List.replicate 32 key) ⟨[5], [6]⟩

/-- The grant of a key on the lossless channel. -/
def grantOf (relay : Relay) : Grant :=
  relay.grant roundTripPrimitives.toStreamPrimitives .edge

/-- A connector whose keys are all sevens and then all eights, and a device that takes
both grants and hears a frame under each. -/
def startedAgain : List Occurrence :=
  [.take (grantOf (publishing 7)), edgePublished, .restart (List.replicate 32 8),
    .take (grantOf (publishing 8)), edgePublished]

/-- The same, and the connector does not start again but replaces its key. -/
def carriedOn : List Occurrence :=
  [.take (grantOf (publishing 7)), edgePublished, .rotate (List.replicate 32 8),
    .take (grantOf (((publishing 7).count .edge).rotate (List.replicate 32 8))),
    edgePublished]

theorem next_edgePublished (relay : Relay) :
    relay.next roundTripPrimitives.toStreamPrimitives edgePublished = relay.count .edge := by
  have onEdge : Relay.lane? [] = some (.edge, []) := rfl
  simp only [Relay.next, edgePublished, Relay.frame, onEdge]
  split <;> rfl

theorem granted_onlooker {relay : Relay} {sealed : Bytes}
    (isPublisher : onlooker.identity = relay.publisher) (isKey : relay.key.length = 32)
    (isChannel : relay.channels.edge = [5]) (isCounter : relay.keyFrom.edge < 2 ^ 64)
    (made : wrapKey roundTripPrimitives onlooker atOverlooked relay.channels.edge relay.key
      relay.keyFrom.edge 1400 (List.replicate 16 9) [] = .ok sealed)
    (small : sealed.length ≤ maxSealedBytes) :
    relay.Granted roundTripPrimitives.toStreamPrimitives .edge (grantOf relay) :=
  Relay.granted_of_wrapKey roundTripPrimitives_codes roundTripPrimitives_hpke isPublisher
    (identityOf_signsForRoundTrips 1) overlooked_expects (by decide) rfl isCounter isKey
    (by simp [Channels.name, isChannel, maxChannelBytes]) made small

theorem startedAgain_grants :
    (publishing 7).Grants roundTripPrimitives.toStreamPrimitives .edge startedAgain := by
  refine ⟨?_, ?_, ?_, ?_, ?_, trivial⟩
  · rintro _ ⟨⟩
    exact granted_onlooker rfl rfl rfl (by decide) rfl (by decide +kernel)
  · rintro _ ⟨⟩
  · rintro _ ⟨⟩
  · rintro _ ⟨⟩
    rw [next_edgePublished]
    exact @granted_onlooker (publishing 8) _ rfl rfl rfl (by decide) rfl (by decide +kernel)
  · rintro _ ⟨⟩

theorem carriedOn_grants :
    (publishing 7).Grants roundTripPrimitives.toStreamPrimitives .edge carriedOn := by
  refine ⟨?_, ?_, ?_, ?_, ?_, trivial⟩
  · rintro _ ⟨⟩
    exact granted_onlooker rfl rfl rfl (by decide) rfl (by decide +kernel)
  · rintro _ ⟨⟩
  · rintro _ ⟨⟩
  · rintro _ ⟨⟩
    rw [next_edgePublished]
    exact granted_onlooker rfl rfl rfl (by decide) rfl (by decide +kernel)
  · rintro _ ⟨⟩

/-- The frame after the restart is not opened, though its key was granted. -/
theorem restart_unheard :
    (publishing 7).Grants roundTripPrimitives.toStreamPrimitives .edge startedAgain ∧
      ∃ final heard, Broadcast.run roundTripPrimitives.toStreamPrimitives .edge
          { relay := publishing 7 } startedAgain = .ok (final, heard) ∧
        ∃ hearing ∈ heard, ¬ hearing.Kept := by
  refine ⟨startedAgain_grants, ?_⟩
  have facts : (Broadcast.run roundTripPrimitives.toStreamPrimitives .edge
      { relay := publishing 7 } startedAgain).toOption.any
      (fun ran => ran.2.any fun hearing =>
        hearing.granted && decide (hearing.answer = .error (.outOfOrder 1 1))) = true := by
    decide +kernel
  cases ran : Broadcast.run roundTripPrimitives.toStreamPrimitives .edge
      { relay := publishing 7 } startedAgain with
  | error panic => simp [ran, Except.toOption] at facts
  | ok found =>
      obtain ⟨final, heard⟩ := found
      simp only [ran, Except.toOption, Option.any_some, List.any_eq_true, Bool.and_eq_true,
        decide_eq_true_eq] at facts
      obtain ⟨hearing, member, granted, refused⟩ := facts
      refine ⟨final, heard, rfl, hearing, member, fun kept => ?_⟩
      obtain ⟨skipped, opened⟩ := kept granted
      rw [refused] at opened
      cases opened

/-- After a rotation the second frame is opened like the first. -/
theorem restarts_heard_iff_edge :
    ∃ final heard, Broadcast.run roundTripPrimitives.toStreamPrimitives .edge
        { relay := publishing 7 } carriedOn = .ok (final, heard) ∧
      heard.length = 2 ∧ (∀ hearing ∈ heard, hearing.granted = true ∧ hearing.Kept) := by
  obtain ⟨final, heard, ran, -, carries⟩ :=
    restarts_heard_iff roundTripPrimitives.toStreamPrimitives
      (mergesStreamFrames _ rfl rfl) ⟨restartPrimitives_ideal.opens, restartPrimitives_ideal.only⟩
      (identityOf 1) (identityOf_signsForRoundTrips 1) _ _ .edge carriedOn carriedOn_grants
      (by decide)
  obtain ⟨two, each⟩ : (final, heard).2.length = 2 ∧ ∀ hearing ∈ (final, heard).2,
      hearing.granted = true ∧ hearing.sealed.length ≤ maxStreamFrameBytes :=
    holds_of_check ran (by decide +kernel)
  have kept := carries (by decide) fun hearing member => (each hearing member).2
  exact ⟨final, heard, ran, two, fun hearing member =>
    ⟨(each hearing member).1, kept hearing member⟩⟩

end WindowMlHub
