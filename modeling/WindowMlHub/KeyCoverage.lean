import WindowMlHub.StreamRestarts

/-!
# What a key covers

One run of a connector: it relays frames and now and then replaces its key.  Every frame
that it does not consume spends a counter of its channel, whether or not it can be sealed
or published.

The counters of a channel come one after another over all keys, and the current key has
those from where it starts.  A device that reads with the grant of the current key opens
whatever is sealed on the channel until the key is replaced, whichever of it the hub
delivers, and nothing that was sealed before the key was put in place.
-/

namespace WindowMlHub

open CheckedEvaluation (Checked)

/-- What a connector does with its relay: a frame of the box comes, with the nonce that
is drawn for it, or the key is replaced. -/
inductive RelayStep
  | frame (nonce : { nonce : Bytes // nonce.length = frameNonceBytes }) (batch : Bytes)
  | rotate (key : Bytes)

/-- The frame that a relay handed to the client, if it could seal one. -/
def Relaying.sealed? : Relaying → Option Bytes
  | publishes _ _ _ sealed => some sealed
  | _ => none

/-- A counter that was spent on a frame: on which channel and under which key, and the
sealed frame that it went with, if it could be sealed. -/
structure Spent where
  lane : Lane
  counter : Nat
  key : Bytes
  batch : Bytes
  sealed : Option Bytes
  deriving DecidableEq, Repr

/-- A frame that was sealed. -/
structure SealedBatch where
  counter : Nat
  batch : Bytes
  sealed : Bytes
  deriving DecidableEq, Repr

namespace Relay

variable (primitives : StreamPrimitives)

/-- The relay takes a step, and the counter that it spent on it. -/
def step (relay : Relay) : RelayStep → Relay × List Spent
  | .frame nonce batch =>
      let (after, relaying) := relay.frame primitives nonce.val batch
      match lane? batch with
      | none => (after, [])
      | some (lane, _) =>
          (after, [⟨lane, after.counter lane, after.key, batch, relaying.sealed?⟩])
  | .rotate key => (relay.rotate key, [])

/-- One step after another. -/
def run (relay : Relay) : List RelayStep → Relay × List Spent
  | [] => (relay, [])
  | step :: rest =>
      let (after, spent) := relay.step primitives step
      let (final, later) := after.run rest
      (final, spent ++ later)

end Relay

/-- Every key that replaces another has an id that was not used before. -/
def FreshKeys (primitives : StreamPrimitives) : List Bytes → List RelayStep → Prop
  | _, [] => True
  | used, .frame _ _ :: rest => FreshKeys primitives used rest
  | used, .rotate key :: rest =>
      primitives.streamKeyId key ∉ used ∧
        FreshKeys primitives (primitives.streamKeyId key :: used) rest

/-- What was spent on one channel. -/
def spentOn (lane : Lane) (spent : List Spent) : List Spent :=
  spent.filter fun one => one.lane = lane

/-- The frame that a counter went with. -/
def Spent.frame? (spent : Spent) : Option SealedBatch :=
  spent.sealed.map fun sealed => ⟨spent.counter, spent.batch, sealed⟩

/-- The frames that were sealed on one channel. -/
def sealedOn (lane : Lane) (spent : List Spent) : List SealedBatch :=
  (spentOn lane spent).filterMap Spent.frame?

/-- A device opens one frame after another. -/
def StreamReader.openAll (primitives : StreamPrimitives) (reader : StreamReader) :
    List Bytes → Checked (StreamReader × List (Except StreamError PublishedBatch))
  | [] => .ok (reader, [])
  | bytes :: rest => do
      let (after, answer) ← reader.openFrame primitives bytes
      let (final, answers) ← after.openAll primitives rest
      return (final, answer :: answers)

/-- The frame was opened, if a frame may be that long. -/
def SealedBatch.OpenedAs (frame : SealedBatch)
    (answer : Except StreamError PublishedBatch) : Prop :=
  frame.sealed.length ≤ maxStreamFrameBytes →
    ∃ skipped, answer = .ok ⟨frame.counter, skipped, frame.batch⟩

/-- The frame of this step, if it is relayed on a channel. -/
def RelayStep.relayed? (lane : Lane) : RelayStep → Option Bytes
  | .frame _ batch => if (Relay.lane? batch).map Prod.fst = some lane then some batch else none
  | .rotate _ => none

/-- The frames that were relayed on one channel. -/
def relayedOn (lane : Lane) (steps : List RelayStep) : List Bytes :=
  steps.filterMap (RelayStep.relayed? lane)

/-- The cipher takes these bytes under this key, with whatever nonce and header. -/
def StreamPrimitives.Takes (primitives : StreamPrimitives) (key batch : Bytes) : Prop :=
  ∀ nonce header, nonce.length = frameNonceBytes →
    (primitives.encrypt key nonce header batch).isSome = true

/-! ## What the counters say -/

/-- The counters of each channel were spent one after another, those under the current
key are the ones from where it starts, and no other key has its id. -/
structure Coverage (primitives : StreamPrimitives) (relay : Relay) (spent : List Spent) :
    Prop where
  counters : ∀ lane, (spentOn lane spent).map Spent.counter =
    List.range' 1 (relay.counter lane)
  current : ∀ one ∈ spent, one.key = relay.key ↔ relay.keyFrom.at one.lane ≤ one.counter
  keyFrom_le : ∀ lane, relay.keyFrom.at lane ≤ relay.counter lane + 1
  others : ∀ one ∈ spent, one.key ≠ relay.key →
    primitives.streamKeyId one.key ≠ primitives.streamKeyId relay.key

/-- The ids that were used are among these. -/
structure UsedKeys (primitives : StreamPrimitives) (used : List Bytes) (relay : Relay)
    (spent : List Spent) : Prop where
  current : primitives.streamKeyId relay.key ∈ used
  spent : ∀ one ∈ spent, primitives.streamKeyId one.key ∈ used

section Steps

variable {primitives : StreamPrimitives} {relay : Relay} {spent : List Spent}
  {used : List Bytes}

theorem Relay.step_frame (primitives : StreamPrimitives) (relay : Relay)
    (nonce : { nonce : Bytes // nonce.length = frameNonceBytes }) (batch : Bytes) :
    relay.step primitives (.frame nonce batch) = (relay, []) ∨
      ∃ lane, relay.step primitives (.frame nonce batch) = (relay.count lane,
        [⟨lane, (relay.count lane).counter lane, relay.key, batch,
          ((relay.count lane).sealBatch primitives lane nonce.val batch).toOption⟩]) := by
  simp only [Relay.step, Relay.frame]
  cases Relay.lane? batch with
  | none => exact .inl rfl
  | some found =>
      obtain ⟨lane, coalesce⟩ := found
      refine .inr ⟨lane, ?_⟩
      have sameKey : (relay.count lane).key = relay.key := by cases lane <;> rfl
      dsimp only
      cases (relay.count lane).sealBatch primitives lane nonce.val batch <;>
        simp [Relaying.sealed?, Except.toOption, sameKey]

theorem keyFrom_count (relay : Relay) (on : Lane) :
    (relay.count on).keyFrom = relay.keyFrom := by
  cases on <;> rfl

theorem key_count (relay : Relay) (on : Lane) : (relay.count on).key = relay.key := by
  cases on <;> rfl

theorem Coverage.counter_le (coverage : Coverage primitives relay spent) {one : Spent}
    (member : one ∈ spent) : one.counter ≤ relay.counter one.lane := by
  have onLane : one.counter ∈ (spentOn one.lane spent).map Spent.counter :=
    List.mem_map_of_mem (List.mem_filter.mpr ⟨member, by simp⟩)
  rw [coverage.counters, List.mem_range'_1] at onLane
  omega

/-- A frame that spends a counter is covered by the current key. -/
theorem Coverage.count (coverage : Coverage primitives relay spent) (lane : Lane)
    (batch : Bytes) (sealed : Option Bytes) :
    Coverage primitives (relay.count lane)
      (spent ++ [⟨lane, (relay.count lane).counter lane, relay.key, batch, sealed⟩]) := by
  refine ⟨fun other => ?_, fun one member => ?_, fun other => ?_, fun one member => ?_⟩
  · have before := coverage.counters other
    by_cases same : lane = other
    · subst same
      have oneMore : List.range' 1 (relay.counter lane + 1) =
          List.range' 1 (relay.counter lane) ++ [relay.counter lane + 1] := by
        rw [List.range'_concat, one_mul, Nat.add_comm 1]
      simp only [spentOn, List.filter_append, List.map_append] at before ⊢
      simp [before, Relay.counter_count, oneMore]
    · simp only [spentOn, List.filter_append, List.map_append] at before ⊢
      simp [before, same, Relay.counter_count]
  · rw [keyFrom_count, key_count]
    rcases List.mem_append.mp member with earlier | last
    · exact coverage.current one earlier
    · obtain rfl := List.mem_singleton.mp last
      have start := coverage.keyFrom_le lane
      simpa [Relay.counter_count] using start
  · have start := coverage.keyFrom_le other
    rw [keyFrom_count, Relay.counter_count]
    split <;> omega
  · rw [key_count]
    rcases List.mem_append.mp member with earlier | last
    · exact coverage.others one earlier
    · obtain rfl := List.mem_singleton.mp last
      exact fun different => absurd rfl different

/-- Nothing is covered by a key that was just put in place. -/
theorem Coverage.rotate (coverage : Coverage primitives relay spent)
    (usedKeys : UsedKeys primitives used relay spent) {key : Bytes}
    (fresh : primitives.streamKeyId key ∉ used) :
    Coverage primitives (relay.rotate key) spent := by
  have different (one : Spent) (member : one ∈ spent) :
      primitives.streamKeyId one.key ≠ primitives.streamKeyId key :=
    fun same => fresh (same ▸ usedKeys.spent one member)
  refine ⟨fun lane => ?_, fun one member => ?_, fun lane => ?_, fun one member _ => ?_⟩
  · rw [counter_rotate]
    exact coverage.counters lane
  · have counted := coverage.counter_le member
    rw [keyFrom_rotate]
    constructor
    · intro same
      exact absurd (congrArg primitives.streamKeyId same) (different one member)
    · intro covered
      omega
  · rw [counter_rotate, keyFrom_rotate]
  · exact different one member

/-- What a step does to what the counters say. -/
theorem Coverage.step (coverage : Coverage primitives relay spent)
    (usedKeys : UsedKeys primitives used relay spent) {step : RelayStep}
    {rest : List RelayStep} (fresh : FreshKeys primitives used (step :: rest)) :
    ∃ now, FreshKeys primitives now rest ∧
      UsedKeys primitives now (relay.step primitives step).1
        (spent ++ (relay.step primitives step).2) ∧
      Coverage primitives (relay.step primitives step).1
        (spent ++ (relay.step primitives step).2) := by
  cases step with
  | frame nonce batch =>
      refine ⟨used, fresh, ?_⟩
      rcases relay.step_frame primitives nonce batch with consumed | ⟨lane, counted⟩
      · rw [consumed, List.append_nil]
        exact ⟨usedKeys, coverage⟩
      · rw [counted]
        refine ⟨⟨?_, fun one member => ?_⟩, coverage.count lane batch _⟩
        · rw [key_count]
          exact usedKeys.current
        · rcases List.mem_append.mp member with earlier | last
          · exact usedKeys.spent one earlier
          · obtain rfl := List.mem_singleton.mp last
            exact usedKeys.current
  | rotate key =>
      obtain ⟨isNew, later⟩ := fresh
      simp only [Relay.step, List.append_nil]
      exact ⟨_, later, ⟨List.mem_cons_self, fun one member =>
        List.mem_cons_of_mem _ (usedKeys.spent one member)⟩, coverage.rotate usedKeys isNew⟩

theorem Coverage.run (coverage : Coverage primitives relay spent)
    (usedKeys : UsedKeys primitives used relay spent) {steps : List RelayStep}
    (fresh : FreshKeys primitives used steps) :
    Coverage primitives (relay.run primitives steps).1
      (spent ++ (relay.run primitives steps).2) := by
  induction steps generalizing relay spent used with
  | nil => simpa [Relay.run] using coverage
  | cons step rest ih =>
      obtain ⟨now, later, nowUsed, nowCovered⟩ := coverage.step usedKeys fresh
      simpa [Relay.run, List.append_assoc] using ih nowCovered nowUsed later

theorem Coverage.new (publisher : Identity) (key : Bytes) (channels : Channels) :
    Coverage primitives (.new publisher key channels) [] := by
  refine ⟨fun lane => ?_, by simp, fun lane => ?_, by simp⟩
  · cases lane <;> rfl
  · cases lane <;> exact le_rfl

theorem UsedKeys.new (publisher : Identity) (key : Bytes) (channels : Channels) :
    UsedKeys primitives [primitives.streamKeyId key] (.new publisher key channels) [] :=
  ⟨List.mem_singleton.mpr rfl, by simp⟩

theorem Relay.run_append (relay : Relay) (first second : List RelayStep) :
    relay.run primitives (first ++ second) =
      (((relay.run primitives first).1.run primitives second).1,
        (relay.run primitives first).2 ++
          ((relay.run primitives first).1.run primitives second).2) := by
  induction first generalizing relay with
  | nil => rfl
  | cons step rest ih =>
      simp only [List.cons_append, Relay.run, ih, List.append_assoc]

/-- A key never starts earlier than the one before it. -/
theorem keyFrom_le_run (primitives : StreamPrimitives) (steps : List RelayStep) (lane : Lane)
    (start : relay.keyFrom.at lane ≤ relay.counter lane + 1) :
    relay.keyFrom.at lane ≤ (relay.run primitives steps).1.keyFrom.at lane := by
  induction steps generalizing relay with
  | nil => exact le_rfl
  | cons step rest ih =>
      simp only [Relay.run]
      cases step with
      | frame nonce batch =>
          rcases relay.step_frame primitives nonce batch with consumed | ⟨on, counted⟩
          · rw [consumed]
            exact ih start
          · have later := @ih (relay.count on) (by
              rw [keyFrom_count, Relay.counter_count]
              split <;> omega)
            rw [keyFrom_count] at later
            rw [counted]
            exact later
      | rotate key =>
          have later := @ih (relay.rotate key) (by
            rw [keyFrom_rotate, counter_rotate])
          rw [keyFrom_rotate] at later
          exact le_trans start later

theorem Relay.publisher_run (primitives : StreamPrimitives) (relay : Relay)
    (steps : List RelayStep) :
    (relay.run primitives steps).1.publisher = relay.publisher := by
  induction steps generalizing relay with
  | nil => rfl
  | cons step rest ih =>
      simp only [Relay.run, ih]
      cases step with
      | rotate key => rfl
      | frame nonce batch =>
          rcases relay.step_frame primitives nonce batch with consumed | ⟨lane, spends⟩
          · rw [consumed]
          · rw [spends]
            cases lane <;> rfl

theorem Coverage.eq_of_counter_eq (coverage : Coverage primitives relay spent)
    {one other : Spent} (member : one ∈ spent) (otherMember : other ∈ spent)
    (sameLane : one.lane = other.lane) (sameCounter : one.counter = other.counter) :
    one = other := by
  have distinct : ((spentOn one.lane spent).map Spent.counter).Nodup := by
    rw [coverage.counters]
    exact List.nodup_range'
  refine List.inj_on_of_nodup_map distinct ?_ ?_ sameCounter
  · exact List.mem_filter.mpr ⟨member, by simp⟩
  · exact List.mem_filter.mpr ⟨otherMember, by simp [sameLane]⟩

/-- A counter was spent by a relay that had come to it, with a nonce that was drawn. -/
theorem Relay.spent_of_run {steps : List RelayStep} {one : Spent}
    (member : one ∈ (relay.run primitives steps).2) :
    ∃ now nonce, nonce.length = frameNonceBytes ∧ one.key = Relay.key now ∧
      one.sealed = (Relay.sealBatch primitives now one.lane nonce one.batch).toOption := by
  induction steps generalizing relay with
  | nil => simp [Relay.run] at member
  | cons step rest ih =>
      simp only [Relay.run, List.mem_append] at member
      rcases member with now | later
      · cases step with
        | rotate key => simp [Relay.step] at now
        | frame nonce batch =>
            rcases relay.step_frame primitives nonce batch with consumed | ⟨lane, counted⟩
            · simp [consumed] at now
            · rw [counted] at now
              obtain rfl := List.mem_singleton.mp now
              exact ⟨relay.count lane, nonce.val, nonce.property, (key_count relay lane).symm,
                rfl⟩
      · exact ih later

/-- Whatever was sealed names the key that it was sealed under. -/
theorem Relay.keyId_of_run {steps : List RelayStep} {one : Spent}
    (member : one ∈ (relay.run primitives steps).2) {sealed : Bytes}
    (isSealed : one.sealed = some sealed) :
    ∃ frame, sealed = primitives.encodeStreamFrame frame ∧
      frame.keyId = primitives.streamKeyId one.key := by
  obtain ⟨now, nonce, -, sameKey, outcome⟩ := Relay.spent_of_run member
  rw [isSealed] at outcome
  cases sealing : now.sealBatch primitives one.lane nonce one.batch with
  | error refusal => simp [sealing, Except.toOption] at outcome
  | ok bytes =>
      simp only [sealing, Except.toOption, Option.some.injEq] at outcome
      obtain ⟨ciphertext, -, isFrame⟩ := sealFrame_eq_ok sealing
      exact ⟨_, outcome.trans isFrame, by rw [sameKey]⟩

/-- What the cipher takes is sealed. -/
theorem Relay.sealed_of_run {steps : List RelayStep} {one : Spent}
    (member : one ∈ (relay.run primitives steps).2)
    (takes : primitives.Takes one.key one.batch) : one.sealed.isSome = true := by
  obtain ⟨now, nonce, isNonce, sameKey, outcome⟩ := Relay.spent_of_run member
  rw [sameKey] at takes
  rw [outcome, Relay.sealBatch, sealFrame]
  obtain ⟨ciphertext, encrypted⟩ := Option.isSome_iff_exists.mp (takes nonce (streamHeader
    (primitives.principalId now.publisher.publicKey) (now.channels.name one.lane)
      (primitives.streamKeyId now.key) (UInt64.ofNat (now.counter one.lane)) nonce) isNonce)
  simp only [encrypted]
  rfl

/-- Every frame that is relayed on a channel spends one of its counters. -/
theorem Relay.batches_of_run (primitives : StreamPrimitives) (relay : Relay) (lane : Lane)
    (steps : List RelayStep) :
    (spentOn lane (relay.run primitives steps).2).map Spent.batch = relayedOn lane steps := by
  induction steps generalizing relay with
  | nil => rfl
  | cons step rest ih =>
      have first : (spentOn lane (relay.step primitives step).2).map Spent.batch =
          (step.relayed? lane).toList := by
        cases step with
        | rotate key => rfl
        | frame nonce batch =>
            simp only [Relay.step, RelayStep.relayed?]
            cases Relay.lane? batch with
            | none => rfl
            | some found =>
                by_cases here : found.1 = lane <;> simp [spentOn, here]
      have later := ih (relay.step primitives step).1
      simp only [Relay.run, relayedOn, List.filterMap_cons] at later ⊢
      rw [spentOn, List.filter_append, List.map_append, ← spentOn, ← spentOn, first, later]
      cases step.relayed? lane <;> rfl

end Steps

/-! ## What a device opens -/

/-- Nothing but the key is replaced by this. -/
def RelayStep.isRotation : RelayStep → Bool
  | rotate _ => true
  | frame _ _ => false

section Reading

variable {primitives : StreamPrimitives} {relay : Relay} {lane : Lane}
  {reader : StreamReader}

/-- A device that reads the channel with the current key and is not ahead of it. -/
structure StreamReader.KeepsUp (primitives : StreamPrimitives) (relay : Relay) (lane : Lane)
    (reader : StreamReader) : Prop where
  readsFor : reader.ReadsFor (relay.grant primitives lane)
  held : reader.keys.lookup (primitives.streamKeyId relay.key) =
    some (relay.key, relay.keyFrom.at lane)
  behind : reader.last ≤ relay.counter lane
  covered : relay.keyFrom.at lane ≤ relay.counter lane + 1

theorem StreamReader.KeepsUp.count (keepsUp : reader.KeepsUp primitives relay lane)
    (on : Lane) : reader.KeepsUp primitives (relay.count on) lane := by
  have behind := keepsUp.behind
  have covered := keepsUp.covered
  refine ⟨?_, ?_, ?_, ?_⟩
  · rw [Relay.grant_count]
    exact keepsUp.readsFor
  · rw [key_count, keyFrom_count]
    exact keepsUp.held
  · rw [Relay.counter_count]
    split <;> omega
  · rw [keyFrom_count, Relay.counter_count]
    split <;> omega

theorem StreamReader.KeepsUp.new (covered : relay.keyFrom.at lane ≤ relay.counter lane + 1) :
    (StreamReader.new (relay.grant primitives lane)).KeepsUp primitives relay lane := by
  have fresh : StreamReader.ReadsFor (relay.grant primitives lane)
      { publisher := (relay.grant primitives lane).publisher
        publisherKey := (relay.grant primitives lane).publisherKey
        channel := (relay.grant primitives lane).channel } :=
    ⟨rfl, rfl, rfl⟩
  refine ⟨StreamReader.new_readsFor _, (StreamReader.lookup_addKey fresh).2.2, ?_, covered⟩
  rw [StreamReader.last_new]
  exact Nat.zero_le _

/-- The device hears the frame that a relay has just sealed. -/
theorem StreamReader.KeepsUp.hear (codes : primitives.CodesStreamFrames)
    (ideal : primitives.IdealAead)
    (signs : relay.publisher.SignsFor primitives.toKeyPrimitives)
    (keepsUp : reader.KeepsUp primitives relay lane)
    (counted : relay.counter lane + 1 < 2 ^ 64) {nonce batch sealed : Bytes}
    (isNonce : nonce.length = frameNonceBytes)
    (isSealed : (relay.count lane).sealBatch primitives lane nonce batch = .ok sealed) :
    ∃ after answer, reader.openFrame primitives sealed = .ok (after, answer) ∧
      after.KeepsUp primitives (relay.count lane) lane ∧
      SealedBatch.OpenedAs ⟨(relay.count lane).counter lane, batch, sealed⟩ answer := by
  have later := keepsUp.count lane
  have isCounter : (relay.count lane).counter lane = relay.counter lane + 1 := by
    simp [Relay.counter_count]
  have samePublisher : (relay.count lane).publisher = relay.publisher := by
    cases lane <;> rfl
  have covered := keepsUp.covered
  have behind := keepsUp.behind
  obtain ⟨after, answer, ran, outcome⟩ := reader.openFrame_spec primitives sealed
  refine ⟨after, answer, ran, ?_⟩
  rcases outcome with ⟨refusal, isRefused, rfl, rfl⟩ | ⟨counter, opened, isRead, -, rfl, rfl⟩
  · refine ⟨later, fun short => ?_⟩
    have opens := readFrame_sealed codes ideal (samePublisher ▸ signs) isNonce later.readsFor
      later.held (by rw [keyFrom_count, isCounter]; exact covered) (by omega) isSealed short
      (by omega)
    rw [isRefused] at opens
    cases opens
  · obtain ⟨short, rfl, -⟩ := counter_of_readFrame_sealed codes isSealed (by omega) isRead
    have opens := readFrame_sealed codes ideal (samePublisher ▸ signs) isNonce later.readsFor
      later.held (by rw [keyFrom_count, isCounter]; exact covered) (by omega) isSealed short
      (by omega)
    rw [opens] at isRead
    obtain ⟨-, rfl⟩ := Prod.mk.inj (Except.ok.inj isRead)
    exact ⟨⟨⟨later.readsFor.publisher_eq, later.readsFor.publisherKey_eq,
      later.readsFor.channel_eq⟩, later.held, le_rfl, later.covered⟩, fun _ => ⟨_, rfl⟩⟩

theorem sealedOn_single (lane : Lane) (counter : Nat) (key batch sealed : Bytes) :
    sealedOn lane [⟨lane, counter, key, batch,
        (Except.ok sealed : Except StreamSealError Bytes).toOption⟩] =
      [⟨counter, batch, sealed⟩] := by
  simp [sealedOn, spentOn, Spent.frame?, Except.toOption]

theorem counter_sealedOn {lane : Lane} {spent : List Spent}
    (everySealed : ∀ one ∈ spentOn lane spent, one.sealed.isSome = true) :
    (sealedOn lane spent).map SealedBatch.counter =
      (spentOn lane spent).map Spent.counter := by
  unfold sealedOn
  generalize spentOn lane spent = here at everySealed
  induction here with
  | nil => rfl
  | cons one rest ih =>
      obtain ⟨sealed, isSealed⟩ :=
        Option.isSome_iff_exists.mp (everySealed one List.mem_cons_self)
      have restSealed := ih fun other member => everySealed other (List.mem_cons_of_mem _ member)
      simp [Spent.frame?, isSealed, restSealed]

theorem sealedOn_none {lane : Lane} {one : Spent}
    (nothing : one.lane ≠ lane ∨ one.sealed = none) : sealedOn lane [one] = [] := by
  rcases nothing with elsewhere | unsealed
  · simp [sealedOn, spentOn, elsewhere]
  · by_cases here : one.lane = lane <;> simp [sealedOn, spentOn, Spent.frame?, here, unsealed]

theorem sealedOn_append (lane : Lane) (first second : List Spent) :
    sealedOn lane (first ++ second) = sealedOn lane first ++ sealedOn lane second := by
  simp [sealedOn, spentOn, List.filterMap_append]

/-- Whatever the hub delivers of what is sealed on the channel, until the key is replaced,
is opened in order. -/
theorem StreamReader.KeepsUp.run (codes : primitives.CodesStreamFrames)
    (ideal : primitives.IdealAead)
    (signs : relay.publisher.SignsFor primitives.toKeyPrimitives)
    (keepsUp : reader.KeepsUp primitives relay lane) {steps : List RelayStep}
    (onlyFrames : ∀ step ∈ steps, step.isRotation = false)
    (counted : relay.counter lane + steps.length < 2 ^ 64) {delivered : List SealedBatch}
    (among : delivered.Sublist (sealedOn lane (relay.run primitives steps).2)) :
    ∃ final answers,
      reader.openAll primitives (delivered.map SealedBatch.sealed) = .ok (final, answers) ∧
        List.Forall₂ SealedBatch.OpenedAs delivered answers := by
  induction steps generalizing relay reader delivered with
  | nil =>
      obtain rfl := List.sublist_nil.mp among
      exact ⟨reader, [], rfl, .nil⟩
  | cons step rest ih =>
      rw [List.length_cons] at counted
      have restFrames : ∀ other ∈ rest, other.isRotation = false := fun other member =>
        onlyFrames other (List.mem_cons_of_mem _ member)
      cases step with
      | rotate key => cases onlyFrames (.rotate key) List.mem_cons_self
      | frame nonce batch =>
          simp only [Relay.run, sealedOn_append] at among
          rcases relay.step_frame primitives nonce batch with consumed | ⟨on, spends⟩
          · rw [consumed] at among
            exact ih signs keepsUp restFrames (by omega) among
          · have later := keepsUp.count on
            have laterSigns : (relay.count on).publisher.SignsFor
                primitives.toKeyPrimitives := by
              cases on <;> exact signs
            have laterCounted : (relay.count on).counter lane + rest.length < 2 ^ 64 := by
              rw [Relay.counter_count]
              split <;> omega
            rw [spends] at among
            by_cases reached : on = lane
            · subst reached
              cases outcome : (relay.count on).sealBatch primitives on nonce.val batch with
              | error refusal =>
                  rw [outcome, sealedOn_none (.inr rfl), List.nil_append] at among
                  exact ih laterSigns later restFrames laterCounted among
              | ok sealed =>
                  rw [outcome, sealedOn_single, List.singleton_append] at among
                  rcases List.sublist_cons_iff.mp among with skipped | ⟨others, rfl, fewer⟩
                  · exact ih laterSigns later restFrames laterCounted skipped
                  · obtain ⟨after, answer, ran, afterKeepsUp, opened⟩ :=
                      keepsUp.hear codes ideal signs (by omega) nonce.property outcome
                    obtain ⟨final, answers, restRan, each⟩ :=
                      ih laterSigns afterKeepsUp restFrames laterCounted fewer
                    refine ⟨final, answer :: answers, ?_, .cons opened each⟩
                    simp [StreamReader.openAll, ran, restRan]
            · rw [sealedOn_none (.inl reached), List.nil_append] at among
              exact ih laterSigns later restFrames laterCounted among

theorem StreamReader.keys_openAll {frames : List Bytes} {after : StreamReader}
    {answers : List (Except StreamError PublishedBatch)}
    (ran : reader.openAll primitives frames = .ok (after, answers)) :
    after.keys = reader.keys := by
  induction frames generalizing reader answers with
  | nil =>
      obtain ⟨rfl, -⟩ := Prod.mk.inj (Except.ok.inj ran)
      rfl
  | cons bytes rest ih =>
      obtain ⟨next, answer, opened, outcome⟩ := reader.openFrame_spec primitives bytes
      have sameKeys : next.keys = reader.keys := by
        rcases outcome with ⟨-, -, rfl, -⟩ | ⟨-, -, -, -, rfl, -⟩ <;> rfl
      simp only [StreamReader.openAll, opened, CheckedEvaluation.ok_bind] at ran
      obtain ⟨⟨final, later⟩, restRan, returned⟩ := CheckedEvaluation.bind_eq_ok.mp ran
      obtain ⟨rfl, -⟩ := Prod.mk.inj (Except.ok.inj returned)
      rw [ih restRan, sameKeys]

theorem StreamReader.refused_of_lookup_eq_none (codes : primitives.CodesStreamFrames)
    {frame : StreamFrame} (absent : reader.keys.lookup frame.keyId = none) :
    ∃ refusal, reader.openFrame primitives (primitives.encodeStreamFrame frame) =
      .ok (reader, .error refusal) := by
  obtain ⟨after, answer, ran, outcome⟩ :=
    reader.openFrame_spec primitives (primitives.encodeStreamFrame frame)
  rcases outcome with ⟨refusal, -, rfl, rfl⟩ | ⟨counter, batch, isRead, -⟩
  · exact ⟨refusal, ran⟩
  · obtain ⟨found, key, fromCounter, -, reads⟩ := StreamReader.readFrame_eq_ok_iff.mp isRead
    have decoded := codes frame (lt_of_le_of_lt reads.small (by decide))
    obtain rfl := Option.some.inj (decoded.symm.trans reads.decodes)
    have held := reads.held
    rw [absent] at held
    cases held

theorem StreamReader.lookup_new {grant : Grant} {keyId : Bytes} (other : keyId ≠ grant.keyId) :
    (StreamReader.new grant).keys.lookup keyId = none := by
  have lookup := HashTables.HashMap.lookup_insert_eq ∅ grant.keyId keyId
    (grant.key, grant.fromCounter)
  rw [if_neg other] at lookup
  simpa [StreamReader.new, StreamReader.addKey] using lookup

end Reading

section Covered

variable (primitives : StreamPrimitives)

/-- A device that begins with this grant opens, in order, whatever is delivered to it of what
the relay seals on the channel before it replaces its key. -/
def Grant.OpensLater (grant : Grant) (relay : Relay) (lane : Lane)
    (steps : List RelayStep) : Prop :=
  ∀ delivered : List SealedBatch,
    delivered.Sublist (sealedOn lane (relay.run primitives steps).2) →
      ∃ final answers, (StreamReader.new grant).openAll primitives
          (delivered.map SealedBatch.sealed) = .ok (final, answers) ∧
        List.Forall₂ SealedBatch.OpenedAs delivered answers

/-- A device that begins with this grant and opens what it likes opens none of these frames,
whatever channel they are of. -/
def Grant.RefusesEarlier (grant : Grant) (spent : List Spent) : Prop :=
  ∀ opened reader answers, (StreamReader.new grant).openAll primitives opened =
      .ok (reader, answers) →
    ∀ one ∈ spent, ∀ sealed ∈ one.sealed,
      ∃ refusal, reader.openFrame primitives sealed = .ok (reader, .error refusal)

theorem FreshKeys.of_append {primitives : StreamPrimitives} {used : List Bytes}
    {first second : List RelayStep} (fresh : FreshKeys primitives used (first ++ second)) :
    FreshKeys primitives used first := by
  induction first generalizing used with
  | nil => trivial
  | cons step rest ih =>
      cases step with
      | frame nonce batch => exact @ih used fresh
      | rotate key => exact ⟨fresh.1, ih fresh.2⟩

variable {primitives}

/-- What was spent before a rotation was spent under another key than the last. -/
theorem Coverage.key_ne_of_rotated {relay : Relay} {spent : List Spent}
    (coverage : Coverage primitives relay spent) {start : Relay} {used : List Bytes}
    (starts : Coverage primitives start []) (usedKeys : UsedKeys primitives used start [])
    {earlier since : List RelayStep} {rotated : Bytes}
    (fresh : FreshKeys primitives used (earlier ++ .rotate rotated :: since))
    (ran : start.run primitives (earlier ++ .rotate rotated :: since) = (relay, spent))
    {one : Spent} (member : one ∈ (start.run primitives earlier).2) :
    one.key ≠ relay.key := by
  have before := starts.run usedKeys fresh.of_append
  rw [List.nil_append] at before
  have counted := before.counter_le member
  rw [start.run_append] at ran
  obtain ⟨isRelay, isSpent⟩ := Prod.mk.inj ran
  have starting := keyFrom_le_run primitives since one.lane
    (le_of_eq (keyFrom_rotate (start.run primitives earlier).1 rotated one.lane))
  intro same
  have covered := (coverage.current one (isSpent ▸ List.mem_append_left _ member)).mp same
  rw [keyFrom_rotate] at starting
  rw [← isRelay] at covered
  have := le_trans starting covered
  omega

theorem Coverage.refusesEarlier {relay : Relay} {spent : List Spent}
    (coverage : Coverage primitives relay spent) (codes : primitives.CodesStreamFrames)
    {start : Relay} {used : List Bytes} (starts : Coverage primitives start [])
    (usedKeys : UsedKeys primitives used start []) {earlier since : List RelayStep}
    {rotated : Bytes} (fresh : FreshKeys primitives used (earlier ++ .rotate rotated :: since))
    (ran : start.run primitives (earlier ++ .rotate rotated :: since) = (relay, spent))
    (lane : Lane) :
    (relay.grant primitives lane).RefusesEarlier primitives
      (start.run primitives earlier).2 := by
  intro opened reader answers openedAll one member sealed isSealed
  obtain ⟨frame, rfl, named⟩ := Relay.keyId_of_run member isSealed
  have spentThere : one ∈ spent := by
    rw [start.run_append] at ran
    exact (Prod.mk.inj ran).2 ▸ List.mem_append_left _ member
  have different := coverage.others one spentThere
    (coverage.key_ne_of_rotated starts usedKeys fresh ran member)
  refine reader.refused_of_lookup_eq_none codes ?_
  rw [StreamReader.keys_openAll openedAll, named]
  exact StreamReader.lookup_new different

end Covered

/-- What holds after one run of a connector: each frame that it relayed on a channel spent a
counter, one after another and each under one key, and was sealed if the cipher takes it; if
all were, the counters are those of the sealed frames; the current key has those from where it
starts; and a device that begins with a grant of the current key opens what is sealed on its
channel until the next rotation, as long as sixty-four bits can count it, and nothing that was
sealed before the last one. -/
structure Relay.KeyCovered (primitives : StreamPrimitives) (start : Relay)
    (steps : List RelayStep) (relay : Relay) (spent : List Spent) : Prop where
  batches : ∀ lane, (spentOn lane spent).map Spent.batch = relayedOn lane steps
  counters : ∀ lane, (spentOn lane spent).map Spent.counter =
    List.range' 1 (relay.counter lane)
  sealed : ∀ one ∈ spent, primitives.Takes one.key one.batch → one.sealed.isSome = true
  allSealed : ∀ lane, (∀ one ∈ spentOn lane spent, one.sealed.isSome = true) →
    (sealedOn lane spent).map SealedBatch.counter = List.range' 1 (relay.counter lane)
  oneKey : ∀ one ∈ spent, ∀ other ∈ spent, one.lane = other.lane →
    one.counter = other.counter → one.key = other.key
  current : ∀ one ∈ spent, one.key = relay.key ↔ relay.keyFrom.at one.lane ≤ one.counter
  opens : ∀ lane grant, relay.Granted primitives lane grant →
    ∀ later, (∀ step ∈ later, step.isRotation = false) →
      relay.counter lane + later.length < 2 ^ 64 →
        grant.OpensLater primitives relay lane later
  refuses : ∀ lane grant, relay.Granted primitives lane grant →
    ∀ earlier rotated since, steps = earlier ++ .rotate rotated :: since →
      grant.RefusesEarlier primitives (start.run primitives earlier).2

/-- A connector whose keys all have ids of their own covers each of its channels. -/
theorem key_coverage (primitives : StreamPrimitives)
    (codes : primitives.CodesStreamFrames) (ideal : primitives.IdealAead)
    (publisher : Identity) (signs : publisher.SignsFor primitives.toKeyPrimitives)
    (key : Bytes) (channels : Channels) (steps : List RelayStep)
    (fresh : FreshKeys primitives [primitives.streamKeyId key] steps) :
    Relay.KeyCovered primitives (.new publisher key channels) steps
      ((Relay.new publisher key channels).run primitives steps).1
      ((Relay.new publisher key channels).run primitives steps).2 := by
  have starts : Coverage primitives (.new publisher key channels) [] :=
    .new publisher key channels
  have usedKeys : UsedKeys primitives [primitives.streamKeyId key]
      (.new publisher key channels) [] :=
    .new publisher key channels
  have coverage := starts.run usedKeys fresh
  rw [List.nil_append] at coverage
  refine ⟨fun lane => Relay.batches_of_run primitives _ lane steps, coverage.counters,
    fun one => Relay.sealed_of_run, fun lane everySealed => ?_,
    fun one member other otherMember sameLane sameCounter => ?_,
    coverage.current, fun lane grant granted later onlyFrames counted delivered among => ?_,
    fun lane grant granted earlier rotated since split => ?_⟩
  · rw [← coverage.counters lane]
    exact counter_sealedOn everySealed
  · rw [coverage.eq_of_counter_eq member otherMember sameLane sameCounter]
  · obtain rfl := granted.eq
    refine StreamReader.KeepsUp.run codes ideal ?_ (.new (coverage.keyFrom_le lane))
      onlyFrames counted among
    rw [Relay.publisher_run]
    exact signs
  · obtain rfl := granted.eq
    subst split
    exact coverage.refusesEarlier codes starts usedKeys fresh rfl lane

/-- An edge of no bytes. -/
def emptyEdge : RelayStep :=
  .frame ⟨loneSealing.nonce, loneSealing.nonce_length⟩ []

/-- An edge, another key, and an edge under it. -/
def rotatedOnce : List RelayStep :=
  [emptyEdge, .rotate (List.replicate 32 8), emptyEdge]

/-- The device opens the third edge, and not the first. -/
theorem key_coverage_rotated :
    ∃ relay spent, (publishing 7).run roundTripPrimitives.toStreamPrimitives rotatedOnce =
        (relay, spent) ∧
      (sealedOn .edge spent).map SealedBatch.counter = [1, 2] ∧
      relay.Granted roundTripPrimitives.toStreamPrimitives .edge (grantOf relay) ∧
      (grantOf relay).OpensLater roundTripPrimitives.toStreamPrimitives relay .edge
        [emptyEdge] ∧
      (grantOf relay).RefusesEarlier roundTripPrimitives.toStreamPrimitives
        ((publishing 7).run roundTripPrimitives.toStreamPrimitives [emptyEdge]).2 := by
  have covered := key_coverage roundTripPrimitives.toStreamPrimitives
    (mergesStreamFrames _ rfl rfl) ⟨restartPrimitives_ideal.opens, restartPrimitives_ideal.only⟩
    (identityOf 1) (identityOf_signsForRoundTrips 1) (List.replicate 32 7) ⟨[5], [6]⟩
    rotatedOnce ⟨by decide, trivial⟩
  have granted : ((publishing 7).run roundTripPrimitives.toStreamPrimitives
      rotatedOnce).1.Granted roundTripPrimitives.toStreamPrimitives .edge
        (grantOf ((publishing 7).run roundTripPrimitives.toStreamPrimitives rotatedOnce).1) :=
    granted_onlooker rfl rfl rfl (by decide) rfl (by decide +kernel)
  have keys : (((publishing 7).run roundTripPrimitives.toStreamPrimitives
      rotatedOnce).2.all fun one => decide (one.key.length = 32)) = true := by
    decide +kernel
  refine ⟨_, _, rfl, ?_, granted, ?_, ?_⟩
  · refine (covered.allSealed .edge fun one member => ?_).trans rfl
    have among := List.mem_of_mem_filter member
    have length := of_decide_eq_true (List.all_eq_true.mp keys one among)
    refine covered.sealed one among fun nonce header _ => ?_
    simp [roundTripPrimitives, restartPrimitives, length]
  · exact covered.opens .edge _ granted [emptyEdge] (by simp [emptyEdge, RelayStep.isRotation])
      (by decide)
  · exact covered.refuses .edge _ granted [emptyEdge] _ [emptyEdge] rfl

end WindowMlHub
