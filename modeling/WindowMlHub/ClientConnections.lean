import WindowMlHub.BigEndianBytes
import WindowMlHub.CertificateIssuing
import WindowMlHub.FrameMessages
import WindowMlHub.PairingExchanges

/-!
# What reaches a client that connects

The hub joins the frames that wait for a connection into one message, as many as there are.
A client takes the first frame of a message while it connects and leaves the others; once
it is connected it takes them all.  So what shares a message with the welcome is lost.

Anywhere else it makes no difference where one message ends and the next begins, unless a
frame is too large: the client refuses the message that it is in, with whatever else that
message holds.
-/

namespace WindowMlHub

open BigEndianBytes CheckedConditions IncrementalReaders TextFormats

/-- `HELLO_LABEL`. -/
def helloLabel : Bytes :=
  asciiBytes "wmlhub/hello/v1\x00".toList

/-- The most that a client takes in one frame before it knows the hub's limits. -/
def maxHandshakeBytes : Nat := 4 * 2 ^ 20

/-- `Config`: who logs in, and which hub it expects.  `agreement` is the secret of its
agreement key. -/
structure Config where
  hubName : String
  identity : Identity
  agreement : Bytes
  chain : List Certificate
  accountRoot : Bytes
  role : Role
  invite : Bytes

/-- `ClientError`, where it concerns a connection. -/
inductive ConnectError
  | client (error : ClientError)
  | wrongHub (expected offered : String)
  deriving DecidableEq, Repr

/-- A connected client: the frames of the last message that it has not handed out, the
messages that the hub sends from here on, the frames that it sent, and the largest frame
that it takes. -/
structure ConnectedClient where
  opener : Opener
  pending : List Frame := []
  incoming : List Bytes := []
  sent : List Body := []
  maxFrame : Nat

/-- What a message is refused with. -/
def malformedMessage : ClientError :=
  .protocol "the hub sent a malformed frame"

/-- `first_frame`, with the messages that it leaves; it is still waiting if it returns
nothing. -/
def firstFrame (protobuf : FrameProtobuf) (max : Nat) :
    List Bytes → Option (Except ClientError Body × List Bytes)
  | [] => none
  | message :: incoming =>
      some <|
        match protobuf.decodeFramesShared message max with
        | .error _ => (.error malformedMessage, incoming)
        | .ok frames =>
            match frames.head?.bind Frame.body with
            | some body => (.ok body, incoming)
            | none => (.error (.protocol "the hub sent an empty frame"), incoming)

/-- `len32`. -/
def len32 (bytes : Bytes) : Bytes :=
  bigEndian 4 (min bytes.length (2 ^ 32 - 1))

/-- `hello_transcript`. -/
def helloTranscript (hub : String) (nonce principal : Bytes) (role : Role)
    (account : Bytes) : Bytes :=
  let hub := utf8Bytes hub.toList
  len32 hub ++ hub ++ len32 nonce ++ nonce ++ len32 principal ++ principal ++
    bigEndian 4 role.toInt.toNat ++ account

section Connecting

variable (primitives : SealPrimitives) (protobuf : FrameProtobuf)

/-- The hello that answers a challenge. -/
def Config.hello (config : Config) (challenge : Challenge) : Hello :=
  let principal := primitives.principalId config.identity.publicKey
  let transcript := helloTranscript config.hubName challenge.nonce principal config.role
    (primitives.accountId config.accountRoot)
  { protocol := 1
    principal
    role := config.role.toInt
    chain := config.chain
    accountRoot := config.accountRoot
    signature := config.identity.sign (helloLabel ++ transcript)
    invite := config.invite }

/-- The largest frame that a client takes from a hub that welcomed it. -/
def maxFrameAfter (welcome : Welcome) : Nat :=
  max ((welcome.limits.map AnnouncedLimits.maxFrameBytes).getD 0) (2 ^ 16)

/-- The client, once it is welcomed. -/
def Config.connected (config : Config) (challenge : Challenge) (welcome : Welcome)
    (incoming : List Bytes) : ConnectedClient where
  opener := ⟨⟨.new primitives config.identity.publicKey config.agreement config.accountRoot,
    Receiver.new_ok primitives _ _ _⟩, 0⟩
  incoming := incoming
  sent := [.hello (config.hello primitives challenge)]
  maxFrame := maxFrameAfter welcome

/-- `connect`; it is still waiting if it returns nothing. -/
def Config.connect (config : Config) (incoming : List Bytes) :
    Option (Except ConnectError ConnectedClient) :=
  match firstFrame protobuf maxHandshakeBytes incoming with
  | none => none
  | some (.error failure, _) => some (.error (.client failure))
  | some (.ok (.challenge challenge), incoming) =>
      if challenge.hub ≠ config.hubName then
        some (.error (.wrongHub config.hubName challenge.hub))
      else
        match firstFrame protobuf maxHandshakeBytes incoming with
        | none => none
        | some (.error failure, _) => some (.error (.client failure))
        | some (.ok (.welcome welcome), incoming) =>
            some (.ok (config.connected primitives challenge welcome incoming))
        | some (.ok (.error notice), _) => some (.error (.client (.refused notice)))
        | some (.ok _, _) =>
            some (.error (.client (.protocol
              "the hub must answer a hello with a welcome or an error")))
  | some (.ok _, _) =>
      some (.error (.client (.protocol "the hub's first frame must be a challenge")))

end Connecting

section Reading

variable (primitives : SealPrimitives) (protobuf : FrameProtobuf) (clock : Nat → Nat)

/-- The loop of `next`, which reads another message when it has no frame left. -/
def ConnectedClient.nextFrom (maxFrame : Nat) (opener : Opener) (sent : List Body)
    (pending : List Frame) : List Bytes → ConnectedClient × Option ClientOutcome
  | [] =>
      match opener.scan primitives clock pending with
      | (after, pongs, some (outcome, rest)) =>
          (⟨after, rest, [], sent ++ pongs, maxFrame⟩, some outcome)
      | (after, pongs, none) => (⟨after, [], [], sent ++ pongs, maxFrame⟩, none)
  | message :: incoming =>
      match opener.scan primitives clock pending with
      | (after, pongs, some (outcome, rest)) =>
          (⟨after, rest, message :: incoming, sent ++ pongs, maxFrame⟩, some outcome)
      | (after, pongs, none) =>
          match protobuf.decodeFramesShared message maxFrame with
          | .ok frames => nextFrom maxFrame after (sent ++ pongs) frames incoming
          | .error _ =>
              (⟨after, [], incoming, sent ++ pongs, maxFrame⟩,
                some (.error malformedMessage))

namespace ConnectedClient

/-- `next`; it is still waiting if it returns nothing. -/
def next (client : ConnectedClient) : ConnectedClient × Option ClientOutcome :=
  nextFrom primitives protobuf clock client.maxFrame client.opener client.sent
    client.pending client.incoming

/-- One call of `next` after another, until one waits. -/
def nexts : Nat → ConnectedClient → List ClientOutcome
  | 0, _ => []
  | calls + 1, client =>
      match client.next primitives protobuf clock with
      | (after, some outcome) => outcome :: nexts calls after
      | (_, none) => []

end ConnectedClient

/-- What the frames of a message are to `next`: each for itself, or one refusal. -/
def itemsOf (maxFrame : Nat) (message : Bytes) : List (Option Frame) :=
  match protobuf.decodeFramesShared message maxFrame with
  | .ok frames => frames.map some
  | .error _ => [none]

/-- What is still to be handed out, message by message. -/
def ConnectedClient.items (client : ConnectedClient) : List (Option Frame) :=
  client.pending.map some ++ client.incoming.flatMap (itemsOf protobuf client.maxFrame)

/-- What all later calls of `next` return. -/
def ConnectedClient.nextAll (client : ConnectedClient) : List ClientOutcome :=
  client.nexts primitives protobuf clock ((client.items protobuf).length + 1)

/-- What the calls of `next` return once a client is connected, if it does connect. -/
def Config.events (config : Config) (incoming : List Bytes) :
    Option (List ClientOutcome) :=
  match config.connect primitives protobuf incoming with
  | some (.ok client) => some (client.nextAll primitives protobuf clock)
  | _ => none

end Reading

/-! ## What the calls return -/

section Items

variable (primitives : SealPrimitives) (protobuf : FrameProtobuf) (clock : Nat → Nat)

/-- What `next` makes of a frame, or of a message that it refuses. -/
def Opener.handleItem (opener : Opener) : Option Frame → Opener × Option ClientOutcome
  | some frame => opener.handle primitives clock frame
  | none => (opener, some (.error malformedMessage))

/-- What the items make `next` return, one call after another. -/
def Opener.itemOutcomes (opener : Opener) : List (Option Frame) → List ClientOutcome
  | [] => []
  | item :: rest =>
      match opener.handleItem primitives clock item with
      | (after, some outcome) => outcome :: after.itemOutcomes rest
      | (after, none) => after.itemOutcomes rest

theorem Opener.itemOutcomes_frames (opener : Opener) (frames : List Frame)
    (items : List (Option Frame)) :
    opener.itemOutcomes primitives clock (frames.map some ++ items) =
      match opener.scan primitives clock frames with
      | (after, _, some (outcome, rest)) =>
          outcome :: after.itemOutcomes primitives clock (rest.map some ++ items)
      | (after, _, none) => after.itemOutcomes primitives clock items := by
  induction frames generalizing opener with
  | nil => rfl
  | cons frame rest ih =>
      simp only [List.map_cons, List.cons_append, itemOutcomes, handleItem, scan]
      rcases opener.handle primitives clock frame with ⟨next, _ | outcome⟩
      · simp only [ih next]
        rcases next.scan primitives clock rest with ⟨now, pongs, _ | ⟨outcome, left⟩⟩ <;> rfl
      · rfl

/-- A call of `next` returns what the first item makes that makes anything. -/
theorem ConnectedClient.nextFrom_spec (maxFrame : Nat) (opener : Opener) (sent : List Body)
    (pending : List Frame) (incoming : List Bytes) :
    ∃ after found, nextFrom primitives protobuf clock maxFrame opener sent pending incoming =
        (after, found) ∧
      match found with
      | none => opener.itemOutcomes primitives clock
          (pending.map some ++ incoming.flatMap (itemsOf protobuf maxFrame)) = []
      | some outcome =>
          opener.itemOutcomes primitives clock
              (pending.map some ++ incoming.flatMap (itemsOf protobuf maxFrame)) =
            outcome :: after.opener.itemOutcomes primitives clock (after.items protobuf) ∧
          (after.items protobuf).length <
            (pending.map some ++ incoming.flatMap (itemsOf protobuf maxFrame)).length := by
  induction incoming generalizing opener sent pending with
  | nil =>
      rw [Opener.itemOutcomes_frames]
      simp only [nextFrom, List.flatMap_nil]
      rcases scanned : opener.scan primitives clock pending with
        ⟨now, pongs, _ | ⟨outcome, rest⟩⟩
      · exact ⟨_, _, rfl, rfl⟩
      · have shorter := Opener.length_scan primitives clock scanned
        exact ⟨_, _, rfl, by simp [items], by simpa [items] using shorter⟩
  | cons message others ih =>
      rw [Opener.itemOutcomes_frames]
      simp only [nextFrom, List.flatMap_cons]
      rcases scanned : opener.scan primitives clock pending with
        ⟨now, pongs, _ | ⟨outcome, rest⟩⟩
      · cases decoded : protobuf.decodeFramesShared message maxFrame with
        | error refusal =>
            refine ⟨_, _, rfl, ?_, ?_⟩
            · simp [itemsOf, decoded, Opener.itemOutcomes, Opener.handleItem, items]
            · simp only [itemsOf, decoded, items, List.map_nil, List.nil_append,
                List.length_append, List.length_singleton]
              omega
        | ok frames =>
            obtain ⟨after, found, returned, spec⟩ := ih now (sent ++ pongs) frames
            refine ⟨after, found, returned, ?_⟩
            simp only [itemsOf, decoded]
            cases found with
            | none => exact spec
            | some outcome =>
                refine ⟨spec.1, spec.2.trans_le ?_⟩
                simp only [List.length_append]
                omega
      · have shorter := Opener.length_scan primitives clock scanned
        refine ⟨_, _, rfl, by simp [items], ?_⟩
        simp only [items, List.flatMap_cons, List.length_append, List.length_map]
        omega

theorem ConnectedClient.nexts_eq (calls : Nat) (client : ConnectedClient)
    (enough : (client.items protobuf).length < calls) :
    client.nexts primitives protobuf clock calls =
      client.opener.itemOutcomes primitives clock (client.items protobuf) := by
  induction calls generalizing client with
  | zero => omega
  | succ calls ih =>
      obtain ⟨after, found, returned, spec⟩ := nextFrom_spec primitives protobuf clock
        client.maxFrame client.opener client.sent client.pending client.incoming
      change client.next primitives protobuf clock = _ at returned
      rw [nexts, returned]
      cases found with
      | none => exact spec.symm
      | some outcome =>
          obtain ⟨outcomes, shorter⟩ := spec
          change client.opener.itemOutcomes primitives clock (client.items protobuf) = _
            at outcomes
          change _ < (client.items protobuf).length at shorter
          simp only [outcomes, ih after (by omega)]

theorem ConnectedClient.nextAll_eq (client : ConnectedClient) :
    client.nextAll primitives protobuf clock =
      client.opener.itemOutcomes primitives clock (client.items protobuf) :=
  nexts_eq primitives protobuf clock _ client (Nat.lt_succ_self _)

end Items

/-! ## The hub's messages -/

/-- The message that the hub joins these frames into. -/
def hubMessage (protobuf : FrameProtobuf) (frames : List Frame) : Bytes :=
  joinFrames (frames.map protobuf.encodeFrame)

/-- The frame is encoded to bytes that can be counted and decode to it. -/
structure FrameProtobuf.Carries (protobuf : FrameProtobuf) (frame : Frame) : Prop where
  inverts : protobuf.decodeBytes (protobuf.encodeToVec frame) = .ok frame
  counted : (protobuf.encodeToVec frame).length < 2 ^ 64

/-- The frame is no larger than so many bytes. -/
def FrameProtobuf.Within (protobuf : FrameProtobuf) (max : Nat) (frame : Frame) : Prop :=
  (protobuf.encodeToVec frame).length ≤ max

instance (protobuf : FrameProtobuf) (max : Nat) (frame : Frame) :
    Decidable (protobuf.Within max frame) :=
  inferInstanceAs (Decidable (_ ≤ _))

/-- What a frame is to `next` in a message of its own. -/
def itemOf (protobuf : FrameProtobuf) (max : Nat) (frame : Frame) : Option Frame :=
  if protobuf.Within max frame then some frame else none

/-- `next` returns when it comes to this frame: it is too large, or it is not silent. -/
def IsHeard (protobuf : FrameProtobuf) (max : Nat) (frame : Frame) : Prop :=
  ¬ protobuf.Within max frame ∨ frame.silent = false

instance (protobuf : FrameProtobuf) (max : Nat) (frame : Frame) :
    Decidable (IsHeard protobuf max frame) :=
  inferInstanceAs (Decidable (_ ∨ _))

section Messages

variable {protobuf : FrameProtobuf} {max : Nat}

/-- A frame that is read to the end with others was within the limit. -/
theorem within_of_reads (minimal : ∀ len, protobuf.lengthDelimiter len = writeVarint len)
    {frames : List Frame} (carried : ∀ frame ∈ frames, protobuf.Carries frame)
    {raws : List Bytes}
    (reads : Reads (frameItems max) ((frames.map protobuf.encodeFrame).flatten) raws []) :
    ∀ frame ∈ frames, protobuf.Within max frame := by
  induction frames generalizing raws with
  | nil => simp
  | cons frame rest ih =>
      obtain ⟨here, others⟩ := List.forall_mem_cons.mp carried
      simp only [List.map_cons, List.flatten_cons, FrameProtobuf.encodeFrame, minimal]
        at reads
      rcases reads_to_end_iff.mp reads with ⟨nothing, -⟩ |
        ⟨message, count, values, first, rfl, later⟩
      · have := readVarint_writeVarint [] here.counted
        simp only [List.append_eq_nil_iff] at nothing
        rw [nothing.1.1] at this
        cases this
      · by_cases within : protobuf.Within max frame
        · rw [readFrame_written _ within here.counted] at first
          obtain ⟨-, rfl⟩ := Prod.mk.inj (Option.some.inj (Except.ok.inj first))
          rw [List.drop_left] at later
          exact List.forall_mem_cons.mpr ⟨within, ih others later⟩
        · have found := readVarint_writeVarint
            (protobuf.encodeToVec frame ++ (rest.map protobuf.encodeFrame).flatten)
            here.counted
          rw [← List.append_assoc] at found
          rw [readFrame_of_varint found, if_pos (Nat.not_le.mp within)] at first
          cases first

theorem itemsOf_hubMessage (minimal : ∀ len, protobuf.lengthDelimiter len = writeVarint len)
    (bounded : max < 2 ^ 64) {frames : List Frame}
    (carried : ∀ frame ∈ frames, protobuf.Carries frame) :
    itemsOf protobuf max (hubMessage protobuf frames) =
      if ∀ frame ∈ frames, protobuf.Within max frame then frames.map some else [none] := by
  have decoded (within : ∀ frame ∈ frames, protobuf.Within max frame) :
      protobuf.decodeFramesShared (hubMessage protobuf frames) max = .ok frames := by
    rw [FrameProtobuf.decodeFramesShared_eq_ok_iff]
    refine ⟨_, FrameProtobuf.reads_encodeFrames bounded minimal within, ?_⟩
    rw [mapM_eq_ok, List.forall₂_map_left_iff, List.forall₂_same]
    exact fun frame member => (carried frame member).inverts
  split
  · next within => rw [itemsOf, decoded within]
  · next tooLarge =>
      rw [itemsOf]
      cases accepted : protobuf.decodeFramesShared (hubMessage protobuf frames) max with
      | error refusal => rfl
      | ok found =>
          obtain ⟨raws, reads, -⟩ := FrameProtobuf.decodeFramesShared_eq_ok_iff.mp accepted
          rw [hubMessage, joinFrames_eq_flatten] at reads
          exact absurd (within_of_reads minimal carried reads) tooLarge

end Messages

section Counting

variable (primitives : SealPrimitives) (clock : Nat → Nat)

theorem Opener.handle_of_loud {frame : Frame} (loud : frame.silent = false)
    (opener : Opener) :
    ∃ after outcome, opener.handle primitives clock frame = (after, some outcome) := by
  obtain ⟨body⟩ := frame
  rcases body with _ | body
  · exact ⟨_, _, rfl⟩
  · cases body with
    | envelope envelope =>
        obtain ⟨after, event, made, -⟩ := opener.onEnvelope_loud primitives clock loud
        exact ⟨after, .ok event, by simp [Opener.handle, made]⟩
    | ping nonce => cases loud
    | pong nonce => cases loud
    | welcome welcome => cases loud
    | challenge challenge => cases loud
    | _ => exact ⟨_, _, rfl⟩

/-- The item makes `next` return. -/
def isHeardItem : Option Frame → Bool
  | some frame => !frame.silent
  | none => true

theorem isHeardItem_itemOf (protobuf : FrameProtobuf) (max : Nat) (frame : Frame) :
    isHeardItem (itemOf protobuf max frame) = true ↔ IsHeard protobuf max frame := by
  unfold itemOf IsHeard
  split
  · next within => simp [isHeardItem, within]
  · next tooLarge => simp [isHeardItem, tooLarge]

theorem Opener.handleItem_unheard {item : Option Frame} (unheard : isHeardItem item = false)
    (opener : Opener) : opener.handleItem primitives clock item = (opener, none) := by
  cases item with
  | none => cases unheard
  | some frame =>
      exact opener.handle_silent primitives clock (by simpa [isHeardItem] using unheard)

theorem Opener.handleItem_heard {item : Option Frame} (heard : isHeardItem item = true)
    (opener : Opener) :
    ∃ after outcome, opener.handleItem primitives clock item = (after, some outcome) := by
  cases item with
  | none => exact ⟨_, _, rfl⟩
  | some frame =>
      exact opener.handle_of_loud primitives clock (by simpa [isHeardItem] using heard)

theorem Opener.length_itemOutcomes (opener : Opener) (items : List (Option Frame)) :
    (opener.itemOutcomes primitives clock items).length = items.countP isHeardItem := by
  induction items generalizing opener with
  | nil => rfl
  | cons item rest ih =>
      rw [itemOutcomes, List.countP_cons]
      cases heard : isHeardItem item with
      | false =>
          rw [handleItem_unheard primitives clock heard]
          simpa using ih opener
      | true =>
          obtain ⟨after, outcome, handled⟩ :=
            opener.handleItem_heard primitives clock heard
          rw [handled]
          simpa using ih after

theorem Opener.itemOutcomes_unheard {quiet : List (Option Frame)}
    (unheard : ∀ item ∈ quiet, isHeardItem item = false) (opener : Opener)
    (rest : List (Option Frame)) :
    opener.itemOutcomes primitives clock (quiet ++ rest) =
      opener.itemOutcomes primitives clock rest := by
  induction quiet with
  | nil => rfl
  | cons item others ih =>
      obtain ⟨here, later⟩ := List.forall_mem_cons.mp unheard
      rw [List.cons_append, itemOutcomes, handleItem_unheard primitives clock here]
      exact ih later

end Counting

/-! ## Grouping -/

/-- What is in a message is handed out as it would be frame by frame: every frame is within
the limit, or the one that is not is all there is to hear. -/
def Intact (protobuf : FrameProtobuf) (max : Nat) (message : List Frame) : Prop :=
  (∀ frame ∈ message, protobuf.Within max frame) ∨
    (message.countP fun frame => decide (IsHeard protobuf max frame)) = 1

section Grouping

variable (primitives : SealPrimitives) (protobuf : FrameProtobuf) (clock : Nat → Nat)
  (max : Nat)

/-- What the frames of a message are to `next`. -/
def groupItems (message : List Frame) : List (Option Frame) :=
  if ∀ frame ∈ message, protobuf.Within max frame then message.map some else [none]

theorem map_itemOf {message : List Frame}
    (within : ∀ frame ∈ message, protobuf.Within max frame) :
    message.map (itemOf protobuf max) = message.map some :=
  List.map_congr_left fun frame member => if_pos (within frame member)

theorem countP_itemOf (frames : List Frame) :
    (frames.map (itemOf protobuf max)).countP isHeardItem =
      frames.countP fun frame => decide (IsHeard protobuf max frame) := by
  rw [List.countP_map]
  refine List.countP_congr fun frame _ => ?_
  simpa using isHeardItem_itemOf protobuf max frame

theorem none_mem_itemOf {message : List Frame}
    (tooLarge : ¬ ∀ frame ∈ message, protobuf.Within max frame) :
    none ∈ message.map (itemOf protobuf max) := by
  push Not at tooLarge
  obtain ⟨frame, member, large⟩ := tooLarge
  exact List.mem_map.mpr ⟨frame, member, if_neg large⟩

/-- A message makes no more to hear than its frames, and as much exactly if it is intact. -/
theorem countP_groupItems (message : List Frame) :
    (groupItems protobuf max message).countP isHeardItem ≤
        (message.map (itemOf protobuf max)).countP isHeardItem ∧
      ((groupItems protobuf max message).countP isHeardItem =
          (message.map (itemOf protobuf max)).countP isHeardItem ↔
        Intact protobuf max message) := by
  unfold groupItems Intact
  split
  · next within =>
      rw [map_itemOf protobuf max within]
      exact ⟨le_rfl, fun _ => .inl within, fun _ => rfl⟩
  · next tooLarge =>
      have some : 0 < (message.map (itemOf protobuf max)).countP isHeardItem :=
        List.countP_pos_iff.mpr ⟨none, none_mem_itemOf protobuf max tooLarge, rfl⟩
      have alone : [(none : Option Frame)].countP isHeardItem = 1 := rfl
      rw [← countP_itemOf, alone]
      refine ⟨some, ⟨fun same => .inr same.symm, ?_⟩⟩
      rintro (within | single)
      · exact absurd within tooLarge
      · exact single.symm

theorem countP_messages (messages : List (List Frame)) :
    (messages.flatMap (groupItems protobuf max)).countP isHeardItem ≤
        (messages.flatten.map (itemOf protobuf max)).countP isHeardItem ∧
      ((messages.flatMap (groupItems protobuf max)).countP isHeardItem =
          (messages.flatten.map (itemOf protobuf max)).countP isHeardItem →
        ∀ message ∈ messages, Intact protobuf max message) := by
  induction messages with
  | nil => simp
  | cons message rest ih =>
      obtain ⟨most, intact⟩ := countP_groupItems protobuf max message
      simp only [List.flatMap_cons, List.flatten_cons, List.map_append, List.countP_append]
      refine ⟨by omega, fun same => List.forall_mem_cons.mpr ⟨intact.mp ?_, ih.2 ?_⟩⟩
      · have := ih.1
        omega
      · have := ih.1
        omega

theorem Opener.itemOutcomes_congr (front : List (Option Frame))
    {first second : List (Option Frame)}
    (same : ∀ opener : Opener, opener.itemOutcomes primitives clock first =
      opener.itemOutcomes primitives clock second) (opener : Opener) :
    opener.itemOutcomes primitives clock (front ++ first) =
      opener.itemOutcomes primitives clock (front ++ second) := by
  induction front generalizing opener with
  | nil => exact same opener
  | cons item rest ih =>
      simp only [List.cons_append, itemOutcomes]
      rcases opener.handleItem primitives clock item with ⟨after, _ | outcome⟩
      · exact ih after
      · exact congrArg _ (ih after)

theorem split_of_countP {items : List (Option Frame)} (single : items.countP isHeardItem = 1)
    (member : none ∈ items) :
    ∃ before after, items = before ++ none :: after ∧
      (∀ item ∈ before, isHeardItem item = false) ∧
      ∀ item ∈ after, isHeardItem item = false := by
  obtain ⟨before, after, rfl⟩ := List.append_of_mem member
  have heard : isHeardItem none = true := rfl
  rw [List.countP_append, List.countP_cons, if_pos heard] at single
  have unheard {items : List (Option Frame)} (nothing : items.countP isHeardItem = 0) :
      ∀ item ∈ items, isHeardItem item = false := by
    simpa [List.countP_eq_zero] using nothing
  exact ⟨before, after, rfl, unheard (by omega), unheard (by omega)⟩

/-- Intact messages are handed out as their frames would be. -/
theorem Opener.itemOutcomes_intact {messages : List (List Frame)}
    (intact : ∀ message ∈ messages, Intact protobuf max message) (opener : Opener) :
    opener.itemOutcomes primitives clock (messages.flatMap (groupItems protobuf max)) =
      opener.itemOutcomes primitives clock
        (messages.flatten.map (itemOf protobuf max)) := by
  induction messages generalizing opener with
  | nil => rfl
  | cons message rest ih =>
      obtain ⟨here, others⟩ := List.forall_mem_cons.mp intact
      rw [List.flatMap_cons, List.flatten_cons, List.map_append,
        itemOutcomes_congr primitives clock _ (ih others)]
      by_cases within : ∀ frame ∈ message, protobuf.Within max frame
      · rw [groupItems, if_pos within, map_itemOf protobuf max within]
      · have single := here.resolve_left within
        rw [← countP_itemOf] at single
        obtain ⟨before, after, split, quiet, quietAfter⟩ :=
          split_of_countP single (none_mem_itemOf protobuf max within)
        rw [groupItems, if_neg within, split, List.append_assoc,
          itemOutcomes_unheard primitives clock quiet, List.cons_append, List.cons_append,
          List.nil_append, itemOutcomes, itemOutcomes, handleItem]
        simp only [itemOutcomes_unheard primitives clock quietAfter]

theorem flatMap_groupItems_single (frames : List Frame) :
    (frames.map fun frame => [frame]).flatMap (groupItems protobuf max) =
      frames.map (itemOf protobuf max) := by
  induction frames with
  | nil => rfl
  | cons frame rest ih =>
      rw [List.map_cons, List.flatMap_cons, ih, List.map_cons, groupItems, itemOf]
      by_cases within : protobuf.Within max frame <;> simp [within]

end Grouping

section Connected

variable {primitives : SealPrimitives} {protobuf : FrameProtobuf} {clock : Nat → Nat}
  {config : Config} {challenge : Challenge} {welcome : Welcome} {frames : List Frame}

theorem firstFrame_hubMessage {max : Nat}
    (minimal : ∀ len, protobuf.lengthDelimiter len = writeVarint len) (bounded : max < 2 ^ 64)
    {body : Body} (carried : ∀ frame ∈ .of body :: frames, protobuf.Carries frame)
    (within : ∀ frame ∈ .of body :: frames, protobuf.Within max frame) (incoming : List Bytes) :
    firstFrame protobuf max (hubMessage protobuf (.of body :: frames) :: incoming) =
      some (.ok body, incoming) := by
  have decoded : protobuf.decodeFramesShared (hubMessage protobuf (.of body :: frames)) max =
      .ok (.of body :: frames) := by
    rw [FrameProtobuf.decodeFramesShared_eq_ok_iff]
    refine ⟨_, FrameProtobuf.reads_encodeFrames bounded minimal within, ?_⟩
    rw [mapM_eq_ok, List.forall₂_map_left_iff, List.forall₂_same]
    exact fun frame member => (carried frame member).inverts
  rw [firstFrame, decoded]
  rfl

/-- Whatever shares a message with the welcome is left behind. -/
theorem Config.events_eq (minimal : ∀ len, protobuf.lengthDelimiter len = writeVarint len)
    (isHub : challenge.hub = config.hubName) (messages : List (List Frame))
    (announced : ∀ limits ∈ welcome.limits, limits.maxFrameBytes < 2 ^ 32)
    (carried : ∀ frame ∈ .of (.challenge challenge) :: .of (.welcome welcome) ::
      (frames ++ messages.flatten), protobuf.Carries frame)
    (within : ∀ frame ∈ .of (.challenge challenge) :: .of (.welcome welcome) :: frames,
      protobuf.Within maxHandshakeBytes frame) :
    config.events primitives protobuf clock
        (([.of (.challenge challenge)] :: (.of (.welcome welcome) :: frames) :: messages).map
          (hubMessage protobuf)) =
      some ((config.connected primitives challenge welcome []).opener.itemOutcomes primitives
        clock (messages.flatMap (groupItems protobuf (maxFrameAfter welcome)))) := by
  obtain ⟨challengeCarried, later⟩ := List.forall_mem_cons.mp carried
  obtain ⟨welcomeCarried, later⟩ := List.forall_mem_cons.mp later
  obtain ⟨framesCarried, messagesCarried⟩ := List.forall_mem_append.mp later
  obtain ⟨challengeWithin, welcomeWithin⟩ := List.forall_mem_cons.mp within
  have bounded : maxFrameAfter welcome < 2 ^ 64 := by
    unfold maxFrameAfter
    cases limits : welcome.limits with
    | none => simp
    | some found =>
        have := announced found limits
        simp only [Option.map_some, Option.getD_some]
        omega
  have opening := @firstFrame_hubMessage protobuf [] maxHandshakeBytes minimal (by decide)
    (.challenge challenge) (by simpa using challengeCarried) (by simpa using challengeWithin)
  have welcoming := @firstFrame_hubMessage protobuf frames maxHandshakeBytes minimal
    (by decide) (.welcome welcome)
    (List.forall_mem_cons.mpr ⟨welcomeCarried, framesCarried⟩) welcomeWithin
  have connected : config.connect primitives protobuf
      (([.of (.challenge challenge)] :: (.of (.welcome welcome) :: frames) :: messages).map
        (hubMessage protobuf)) =
      some (.ok (config.connected primitives challenge welcome
        (messages.map (hubMessage protobuf)))) := by
    simp only [List.map_cons, Config.connect, opening, welcoming, isHub, ne_eq,
      not_true_eq_false, if_false]
  have items : (messages.map (hubMessage protobuf)).flatMap
      (itemsOf protobuf (maxFrameAfter welcome)) =
        messages.flatMap (groupItems protobuf (maxFrameAfter welcome)) := by
    rw [List.flatMap_map]
    refine List.flatMap_congr fun message member => ?_
    exact itemsOf_hubMessage minimal bounded fun frame inside =>
      messagesCarried frame (List.mem_flatten_of_mem member inside)
  rw [Config.events, connected]
  simp only [ConnectedClient.nextAll_eq, ConnectedClient.items, Config.connected, List.map_nil,
    List.nil_append, items]

end Connected

/-- However the hub joins into messages what follows the welcome, the calls of `next`
return what they would if every frame came in a message of its own, exactly if nothing that
`next` reports shares the message with the welcome, and no message has a frame that is too
large for the client beside another one that `next` reports. -/
theorem client_batching_iff (primitives : SealPrimitives) (clock : Nat → Nat)
    (protobuf : FrameProtobuf)
    (minimal : ∀ len, protobuf.lengthDelimiter len = writeVarint len) (config : Config)
    (challenge : Challenge) (isHub : challenge.hub = config.hubName) (welcome : Welcome)
    (announced : ∀ limits ∈ welcome.limits, limits.maxFrameBytes < 2 ^ 32)
    (frames : List Frame) (messages : List (List Frame))
    (carried : ∀ frame ∈ .of (.challenge challenge) :: .of (.welcome welcome) ::
      (frames ++ messages.flatten), protobuf.Carries frame)
    (within : ∀ frame ∈ .of (.challenge challenge) :: .of (.welcome welcome) :: frames,
      protobuf.Within maxHandshakeBytes frame) :
    config.events primitives protobuf clock
        (([.of (.challenge challenge)] :: (.of (.welcome welcome) :: frames) :: messages).map
          (hubMessage protobuf)) =
      config.events primitives protobuf clock
        (([.of (.challenge challenge)] :: [.of (.welcome welcome)] ::
          (frames ++ messages.flatten).map fun frame => [frame]).map (hubMessage protobuf)) ↔
      (∀ frame ∈ frames, frame.silent = true ∧
        protobuf.Within (maxFrameAfter welcome) frame) ∧
        ∀ message ∈ messages, Intact protobuf (maxFrameAfter welcome) message := by
  have alone : (([] : List Frame) ++
      ((frames ++ messages.flatten).map fun frame => [frame]).flatten) =
        frames ++ messages.flatten := by
    rw [List.nil_append, ← List.flatMap_def, List.flatMap_singleton']
  rw [Config.events_eq minimal isHub messages announced carried within,
    @Config.events_eq primitives protobuf clock config challenge welcome [] minimal isHub
      ((frames ++ messages.flatten).map fun frame => [frame]) announced
      (by rw [alone]; exact carried)
      (fun frame member => within frame (by
        simp only [List.mem_cons, List.not_mem_nil, or_false] at member
        rcases member with rfl | rfl <;> simp)),
    flatMap_groupItems_single, Option.some_inj, List.map_append]
  generalize (config.connected primitives challenge welcome []).opener = opener
  constructor
  · intro same
    have count := congrArg List.length same
    simp only [Opener.length_itemOutcomes, List.countP_append] at count
    obtain ⟨most, intact⟩ := countP_messages protobuf (maxFrameAfter welcome) messages
    have nothing : (frames.map (itemOf protobuf (maxFrameAfter welcome))).countP isHeardItem =
        0 := by
      omega
    refine ⟨fun frame member => ?_, intact (by omega)⟩
    rw [countP_itemOf, List.countP_eq_zero] at nothing
    have unheard : ¬ IsHeard protobuf (maxFrameAfter welcome) frame := by
      simpa only [decide_eq_true_eq] using nothing frame member
    rw [IsHeard, not_or, not_not, Bool.not_eq_false] at unheard
    exact unheard.symm
  · rintro ⟨quiet, intact⟩
    have unheard : ∀ item ∈ frames.map (itemOf protobuf (maxFrameAfter welcome)),
        isHeardItem item = false := by
      intro item member
      obtain ⟨frame, inside, rfl⟩ := List.mem_map.mp member
      obtain ⟨silent, small⟩ := quiet frame inside
      rw [itemOf, if_pos small, isHeardItem, silent]
      rfl
    rw [Opener.itemOutcomes_unheard primitives clock unheard,
      Opener.itemOutcomes_intact primitives protobuf clock _ intact]

/-- The generated code, as far as it is asked for a few frames, which have a byte each. -/
def byteProtobuf (known : List Frame) : FrameProtobuf where
  ProtoError := Unit
  encodeToVec frame := [UInt8.ofNat (known.idxOf frame)]
  lengthDelimiter := writeVarint
  decodeSlice bytes := (bytes.head?.bind fun byte => known[byte.toNat]?).elim (.error ()) .ok
  decodeBytes bytes := (bytes.head?.bind fun byte => known[byte.toNat]?).elim (.error ()) .ok

def batchChallenge : Challenge :=
  ⟨[7], "hub", 0⟩

def batchWelcome : Welcome :=
  ⟨1, 0, none, none, []⟩

/-- A ping and a device that comes online. -/
def batchFrames : List Frame :=
  [.of (.challenge batchChallenge), .of (.welcome batchWelcome), .of (.ping 5), cameOnline]

/-- A device that logs in to that hub. -/
def batchConfig : Config where
  hubName := "hub"
  identity := identityOf 1
  agreement := List.replicate 32 1
  chain := []
  accountRoot := List.replicate 32 0
  role := .client
  invite := []

theorem batchFrames_carried :
    ∀ frame ∈ batchFrames, (byteProtobuf batchFrames).Carries frame := by
  intro frame member
  have small : batchFrames.idxOf frame < 4 := List.idxOf_lt_length_of_mem member
  refine ⟨?_, by simp [byteProtobuf]⟩
  have byte : (UInt8.ofNat (batchFrames.idxOf frame)).toNat = batchFrames.idxOf frame := by
    rw [UInt8.toNat_ofNat']
    omega
  simp only [byteProtobuf, List.head?_cons, Option.bind_some, byte]
  rw [List.getElem?_idxOf member]
  rfl

theorem batchFrames_within (frame : Frame) (max : Nat) (positive : 0 < max) :
    (byteProtobuf batchFrames).Within max frame :=
  positive

/-- A ping beside the welcome makes no difference. -/
theorem client_batching_iff_ping :
    batchConfig.events viewPrimitives (byteProtobuf batchFrames) (fun _ => 0)
        ([[.of (.challenge batchChallenge)], [.of (.welcome batchWelcome), .of (.ping 5)],
          [cameOnline]].map (hubMessage (byteProtobuf batchFrames))) =
      batchConfig.events viewPrimitives (byteProtobuf batchFrames) (fun _ => 0)
        ([[.of (.challenge batchChallenge)], [.of (.welcome batchWelcome)], [.of (.ping 5)],
          [cameOnline]].map (hubMessage (byteProtobuf batchFrames))) := by
  refine (client_batching_iff viewPrimitives (fun _ => 0) (byteProtobuf batchFrames)
    (fun _ => rfl) batchConfig batchChallenge rfl batchWelcome (by simp [batchWelcome])
    [.of (.ping 5)] [[cameOnline]] batchFrames_carried
    fun frame _ => batchFrames_within frame _ (by decide)).mpr ⟨?_, ?_⟩
  · intro frame member
    obtain rfl := List.mem_singleton.mp member
    exact ⟨rfl, batchFrames_within _ _ (by decide)⟩
  · intro message _
    exact .inl fun frame _ => batchFrames_within frame _ (by decide)

/-- A device that is online when another logs in: the presence that shares the message with
the welcome is lost, and in a message of its own it is returned. -/
theorem welcomed_presence_lost :
    batchConfig.events viewPrimitives (byteProtobuf batchFrames) (fun _ => 0)
        ([[.of (.challenge batchChallenge)],
          [.of (.welcome batchWelcome), cameOnline]].map
            (hubMessage (byteProtobuf batchFrames))) = some [] ∧
      batchConfig.events viewPrimitives (byteProtobuf batchFrames) (fun _ => 0)
        ([[.of (.challenge batchChallenge)], [.of (.welcome batchWelcome)],
          [cameOnline]].map (hubMessage (byteProtobuf batchFrames))) =
        some [.ok (.presence ⟨[2], Role.client.toInt, true, []⟩)] := by
  have carried : ∀ frame ∈ [.of (.challenge batchChallenge), .of (.welcome batchWelcome),
      cameOnline], (byteProtobuf batchFrames).Carries frame := fun frame member =>
    batchFrames_carried frame (by
      simp only [List.mem_cons, List.not_mem_nil, or_false] at member
      simp only [batchFrames, List.mem_cons, List.not_mem_nil, or_false]
      tauto)
  constructor
  · rw [@Config.events_eq viewPrimitives (byteProtobuf batchFrames) (fun _ => 0) batchConfig
      batchChallenge batchWelcome [cameOnline] (fun _ => rfl) rfl []
      (by simp [batchWelcome]) carried
      (fun frame _ => batchFrames_within frame _ (by decide))]
    rfl
  · rw [@Config.events_eq viewPrimitives (byteProtobuf batchFrames) (fun _ => 0) batchConfig
      batchChallenge batchWelcome [] (fun _ => rfl) rfl [[cameOnline]]
      (by simp [batchWelcome]) carried
      (fun frame _ => batchFrames_within frame _ (by decide)), List.flatMap_singleton,
      groupItems, if_pos fun frame _ => batchFrames_within frame _ (by decide)]
    rfl

end WindowMlHub
