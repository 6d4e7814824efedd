import WindowMlHub.PairingSlots
import WindowMlHub.ReplayProtection

/-!
# Pairing over an authenticated connection

A device that holds a certificate asks the hub for the offer under a code, and leaves the
answer to it, over the connection that carries everything else.  The client sends the
request and takes the next event for the answer; nothing says which frame answers which
request.

So an exchange succeeds exactly when no frame that makes an event comes before the
answer.  One that does is taken for the answer and lost.
-/

namespace WindowMlHub

/-- A receiver whose window is in order, so that it can open what comes. -/
structure SoundReceiver where
  receiver : Receiver
  ok : receiver.replay.Ok

theorem Receiver.openCommand_returns (primitives : SealPrimitives) {receiver : Receiver}
    (ok : receiver.replay.Ok) (sender sealed : Bytes) (nowMs : Nat) :
    ∃ after answer, receiver.openCommand primitives sender sealed nowMs =
      .ok (after, answer) ∧ after.replay.Ok := by
  simp only [Receiver.openCommand]
  cases receiver.readCommand primitives sender sealed nowMs with
  | error refusal => exact ⟨receiver, .error refusal, rfl, ok⟩
  | ok found =>
      obtain ⟨verified, signed, body, answers⟩ := found
      obtain ⟨after, answer, checked, afterOk, -⟩ := Receiver.checkAddressing_spec ok sender
        body.sentBy body.sentTo body.nonce body.timeMs nowMs
      simp only [checked, CheckedEvaluation.ok_bind, CheckedEvaluation.pure_eq_ok]
      exact ⟨after, _, rfl, afterOk⟩

theorem Receiver.ok_of_openCommand {primitives : SealPrimitives} {receiver after : Receiver}
    (ok : receiver.replay.Ok) {sender sealed : Bytes} {nowMs : Nat}
    {answer : Except OpenError Opened}
    (ran : receiver.openCommand primitives sender sealed nowMs = .ok (after, answer)) :
    after.replay.Ok := by
  obtain ⟨other, found, returns, otherOk⟩ :=
    receiver.openCommand_returns primitives ok sender sealed nowMs
  obtain ⟨rfl, -⟩ := Prod.mk.inj (Except.ok.inj (returns.symm.trans ran))
  exact otherOk

theorem Receiver.openCommand_ne_error {primitives : SealPrimitives} {receiver : Receiver}
    (ok : receiver.replay.Ok) {sender sealed : Bytes} {nowMs : Nat}
    {panic : CheckedEvaluation.Panic}
    (ran : receiver.openCommand primitives sender sealed nowMs = .error panic) : False := by
  obtain ⟨after, answer, returns, -⟩ :=
    receiver.openCommand_returns primitives ok sender sealed nowMs
  rw [returns] at ran
  cases ran

/-- `Receiver::open`, which does not panic. -/
def SoundReceiver.openCommand (primitives : SealPrimitives) (sound : SoundReceiver)
    (sender sealed : Bytes) (nowMs : Nat) : SoundReceiver × Except OpenError Opened :=
  match ran : sound.receiver.openCommand primitives sender sealed nowMs with
  | .ok (after, answer) => (⟨after, Receiver.ok_of_openCommand sound.ok ran⟩, answer)
  | .error _ => (Receiver.openCommand_ne_error sound.ok ran).elim

/-! ## The client -/

/-- `Event`: what a client reads from the hub. -/
inductive ClientEvent
  | published (stream : StreamRef) (kind : Kind) (sender : Bytes) (seq epoch : Nat)
      (payload : Bytes)
  | command (opened : Opened)
  | result (opened : Opened)
  | unopened (sender : Bytes) (kind : Kind) (payload : Bytes) (error : OpenError)
  | presence (presence : Presence)
  | backfilled (marker : Backfilled)
  | gap (gap : Gap)
  | error (notice : ErrorNotice)
  | paired (paired : Paired)
  deriving DecidableEq, Repr

/-- `ClientError`, where it concerns an exchange. -/
inductive ClientError
  | protocol (message : String)
  | refused (notice : ErrorNotice)
  deriving DecidableEq, Repr

/-- What a call of `next` returns. -/
abbrev ClientOutcome := Except ClientError ClientEvent

/-- What a client opens messages with, and how often it has read its clock. -/
structure Opener where
  receiver : SoundReceiver
  readings : Nat := 0

/-- A connected client: the frames of the last message that it has not handed out, the
messages that the hub sends from here on, and the frames that it sent. -/
structure Client where
  opener : Opener
  pending : List Frame := []
  incoming : List (List Frame) := []
  sent : List Body := []

section Reading

variable (primitives : SealPrimitives) (clock : Nat → Nat)

/-- `on_envelope`. -/
def Opener.onEnvelope (opener : Opener) (envelope : Envelope) :
    Opener × Option ClientEvent :=
  let kind := Kind.ofInt envelope.kind
  match kind with
  | .command | .commandResult =>
      let (receiver, answer) := opener.receiver.openCommand primitives envelope.sender
        envelope.payload (clock opener.readings)
      (⟨receiver, opener.readings + 1⟩, some <|
        match answer with
        | .ok opened => if opened.answers.isSome then .result opened else .command opened
        | .error refusal => .unopened envelope.sender kind envelope.payload refusal)
  | .sessionEvents | .telemetry =>
      match envelope.sentTo with
      | some (.channel channel) =>
          (opener, some (.published ⟨envelope.sender, channel⟩ kind envelope.sender
            envelope.seq envelope.epoch envelope.payload))
      | _ => (opener, none)
  | .bulk =>
      (opener, some (.published ⟨[], []⟩ kind envelope.sender envelope.seq envelope.epoch
        envelope.payload))
  | .unspecified => (opener, none)

/-- What `next` makes of one frame. -/
def Opener.handle (opener : Opener) (frame : Frame) : Opener × Option ClientOutcome :=
  match frame.body with
  | some (.envelope envelope) =>
      let (after, event) := opener.onEnvelope primitives clock envelope
      (after, event.map .ok)
  | some (.presence presence) => (opener, some (.ok (.presence presence)))
  | some (.backfilled marker) => (opener, some (.ok (.backfilled marker)))
  | some (.gap gap) => (opener, some (.ok (.gap gap)))
  | some (.error notice) => (opener, some (.ok (.error notice)))
  | some (.ping _) => (opener, none)
  | some (.pong _) | some (.welcome _) | some (.challenge _) => (opener, none)
  | some (.paired paired) => (opener, some (.ok (.paired paired)))
  | _ => (opener, some (.error (.protocol "the hub sent a client-to-hub frame")))

/-- The pong that a ping is answered with. -/
def Frame.pong? (frame : Frame) : Option Body :=
  match frame.body with
  | some (.ping nonce) => some (.pong nonce)
  | _ => none

/-- The loop of `next` over the frames it has: the pongs it sent, and what it returns with
the frames it leaves, if one of them makes it return. -/
def Opener.scan (opener : Opener) :
    List Frame → Opener × List Body × Option (ClientOutcome × List Frame)
  | [] => (opener, [], none)
  | frame :: rest =>
      match opener.handle primitives clock frame with
      | (after, some outcome) => (after, [], some (outcome, rest))
      | (after, none) =>
          let (final, pongs, found) := after.scan rest
          (final, frame.pong?.toList ++ pongs, found)

/-- The loop of `next`, which reads another message when it has no frame left. -/
def Client.nextFrom (opener : Opener) (sent : List Body) (pending : List Frame) :
    List (List Frame) → Client × Option ClientOutcome
  | [] =>
      match opener.scan primitives clock pending with
      | (after, pongs, some (outcome, rest)) =>
          (⟨after, rest, [], sent ++ pongs⟩, some outcome)
      | (after, pongs, none) => (⟨after, [], [], sent ++ pongs⟩, none)
  | message :: incoming =>
      match opener.scan primitives clock pending with
      | (after, pongs, some (outcome, rest)) =>
          (⟨after, rest, message :: incoming, sent ++ pongs⟩, some outcome)
      | (after, pongs, none) => nextFrom after (sent ++ pongs) message incoming

namespace Client

/-- `next`; it is still waiting if it returns nothing. -/
def next (client : Client) : Client × Option ClientOutcome :=
  nextFrom primitives clock client.opener client.sent client.pending client.incoming

/-- `pairing_offered`. -/
def pairingOffered (client : Client) (codeHash : Bytes) :
    Client × Option (Except ClientError Bytes) :=
  let (after, outcome) :=
    ({ client with sent := client.sent ++ [.pairFetch codeHash] } : Client).next
      primitives clock
  (after, outcome.map fun
    | .ok (.paired paired) => .ok paired.offer
    | .ok (.error notice) => .error (.refused notice)
    | .ok _ => .error (.protocol "the hub answered a pairing fetch with something else")
    | .error failure => .error failure)

/-- `pairing_answer`. -/
def pairingAnswer (client : Client) (codeHash answer : Bytes) :
    Client × Option (Except ClientError Unit) :=
  let (after, outcome) :=
    ({ client with sent := client.sent ++ [.pairAnswer ⟨codeHash, answer⟩] } : Client).next
      primitives clock
  (after, outcome.map fun
    | .ok (.paired _) => .ok ()
    | .ok (.error notice) => .error (.refused notice)
    | .ok _ => .error (.protocol "the hub answered a pairing answer with something else")
    | .error failure => .error failure)

/-- One call of `next` after another, until one waits. -/
def nexts : Nat → Client → List ClientOutcome
  | 0, _ => []
  | calls + 1, client =>
      match client.next primitives clock with
      | (after, some outcome) => outcome :: nexts calls after
      | (_, none) => []

/-- The frames that are still to be handed out. -/
def frames (client : Client) : List Frame :=
  client.pending ++ client.incoming.flatten

/-- What all later calls of `next` return. -/
def nextAll (client : Client) : List ClientOutcome :=
  nexts primitives clock (client.frames.length + 1) client

end Client

end Reading

/-! ## The hub -/

/-- `error_frame`, with the code for what is not there. -/
def unavailable (message : String) : ErrorNotice where
  code := Code.unavailable.toInt
  ref := 0
  message := message

/-- `slot_refusal`. -/
def slotRefusal : SlotError → String
  | .full => "the hub is holding as many pairings as it will"
  | _ => "that pairing cannot be held"

/-- What the hub sends for a `PairFetch`. -/
def fetchReply : SlotReply → Body
  | .bytes offer => .paired ⟨offer, []⟩
  | _ => .error (unavailable "no pairing is waiting under that code")

/-- What the hub sends for a `PairAnswer`. -/
def answerReply : SlotReply → Body
  | .refused refusal => .error (unavailable (slotRefusal refusal))
  | _ => .paired ⟨[], []⟩

/-- The notice says no to a pairing. -/
def IsPairingRefusal (notice : ErrorNotice) : Prop :=
  notice = unavailable "no pairing is waiting under that code" ∨
    ∃ refusal, notice = unavailable (slotRefusal refusal)

/-- What the hub may send before it answers: presence, envelopes, gaps, markers, keepalives
and notices that concern something else. -/
def Frame.IsTraffic (frame : Frame) : Prop :=
  match frame.body with
  | some (.presence _) | some (.envelope _) | some (.gap _) | some (.backfilled _) => True
  | some (.ping _) | some (.pong _) => True
  | some (.error notice) => ¬ IsPairingRefusal notice
  | _ => False

/-- A frame that `next` reads over: a keepalive, part of a handshake, or an envelope of no
kind or of no channel. -/
def Frame.silent (frame : Frame) : Bool :=
  match frame.body with
  | some (.ping _) | some (.pong _) | some (.welcome _) | some (.challenge _) => true
  | some (.envelope envelope) =>
      match Kind.ofInt envelope.kind, envelope.sentTo with
      | .unspecified, _ => true
      | .sessionEvents, some (.channel _) | .telemetry, some (.channel _) => false
      | .sessionEvents, _ | .telemetry, _ => true
      | _, _ => false
  | _ => false

/-! ## What a frame does -/

section Frames

variable (primitives : SealPrimitives) (clock : Nat → Nat)

/-- A silent frame makes no event and opens nothing. -/
theorem Opener.handle_silent {frame : Frame} (silent : frame.silent = true)
    (opener : Opener) : opener.handle primitives clock frame = (opener, none) := by
  obtain ⟨body⟩ := frame
  unfold Frame.silent at silent
  unfold Opener.handle
  rcases body with _ | body
  · cases silent
  · cases body with
    | ping nonce => rfl
    | pong nonce => rfl
    | welcome welcome => rfl
    | challenge challenge => rfl
    | envelope envelope =>
        simp only [Opener.onEnvelope] at silent ⊢
        cases kind : Kind.ofInt envelope.kind with
        | unspecified => rfl
        | command => simp [kind] at silent
        | commandResult => simp [kind] at silent
        | bulk => simp [kind] at silent
        | sessionEvents =>
            rcases sentTo : envelope.sentTo with _ | (target | channel)
            · rfl
            · rfl
            · simp [kind, sentTo] at silent
        | telemetry =>
            rcases sentTo : envelope.sentTo with _ | (target | channel)
            · rfl
            · rfl
            · simp [kind, sentTo] at silent
    | _ => cases silent

/-- An envelope that is not silent makes an event of its own. -/
theorem Opener.onEnvelope_loud {envelope : Envelope}
    (loud : (Frame.of (.envelope envelope)).silent = false) (opener : Opener) :
    ∃ after event, opener.onEnvelope primitives clock envelope = (after, some event) ∧
      (∀ paired, event ≠ .paired paired) ∧ ∀ notice, event ≠ .error notice := by
  simp only [Frame.of, Frame.silent] at loud
  unfold Opener.onEnvelope
  have sealed : ∃ after event,
      (let (receiver, answer) := opener.receiver.openCommand primitives envelope.sender
        envelope.payload (clock opener.readings)
      ((⟨receiver, opener.readings + 1⟩ : Opener), some <|
        match answer with
        | .ok opened =>
            if opened.answers.isSome then ClientEvent.result opened
            else ClientEvent.command opened
        | .error refusal => ClientEvent.unopened envelope.sender (Kind.ofInt envelope.kind)
            envelope.payload refusal)) = (after, some event) ∧
      (∀ paired, event ≠ .paired paired) ∧ ∀ notice, event ≠ .error notice := by
    rcases opener.receiver.openCommand primitives envelope.sender envelope.payload
      (clock opener.readings) with ⟨receiver, refusal | opened⟩
    · exact ⟨_, _, rfl, by simp, by simp⟩
    · refine ⟨_, _, rfl, ?_⟩
      dsimp only
      split <;> simp
  cases kind : Kind.ofInt envelope.kind with
  | unspecified => simp [kind] at loud
  | command => simpa only [kind] using sealed
  | commandResult => simpa only [kind] using sealed
  | bulk => exact ⟨_, _, rfl, by simp, by simp⟩
  | sessionEvents =>
      rcases sentTo : envelope.sentTo with _ | (target | channel)
      · simp [kind, sentTo] at loud
      · simp [kind, sentTo] at loud
      · exact ⟨_, _, rfl, by simp, by simp⟩
  | telemetry =>
      rcases sentTo : envelope.sentTo with _ | (target | channel)
      · simp [kind, sentTo] at loud
      · simp [kind, sentTo] at loud
      · exact ⟨_, _, rfl, by simp, by simp⟩

/-- Traffic that is not silent makes an event that is no answer to a pairing. -/
theorem Opener.handle_loud {frame : Frame} (traffic : frame.IsTraffic)
    (loud : frame.silent = false) (opener : Opener) :
    ∃ after event, opener.handle primitives clock frame = (after, some (.ok event)) ∧
      (∀ paired, event ≠ .paired paired) ∧
        ∀ notice, event = .error notice → ¬ IsPairingRefusal notice := by
  obtain ⟨body⟩ := frame
  rcases body with _ | body
  · cases traffic
  · cases body with
    | envelope envelope =>
        obtain ⟨after, event, made, notPaired, notError⟩ :=
          opener.onEnvelope_loud primitives clock loud
        refine ⟨after, event, ?_, notPaired, fun notice same => absurd same (notError notice)⟩
        simp [Opener.handle, made]
    | presence presence => exact ⟨_, _, rfl, by simp, by simp⟩
    | backfilled marker => exact ⟨_, _, rfl, by simp, by simp⟩
    | gap gap => exact ⟨_, _, rfl, by simp, by simp⟩
    | error notice =>
        refine ⟨_, _, rfl, by simp, ?_⟩
        rintro other ⟨⟩
        exact traffic
    | ping nonce => cases loud
    | pong nonce => cases loud
    | _ => cases traffic

theorem silent_or_split (frames : List Frame) :
    (∀ frame ∈ frames, frame.silent = true) ∨
      ∃ quiet loud rest, frames = quiet ++ loud :: rest ∧
        (∀ frame ∈ quiet, frame.silent = true) ∧ loud.silent = false := by
  induction frames with
  | nil => exact .inl (by simp)
  | cons frame rest ih =>
      cases silent : frame.silent with
      | false => exact .inr ⟨[], frame, rest, rfl, by simp, silent⟩
      | true =>
          rcases ih with allSilent | ⟨quiet, loud, after, rfl, quietSilent, isLoud⟩
          · exact .inl (by simpa [silent] using allSilent)
          · exact .inr ⟨frame :: quiet, loud, after, rfl, by simpa [silent] using quietSilent,
              isLoud⟩

/-! ## What the calls return -/

/-- What the frames make `next` return, one call after another. -/
def Opener.outcomes (opener : Opener) : List Frame → List ClientOutcome
  | [] => []
  | frame :: rest =>
      match opener.handle primitives clock frame with
      | (after, some outcome) => outcome :: after.outcomes rest
      | (after, none) => after.outcomes rest

/-- The opener after these frames. -/
def Opener.after (opener : Opener) (frames : List Frame) : Opener :=
  frames.foldl (fun now frame => (now.handle primitives clock frame).1) opener

theorem Opener.outcomes_append (opener : Opener) (first second : List Frame) :
    opener.outcomes primitives clock (first ++ second) =
      opener.outcomes primitives clock first ++
        (opener.after primitives clock first).outcomes primitives clock second := by
  induction first generalizing opener with
  | nil => rfl
  | cons frame rest ih =>
      simp only [List.cons_append, outcomes, after, List.foldl_cons]
      rcases opener.handle primitives clock frame with ⟨next, _ | outcome⟩
      · exact ih next
      · rw [List.cons_append]
        exact congrArg _ (ih next)

theorem Opener.outcomes_silent {quiet : List Frame}
    (silent : ∀ frame ∈ quiet, frame.silent = true) (opener : Opener) (rest : List Frame) :
    opener.outcomes primitives clock (quiet ++ rest) =
      opener.outcomes primitives clock rest := by
  induction quiet with
  | nil => rfl
  | cons frame others ih =>
      rw [List.cons_append, outcomes,
        handle_silent primitives clock (silent frame List.mem_cons_self)]
      exact ih fun other member => silent other (List.mem_cons_of_mem _ member)

/-- The loop over some frames and then others. -/
theorem Opener.scan_append (opener : Opener) (first second : List Frame) :
    opener.scan primitives clock (first ++ second) =
      match opener.scan primitives clock first with
      | (now, pongs, some (outcome, rest)) => (now, pongs, some (outcome, rest ++ second))
      | (now, pongs, none) =>
          ((now.scan primitives clock second).1,
            pongs ++ (now.scan primitives clock second).2.1,
            (now.scan primitives clock second).2.2) := by
  induction first generalizing opener with
  | nil => rfl
  | cons frame rest ih =>
      simp only [List.cons_append, scan]
      rcases opener.handle primitives clock frame with ⟨next, _ | outcome⟩
      · simp only [ih next]
        rcases next.scan primitives clock rest with ⟨now, pongs, _ | ⟨outcome, left⟩⟩
        · simp [List.append_assoc]
        · rfl
      · rfl

theorem Opener.scan_silent {quiet : List Frame}
    (silent : ∀ frame ∈ quiet, frame.silent = true) (opener : Opener) (rest : List Frame) :
    ∃ pongs, opener.scan primitives clock (quiet ++ rest) =
      ((opener.scan primitives clock rest).1, pongs,
        (opener.scan primitives clock rest).2.2) := by
  induction quiet with
  | nil => exact ⟨_, rfl⟩
  | cons frame others ih =>
      obtain ⟨pongs, scanned⟩ :=
        ih fun other member => silent other (List.mem_cons_of_mem _ member)
      refine ⟨frame.pong?.toList ++ pongs, ?_⟩
      simp only [List.cons_append, scan,
        handle_silent primitives clock (silent frame List.mem_cons_self), scanned]

/-- Where one message ends and the next begins makes no difference to `next`. -/
theorem Client.nextFrom_spec (opener : Opener) (sent : List Body) (pending : List Frame)
    (incoming : List (List Frame)) :
    ∃ after, nextFrom primitives clock opener sent pending incoming =
        (after, (opener.scan primitives clock (pending ++ incoming.flatten)).2.2.map
          Prod.fst) ∧
      after.opener = (opener.scan primitives clock (pending ++ incoming.flatten)).1 ∧
      after.frames = ((opener.scan primitives clock (pending ++ incoming.flatten)).2.2.map
        Prod.snd).getD [] := by
  induction incoming generalizing opener sent pending with
  | nil =>
      simp only [nextFrom, List.flatten_nil, List.append_nil]
      rcases opener.scan primitives clock pending with ⟨now, pongs, _ | ⟨outcome, rest⟩⟩
      · exact ⟨_, rfl, rfl, rfl⟩
      · exact ⟨_, rfl, rfl, by simp [frames]⟩
  | cons message others ih =>
      simp only [nextFrom, List.flatten_cons, Opener.scan_append primitives clock opener]
      rcases opener.scan primitives clock pending with ⟨now, pongs, _ | ⟨outcome, rest⟩⟩
      · exact ih now (sent ++ pongs) message
      · exact ⟨_, rfl, rfl, by simp [frames]⟩

theorem Opener.outcomes_eq_scan (opener : Opener) (frames : List Frame) :
    opener.outcomes primitives clock frames =
      match opener.scan primitives clock frames with
      | (after, _, some (outcome, rest)) => outcome :: after.outcomes primitives clock rest
      | (_, _, none) => [] := by
  induction frames generalizing opener with
  | nil => rfl
  | cons frame rest ih =>
      simp only [outcomes, scan]
      rcases opener.handle primitives clock frame with ⟨next, _ | outcome⟩
      · simp only [ih next]
        rcases next.scan primitives clock rest with ⟨now, pongs, _ | ⟨outcome, left⟩⟩ <;> rfl
      · rfl

theorem Opener.length_scan {opener now : Opener} {frames rest : List Frame}
    {pongs : List Body} {outcome : ClientOutcome}
    (scanned : opener.scan primitives clock frames = (now, pongs, some (outcome, rest))) :
    rest.length < frames.length := by
  induction frames generalizing opener pongs with
  | nil => simp [scan] at scanned
  | cons frame others ih =>
      simp only [scan] at scanned
      rcases handled : opener.handle primitives clock frame with ⟨next, _ | returned⟩
      · rcases restScanned : next.scan primitives clock others with ⟨final, later, found⟩
        simp only [handled, restScanned, Prod.mk.injEq] at scanned
        obtain ⟨rfl, -, rfl⟩ := scanned
        exact (ih restScanned).trans (Nat.lt_succ_self _)
      · simp only [handled, Prod.mk.injEq, Option.some.injEq] at scanned
        obtain ⟨-, -, -, rfl⟩ := scanned
        exact Nat.lt_succ_self _

theorem Client.nexts_eq (calls : Nat) (client : Client)
    (enough : client.frames.length < calls) :
    nexts primitives clock calls client =
      client.opener.outcomes primitives clock client.frames := by
  induction calls generalizing client with
  | zero => omega
  | succ calls ih =>
      obtain ⟨after, returned, isOpener, isFrames⟩ := nextFrom_spec primitives clock
        client.opener client.sent client.pending client.incoming
      change client.next primitives clock = _ at returned
      change after.opener = (client.opener.scan primitives clock client.frames).1 at isOpener
      change after.frames = (((client.opener.scan primitives clock client.frames).2.2).map
        Prod.snd).getD [] at isFrames
      change _ = (after, ((client.opener.scan primitives clock client.frames).2.2).map
        Prod.fst) at returned
      rw [nexts, returned, Opener.outcomes_eq_scan]
      rcases scanned : client.opener.scan primitives clock client.frames with
        ⟨now, pongs, _ | ⟨outcome, rest⟩⟩
      · rfl
      · have shorter := Opener.length_scan primitives clock scanned
        simp only [scanned, Option.map_some, Option.getD_some] at isOpener isFrames ⊢
        subst isOpener isFrames
        rw [ih after (by omega)]

theorem Client.nextAll_eq (client : Client) :
    client.nextAll primitives clock = client.opener.outcomes primitives clock client.frames :=
  nexts_eq primitives clock _ client (Nat.lt_succ_self _)

theorem Client.next_eq {client : Client} {quiet rest : List Frame} {loud : Frame}
    {now : Opener} {outcome : ClientOutcome} (split : client.frames = quiet ++ loud :: rest)
    (silent : ∀ frame ∈ quiet, frame.silent = true)
    (handled : client.opener.handle primitives clock loud = (now, some outcome)) :
    ∃ after, client.next primitives clock = (after, some outcome) ∧ after.opener = now ∧
      after.frames = rest := by
  obtain ⟨after, returned, isOpener, isFrames⟩ := nextFrom_spec primitives clock
    client.opener client.sent client.pending client.incoming
  obtain ⟨pongs, scanned⟩ :=
    Opener.scan_silent primitives clock silent client.opener (loud :: rest)
  change client.pending ++ client.incoming.flatten = _ at split
  rw [split, scanned] at returned isOpener isFrames
  simp only [Opener.scan, handled] at returned isOpener isFrames
  exact ⟨after, returned, isOpener, isFrames⟩

end Frames

/-! ## Exchanges -/

section Exchanges

variable (primitives : SealPrimitives) (clock : Nat → Nat)

/-- The client with these frames to hand out. -/
def Client.reading (client : Client) (frames : List Frame) : Client :=
  { client with pending := frames, incoming := [] }

/-- A fetch answered so survives these other frames: the offer is returned, or the hub's
refusal, and the other frames make later calls return what they would have. -/
structure Client.FetchSurvives (client : Client) (codeHash : Bytes) (reply : SlotReply)
    (others : List Frame) : Prop where
  returned : (client.pairingOffered primitives clock codeHash).2 = some
    (match reply with
      | .bytes offer => .ok offer
      | _ => .error (.refused (unavailable "no pairing is waiting under that code")))
  kept : (client.pairingOffered primitives clock codeHash).1.nextAll primitives clock =
    (client.reading others).nextAll primitives clock

/-- An answer replied to so survives these other frames: it is returned as taken when the
hub took it, and the other frames make later calls return what they would have. -/
structure Client.AnswerSurvives (client : Client) (codeHash answer : Bytes)
    (reply : SlotReply) (others : List Frame) : Prop where
  returned : (client.pairingAnswer primitives clock codeHash answer).2 = some (.ok ()) ↔
    reply = .done
  kept : (client.pairingAnswer primitives clock codeHash answer).1.nextAll primitives clock =
    (client.reading others).nextAll primitives clock

theorem frames_sending (client : Client) (request : Body) :
    ({ client with sent := client.sent ++ [request] } : Client).frames = client.frames :=
  rfl

theorem frames_reading (client : Client) (frames : List Frame) :
    (client.reading frames).frames = frames := by
  simp [Client.reading, Client.frames]

theorem Opener.handle_fetchReply (opener : Opener) (reply : SlotReply) :
    opener.handle primitives clock (.of (fetchReply reply)) =
      (opener, some (.ok
        (match reply with
          | .bytes offer => .paired ⟨offer, []⟩
          | _ => .error (unavailable "no pairing is waiting under that code")))) := by
  cases reply <;> rfl

theorem Opener.handle_answerReply (opener : Opener) (reply : SlotReply) :
    opener.handle primitives clock (.of (answerReply reply)) =
      (opener, some (.ok
        (match reply with
          | .refused refusal => .error (unavailable (slotRefusal refusal))
          | _ => .paired ⟨[], []⟩))) := by
  cases reply <;> rfl

theorem kept_of_silent {client after : Client} {before rest : List Frame}
    (silent : ∀ frame ∈ before, frame.silent = true) (isOpener : after.opener = client.opener)
    (isFrames : after.frames = rest) :
    after.nextAll primitives clock =
      (client.reading (before ++ rest)).nextAll primitives clock := by
  rw [Client.nextAll_eq, Client.nextAll_eq, frames_reading, isOpener, isFrames]
  exact (Opener.outcomes_silent primitives clock silent client.opener rest).symm

theorem eq_of_moved {α : Type} {first last : α} {middle rest : List α}
    (same : middle ++ last :: rest = first :: (middle ++ rest)) : first = last := by
  induction middle generalizing first with
  | nil => exact (List.cons.inj same).1.symm
  | cons head others ih =>
      obtain ⟨rfl, moved⟩ := List.cons.inj same
      exact ih moved

variable {primitives clock}

theorem next_of_loud {client : Client} {quiet rest : List Frame} {loud : Frame}
    (split : client.frames = quiet ++ loud :: rest)
    (silent : ∀ frame ∈ quiet, frame.silent = true) (isLoud : loud.silent = false)
    (traffic : loud.IsTraffic) :
    ∃ after event, client.next primitives clock = (after, some (.ok event)) ∧
      client.opener.handle primitives clock loud = (after.opener, some (.ok event)) ∧
      after.frames = rest ∧ (∀ paired, event ≠ .paired paired) ∧
      ∀ notice, event = .error notice → ¬ IsPairingRefusal notice := by
  obtain ⟨now, event, handled, notPaired, notRefusal⟩ :=
    Opener.handle_loud primitives clock traffic isLoud client.opener
  obtain ⟨after, returned, rfl, isFrames⟩ :=
    Client.next_eq primitives clock split silent handled
  exact ⟨after, event, returned, handled, isFrames, notPaired, notRefusal⟩

theorem eq_of_kept {client after : Client} {quiet others rest : List Frame}
    {loud reply : Frame} {outcome answered : ClientOutcome}
    (silent : ∀ frame ∈ quiet, frame.silent = true)
    (handled : client.opener.handle primitives clock loud = (after.opener, some outcome))
    (isFrames : after.frames = others ++ reply :: rest)
    (replies : ∀ opener : Opener,
      opener.handle primitives clock reply = (opener, some answered))
    (kept : after.nextAll primitives clock =
      (client.reading (quiet ++ loud :: others ++ rest)).nextAll primitives clock) :
    outcome = answered := by
  have sameOpener :
      (client.reading (quiet ++ loud :: others ++ rest)).opener = client.opener := rfl
  rw [Client.nextAll_eq, Client.nextAll_eq, frames_reading, sameOpener, isFrames,
    Opener.outcomes_append, List.append_assoc, Opener.outcomes_silent _ _ silent,
    List.cons_append, Opener.outcomes, Opener.outcomes, handled, replies] at kept
  simp only [Opener.outcomes_append] at kept
  exact eq_of_moved kept

/-- A fetch survives exactly silent frames. -/
theorem fetchSurvives_iff {client : Client} {codeHash : Bytes} {reply : SlotReply}
    {before rest : List Frame} (traffic : ∀ frame ∈ before, frame.IsTraffic)
    (arrives : client.frames = before ++ .of (fetchReply reply) :: rest) :
    client.FetchSurvives primitives clock codeHash reply (before ++ rest) ↔
      ∀ frame ∈ before, frame.silent = true := by
  constructor
  · intro survives
    rcases silent_or_split before with silent | ⟨quiet, loud, others, rfl, silent, isLoud⟩
    · exact silent
    · rw [List.append_assoc, List.cons_append, ← frames_sending client (.pairFetch codeHash)]
        at arrives
      obtain ⟨after, event, returned, -, -, notPaired, notRefusal⟩ := @next_of_loud
        primitives clock _ _ _ _ arrives silent isLoud (traffic loud (by simp))
      have isReturned := survives.returned
      rw [Client.pairingOffered, returned] at isReturned
      cases event with
      | paired paired => exact absurd rfl (notPaired paired)
      | error notice =>
          have other := notRefusal notice rfl
          cases reply <;> simp at isReturned <;> exact absurd (.inl isReturned) other
      | _ => cases reply <;> simp at isReturned
  · intro silent
    rw [← frames_sending client (.pairFetch codeHash)] at arrives
    obtain ⟨after, returned, isOpener, isFrames⟩ := Client.next_eq primitives clock arrives
      silent (Opener.handle_fetchReply primitives clock client.opener reply)
    refine ⟨?_, ?_⟩
    · rw [Client.pairingOffered, returned]
      cases reply <;> rfl
    · rw [Client.pairingOffered, returned]
      exact kept_of_silent primitives clock silent isOpener isFrames

/-- Leaving an answer survives exactly silent frames. -/
theorem answerSurvives_iff {client : Client} {codeHash answer : Bytes} {reply : SlotReply}
    (noBytes : ∀ found, reply ≠ .bytes found) {before rest : List Frame}
    (traffic : ∀ frame ∈ before, frame.IsTraffic)
    (arrives : client.frames = before ++ .of (answerReply reply) :: rest) :
    client.AnswerSurvives primitives clock codeHash answer reply (before ++ rest) ↔
      ∀ frame ∈ before, frame.silent = true := by
  constructor
  · intro survives
    rcases silent_or_split before with silent | ⟨quiet, loud, others, rfl, silent, isLoud⟩
    · exact silent
    · rw [List.append_assoc, List.cons_append,
        ← frames_sending client (.pairAnswer ⟨codeHash, answer⟩)] at arrives
      obtain ⟨after, event, returned, handled, isFrames, notPaired, notRefusal⟩ := @next_of_loud
        primitives clock _ _ _ _ arrives silent isLoud (traffic loud (by simp))
      have isReturned := survives.returned
      have isKept := survives.kept
      rw [Client.pairingAnswer, returned] at isReturned isKept
      cases reply with
      | bytes found => exact absurd rfl (noBytes found)
      | done =>
          have taken := isReturned.mpr rfl
          cases event with
          | paired paired => exact absurd rfl (notPaired paired)
          | _ => simp at taken
      | refused refusal =>
          have lost := @eq_of_kept primitives clock client after quiet others rest loud _ _ _
            silent handled isFrames
            (fun opener => opener.handle_answerReply primitives clock (.refused refusal)) isKept
          exact absurd (.inr ⟨refusal, rfl⟩) (notRefusal _ (Except.ok.inj lost))
  · intro silent
    rw [← frames_sending client (.pairAnswer ⟨codeHash, answer⟩)] at arrives
    obtain ⟨after, returned, isOpener, isFrames⟩ := Client.next_eq primitives clock arrives
      silent (Opener.handle_answerReply primitives clock client.opener reply)
    refine ⟨?_, ?_⟩
    · rw [Client.pairingAnswer, returned]
      cases reply with
      | bytes found => exact absurd rfl (noBytes found)
      | done => simp
      | refused refusal => simp
    · rw [Client.pairingAnswer, returned]
      exact kept_of_silent primitives clock silent isOpener isFrames

end Exchanges

theorem Slots.answer_ne_bytes (slots : Slots) (codeHash answer : Bytes) (now : Nat)
    (found : Bytes) : (slots.answer codeHash answer now).2 ≠ .bytes found := by
  unfold Slots.answer
  split
  · simp
  · split
    · simp
    · dsimp only
      split
      · simp
      · split <;> simp

/-- What a device asks of the hub about a pairing. -/
inductive PairRequest
  | fetch (codeHash : Bytes)
  | answer (codeHash content : Bytes)
  deriving DecidableEq, Repr

/-- What the hub sends for the request, by what its slots say. -/
def PairRequest.reply (slots : Slots) (now : Nat) : PairRequest → Body
  | fetch codeHash => fetchReply (slots.offered codeHash now).2
  | answer codeHash content => answerReply (slots.answer codeHash content now).2

/-- The exchange survives these other frames. -/
def PairRequest.Survives (primitives : SealPrimitives) (clock : Nat → Nat) (slots : Slots)
    (now : Nat) (client : Client) (others : List Frame) : PairRequest → Prop
  | fetch codeHash =>
      client.FetchSurvives primitives clock codeHash (slots.offered codeHash now).2 others
  | answer codeHash content =>
      client.AnswerSurvives primitives clock codeHash content
        (slots.answer codeHash content now).2 others

/-- An exchange with the hub survives what the hub sends before it answers exactly when all
of that is silent. -/
theorem pairing_exchange_iff (primitives : SealPrimitives) (clock : Nat → Nat)
    (client : Client) (request : PairRequest) (slots : Slots) (now : Nat)
    (before rest : List Frame) (traffic : ∀ frame ∈ before, frame.IsTraffic)
    (arrives : client.frames = before ++ .of (request.reply slots now) :: rest) :
    request.Survives primitives clock slots now client (before ++ rest) ↔
      ∀ frame ∈ before, frame.silent = true := by
  cases request with
  | fetch codeHash =>
      have offers : client.frames = before ++ .of (fetchReply (slots.offered codeHash now).2) ::
        rest := arrives
      exact fetchSurvives_iff traffic offers
  | answer codeHash content =>
      have replies : client.frames = before ++
        .of (answerReply (slots.answer codeHash content now).2) :: rest := arrives
      exact answerSurvives_iff (slots.answer_ne_bytes codeHash content now) traffic replies

/-! ## A device that comes online -/

/-- The hash of a code. -/
def pairingCode : Bytes := List.replicate 32 7

/-- An offer of one byte under it. -/
def pairingSlots : Slots := ((⟨∅⟩ : Slots).offer pairingCode [1] 0).1

/-- Another device of the account comes online. -/
def cameOnline : Frame := .of (.presence ⟨[2], Role.client.toInt, true, []⟩)

/-- A client that is sent this and then the offer, message by message. -/
def offeredAfter (frame : Frame) : Client where
  opener := ⟨⟨.new viewPrimitives (List.replicate 32 2) []
    (List.replicate 32 0), Receiver.new_ok _ _ _ _⟩, 0⟩
  incoming := [[frame], [.of ((PairRequest.fetch pairingCode).reply pairingSlots 0)]]

/-- The fetch is told that the hub answered with something else. -/
theorem pairing_disturbed :
    (∀ frame ∈ [cameOnline], frame.IsTraffic) ∧
      (offeredAfter cameOnline).frames = [cameOnline] ++
        .of ((PairRequest.fetch pairingCode).reply pairingSlots 0) :: [] ∧
      ¬ (PairRequest.fetch pairingCode).Survives viewPrimitives
        (fun _ => 200000) pairingSlots 0 (offeredAfter cameOnline) ([cameOnline] ++ []) := by
  refine ⟨by simp [cameOnline, Frame.of, Frame.IsTraffic], rfl, fun survives => ?_⟩
  have fetched : (offeredAfter cameOnline).FetchSurvives viewPrimitives (fun _ => 200000)
      pairingCode (pairingSlots.offered pairingCode 0).2 ([cameOnline] ++ []) :=
    survives
  have returned := fetched.returned
  have refused : ((offeredAfter cameOnline).pairingOffered viewPrimitives
      (fun _ => 200000) pairingCode).2 =
        some (.error (.protocol "the hub answered a pairing fetch with something else")) :=
    rfl
  have offered : (pairingSlots.offered pairingCode 0).2 = .bytes [1] := by decide +kernel
  rw [refused, offered] at returned
  simp at returned

/-- A ping before the offer does not disturb the fetch. -/
theorem pairing_exchange_iff_ping :
    (PairRequest.fetch pairingCode).Survives viewPrimitives
        (fun _ => 200000) pairingSlots 0 (offeredAfter (.of (.ping 1)))
        ([.of (.ping 1)] ++ []) :=
  (pairing_exchange_iff _ _ _ (.fetch pairingCode) pairingSlots 0 [.of (.ping 1)] []
    (by simp [Frame.of, Frame.IsTraffic]) rfl).mpr (by simp [Frame.of, Frame.silent])

end WindowMlHub
