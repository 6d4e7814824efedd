import WindowMlHub.RelayProvenance
import WindowMlHub.RelayQueueBounds

/-!
# Envelopes in the announced limit

`max_frame_bytes` is the largest encoded frame that the relay accepts, and what it announces
that it sends.  It checks what it receives, and then writes the sender's principal into an
envelope, and on a stream the number and the epoch that the ring gives it.  Nothing makes
room for these: the limits are accepted as soon as a payload by itself is smaller than a
frame.

Of what is sent everything fits if each envelope that is passed on leaves the room that the
relay's own fields take.  Limits under which the largest envelope leaves it, such as the
default ones, keep every run within the limit.
-/

namespace WindowMlHub

open CheckedEvaluation HashTables

/-- What the sender decides of an envelope as it is passed on: a coalesce key is for
telemetry only. -/
def Envelope.sentLength (env : Envelope) : Nat :=
  (env.sentTo.map Protobuf.sentTo).getD 0 + Protobuf.enum env.kind +
    (if Kind.ofInt env.kind = .telemetry then Protobuf.bytes env.coalesce else 0) +
    Protobuf.uint env.ref + Protobuf.bytes env.payload

/-- The largest epoch that a ring is given. -/
def maxEpoch : Nat :=
  2 ^ 53 - 1

/-- What the relay writes into an envelope of this principal: the principal itself, and for a
channel the next number and the epoch of its stream, or any epoch if it has no ring yet. -/
def Hub.addedLength (hub : Hub) (account : AccountId) (principal : Bytes) :
    Option To → Nat
  | some (.channel channel) =>
      Protobuf.bytes principal +
        Protobuf.uint (hub.newestSeq account ⟨principal, channel⟩ + 1) +
        Protobuf.uint (((hub.ring? account ⟨principal, channel⟩).map (·.epoch)).getD maxEpoch)
  | some (.principal _) | none => Protobuf.bytes principal

/-- An envelope that is passed on: to a stream that carries no other kind and that the
account has or makes room for, or to a principal that is online. -/
structure Envelope.PassedOn (env : Envelope) (limits : Limits) (acct : Account)
    (sender : Bytes) : Prop where
  fits : env.Fits limits
  routed : (∃ channel, env.sentTo = some (.channel channel) ∧
      (Kind.ofInt env.kind).Streamed ∧ acct.RoomFor limits ⟨sender, channel⟩ ∧
      ∀ ring ∈ acct.ring? ⟨sender, channel⟩, ring.kind = Kind.ofInt env.kind) ∨
    ∃ target, env.sentTo = some (.principal target) ∧ target ∈ acct.online ∧
      (Kind.ofInt env.kind).Directed

/-- What is received in this call leaves room in a frame for what the relay adds to it, and
what the server delivers fits as it is. -/
structure Step.LeavesRoom (step : Step) : Prop where
  received : ∀ {account conn peer env},
    step.call = .receive conn (.of (.envelope env)) →
    step.before.conn? account conn = some peer →
    env.PassedOn step.before.limits (step.before.record account) peer.principal →
      Protobuf.delimited (env.sentLength +
        step.before.addedLength account peer.principal env.sentTo) ≤
        step.before.limits.maxFrameBytes
  delivered : step.call.DeliversOnly fun frame => ∀ env, frame.envelope? = some env →
    Protobuf.body (.envelope env) ≤ step.before.limits.maxFrameBytes

/-- Every envelope that the relay holds takes at most so many bytes, without its length
prefix. -/
structure Hub.EnvelopesWithin (hub : Hub) (most : Nat) : Prop where
  queued : ∀ {account id c item env}, hub.conn? account id = some c → item ∈ c.out.items →
    item.wire.envelope? = some env → Protobuf.body (.envelope env) ≤ most
  retained : ∀ {account key ring entry env}, hub.ring? account key = some ring →
    entry ∈ ring.entries → entry.wire.envelope? = some env →
      Protobuf.body (.envelope env) ≤ most

/-! ## What an envelope takes once it is passed on -/

theorem Envelope.length_fromSender (env : Envelope) (sender : Bytes) (seq epoch : Nat) :
    Protobuf.envelope { env.fromSender sender with seq := seq, epoch := epoch } =
      env.sentLength + (Protobuf.bytes sender + Protobuf.uint seq + Protobuf.uint epoch) := by
  have coalesce : Protobuf.bytes (if Kind.ofInt env.kind = .telemetry then env.coalesce else []) =
      if Kind.ofInt env.kind = .telemetry then Protobuf.bytes env.coalesce else 0 := by
    split <;> rfl
  simp only [Protobuf.envelope, sentLength, fromSender, coalesce]
  omega

section Calls

variable [Codec] {step : Step} {account : AccountId} {call : Call} {key : StreamKey}
  {ring : Ring} {conn target : ConnId} {peer : Conn} {principal : Bytes} {env : Envelope}

omit [Codec] in
theorem Publishing.isKey {hub : Hub} {rings : StreamKey → Option Ring}
    (publishing : Publishing hub rings account call key ring conn peer env) :
    (⟨peer.principal, key.channel⟩ : StreamKey) = key := by
  rw [publishing.publisher_eq]

omit [Codec] in
theorem Publishing.carries_no_other {hub : Hub} {rings : StreamKey → Option Ring}
    (publishing : Publishing hub rings account call key ring conn peer env) :
    ∀ other ∈ (hub.record account).ring? ⟨peer.principal, key.channel⟩,
      other.kind = Kind.ofInt env.kind := by
  rw [publishing.isKey]
  intro other found
  rcases publishing.origin with same | ⟨missing, -⟩
  · cases same.symm.trans found
    exact publishing.kind_eq
  · cases missing.symm.trans found

omit [Codec] in
theorem Publishing.length_eq {hub : Hub} {rings : StreamKey → Option Ring}
    (publishing : Publishing hub rings account call key ring conn peer env)
    (found : hub.ring? account key = some ring) :
    Protobuf.body (.envelope (ring.stamped (env.fromSender peer.principal))) =
      Protobuf.delimited (env.sentLength +
        hub.addedLength account peer.principal env.sentTo) := by
  rw [Protobuf.body, Ring.stamped, Envelope.length_fromSender, publishing.addressed,
    Hub.addedLength, publishing.isKey]
  simp [Hub.newestSeq, found]

omit [Codec] in
theorem Publishing.length_le {hub : Hub} {rings : StreamKey → Option Ring}
    (publishing : Publishing hub rings account call key ring conn peer env) :
    Protobuf.body (.envelope (ring.stamped (env.fromSender peer.principal))) ≤
      Protobuf.delimited (env.sentLength +
        hub.addedLength account peer.principal env.sentTo) := by
  rcases publishing.origin with found | ⟨missing, fresh⟩
  · exact (publishing.length_eq found).le
  · rw [Protobuf.body, Ring.stamped, Envelope.length_fromSender, publishing.addressed,
      Hub.addedLength, publishing.isKey]
    have atMost := Protobuf.uint_mono (show ring.epoch ≤ maxEpoch from fresh.epoch_le)
    simp only [Hub.newestSeq, missing, fresh.seq_eq, Option.map_none, Option.getD_none]
    exact Protobuf.delimited_mono (by omega)

omit [Codec] in
theorem Directing.length_eq {hub : Hub}
    (directing : Directing hub account call target principal conn peer env) :
    Protobuf.body (.envelope (env.fromSender peer.principal)) =
      Protobuf.delimited (env.sentLength +
        hub.addedLength account peer.principal env.sentTo) := by
  rw [Protobuf.body, directing.addressed, Hub.addedLength]
  exact congrArg _ (env.length_fromSender peer.principal 0 0)

/-- Envelopes that take at most so many bytes. -/
def withinOrigins (most : Nat) (_ : AccountId) : Origins where
  published _ env := Protobuf.body (.envelope env) ≤ most
  direct _ env := Protobuf.body (.envelope env) ≤ most

variable {head tail : List Event} {fx fx' : Effects} {id : ConnId} {c : Conn}

theorem Step.LeavesRoom.stamps (room : step.LeavesRoom)
    (heads : Heads step.order step.before account fx (step.after.ring? account) step.call
      step.reply head)
    (departures : ∀ event ∈ tail, ∃ other principal role, event = .left other principal role)
    (event : Event) (member : event ∈ head ++ tail) :
    event.Stamps (withinOrigins step.before.limits.maxFrameBytes account) := by
  intro key ring env isPublished
  subst isPublished
  obtain ⟨-, conn, peer, original, rfl, publishing⟩ := heads.published_eq
    (Event.mem_head departures member (fun _ _ _ absurdity => by cases absurdity))
  have passedOn : original.PassedOn step.before.limits (step.before.record account)
      peer.principal :=
    ⟨publishing.fits, Or.inl ⟨_, publishing.addressed,
      publishing.kind_eq ▸ publishing.streamed, publishing.isKey ▸ publishing.room,
      publishing.carries_no_other⟩⟩
  exact ⟨publishing.streamed, ⟨rfl, publishing.publisher_eq, publishing.addressed,
    publishing.kind_eq.symm, rfl, rfl, rfl⟩,
    publishing.length_le.trans (room.received publishing.call_eq publishing.found passedOn)⟩

/-- What a call offers to a connection fits. -/
theorem Step.LeavesRoom.offers (room : step.LeavesRoom)
    (heads : Heads step.order step.before account fx (step.after.ring? account) step.call
      step.reply head)
    (departures : ∀ event ∈ tail, ∃ other principal role, event = .left other principal role)
    (event : Event) (member : event ∈ head ++ tail) (owner : Bytes) :
    event.Sourced (withinOrigins step.before.limits.maxFrameBytes account) id owner := by
  refine ⟨?_, room.stamps heads departures event member⟩
  intro frame isFrame env carried
  subst isFrame
  rcases heads.frame_eq
      (Event.mem_head departures member (fun _ _ _ absurdity => by cases absurdity)) with
    plain | delivered | ⟨principal, conn, peer, original, rfl, directing⟩
  · rw [plain.envelope] at carried
    cases carried
  · have fits := room.delivered
    rw [delivered] at fits
    exact fits env carried
  · obtain ⟨role, online⟩ := directing.online
    have passedOn : original.PassedOn step.before.limits (step.before.record account)
        peer.principal :=
      ⟨directing.fits, Or.inr ⟨principal, directing.addressed,
        HashMap.mem_of_lookup online, directing.directed⟩⟩
    cases carried
    exact directing.length_eq.trans_le
      (room.received directing.call_eq directing.found passedOn)

end Calls

theorem Hub.SourcedIn.envelopesWithin [Codec] {hub : Hub} {most : Nat}
    (sourced : hub.SourcedIn (withinOrigins most)) : hub.EnvelopesWithin most := by
  have ofEntry {entry : Entry} {key : StreamKey} {kind : Kind} {epoch : Nat}
      {known env : Envelope} (carries : entry.Carries key kind epoch known)
      (carried : entry.wire.envelope? = some env) : known = env := by
    simpa [carries.wire_eq, Frame.of, Frame.envelope?] using carried
  constructor
  · intro account id c item env found member carried
    cases (sourced.conns found).items item member with
    | loose direct => exact direct env carried
    | published streamed carries fits => exact ofEntry carries carried ▸ fits
  · intro account key ring entry env found member carried
    obtain ⟨-, known, carries, fits⟩ := (sourced.rings account key ring found).entries entry member
    exact ofEntry carries carried ▸ fits

theorem Run.envelopesWithin [Codec] {start hub : Hub} {steps : List Step}
    (run : Run start steps hub) (ok : start.Ok) (empty : start.accounts = ∅)
    (room : ∀ step ∈ steps, step.LeavesRoom) :
    hub.EnvelopesWithin start.limits.maxFrameBytes := by
  apply Hub.SourcedIn.envelopesWithin
  refine run.induct (fun _ hub => hub.SourcedIn (withinOrigins start.limits.maxFrameBytes)) ok
    (Hub.sourcedIn_empty empty _) ?_
  intro earlier step before beforeOk afterOk effect member sourced
  have leaves := room step member
  rw [← before.limits_eq ok] at sourced ⊢
  exact effect.sourcedIn beforeOk afterOk
    (fun heads departures _ => leaves.stamps heads departures)
    (fun heads departures _ _ event among => leaves.offers heads departures event among _)
    sourced

/-! ## Limits that leave room -/

/-- Every connection's principal is as short as the limits ask. -/
def Hub.ShortIds (hub : Hub) : Prop :=
  ∀ account id c, hub.conn? account id = some c → c.principal.length ≤ hub.limits.maxIdBytes

/-- A frame has room for the largest envelope that the other limits allow, with an address
and a sender, and with three numbers of any size. -/
def Limits.LeavesRoom (limits : Limits) : Prop :=
  Protobuf.delimited (Protobuf.delimited limits.maxIdBytes + 2 +
    Protobuf.delimited limits.maxCoalesceBytes + 11 + Protobuf.delimited limits.maxPayloadBytes +
      (Protobuf.delimited limits.maxIdBytes + 11 + 11)) ≤ limits.maxFrameBytes

instance (limits : Limits) : Decidable limits.LeavesRoom :=
  inferInstanceAs (Decidable (_ ≤ _))

theorem Protobuf.bytes_le_delimited {value : Bytes} {most : Nat} (short : value.length ≤ most) :
    bytes value ≤ delimited most := by
  unfold bytes
  split
  · exact Nat.zero_le _
  · exact delimited_mono short

theorem Protobuf.enum_le_two {number : Int} (known : Kind.ofInt number ≠ .unspecified) :
    enum number ≤ 2 := by
  unfold Kind.ofInt at known
  split at known
  all_goals first | decide | exact (known rfl).elim

section Room

variable [Codec] {step : Step} {hub hub' start : Hub} {steps : List Step}

theorem Hub.refuseHello_of_admitted {order : HashOrder} {account : AccountId} {hello : Hello}
    {nowMs monoMs : Nat} {revoker : Revoker} {id : ConnId} {actions : List Action}
    (ran : hub.apply order (.connect account hello nowMs monoMs revoker) =
      .ok (hub', .admitted id actions)) :
    hub.refuseHello account hello = none := by
  simp only [apply, bind_eq_ok] at ran
  obtain ⟨⟨connected, answer⟩, connecting, ran⟩ := ran
  unfold connect at connecting
  split at connecting
  · cases connecting
    cases ran
  · assumption

theorem Hub.ShortIds.apply {order : HashOrder} {call : Call} {reply : Reply}
    (short : hub.ShortIds) (ok : hub.Ok) (ok' : hub'.Ok)
    (effect : Effect order hub call reply hub')
    (ran : hub.apply order call = .ok (hub', reply)) : hub'.ShortIds := by
  intro account id c' found
  rw [effect.limits_eq]
  cases effect.fate ok ok' found with
  | rest found => exact short account id c' found
  | took acct c taken rest took after =>
      rw [after]
      exact short account id c took.there
  | lived head tail fx c lived =>
      rw [lived.lives.stable.1]
      exact short account id c lived.there
  | born hello conn mid tail born =>
      obtain ⟨nowMs, monoMs, revoker, rfl⟩ := born.call_eq
      obtain ⟨actions, rfl⟩ := born.reply_eq
      rw [born.lives.stable.1, born.newcomer.principal_eq]
      exact principal_le_of_refuseHello (refuseHello_of_admitted ran)

theorem Run.shortIds (run : Run start steps hub) (ok : start.Ok)
    (empty : start.accounts = ∅) : hub.ShortIds := by
  induction run with
  | start => exact fun account id c found => (Hub.conn?_empty empty account id c found).elim
  | @call steps hub next order call reply earlier ran ih =>
      obtain ⟨hubOk, nextOk, effect⟩ := ((Run.call earlier ran).forall_steps ok).2
        ⟨hub, order, call, reply, next⟩ (by simp)
      exact ih.apply hubOk nextOk effect ran

/-- Under limits that leave room, every call does. -/
theorem Limits.LeavesRoom.every_step (roomy : step.before.limits.LeavesRoom) (ok : step.before.Ok)
    (short : step.before.ShortIds) (delivers : step.call.DeliversOnly (·.envelope? = none)) :
    step.LeavesRoom := by
  refine ⟨?_, delivers.mono fun frame plain env carried => by simp [plain] at carried⟩
  intro account conn peer env isReceive found passedOn
  obtain ⟨⟨payload, coalesce, channel⟩, routed⟩ := passedOn
  have sender := Protobuf.bytes_le_delimited (short account conn peer found)
  have payloadLe := Protobuf.bytes_le_delimited payload
  have coalesceLe := Protobuf.bytes_le_delimited coalesce
  have ref := Protobuf.uint_le env.ref
  have kept : (if Kind.ofInt env.kind = .telemetry then Protobuf.bytes env.coalesce else 0) ≤
      Protobuf.delimited step.before.limits.maxCoalesceBytes := by
    split <;> omega
  have added : step.before.addedLength account peer.principal env.sentTo ≤
      Protobuf.delimited step.before.limits.maxIdBytes + 11 + 11 := by
    unfold Hub.addedLength
    split
    · exact Nat.add_le_add (Nat.add_le_add sender (Protobuf.uint_le _)) (Protobuf.uint_le _)
    · omega
    · omega
  have kind : Protobuf.enum env.kind ≤ 2 := by
    apply Protobuf.enum_le_two
    intro unknown
    rw [unknown] at routed
    simp [Kind.Streamed, Kind.Directed] at routed
  have address : (env.sentTo.map Protobuf.sentTo).getD 0 ≤
      Protobuf.delimited step.before.limits.maxIdBytes := by
    rcases routed with ⟨name, addressed, -⟩ | ⟨target, addressed, online, -⟩
    · simpa [addressed, Protobuf.sentTo] using Protobuf.delimited_mono (channel name addressed)
    · obtain ⟨⟨targetConn, role⟩, onlineFound⟩ := HashMap.exists_lookup_of_mem online
      obtain ⟨owner, ownerFound, rfl⟩ := (ok.record_ok account).1.conn_of_online onlineFound
      rw [← Hub.conn?_eq] at ownerFound
      simpa [addressed, Protobuf.sentTo] using
        Protobuf.delimited_mono (short account targetConn owner ownerFound)
  refine (Protobuf.delimited_mono ?_).trans roomy
  unfold Envelope.sentLength
  omega

theorem Run.leavesRoom (run : Run start steps hub) (ok : start.Ok)
    (empty : start.accounts = ∅) (roomy : start.limits.LeavesRoom)
    (delivers : ∀ step ∈ steps, step.call.DeliversOnly (·.envelope? = none)) :
    ∀ step ∈ steps, step.LeavesRoom := by
  intro step member
  obtain ⟨earlier, later, rfl⟩ := List.append_of_mem member
  obtain ⟨middle, before, rest⟩ := run.split
  obtain ⟨rfl, -, -⟩ := rest.uncons
  rw [← before.limits_eq ok] at roomy
  exact roomy.every_step (before.forall_steps ok).1 (before.shortIds ok empty)
    (delivers step member)

end Room

example : ({} : Limits).LeavesRoom := by decide

/-! ## What the relay sends -/

/-- In every run in which what is received leaves room for what the relay adds, every
envelope in any queue or ring takes at most `max_frame_bytes`. -/
theorem relayed_envelopes_fit (limits : Limits) (seed : UInt64) (shard : UInt16) (start : Hub)
    (accepted : Hub.withIdSpace limits seed shard = .ok start)
    (calls : List (HashOrder × Call)) :
    ∃ steps, start.run calls = .ok steps ∧
      ((∀ step ∈ steps, step.LeavesRoom) →
        ∀ step ∈ steps, step.after.EnvelopesWithin limits.maxFrameBytes) := by
  obtain ⟨ok, rfl, empty, -⟩ := ok_withIdSpace accepted
  obtain ⟨steps, hub, ran, run⟩ := exists_run ok calls
  refine ⟨steps, ran, fun room step member => ?_⟩
  obtain ⟨earlier, later, rfl⟩ := List.append_of_mem member
  have assoc : earlier ++ step :: later = (earlier ++ [step]) ++ later := by simp
  rw [assoc] at run
  obtain ⟨middle, untilStep, -⟩ := run.split
  obtain ⟨-, rfl, -⟩ := untilStep.unsnoc
  exact untilStep.envelopesWithin ok empty fun other among => room other (by
    rw [assoc]
    exact List.mem_append_left _ among)

/-- Limits under which a frame holds a payload, and little more. -/
def tightLimits : Limits :=
  { maxFrameBytes := 40, maxPayloadBytes := 39 }

/-- A subscriber, and a publisher with so many bytes. -/
def tightCalls (payload : Nat) : List (HashOrder × Call) := [
  (.stored, .connect [9] { protocol := 1, principal := [1], role := 2 } 0 0 .unknown),
  (.stored, .connect [9] { protocol := 1, principal := [2], role := 1 } 0 0 .unknown),
  (.stored, .receive 2 (.of (.subscribe ⟨some ⟨[1], [5]⟩, none⟩))),
  (.stored, .receive 1 (.of (.envelope
    { sentTo := some (.channel [5]), kind := 1, payload := List.replicate payload 0 })))]

/-- A payload of thirty bytes comes in a frame that is within the limit, and leaves in one
that is not. -/
theorem relayed_envelopes_fit_tight :
    ∃ start steps, Hub.withIdSpace tightLimits 7 0 = .ok start ∧
      start.run (tightCalls 30) = .ok steps ∧
      (∀ entry ∈ tightCalls 30, ∀ conn body, entry.2 = .receive conn (.of body) →
        Protobuf.body body ≤ tightLimits.maxFrameBytes) ∧
      ¬ ∀ step ∈ steps, step.after.EnvelopesWithin tightLimits.maxFrameBytes := by
  have accepted : Hub.withIdSpace tightLimits 7 0 = .ok ⟨tightLimits, ∅, ∅, 1, 7, 0⟩ := rfl
  obtain ⟨ok, -, -, -⟩ := ok_withIdSpace accepted
  obtain ⟨steps, hub, ran, -⟩ := exists_run ok (tightCalls 30)
  have facts : (Hub.run ⟨tightLimits, ∅, ∅, 1, 7, 0⟩ (tightCalls 30)).toOption.any (fun steps =>
      steps.any fun step => (step.after.conn? [9] 2).any fun c => c.out.items.any fun item =>
        item.wire.envelope?.any fun env =>
          decide (tightLimits.maxFrameBytes < Protobuf.body (.envelope env))) = true := by
    decide +kernel
  refine ⟨_, steps, accepted, ran, ?_, fun within => ?_⟩
  · intro entry member conn body received
    simp only [tightCalls, List.mem_cons, List.not_mem_nil, or_false] at member
    rcases member with rfl | rfl | rfl | rfl
    · cases received
    · cases received
    · cases received
      decide
    · cases received
      decide
  · simp only [ran, Except.toOption, Option.any_some, List.any_eq_true, Option.any_eq_true,
      decide_eq_true_eq] at facts
    obtain ⟨step, member, c, found, item, queued, env, carried, large⟩ := facts
    exact absurd ((within step member).queued found queued carried) (not_le.mpr large)

/-- Three bytes leave room under the default limits, and are sent on. -/
theorem relayed_envelopes_fit_default :
    ∃ start steps, Hub.withIdSpace {} 7 0 = .ok start ∧
      start.run (tightCalls 3) = .ok steps ∧
      ∀ step ∈ steps, step.after.EnvelopesWithin ({} : Limits).maxFrameBytes := by
  have accepted : Hub.withIdSpace {} 7 0 = .ok ⟨{}, ∅, ∅, 1, 7, 0⟩ := rfl
  obtain ⟨steps, ran, within⟩ := relayed_envelopes_fit {} 7 0 _ accepted (tightCalls 3)
  obtain ⟨ok, -, empty, -⟩ := ok_withIdSpace accepted
  obtain ⟨same, hub, again, run⟩ := exists_run ok (tightCalls 3)
  obtain rfl : same = steps := Except.ok.inj (again.symm.trans ran)
  have delivers : ∀ step ∈ same, step.call.DeliversOnly (·.envelope? = none) :=
    Hub.forall_calls ran (by simp [tightCalls, Call.DeliversOnly])
  have roomy : ({} : Limits).LeavesRoom := by decide
  exact ⟨_, same, accepted, ran, within (run.leavesRoom ok empty roomy delivers)⟩

end WindowMlHub
