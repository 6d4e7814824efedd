import WindowMlHub.RelayPublications
import WindowMlHub.RelayQueueHistory

/-!
# Where envelopes come from

Every envelope that the relay holds was sent by a connection of the account, and
carries that connection's principal as its sender.  A direct envelope waits for
the principal it is addressed to.  A published one is retained by the ring of its
stream and queued for the subscribers of the stream, with the numbers that the
ring has given it.
-/

namespace WindowMlHub

open CheckedEvaluation HashTables

/-- What an account's envelopes come from: which were published on a stream, and
which were sent to a principal. -/
structure Origins where
  published : StreamKey → Envelope → Prop
  direct : Bytes → Envelope → Prop

/-- An entry is an envelope of a stream, and what is kept beside it agrees with
it. -/
structure Entry.Carries (entry : Entry) (key : StreamKey) (kind : Kind)
    (epoch : Nat) (env : Envelope) : Prop where
  wire_eq : entry.wire = .of (.envelope env)
  sender_eq : env.sender = key.publisher
  sentTo_eq : env.sentTo = some (.channel key.channel)
  kind_eq : Kind.ofInt env.kind = kind
  seq_eq : env.seq = entry.seq
  epoch_eq : env.epoch = epoch
  coalesce_eq : env.coalesce = entry.coalesce

/-- A queued item is a frame whose envelope, if any, was sent to the owner of
the queue, or it is a published envelope. -/
inductive Item.Sourced (origins : Origins) (owner : Bytes) : Item → Prop
  | loose {frame : Frame}
      (direct : ∀ env, frame.envelope? = some env →
        origins.direct owner env) :
      Sourced origins owner (.ofFrame frame)
  | published {key : StreamKey} {kind : Kind} {epoch : Nat} {entry : Entry}
      {env : Envelope} (streamed : kind.Streamed)
      (carries : entry.Carries key kind epoch env)
      (published : origins.published key env) :
      Sourced origins owner (.ofEntry key kind epoch entry)

/-- Every retained entry is an envelope published on the stream. -/
structure Ring.Sourced (origins : Origins) (key : StreamKey) (ring : Ring) :
    Prop where
  streamed : ring.kind.Streamed
  entries : ∀ entry ∈ ring.entries, entry.seq ≤ ring.seq ∧
    ∃ env, entry.Carries key ring.kind ring.epoch env ∧
      origins.published key env

/-- Every ring of the account is sourced. -/
def Account.Sourced (origins : Origins) (acct : Account) : Prop :=
  ∀ key ring, acct.ring? key = some ring → ring.Sourced origins key

/-- A connection's queue holds sourced items, and of streams only those that the
connection hears, with the numbers of their ring. -/
structure Conn.Sourced [Codec] (origins : Origins) (acct : Account)
    (c : Conn) : Prop where
  queue_ok : c.out.Ok
  items : ∀ item ∈ c.out.items, item.Sourced origins c.principal
  heard : ∀ item ∈ c.out.items, ∀ key, item.stream = some key →
    key ∈ c.subs ∧ ∃ ring, acct.ring? key = some ring ∧
      item.epoch = ring.epoch ∧ item.seq ≤ ring.seq ∧
      item.telemetry = decide (ring.kind = .telemetry)

/-- What an event has a ring stamp is sourced. -/
def Event.Stamps (origins : Origins) (event : Event) : Prop :=
  ∀ key ring env, event = .published key ring env →
    ring.kind.Streamed ∧
      (ring.stamp env).Carries key ring.kind ring.epoch (ring.stamped env) ∧
      origins.published key (ring.stamped env)

/-- What an event puts into rings and into the queue of one connection is
sourced. -/
structure Event.Sourced (origins : Origins) (id : ConnId) (owner : Bytes)
    (event : Event) : Prop where
  frame : ∀ frame, event = .frame id frame → ∀ env,
    frame.envelope? = some env → origins.direct owner env
  published : event.Stamps origins

theorem Item.Sourced.exists_envelope {origins : Origins} {owner : Bytes}
    {item : Item} (sourced : item.Sourced origins owner)
    (ofStream : item.stream ≠ none) :
    ∃ env, item.wire = .of (.envelope env) := by
  cases sourced with
  | loose direct => exact (ofStream rfl).elim
  | published streamed carries published => exact ⟨_, carries.wire_eq⟩

section Sources

variable [Codec] {limits : Limits} {origins : Origins} {acct acct' : Account}
  {fx fx' : Effects} {event : Event} {id : ConnId} {c c' : Conn}

omit [Codec] in
theorem Ring.Sourced.of_suffix {key : StreamKey} {ring ring' : Ring}
    (sourced : ring.Sourced origins key) (kindEq : ring'.kind = ring.kind)
    (epochEq : ring'.epoch = ring.epoch) (seqLe : ring.seq ≤ ring'.seq)
    (subset : ∀ entry ∈ ring'.entries, entry ∈ ring.entries ∨
      entry.seq ≤ ring'.seq ∧ ∃ env,
        entry.Carries key ring.kind ring.epoch env ∧
        origins.published key env) :
    ring'.Sourced origins key := by
  refine ⟨kindEq ▸ sourced.streamed, fun entry member => ?_⟩
  rw [kindEq, epochEq]
  rcases subset entry member with old | new
  · obtain ⟨bound, carried⟩ := sourced.entries entry old
    exact ⟨bound.trans seqLe, carried⟩
  · exact new

omit [Codec] in
theorem Ring.Fresh.sourced {key : StreamKey} {ring : Ring}
    (fresh : ring.Fresh) (streamed : ring.kind.Streamed) :
    ring.Sourced origins key :=
  ⟨streamed, by simp [fresh.entries_eq]⟩

/-- Rings stay sourced through an event that publishes what is sourced. -/
theorem Act.sourced (act : Act limits acct fx event acct' fx')
    (sourced : acct.Sourced origins) (stamps : event.Stamps origins) :
    acct'.Sourced origins := by
  intro key ring' found'
  by_cases published : ∃ ring env, event = .published key ring env
  · obtain ⟨ring, env, isPublished⟩ := published
    obtain ⟨origin, next, nextFound, advanced⟩ :=
      act.ring_published isPublished
    obtain rfl : next = ring' := Option.some.inj (nextFound.symm.trans found')
    obtain ⟨streamed, carries, isKnown⟩ :=
      stamps key ring env isPublished
    have before : ring.Sourced origins key := by
      rcases origin with old | ⟨_, fresh⟩
      · exact sourced key ring old
      · exact fresh.sourced streamed
    refine before.of_suffix advanced.kind_eq advanced.epoch_eq
      (advanced.seq_eq ▸ Nat.le_succ _) fun entry member => ?_
    rcases List.mem_append.mp (advanced.entries_suffix.subset member) with
      old | new
    · exact Or.inl old
    · rw [List.mem_singleton.mp new, advanced.seq_eq]
      exact Or.inr ⟨Nat.le_refl _, _, carries, isKnown⟩
  · push Not at published
    rcases act.ring_kept key published with
      ⟨gone, _⟩ | ⟨ring, kept, found, keptFound, trimmed⟩
    · rw [gone] at found'
      cases found'
    · obtain rfl : kept = ring' :=
        Option.some.inj (keptFound.symm.trans found')
      exact (sourced key ring found).of_suffix trimmed.kind_eq
        trimmed.epoch_eq trimmed.seq_eq.ge fun entry member =>
          Or.inl (trimmed.entries_suffix.subset member)

/-- What an event offers to the queue of a connection is sourced, and belongs to
a stream that the connection hears then. -/
theorem Passes.offers (act : Act limits acct fx event acct' fx')
    (passes : Passes limits event id c c') (rings : acct.Sourced origins)
    (genuine : event.Sourced origins id c.principal) {op : QueueOp}
    (among : op ∈ event.ops id c) {item : Item}
    (offered : op.item? = some item) :
    item.Sourced origins c.principal ∧
      ∀ key, item.stream = some key → key ∈ c'.subs ∧
        ∃ ring, acct'.ring? key = some ring ∧ item.epoch = ring.epoch ∧
          item.seq ≤ ring.seq ∧
          item.telemetry = decide (ring.kind = .telemetry) := by
  have loose {frame : Frame} (isFrame : op = .frame frame)
      (direct : ∀ env, frame.envelope? = some env →
        origins.direct c.principal env) :
      item.Sourced origins c.principal ∧
        ∀ key, item.stream = some key → key ∈ c'.subs ∧
          ∃ ring, acct'.ring? key = some ring ∧ item.epoch = ring.epoch ∧
            item.seq ≤ ring.seq ∧
            item.telemetry = decide (ring.kind = .telemetry) := by
    subst isFrame
    cases offered
    exact ⟨.loose direct, fun _ absurdity => by cases absurdity⟩
  cases event with
  | quiet => simp [Event.ops] at among
  | frame target sent =>
      simp only [Event.ops] at among
      split at among
      · rename_i mine
        subst mine
        exact loose (List.mem_singleton.mp among) (genuine.frame sent rfl)
      · simp at among
  | published key ring env =>
      simp only [Event.ops] at among
      split at among
      · rename_i hears
        rw [List.mem_singleton.mp among] at offered
        cases offered
        obtain ⟨streamed, carries, known⟩ :=
          genuine.published key ring env rfl
        obtain ⟨_, next, nextFound, advanced⟩ := act.ring_published rfl
        refine ⟨.published streamed carries known, fun other same => ?_⟩
        cases same
        exact ⟨(passes.subs_iff key).mpr hears, next, nextFound,
          advanced.epoch_eq.symm, advanced.seq_eq.ge,
          by rw [advanced.kind_eq]; rfl⟩
      · simp at among
  | subscribed target key since ring =>
      simp only [Event.ops] at among
      split at among
      · rename_i mine
        obtain ⟨before, after⟩ := act.ring_subscribed rfl
        rcases List.mem_cons.mp among with purge | later
        · rw [purge] at offered
          cases offered
        rcases List.mem_append.mp later with backfilled | marker
        · cases ring with
          | none => simp [backfillOps] at backfilled
          | some ring =>
              obtain ⟨entry, entryMember, rfl⟩ := List.mem_map.mp backfilled
              cases offered
              have retained : entry ∈ ring.entries :=
                (List.mem_filter.mp entryMember).1
              have sourced := rings key ring before
              obtain ⟨bound, env, carries, known⟩ :=
                sourced.entries entry retained
              refine ⟨.published sourced.streamed carries known,
                fun other same => ?_⟩
              cases same
              exact ⟨(passes.subs_iff key).mpr (Or.inr ⟨mine, rfl⟩), ring,
                after, rfl, bound, rfl⟩
        · exact loose (List.mem_singleton.mp marker)
            (fun _ absurdity => by cases absurdity)
      · simp at among
  | unsubscribed target key =>
      simp only [Event.ops] at among
      split at among
      · rw [List.mem_singleton.mp among] at offered
        cases offered
      · simp at among
  | joined other conn role =>
      exact loose (List.mem_singleton.mp among)
        (fun _ absurdity => by cases absurdity)
  | left other principal role =>
      exact loose (List.mem_singleton.mp among)
        (fun _ absurdity => by cases absurdity)

/-- A connection stays sourced through an event. -/
theorem Passes.sourced (found : acct.conns.lookup id = some c)
    (act : Act limits acct fx event acct' fx')
    (passes : Passes limits event id c c') (rings : acct.Sourced origins)
    (sourced : c.Sourced origins acct)
    (genuine : event.Sourced origins id c.principal) :
    c'.Sourced origins acct' := by
  refine ⟨passes.performs.ok sourced.queue_ok, ?_, ?_⟩
  · intro item member
    rw [passes.principal_eq]
    rcases passes.performs.mem_items sourced.queue_ok member with
      ⟨old, _⟩ | ⟨op, among, offered⟩
    · exact sourced.items item old
    · exact (passes.offers act rings genuine among offered).1
  · intro item member key ofKey
    rcases passes.performs.mem_items sourced.queue_ok member with
      ⟨old, unpurged⟩ | ⟨op, among, offered⟩
    · obtain ⟨hears, ring, ringFound, epochEq, seqLe, telemetryEq⟩ :=
        sourced.heard item old key ofKey
      obtain ⟨ring', ringFound', precedes⟩ := act.ring_heard ringFound
        (fun unheard => unheard id c found hears)
      refine ⟨(passes.subs_iff key).mpr ?_, ring', ringFound',
        epochEq.trans precedes.epoch_eq.symm, seqLe.trans precedes.seq_le,
        by rw [precedes.kind_eq]; exact telemetryEq⟩
      cases event with
      | subscribed target other since ring => exact Or.inl hears
      | unsubscribed target other =>
          refine ⟨hears, ?_⟩
          rintro ⟨rfl, rfl⟩
          exact unpurged key (by simp [Event.ops]) ofKey
      | _ => exact hears
    · exact (passes.offers act rings genuine among offered).2 key ofKey

theorem Acts.sourced {events : List Event}
    (acts : Acts limits acct fx events acct' fx')
    (sourced : acct.Sourced origins)
    (stamps : ∀ event ∈ events, event.Stamps origins) :
    acct'.Sourced origins := by
  induction acts with
  | done => exact sourced
  | quiet acts act ih =>
      exact act.sourced (ih stamps) (fun _ _ _ absurdity => by
        cases absurdity)
  | event acts act ih =>
      exact act.sourced
        (ih fun event member => stamps event (by simp [member]))
        (stamps _ (by simp))

/-- A connection stays sourced through events. -/
theorem Lives.sourced {events : List Event}
    (lives : Lives limits id acct c events acct' c')
    (rings : acct.Sourced origins) (sourced : c.Sourced origins acct)
    (genuine : ∀ event ∈ events, event.Sourced origins id c.principal) :
    c'.Sourced origins acct' := by
  have quiet : Event.Sourced origins id c.principal .quiet :=
    ⟨fun _ absurdity => (by cases absurdity),
      fun _ _ _ absurdity => (by cases absurdity)⟩
  have step {event : Event} (fine : event.Sourced origins id c.principal)
      {before after : Account} {old new : Conn} {fx₁ fx₂ : Effects}
      (found : before.conns.lookup id = some old)
      (act : Act limits before fx₁ event after fx₂)
      (passes : Passes limits event id old new)
      (holds : before.Sourced origins ∧ old.Sourced origins before ∧
        old.principal = c.principal) :
      after.Sourced origins ∧ new.Sourced origins after ∧
        new.principal = c.principal := by
    obtain ⟨beforeRings, oldSourced, same⟩ := holds
    exact ⟨act.sourced beforeRings fine.published,
      passes.sourced found act beforeRings oldSourced (same ▸ fine),
      passes.principal_eq.trans same⟩
  exact (lives.preserves
    (fun now conn => now.Sourced origins ∧ conn.Sourced origins now ∧
      conn.principal = c.principal)
    (fun found _ act passes holds => step quiet found act passes holds)
    (fun event member _ _ _ _ _ _ found _ act passes holds =>
      step (genuine event member) found act passes holds)
    ⟨rings, sourced, rfl⟩).2.1

end Sources

/-! ## Over a run -/

/-- A call in which a connection of the account sent a direct envelope, and what
became of it. -/
def Step.Sends (step : Step) (account : AccountId) (target : Bytes)
    (env : Envelope) : Prop :=
  ∃ conn peer original,
    step.call = .receive conn (.of (.envelope original)) ∧
    step.before.conn? account conn = some peer ∧
    original.sentTo = some (.principal target) ∧
    (Kind.ofInt original.kind).Directed ∧
    env = original.fromSender peer.principal

/-- What these calls have made of the envelopes of an account. -/
def originsOf (steps : List Step) (account : AccountId) : Origins where
  published key env := ∃ step ∈ steps,
    step.publication account key = some env
  direct target env := ∃ step ∈ steps, step.Sends account target env

/-- A call that delivers, if anything, an allowed frame. -/
def Call.DeliversOnly (allowed : Frame → Prop) : Call → Prop
  | .deliver _ frame => allowed frame
  | _ => True

theorem Call.DeliversOnly.mono {allowed more : Frame → Prop} {call : Call}
    (weaker : ∀ frame, allowed frame → more frame)
    (delivers : call.DeliversOnly allowed) : call.DeliversOnly more := by
  cases call with
  | deliver conn frame => exact weaker frame delivers
  | _ => trivial

theorem Event.mem_head {head tail : List Event} {event : Event}
    (departures : ∀ event ∈ tail, ∃ other principal role,
      event = .left other principal role)
    (member : event ∈ head ++ tail)
    (stays : ∀ other principal role, event ≠ .left other principal role) :
    event ∈ head := by
  rcases List.mem_append.mp member with inHead | inTail
  · exact inHead
  · obtain ⟨other, principal, role, isLeft⟩ := departures event inTail
    exact (stays other principal role isLeft).elim

section Heads

variable [Codec] {steps : List Step} {step : Step} {account : AccountId}
  {head tail : List Event} {fx fx' : Effects} {id : ConnId} {c : Conn}

/-- What a call has stamped is a publication of the call. -/
theorem Step.stamps
    (heads : Heads step.order step.before account fx
      (step.after.ring? account) step.call step.reply head)
    (departures : ∀ event ∈ tail, ∃ other principal role,
      event = .left other principal role)
    (acts : Acts step.before.limits (step.before.record account) {}
      (head ++ tail) (step.after.record account) fx')
    (event : Event) (member : event ∈ head ++ tail) :
    event.Stamps (originsOf (steps ++ [step]) account) := by
  intro key ring env isPublished
  subst isPublished
  have inHead : .published key ring env ∈ head :=
    Event.mem_head departures member fun _ _ _ absurdity => by cases absurdity
  have stamped : ring.stamped env ∈ (step.publication account key).toList := by
    rw [← publication_eq heads departures acts, List.mem_filterMap]
    exact ⟨_, member, by simp [Event.publication]⟩
  obtain ⟨rfl, conn, peer, original, rfl, publishing⟩ :=
    heads.published_eq inHead
  refine ⟨publishing.streamed, ⟨rfl, publishing.publisher_eq,
    publishing.addressed, publishing.kind_eq.symm, rfl, rfl, rfl⟩, step,
    by simp, Option.mem_toList.mp stamped⟩

/-- What a call offers to a connection is sourced. -/
theorem Step.sourced (ok : step.before.Ok)
    (delivers : step.call.DeliversOnly (·.envelope? = none))
    (heads : Heads step.order step.before account fx
      (step.after.ring? account) step.call step.reply head)
    (departures : ∀ event ∈ tail, ∃ other principal role,
      event = .left other principal role)
    (acts : Acts step.before.limits (step.before.record account) {}
      (head ++ tail) (step.after.record account) fx')
    (found : step.before.conn? account id = some c)
    (event : Event) (member : event ∈ head ++ tail) :
    event.Sourced (originsOf (steps ++ [step]) account) id c.principal := by
  refine ⟨?_, stamps heads departures acts event member⟩
  intro frame isFrame env carried
  subst isFrame
  have inHead : .frame id frame ∈ head :=
    Event.mem_head departures member fun _ _ _ absurdity => by cases absurdity
  rcases heads.frame_eq inHead with
    plain | delivered | ⟨principal, conn, peer, original, rfl, directing⟩
  · rw [plain.envelope] at carried
    cases carried
  · rw [delivered] at delivers
    simp only [Call.DeliversOnly, carried] at delivers
    cases delivers
  · obtain ⟨role, online⟩ := directing.online
    obtain ⟨owner, ownerFound, same⟩ :=
      (ok.record_ok account).1.conn_of_online online
    rw [Hub.conn?_eq, ownerFound] at found
    cases found
    cases carried
    exact ⟨step, by simp, conn, peer, original, directing.call_eq,
      directing.found, same ▸ directing.addressed, directing.directed, rfl⟩

end Heads

theorem originsOf_append (steps : List Step) (step : Step)
    (account : AccountId) :
    (∀ key env, (originsOf steps account).published key env →
        (originsOf (steps ++ [step]) account).published key env) ∧
      ∀ target env, (originsOf steps account).direct target env →
        (originsOf (steps ++ [step]) account).direct target env := by
  constructor
  · rintro key env ⟨earlier, member, published⟩
    exact ⟨earlier, by simp [member], published⟩
  · rintro target env ⟨earlier, member, sends⟩
    exact ⟨earlier, by simp [member], sends⟩

section Weakening

variable {origins more : Origins}
  (published : ∀ key env, origins.published key env → more.published key env)
  (direct : ∀ target env, origins.direct target env → more.direct target env)

include published direct in
theorem Item.Sourced.mono {owner : Bytes} {item : Item}
    (sourced : item.Sourced origins owner) : item.Sourced more owner := by
  cases sourced with
  | loose sent => exact .loose fun env carried => direct _ _ (sent env carried)
  | published streamed carries known =>
      exact .published streamed carries (published _ _ known)

include published in
theorem Account.Sourced.mono {acct : Account}
    (sourced : acct.Sourced origins) : acct.Sourced more := by
  intro key ring found
  obtain ⟨streamed, entries⟩ := sourced key ring found
  refine ⟨streamed, fun entry member => ?_⟩
  obtain ⟨bound, env, carries, known⟩ := entries entry member
  exact ⟨bound, env, carries, published _ _ known⟩

include published direct in
theorem Conn.Sourced.mono [Codec] {acct acct' : Account} {c : Conn}
    (same : acct'.streams = acct.streams) (sourced : c.Sourced origins acct) :
    c.Sourced more acct' := by
  refine ⟨sourced.queue_ok, fun item member =>
    (sourced.items item member).mono published direct, ?_⟩
  simpa [Account.ring?, same] using sourced.heard

end Weakening

/-- Everything in the relay's rings and queues is sourced in these calls. -/
structure Hub.Sourced [Codec] (hub : Hub) (steps : List Step) : Prop where
  rings : ∀ account,
    (hub.record account).Sourced (originsOf steps account)
  conns : ∀ {account id c}, hub.conn? account id = some c →
    c.Sourced (originsOf steps account) (hub.record account)

/-- Everything in the relay's rings and queues comes from these origins. -/
structure Hub.SourcedIn [Codec] (hub : Hub) (origins : AccountId → Origins) : Prop where
  rings : ∀ account, (hub.record account).Sourced (origins account)
  conns : ∀ {account id c}, hub.conn? account id = some c →
    c.Sourced (origins account) (hub.record account)

section Runs

variable [Codec] {start hub : Hub} {steps : List Step} {step : Step}

/-- A connection that has just been admitted has nothing but frames of the relay
itself in its queue. -/
theorem Hub.Newcomer.sourced {order : HashOrder} {account : AccountId}
    {hello : Hello} {conn : Conn}
    (newcomer : hub.Newcomer order account hello conn) (origins : Origins)
    (acct : Account) : conn.Sourced origins acct := by
  obtain ⟨welcome, queueEq⟩ := newcomer.queue_eq
  have loose (item : Item) (member : item ∈ conn.out.items) :
      ∃ frame : Frame, frame.envelope? = none ∧ item = .ofFrame frame := by
    rw [queueEq] at member
    obtain ⟨frame, frameMember, rfl⟩ := List.mem_map.mp member
    refine ⟨frame, ?_, rfl⟩
    rcases List.mem_cons.mp frameMember with rfl | presence
    · rfl
    · obtain ⟨entry, _, rfl⟩ := List.mem_map.mp presence
      rfl
  refine ⟨newcomer.queue_ok, ?_, ?_⟩
  · intro item member
    obtain ⟨frame, plain, rfl⟩ := loose item member
    exact .loose (by simp [plain])
  · intro item member key ofKey
    obtain ⟨frame, _, rfl⟩ := loose item member
    cases ofKey

/-- What a call leaves in rings and queues comes from origins that what was there came
from, if what the call's events stamp and offer does. -/
theorem Effect.sourcedIn {origins : AccountId → Origins}
    (effect : Effect step.order step.before step.call step.reply step.after)
    (ok : step.before.Ok) (ok' : step.after.Ok)
    (stamps : ∀ {account head tail fx fx'},
      Heads step.order step.before account fx (step.after.ring? account) step.call
        step.reply head →
      (∀ event ∈ tail, ∃ other principal role, event = .left other principal role) →
      Acts step.before.limits (step.before.record account) {} (head ++ tail)
        (step.after.record account) fx' →
      ∀ event ∈ head ++ tail, event.Stamps (origins account))
    (offers : ∀ {account head tail fx fx' id c},
      Heads step.order step.before account fx (step.after.ring? account) step.call
        step.reply head →
      (∀ event ∈ tail, ∃ other principal role, event = .left other principal role) →
      Acts step.before.limits (step.before.record account) {} (head ++ tail)
        (step.after.record account) fx' →
      step.before.conn? account id = some c →
      ∀ event ∈ head ++ tail, event.Sourced (origins account) id c.principal)
    (sourced : step.before.SourcedIn origins) : step.after.SourcedIn origins := by
  refine ⟨?_, ?_⟩
  · intro account
    cases effect.course account with
    | still same =>
        intro key ring found
        apply sourced.rings account key ring
        simpa [Account.ring?, same.streams_eq] using found
    | acted head tail fx fx' heads departures acts =>
        exact acts.sourced (sourced.rings account) (stamps heads departures acts)
  · intro account id c' found
    cases effect.fate ok ok' found with
    | rest foundBefore same others unnamed =>
        exact (sourced.conns foundBefore).mono (fun _ _ known => known)
            (fun _ _ known => known) same.streams_eq
    | took acct c taken rest took after same =>
        have foundBefore := took.there
        have before : c.Sourced (origins account) (step.after.record account) :=
          (sourced.conns foundBefore).mono (fun _ _ known => known)
            (fun _ _ known => known) same.streams_eq
        have sub (item : Item) (member : item ∈ rest) :
            item ∈ c.out.items := by
          rw [took.split]
          exact List.mem_append_right _ member
        rw [after]
        exact ⟨before.queue_ok.of_sublist (by rw [took.split]; simp) _,
          fun item member => before.items item (sub item member),
          fun item member => before.heard item (sub item member)⟩
    | lived head tail fx c lived =>
        obtain ⟨fx', acts⟩ := lived.acts
        have foundBefore := lived.there
        exact lived.lives.sourced (sourced.rings account) (sourced.conns foundBefore)
          (offers lived.heads lived.departures acts foundBefore)
    | born hello conn mid tail born =>
        obtain ⟨before, fx, fx', quiets, joins⟩ := born.joins
        have midRings := joins.sourced (quiets.sourced (sourced.rings account) (by simp))
          (fun _ _ _ absurdity => by cases absurdity)
        refine born.lives.sourced midRings (born.newcomer.sourced _ mid) ?_
        intro event member
        obtain ⟨_, _, _, rfl⟩ := born.departures event member
        exact ⟨fun _ absurdity => (by cases absurdity),
          fun _ _ _ absurdity => (by cases absurdity)⟩

theorem Effect.sourced
    (effect : Effect step.order step.before step.call step.reply step.after)
    (ok : step.before.Ok) (ok' : step.after.Ok)
    (delivers : step.call.DeliversOnly (·.envelope? = none))
    (sourced : step.before.Sourced steps) :
    step.after.Sourced (steps ++ [step]) := by
  have before : step.before.SourcedIn (originsOf (steps ++ [step])) := by
    refine ⟨fun account => ?_, fun {account} _ _ found => ?_⟩
    · exact (sourced.rings account).mono (originsOf_append steps step account).1
    · obtain ⟨published, direct⟩ := originsOf_append steps step account
      exact (sourced.conns found).mono published direct rfl
  obtain ⟨rings, conns⟩ := effect.sourcedIn ok ok'
    (fun heads departures acts => Step.stamps heads departures acts)
    (fun heads departures acts found => Step.sourced ok delivers heads departures acts found)
    before
  exact ⟨rings, conns⟩

theorem Run.sourced (ok : start.Ok) (fresh : start.Sourced [])
    (run : Run start steps hub)
    (delivers : ∀ step ∈ steps,
      step.call.DeliversOnly (·.envelope? = none)) :
    hub.Sourced steps :=
  run.induct (fun steps hub => hub.Sourced steps) ok fresh
    fun _ step _ beforeOk afterOk effect member before =>
      effect.sourced beforeOk afterOk (delivers step member) before

theorem Hub.sourcedIn_empty (empty : hub.accounts = ∅) (origins : AccountId → Origins) :
    hub.SourcedIn origins := by
  have blank (account : AccountId) : hub.record account = {} := by
    simp [record, empty]
  constructor
  · intro account key ring found
    rw [blank] at found
    simp [Account.ring?] at found
  · intro account id c found
    rw [conn?_eq, blank] at found
    simp at found

theorem Hub.sourced_empty (empty : hub.accounts = ∅) : hub.Sourced [] :=
  ⟨(sourcedIn_empty empty _).rings, (sourcedIn_empty empty _).conns⟩

end Runs

/-- In one of these calls a connection of the account sent this envelope; the
relay has written in the connection's principal, and has left the payload, the
kind and the address alone. -/
def SentEarlier (steps : List Step) (account : AccountId) (env : Envelope) :
    Prop :=
  ∃ step ∈ steps, ∃ conn peer original,
    step.call = .receive conn (.of (.envelope original)) ∧
    step.before.conn? account conn = some peer ∧
    env.sender = peer.principal ∧ env.payload = original.payload ∧
    env.kind = original.kind ∧ env.sentTo = original.sentTo

/-- A direct envelope that waits for the principal it is addressed to. -/
structure Envelope.Awaits (env : Envelope) (hub : Hub) (account : AccountId)
    (id : ConnId) (c : Conn) : Prop where
  directed : (Kind.ofInt env.kind).Directed
  addressed : env.sentTo = some (.principal c.principal)
  online : ∃ role, (hub.record account).online.lookup c.principal =
    some (id, role)
  unnumbered : env.seq = 0 ∧ env.epoch = 0 ∧ env.coalesce = []

/-- An envelope that the stream's ring has stamped in one of these calls. -/
structure Envelope.Stamped (env : Envelope) (hub : Hub) (steps : List Step)
    (account : AccountId) (key : StreamKey) (ring : Ring) : Prop where
  streamed : (Kind.ofInt env.kind).Streamed
  sender_eq : env.sender = key.publisher
  sentTo_eq : env.sentTo = some (.channel key.channel)
  ring_eq : hub.ring? account key = some ring
  epoch_eq : env.epoch = ring.epoch
  assigned : ∃ step ∈ steps, step.publication account key = some env

/-- Every envelope that an account holds has been sent to it, and is where it
should be. -/
structure Hub.Traceable (hub : Hub) (steps : List Step)
    (account : AccountId) : Prop where
  queued : ∀ id c item env, hub.conn? account id = some c →
    item ∈ c.out.items → item.wire.envelope? = some env →
      SentEarlier steps account env ∧
        (env.Awaits hub account id c ∨
          ∃ key ring, key ∈ c.subs ∧ env.Stamped hub steps account key ring)
  retained : ∀ key ring entry, hub.ring? account key = some ring →
    entry ∈ ring.entries → ∃ env, entry.wire = .of (.envelope env) ∧
      entry.seq = env.seq ∧ SentEarlier steps account env ∧
      env.Stamped hub steps account key ring

/-- In these calls no ring has given two envelopes the same number: while the
stream keeps its ring, the numbers of its publications increase. -/
def NumbersUnique (steps : List Step) (account : AccountId) : Prop :=
  ∀ key earlier first between second later env env',
    steps = earlier ++ first :: (between ++ second :: later) →
    first.publication account key = some env →
    second.publication account key = some env' →
    (∀ step ∈ between, step.after.ring? account key ≠ none) →
      env.epoch = env'.epoch ∧ env.seq < env'.seq

theorem SentEarlier.of_published {steps : List Step} {account : AccountId}
    {key : StreamKey} {env : Envelope}
    (published : (originsOf steps account).published key env) :
    SentEarlier steps account env := by
  obtain ⟨step, member, published⟩ := published
  obtain ⟨conn, peer, original, ring, isReceive, found, _, _, _, _, rfl⟩ :=
    Step.publication_eq_some published
  exact ⟨step, member, conn, peer, original, isReceive, found, rfl, rfl, rfl,
    rfl⟩

theorem Hub.Sourced.traceable [Codec] {hub : Hub} {steps : List Step}
    (ok : hub.Ok) (sourced : hub.Sourced steps) (account : AccountId) :
    hub.Traceable steps account := by
  have stamped {key : StreamKey} {ring : Ring} {entry : Entry} {kind : Kind}
      {epoch : Nat} {env : Envelope}
      (carries : entry.Carries key kind epoch env) (streamed : kind.Streamed)
      (published : (originsOf steps account).published key env)
      (found : hub.ring? account key = some ring)
      (sameEpoch : epoch = ring.epoch) :
      env.Stamped hub steps account key ring :=
    ⟨carries.kind_eq ▸ streamed, carries.sender_eq, carries.sentTo_eq, found,
      carries.epoch_eq.trans sameEpoch, published⟩
  constructor
  · intro id c item env found member carried
    have conn := sourced.conns found
    cases conn.items item member with
    | loose direct =>
        obtain ⟨step, stepMember, sender, peer, original, isReceive, peerFound,
          addressed, directed, rfl⟩ := direct env carried
        rw [hub.conn?_eq] at found
        have noKey : Kind.ofInt original.kind ≠ .telemetry := by
          rcases directed with kind | kind | kind <;> simp [kind]
        refine ⟨⟨step, stepMember, sender, peer, original, isReceive,
          peerFound, rfl, rfl, rfl, rfl⟩, Or.inl ⟨directed, addressed,
            (ok.record_ok account).1.online_of_conn found, rfl, rfl, ?_⟩⟩
        simp [Envelope.fromSender, noKey]
    | @published key kind epoch entry known streamed carries published =>
        obtain ⟨hears, ring, ringFound, epochEq, _⟩ :=
          conn.heard _ member key rfl
        have isKnown : known = env := by
          simpa [Item.ofEntry, carries.wire_eq, Frame.of, Frame.envelope?]
            using carried
        subst isKnown
        exact ⟨.of_published published, Or.inr ⟨key, ring, hears,
          stamped carries streamed published ringFound epochEq⟩⟩
  · intro key ring entry found member
    obtain ⟨streamed, entries⟩ := sourced.rings account key ring found
    obtain ⟨_, env, carries, published⟩ := entries entry member
    exact ⟨env, carries.wire_eq, carries.seq_eq.symm, .of_published published,
      stamped carries streamed published found rfl⟩

/-- In every run in which the server delivers no envelopes of its own, the
envelopes of every account come from connections of that account, wait where
they should, and carry the numbers their ring gave to them alone. -/
theorem relay_envelope_provenance [Codec] (limits : Limits) (seed : UInt64)
    (shard : UInt16) (start : Hub)
    (accepted : Hub.withIdSpace limits seed shard = .ok start)
    (calls : List (HashOrder × Call))
    (delivers : ∀ entry ∈ calls,
      entry.2.DeliversOnly (·.envelope? = none)) :
    ∃ steps, start.run calls = .ok steps ∧ ∀ account,
      (finalHub start steps).Traceable steps account ∧
        NumbersUnique steps account := by
  obtain ⟨ok, _, empty, _⟩ := ok_withIdSpace accepted
  obtain ⟨steps, hub, ran, run⟩ := exists_run ok calls
  refine ⟨steps, ran, fun account => ⟨?_, ?_⟩⟩
  · rw [run.finalHub_eq]
    have sourced := run.sourced ok (Hub.sourced_empty empty)
      (Hub.forall_calls ran delivers)
    exact sourced.traceable (run.forall_steps ok).1 account
  · rintro key earlier first between second later env env' rfl published
      published' stays
    exact run.publication_lt ok published published' stays

/-- A peer subscribes to a channel of another one, which publishes on it. -/
theorem relay_envelope_provenance_publish :
    ∃ start steps, Hub.withIdSpace {} 7 0 = .ok start ∧
      start.run [
        (.stored, .connect [9] { protocol := 1, principal := [1], role := 2 }
          0 0 .unknown),
        (.stored, .connect [9] { protocol := 1, principal := [2], role := 1 }
          0 0 .unknown),
        (.stored, .receive 2 (.of (.subscribe ⟨some ⟨[1], [5]⟩, none⟩))),
        (.stored, .receive 1 (.of (.envelope
          { sentTo := some (.channel [5]), kind := 1 })))] = .ok steps ∧
      ∀ account, (finalHub start steps).Traceable steps account ∧
        NumbersUnique steps account := by
  obtain ⟨steps, ran, traceable⟩ := relay_envelope_provenance {} 7 0
    ⟨{}, ∅, ∅, 1, 7, 0⟩ rfl [
      (.stored, .connect [9] { protocol := 1, principal := [1], role := 2 }
        0 0 .unknown),
      (.stored, .connect [9] { protocol := 1, principal := [2], role := 1 }
        0 0 .unknown),
      (.stored, .receive 2 (.of (.subscribe ⟨some ⟨[1], [5]⟩, none⟩))),
      (.stored, .receive 1 (.of (.envelope
        { sentTo := some (.channel [5]), kind := 1 })))]
    (by simp [Call.DeliversOnly])
  exact ⟨_, steps, rfl, ran, traceable⟩

end WindowMlHub
