import WindowMlHub.RelaySessionEvents

/-!
# Accounting for telemetry

Every envelope that is pushed for a subscription is handed out, superseded,
dropped and counted in exactly one gap, or still queued.  What is not telemetry
is never superseded or dropped.
-/

namespace WindowMlHub

open CheckedEvaluation HashTables

/-- The envelope addressed to a principal that a frame carries. -/
def Frame.direct? (frame : Frame) : Option Envelope :=
  frame.envelope?.filter fun env =>
    match env.sentTo with
    | some (.principal _) => true
    | _ => false

/-- The direct envelopes among these frames. -/
def directsOf (frames : List Frame) : List Envelope :=
  frames.filterMap Frame.direct?

/-- What has become of the envelopes pushed for a subscription since the
connection asked for it: what the ring retained and what was published since is
handed out, queued, superseded, reported by a gap or waiting to be reported.
The pushed envelopes carry different numbers, so that these exclude each
other. -/
structure Conn.Accounted (c : Conn) (account : AccountId) (id : ConnId)
    (key : StreamKey) (since : Option Position) (subscribe : Step)
    (later : List Step) (retained : List Envelope) (tally : Tally)
    (last : Nat) : Prop where
  retained_eq : retained.map (fun env => Frame.of (.envelope env)) =
    (subscribe.before.retainedAfter account key since).map (·.wire)
  numbered : (retained ++ later.filterMap fun step =>
    step.publication account key).Pairwise fun first second =>
      first.seq < second.seq
  classified : (envelopesOf key (handed id later) ++
      envelopesOf key c.out.frames ++ tally.superseded ++
        (tally.reported.flatten ++ tally.pending)).Perm
    (retained ++ later.filterMap fun step => step.publication account key)
  explained : tally.Explained
    (retained ++ later.filterMap fun step => step.publication account key)
  relayed : Relayed key (handed id later) tally.reported last
  increasing : (envelopesOf key (handed id later)).Pairwise
    fun first second => first.seq < second.seq
  pending_eq : (c.out.dropped.lookup key).map (·.count) =
    if tally.pending = [] then none else some tally.pending.length
  pending_between : ∀ gone ∈ tally.pending, last < gone.seq ∧
    ∀ env ∈ envelopesOf key c.out.frames, gone.seq < env.seq

section Direct

variable [Codec] {start hub : Hub} {steps : List Step} {step : Step}
  {account : AccountId} {id : ConnId} {c c' : Conn} {origins : Origins}
  {acct : Account}

omit [Codec] in
@[simp]
theorem directsOf_append (first second : List Frame) :
    directsOf (first ++ second) = directsOf first ++ directsOf second :=
  List.filterMap_append

theorem Conn.Sourced.directsOf_eq (sourced : c.Sourced origins acct) :
    directsOf c.out.frames = directsOf c.out.loose := by
  refine Outbound.filterMap_wire Frame.direct? c.out.items ?_
  intro item member ofStream
  cases sourced.items item member with
  | loose direct => exact (ofStream rfl).elim
  | published streamed carries published =>
      simp [Item.ofEntry, carries.wire_eq, Frame.direct?, Frame.of,
        Frame.envelope?, carries.sentTo_eq]

/-- Through a call, direct envelopes in the queue of a connection that stays
there are handed out, in order, or remain. -/
theorem Fate.directs_extend
    (fate : Fate step.order step.before step.call step.reply step.after
      account id c')
    (ok : step.before.Ok) (sourced : step.before.Sourced steps)
    (sourced' : step.after.Sourced (steps ++ [step]))
    (found : step.before.conn? account id = some c)
    (found' : step.after.conn? account id = some c') :
    directsOf c.out.frames <+:
      directsOf (step.handed id) ++ directsOf c'.out.frames := by
  cases fate with
  | rest foundBefore same others unnamed =>
      rw [found] at foundBefore
      cases foundBefore
      rw [Step.handed_of_others others]
      exact List.prefix_refl _
  | took acct c₀ taken rest took after same =>
      obtain rfl : c = c₀ := Option.some.inj (found.symm.trans took.there)
      have handedEq : directsOf (step.handed id) =
          directsOf (taken.map (·.wire)) := by
        rw [Step.handed_of_took took]
        exact Outbound.filterMap_handOut Frame.direct? (fun _ => rfl) _ _
      have queued : directsOf c.out.frames =
          directsOf (taken.map (·.wire)) ++ directsOf (rest.map (·.wire)) := by
        rw [Outbound.frames, took.split, List.map_append, directsOf_append]
      rw [handedEq, queued, after]
      exact List.prefix_refl _
  | lived head tail fx c₀ lived =>
      obtain rfl : c = c₀ := Option.some.inj (found.symm.trans lived.there)
      rw [Step.handed_of_frames lived.frames_eq,
        (sourced.conns found).directsOf_eq,
        (sourced'.conns found').directsOf_eq]
      exact (lived.lives.loose_extend
        ((ok.record_ok account).1.queue_ok lived.lives.first)).filterMap _
  | born hello conn mid tail born =>
      exact absurd found (born.not_there ok)

end Direct

section Accounts

variable {hub : Hub} {account : AccountId} {id : ConnId} {c : Conn}
  {key : StreamKey} {since : Option Position} {subscribe : Step}
  {later : List Step} {retained : List Envelope}

/-- A followed subscription is accounted for, and outside telemetry nothing is
superseded or dropped. -/
theorem Conn.Followed.accounted
    (followed : c.Followed key (handed id later)
      (retained ++ later.filterMap fun step => step.publication account key)
      (hub.record account))
    (retainedEq : retained.map (fun env => Frame.of (.envelope env)) =
      (subscribe.before.retainedAfter account key since).map (·.wire)) :
    ∃ tally last,
      c.Accounted account id key since subscribe later retained tally last ∧
      ((∀ ring, hub.ring? account key = some ring →
        ring.kind ≠ .telemetry) → tally = {}) := by
  obtain ⟨_, _, numbered⟩ := followed.numbered.consecutive
  obtain ⟨kind, epoch, identified, notTelemetry⟩ : ∃ kind epoch,
      (∀ ring, (hub.record account).ring? key = some ring →
        ring.kind = kind ∧ ring.epoch = epoch) ∧
      ((∀ ring, hub.ring? account key = some ring →
        ring.kind ≠ .telemetry) → kind ≠ .telemetry) := by
    cases found : (hub.record account).ring? key with
    | none => exact ⟨.sessionEvents, 0, by simp, fun _ => by simp⟩
    | some ring =>
        refine ⟨ring.kind, ring.epoch, fun other same => ?_,
          fun all => all ring found⟩
        cases same
        exact ⟨rfl, rfl⟩
  obtain ⟨tally, last, explained, tallied⟩ :=
    followed.tallied kind epoch identified
  refine ⟨tally, last, ⟨retainedEq, numbered, tallied.balance, explained,
    tallied.relayed, tallied.relayed.increasing.1, ?_, tallied.between⟩,
    fun all => tallied.spared (notTelemetry all)⟩
  rw [tallied.owed]
  split <;> rfl

end Accounts

/-- In every run in which the server delivers no frames about streams of its
own, every envelope pushed for a subscription is accounted for; what is not
telemetry is never superseded or dropped; and no call takes a direct envelope
out of a queue but to hand it out. -/
theorem relay_telemetry_accounted [Codec] (limits : Limits) (seed : UInt64)
    (shard : UInt16) (start : Hub)
    (accepted : Hub.withIdSpace limits seed shard = .ok start)
    (calls : List (HashOrder × Call))
    (delivers : ∀ entry ∈ calls, entry.2.DeliversOnly Frame.Plain) :
    ∃ steps, start.run calls = .ok steps ∧
      (∀ account id c key,
        (finalHub start steps).conn? account id = some c → key ∈ c.subs →
        ∃ since subscribe later retained tally last,
          LatestSubscribe steps id key since subscribe later ∧
          c.Accounted account id key since subscribe later retained tally
            last ∧
          ((∀ ring, (finalHub start steps).ring? account key = some ring →
            ring.kind ≠ .telemetry) → tally = {})) ∧
      ∀ step ∈ steps, ∀ account id c c',
        step.before.conn? account id = some c →
        step.after.conn? account id = some c' →
          directsOf c.out.frames <+:
            directsOf (step.handed id) ++ directsOf c'.out.frames := by
  obtain ⟨ok, _, empty, _⟩ := ok_withIdSpace accepted
  obtain ⟨steps, hub, ran, run⟩ := exists_run ok calls
  have plain := Hub.forall_calls ran delivers
  have unsent (step : Step) (member : step ∈ steps) :
      step.call.DeliversOnly (·.envelope? = none) :=
    (plain step member).mono fun _ isPlain => isPlain.envelope
  have fresh := Hub.sourced_empty empty
  refine ⟨steps, ran, ?_, ?_⟩
  · rw [run.finalHub_eq]
    intro account id c key found hears
    obtain ⟨since, subscribe, later, latest⟩ :=
      exists_latestSubscribe (run.asked ok empty account id c key found hears)
    have followed := run.followed ok empty plain latest found hears
    obtain ⟨earlier, rfl⟩ := latest.split
    obtain ⟨before, earlierRun, rest⟩ := run.split
    obtain ⟨rfl, _, _⟩ := rest.uncons
    have sourced := earlierRun.sourced ok fresh
      fun step member => unsent step (by simp [member])
    obtain ⟨tally, last, accounted, spared⟩ := followed.accounted
      (Hub.backlog_eq (earlierRun.forall_steps ok).1 sourced account key since)
    exact ⟨since, subscribe, later, _, tally, last, latest, accounted, spared⟩
  · intro step member account id c c' found found'
    obtain ⟨earlier, later, rfl⟩ := List.append_of_mem member
    obtain ⟨before, earlierRun, rest⟩ := run.split
    obtain ⟨rfl, firstRun, _⟩ := rest.uncons
    have beforeOk := (earlierRun.forall_steps ok).1
    obtain ⟨_, afterOk, effect⟩ :=
      (firstRun.forall_steps beforeOk).2 step (by simp)
    have sourced := earlierRun.sourced ok fresh
      fun step member => unsent step (by simp [member])
    exact (effect.fate beforeOk afterOk found').directs_extend beforeOk sourced
      (effect.sourced beforeOk afterOk (unsent step member) sourced) found
      found'

/-- A peer subscribes to telemetry with room for one envelope in its queue, and
takes what is left of three. -/
theorem relay_telemetry_accounted_gap :
    ∃ start steps, Hub.withIdSpace { queueTelemetry := 1 } 7 0 = .ok start ∧
      start.run [
        (.stored, .connect [9] { protocol := 1, principal := [1], role := 2 }
          0 0 .unknown),
        (.stored, .connect [9] { protocol := 1, principal := [2], role := 1 }
          0 0 .unknown),
        (.stored, .receive 2 (.of (.subscribe ⟨some ⟨[1], [5]⟩, none⟩))),
        (.stored, .receive 1 (.of (.envelope
          { sentTo := some (.channel [5]), kind := 2 }))),
        (.stored, .receive 1 (.of (.envelope
          { sentTo := some (.channel [5]), kind := 2 }))),
        (.stored, .receive 1 (.of (.envelope
          { sentTo := some (.channel [5]), kind := 2 }))),
        (.stored, .takeOutbound 2 1000)] = .ok steps ∧
      ∀ account id c key,
        (finalHub start steps).conn? account id = some c → key ∈ c.subs →
        ∃ since subscribe later retained tally last,
          LatestSubscribe steps id key since subscribe later ∧
          c.Accounted account id key since subscribe later retained tally
            last := by
  obtain ⟨steps, ran, accounted, _⟩ := relay_telemetry_accounted
    { queueTelemetry := 1 } 7 0 ⟨{ queueTelemetry := 1 }, ∅, ∅, 1, 7, 0⟩ rfl [
      (.stored, .connect [9] { protocol := 1, principal := [1], role := 2 }
        0 0 .unknown),
      (.stored, .connect [9] { protocol := 1, principal := [2], role := 1 }
        0 0 .unknown),
      (.stored, .receive 2 (.of (.subscribe ⟨some ⟨[1], [5]⟩, none⟩))),
      (.stored, .receive 1 (.of (.envelope
        { sentTo := some (.channel [5]), kind := 2 }))),
      (.stored, .receive 1 (.of (.envelope
        { sentTo := some (.channel [5]), kind := 2 }))),
      (.stored, .receive 1 (.of (.envelope
        { sentTo := some (.channel [5]), kind := 2 }))),
      (.stored, .takeOutbound 2 1000)]
    (by simp [Call.DeliversOnly])
  refine ⟨_, steps, rfl, ran, ?_⟩
  intro account id c key found hears
  obtain ⟨since, subscribe, later, retained, tally, last, latest, whole, _⟩ :=
    accounted account id c key found hears
  exact ⟨since, subscribe, later, retained, tally, last, latest, whole⟩

end WindowMlHub
