import WindowMlHub.RelaySubscriptionRuns

/-!
# Delivery of session events

A subscriber of a stream of session events is handed, or has in its queue, every
envelope that the stream's ring retained after the position it asked for and
every envelope published since, each once and in order.
-/

namespace WindowMlHub

open CheckedEvaluation HashTables

/-- The entries of a stream that a subscriber at this position has not had. -/
def Hub.retainedAfter (hub : Hub) (account : AccountId) (key : StreamKey)
    (since : Option Position) : List Entry :=
  match hub.ring? account key with
  | some ring => ring.retainedAfter since
  | none => []

/-- What was handed to a connection of a stream since it asked to subscribe, and
then what waits in its queue, is what the ring retained at that time and then
what was published since; the numbers are consecutive and the epoch is one. -/
structure Conn.DeliveredInFull (c : Conn) (account : AccountId) (id : ConnId)
    (key : StreamKey) (since : Option Position) (subscribe : Step)
    (later : List Step) (retained : List Envelope) : Prop where
  retained_eq : retained.map (fun env => Frame.of (.envelope env)) =
    (subscribe.before.retainedAfter account key since).map (·.wire)
  delivered_eq : envelopesOf key (handed id later) ++
      envelopesOf key c.out.frames =
    retained ++ later.filterMap fun step => step.publication account key
  consecutive : ∃ first,
    (envelopesOf key (handed id later) ++ envelopesOf key c.out.frames).map
        (·.seq) =
      List.range' first (envelopesOf key (handed id later) ++
        envelopesOf key c.out.frames).length
  one_epoch : ∃ epoch, ∀ env ∈ envelopesOf key (handed id later) ++
    envelopesOf key c.out.frames, env.epoch = epoch

section Delivery

variable {key : StreamKey} {kind : Kind} {epoch : Nat} {given : List Frame}
  {pushed : List Envelope} {items : List Item}
  {dropped : HashMap StreamKey Dropped} {tally : Tally} {last : Nat}

theorem Tallied.in_order
    (tallied : Tallied key kind epoch given pushed items dropped tally last) :
    (envelopesOf key given ++ waiting key items).Pairwise
      fun first second => first.seq < second.seq := by
  obtain ⟨increasing, bounded⟩ := tallied.relayed.increasing
  refine List.pairwise_append.mpr ⟨increasing, tallied.increasing, ?_⟩
  intro first isHanded second isWaiting
  exact Nat.lt_of_le_of_lt (bounded first isHanded)
    (tallied.newer second isWaiting)

theorem Tallied.complete
    (tallied : Tallied key kind epoch given pushed items dropped tally last)
    (noTelemetry : kind ≠ .telemetry)
    (increasing : pushed.Pairwise fun first second =>
      first.seq < second.seq) :
    envelopesOf key given ++ waiting key items = pushed := by
  have balance := tallied.balance
  rw [tallied.spared noTelemetry] at balance
  refine List.Perm.eq_of_pairwise ?_ tallied.in_order increasing
    (by simpa using balance)
  intro first second _ _ less greater
  omega

end Delivery

section Runs

variable [Codec] {start hub : Hub} {steps : List Step} {account : AccountId}
  {id : ConnId} {c : Conn} {key : StreamKey} {since : Option Position}
  {subscribe : Step} {later : List Step}

theorem Hub.backlog_eq (ok : hub.Ok) (sourced : hub.Sourced steps)
    (account : AccountId) (key : StreamKey) (since : Option Position) :
    (backlog key (hub.ring? account key) since).map
        (fun env => Frame.of (.envelope env)) =
      (hub.retainedAfter account key since).map (·.wire) := by
  unfold retainedAfter
  cases found : hub.ring? account key with
  | none => rfl
  | some ring =>
      have sound := ((ok.record_ok account).1.ring_ok found).toSound
      exact (Ring.newest_backlog sound (sourced.rings account key ring found)
        since).2

omit [Codec] in
theorem Numbered.consecutive {ring : Option Ring} {envs : List Envelope}
    (numbered : Numbered ring envs) :
    (∃ first, envs.map (·.seq) = List.range' first envs.length) ∧
      (∃ epoch, ∀ env ∈ envs, env.epoch = epoch) ∧
      envs.Pairwise fun first second => first.seq < second.seq := by
  cases ring with
  | none =>
      rw [show envs = [] from numbered]
      exact ⟨⟨0, rfl⟩, ⟨0, by simp⟩, .nil⟩
  | some ring =>
      have newest : ring.Newest envs := numbered
      exact ⟨⟨_, newest.seqs_eq⟩, ⟨_, newest.epoch_eq⟩, newest.increasing⟩

omit [Codec] in
/-- A followed subscription to session events is delivered in full. -/
theorem Conn.Followed.delivered_in_full {retained : List Envelope}
    (followed : c.Followed key (handed id later)
      (retained ++ later.filterMap fun step => step.publication account key)
      (hub.record account))
    (retainedEq : retained.map (fun env => Frame.of (.envelope env)) =
      (subscribe.before.retainedAfter account key since).map (·.wire))
    (events : ∀ ring, hub.ring? account key = some ring →
      ring.kind = .sessionEvents) :
    c.DeliveredInFull account id key since subscribe later retained := by
  obtain ⟨consecutive, oneEpoch, increasing⟩ := followed.numbered.consecutive
  obtain ⟨epoch, identified⟩ : ∃ epoch, ∀ ring,
      (hub.record account).ring? key = some ring →
        ring.kind = .sessionEvents ∧ ring.epoch = epoch := by
    cases found : (hub.record account).ring? key with
    | none => exact ⟨0, by simp⟩
    | some ring =>
        refine ⟨ring.epoch, fun other same => ?_⟩
        cases same
        exact ⟨events ring found, rfl⟩
  obtain ⟨tally, last, _, tallied⟩ :=
    followed.tallied .sessionEvents epoch identified
  have complete : envelopesOf key (handed id later) ++
      envelopesOf key c.out.frames =
        retained ++ later.filterMap fun step => step.publication account key :=
    tallied.complete (by simp) increasing
  exact ⟨retainedEq, complete, complete ▸ consecutive, complete ▸ oneEpoch⟩

end Runs

/-- In every run in which the server delivers no frames about streams of its
own, every connection that subscribes to a stream of session events has been
handed, or has in its queue, what it asked for in full. -/
theorem relay_session_events_delivered [Codec] (limits : Limits)
    (seed : UInt64) (shard : UInt16) (start : Hub)
    (accepted : Hub.withIdSpace limits seed shard = .ok start)
    (calls : List (HashOrder × Call))
    (delivers : ∀ entry ∈ calls, entry.2.DeliversOnly Frame.Plain) :
    ∃ steps, start.run calls = .ok steps ∧ ∀ account id c key,
      (finalHub start steps).conn? account id = some c → key ∈ c.subs →
      (∀ ring, (finalHub start steps).ring? account key = some ring →
        ring.kind = .sessionEvents) →
      ∃ since subscribe later retained,
        LatestSubscribe steps id key since subscribe later ∧
        c.DeliveredInFull account id key since subscribe later retained := by
  obtain ⟨ok, _, empty, _⟩ := ok_withIdSpace accepted
  obtain ⟨steps, hub, ran, run⟩ := exists_run ok calls
  refine ⟨steps, ran, ?_⟩
  rw [run.finalHub_eq]
  intro account id c key found hears events
  have plain := Hub.forall_calls ran delivers
  obtain ⟨since, subscribe, later, latest⟩ :=
    exists_latestSubscribe (run.asked ok empty account id c key found hears)
  have followed := run.followed ok empty plain latest found hears
  obtain ⟨earlier, rfl⟩ := latest.split
  obtain ⟨before, earlierRun, rest⟩ := run.split
  obtain ⟨rfl, _, _⟩ := rest.uncons
  have sourced := earlierRun.sourced ok (Hub.sourced_empty empty)
    fun step member => (plain step (by simp [member])).mono
      fun _ isPlain => isPlain.envelope
  exact ⟨since, subscribe, later, _, latest, followed.delivered_in_full
    (Hub.backlog_eq (earlierRun.forall_steps ok).1 sourced account key since)
    events⟩

/-- A peer subscribes to a channel on which another one has published, and takes
what it is sent. -/
theorem relay_session_events_delivered_backfill :
    ∃ start steps, Hub.withIdSpace {} 7 0 = .ok start ∧
      start.run [
        (.stored, .connect [9] { protocol := 1, principal := [1], role := 2 }
          0 0 .unknown),
        (.stored, .connect [9] { protocol := 1, principal := [2], role := 1 }
          0 0 .unknown),
        (.stored, .receive 1 (.of (.envelope
          { sentTo := some (.channel [5]), kind := 1 }))),
        (.stored, .receive 2 (.of (.subscribe ⟨some ⟨[1], [5]⟩, none⟩))),
        (.stored, .takeOutbound 2 1000)] = .ok steps ∧
      ∀ account id c key,
        (finalHub start steps).conn? account id = some c → key ∈ c.subs →
        (∀ ring, (finalHub start steps).ring? account key = some ring →
          ring.kind = .sessionEvents) →
        ∃ since subscribe later retained,
          LatestSubscribe steps id key since subscribe later ∧
          c.DeliveredInFull account id key since subscribe later retained := by
  obtain ⟨steps, ran, delivered⟩ := relay_session_events_delivered {} 7 0
    ⟨{}, ∅, ∅, 1, 7, 0⟩ rfl [
      (.stored, .connect [9] { protocol := 1, principal := [1], role := 2 }
        0 0 .unknown),
      (.stored, .connect [9] { protocol := 1, principal := [2], role := 1 }
        0 0 .unknown),
      (.stored, .receive 1 (.of (.envelope
        { sentTo := some (.channel [5]), kind := 1 }))),
      (.stored, .receive 2 (.of (.subscribe ⟨some ⟨[1], [5]⟩, none⟩))),
      (.stored, .takeOutbound 2 1000)]
    (by simp [Call.DeliversOnly])
  exact ⟨_, steps, rfl, ran, delivered⟩

end WindowMlHub
