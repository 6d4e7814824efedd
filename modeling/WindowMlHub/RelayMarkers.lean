import WindowMlHub.RelaySubscriptionRuns

/-!
# Markers that end a backfill

A request to subscribe is answered by what the ring retains and then by a marker
that names the ring's newest number.  The marker belongs to no stream: when the
subscription is renewed or ended before the queue was taken, what the ring
retained is purged and the marker stays.  As long as that does not happen, a
marker that is handed out comes after everything it speaks for.
-/

namespace WindowMlHub

open CheckedEvaluation HashTables

/-- The marker of a stream that a frame carries. -/
def Frame.markerOn? (key : StreamKey) (frame : Frame) : Option Backfilled :=
  frame.backfilled?.filter fun marker =>
    decide (marker.stream = some key.toRef)

/-- The markers of a stream among these frames. -/
def markersOf (key : StreamKey) (frames : List Frame) : List Backfilled :=
  frames.filterMap (Frame.markerOn? key)

/-- A request to subscribe, with the call in which it was made. -/
structure Request where
  step : Step
  since : Option Position

namespace Request

/-- The ring that the request found. -/
def ring? (request : Request) (account : AccountId) (key : StreamKey) :
    Option Ring :=
  request.step.before.ring? account key

/-- The number after which the request asks for envelopes. -/
def sinceSeq (request : Request) : Nat :=
  (request.since.map fun position => position.seq).getD 0

/-- The marker that answers the request. -/
def marker (request : Request) (account : AccountId) (key : StreamKey) :
    Backfilled :=
  backfillMarker (request.ring? account key) key request.since

/-- The session events that come before the marker. -/
def due (request : Request) (account : AccountId) (key : StreamKey) :
    List Envelope :=
  match request.ring? account key with
  | some ring =>
      if ring.kind = .sessionEvents then
        backlog key (some ring) request.since
      else
        []
  | none => []

end Request

instance (limits : Limits) (key : StreamKey) : Decidable (key.Valid limits) :=
  inferInstanceAs (Decidable (¬ _))

/-- The request to subscribe to a stream that a live connection makes in a call.
Without both ids it is refused and not answered by a marker. -/
def Step.request? (step : Step) (account : AccountId) (id : ConnId)
    (key : StreamKey) : Option Request :=
  match step.call with
  | .receive conn frame =>
      if conn = id ∧ (step.before.conn? account id).isSome ∧
          key.Valid step.before.limits then
        frame.subscription?.bind fun (other, since) =>
          if other = key then some ⟨step, since⟩ else none
      else
        none
  | _ => none

/-- The requests of a connection to subscribe to a stream, in order. -/
def requestsOf (account : AccountId) (id : ConnId) (key : StreamKey)
    (steps : List Step) : List Request :=
  steps.filterMap fun step => step.request? account id key

/-- The queued items that are not telemetry. -/
def solid (items : List Item) : List Item :=
  items.filter fun item => !item.telemetry

/-- Each marker among these items answers the next of the requests, and what it
speaks for has been seen before it or stands before it. -/
inductive Covered (account : AccountId) (key : StreamKey) :
    List Envelope → List Item → List Request → Prop
  | nil {seen : List Envelope} : Covered account key seen [] []
  | marker {seen : List Envelope} {item : Item} {items : List Item}
      {request : Request} {requests : List Request}
      (isMarker : item.wire.markerOn? key = some (request.marker account key))
      (held : (request.marker account key).truncated = false →
        ∀ env ∈ request.due account key, env ∈ seen)
      (rest : Covered account key seen items requests) :
      Covered account key seen (item :: items) (request :: requests)
  | other {seen : List Envelope} {item : Item} {items : List Item}
      {requests : List Request} (noMarker : item.wire.markerOn? key = none)
      (rest : Covered account key (seen ++ (item.wire.on? key).toList) items
        requests) :
      Covered account key seen (item :: items) requests

/-- A session event of the stream waits before a marker that claims to leave
nothing out. -/
def Stranding (key : StreamKey) (items : List Item) : Prop :=
  ∃ before item after marker, items = before ++ item :: after ∧
    item.wire.markerOn? key = some marker ∧ marker.truncated = false ∧
    ∃ event ∈ before, event.stream = some key ∧ event.sessionEvent = true

section Covering

variable {account : AccountId} {key : StreamKey} {seen more : List Envelope}
  {item : Item} {items before : List Item} {request : Request}
  {requests : List Request}

@[simp]
theorem markersOf_nil : markersOf key [] = [] := rfl

@[simp]
theorem markersOf_append (first second : List Frame) :
    markersOf key (first ++ second) =
      markersOf key first ++ markersOf key second :=
  List.filterMap_append

theorem not_stranding_nil : ¬ Stranding key [] := by
  rintro ⟨before, item, after, marker, split, _⟩
  simp at split

theorem stranding_cons :
    Stranding key (item :: items) ↔
      ((item.stream = some key ∧ item.sessionEvent = true) ∧
        ∃ other ∈ items, ((other.wire.markerOn? key).any
          fun marker => !marker.truncated) = true) ∨
      Stranding key items := by
  constructor
  · rintro ⟨before, other, after, marker, split, isMarker, whole, event, member,
      waits⟩
    obtain _ | ⟨first, before⟩ := before
    · simp at member
    · obtain ⟨rfl, rfl⟩ := List.cons.inj split
      obtain rfl | later := List.mem_cons.mp member
      · exact .inl ⟨waits, other, by simp, by simp [isMarker, whole]⟩
      · exact .inr ⟨before, other, after, marker, rfl, isMarker, whole, event,
          later, waits⟩
  · rintro (⟨waits, other, member, isMarker⟩ |
      ⟨before, other, after, marker, rfl, isMarker, whole, event, member, waits⟩)
    · cases found : other.wire.markerOn? key with
      | none => simp [found] at isMarker
      | some marker =>
          obtain ⟨before, after, rfl⟩ := List.append_of_mem member
          exact ⟨item :: before, other, after, marker, rfl, found,
            by simpa [found] using isMarker, item, by simp, waits⟩
    · exact ⟨item :: before, other, after, marker, rfl, isMarker, whole, event,
        by simp [member], waits⟩

instance decidableStranding : (items : List Item) → Decidable (Stranding key items)
  | [] => .isFalse not_stranding_nil
  | _ :: items =>
    have := decidableStranding items
    decidable_of_iff _ stranding_cons.symm

theorem markersOf_single (frame : Frame) :
    markersOf key [frame] = (frame.markerOn? key).toList := by
  cases found : frame.markerOn? key <;> simp [markersOf, found]

theorem Frame.markerOn?_of_backfilled {frame : Frame}
    (noMarker : frame.backfilled? = none) : frame.markerOn? key = none := by
  simp [markerOn?, noMarker]

theorem Frame.markerOn?_of_envelope {frame : Frame} {env : Envelope}
    (isEnvelope : frame = .of (.envelope env)) :
    frame.markerOn? key = none := by
  subst isEnvelope
  rfl

theorem Frame.on?_of_marker {frame : Frame} {marker : Backfilled}
    (isMarker : frame.markerOn? key = some marker) (other : StreamKey) :
    frame.on? other = none := by
  rw [Option.eq_none_iff_forall_ne_some]
  intro env mine
  obtain ⟨rfl, _⟩ := on?_eq_some.mp mine
  cases isMarker

theorem Covered.mono (covered : Covered account key seen items requests)
    (subset : ∀ env ∈ seen, env ∈ more) :
    Covered account key more items requests := by
  induction covered generalizing more with
  | nil => exact .nil
  | marker isMarker held rest ih =>
      exact .marker isMarker
        (fun whole env member => subset env (held whole env member))
        (ih subset)
  | other noMarker rest ih =>
      refine .other noMarker (ih fun env member => ?_)
      rcases List.mem_append.mp member with old | new
      · exact List.mem_append_left _ (subset env old)
      · exact List.mem_append_right _ new

theorem Covered.append_other
    (covered : Covered account key seen items requests)
    (noMarker : item.wire.markerOn? key = none) :
    Covered account key seen (items ++ [item]) requests := by
  induction covered with
  | nil => exact .other noMarker .nil
  | marker isMarker held rest ih => exact .marker isMarker held ih
  | other noMarker' rest ih => exact .other noMarker' ih

theorem Covered.append_marker
    (covered : Covered account key seen items requests)
    (isMarker : item.wire.markerOn? key = some (request.marker account key))
    (held : ∀ env ∈ request.due account key,
      env ∈ seen ++ waiting key items) :
    Covered account key seen (items ++ [item]) (requests ++ [request]) := by
  induction covered with
  | nil => exact .marker isMarker (fun _ => by simpa using held) .nil
  | marker isMarker' held' rest ih =>
      refine .marker isMarker' held' (ih fun env member => ?_)
      simpa [waiting_cons, Frame.on?_of_marker isMarker'] using held env member
  | other noMarker rest ih =>
      refine .other noMarker (ih fun env member => ?_)
      simpa [waiting_cons] using held env member

/-- Items that have nothing to do with the stream may be removed. -/
theorem Covered.filter_away (keep : Item → Bool)
    (covered : Covered account key seen items requests)
    (away : ∀ item ∈ items, keep item = false →
      item.wire.markerOn? key = none ∧ item.wire.on? key = none) :
    Covered account key seen (items.filter keep) requests := by
  induction covered with
  | nil => exact .nil
  | @marker seen item items request requests isMarker held rest ih =>
      have kept : keep item = true := by
        by_contra removed
        have := (away item (by simp) (by simpa using removed)).1
        rw [isMarker] at this
        cases this
      rw [List.filter_cons_of_pos kept]
      exact .marker isMarker held
        (ih fun item member => away item (by simp [member]))
  | @other seen item items requests noMarker rest ih =>
      have later := ih fun item member => away item (by simp [member])
      cases kept : keep item with
      | true =>
          rw [List.filter_cons_of_pos kept]
          exact .other noMarker later
      | false =>
          rw [List.filter_cons_of_neg (by simp [kept])]
          have nothing := (away item (by simp) kept).2
          simpa [nothing] using later

theorem Covered.of_truncated
    (covered : Covered account key seen items requests)
    (truncated : ∀ item ∈ items, ∀ marker,
      item.wire.markerOn? key = some marker → marker.truncated = true) :
    Covered account key more items requests := by
  induction covered generalizing more with
  | nil => exact .nil
  | marker isMarker held rest ih =>
      refine .marker isMarker (fun whole => ?_)
        (ih fun item member => truncated item (by simp [member]))
      have := truncated _ List.mem_cons_self _ isMarker
      rw [whole] at this
      cases this
  | other noMarker rest ih =>
      exact .other noMarker
        (ih fun item member => truncated item (by simp [member]))

/-- Purging the stream leaves every marker covered when no session event waits
before a marker that claims to leave nothing out. -/
theorem Covered.purge
    (covered : Covered account key seen items requests)
    (unstranded : ¬ Stranding key items)
    (ofStream : ∀ item ∈ items, item.stream = some key →
      item.wire.markerOn? key = none ∧ item.sessionEvent = true) :
    Covered account key seen
      (items.filter fun item => decide (item.stream ≠ some key)) requests := by
  induction covered with
  | nil => exact .nil
  | @marker seen item items request requests isMarker held rest ih =>
      have kept : item.stream ≠ some key := by
        intro mine
        have := (ofStream item (by simp) mine).1
        rw [isMarker] at this
        cases this
      rw [List.filter_cons_of_pos (by simpa using kept)]
      exact .marker isMarker held
        (ih (fun later => unstranded (stranding_cons.mpr (.inr later)))
          fun item member => ofStream item (by simp [member]))
  | @other seen item items requests noMarker rest ih =>
      have filtered := ih
        (fun later => unstranded (stranding_cons.mpr (.inr later)))
        fun item member => ofStream item (by simp [member])
      by_cases mine : item.stream = some key
      · rw [List.filter_cons_of_neg (by simpa using mine)]
        -- what is purged here stands before truncated markers only
        refine filtered.of_truncated fun other member marker isOther => ?_
        by_contra whole
        exact unstranded (stranding_cons.mpr (.inl
          ⟨⟨mine, (ofStream item (by simp) mine).2⟩, other,
            (List.mem_filter.mp member).1, by simp [isOther, whole]⟩))
      · rw [List.filter_cons_of_pos (by simpa using mine)]
        exact .other noMarker filtered

/-- The markers among the first items answer the first requests. -/
theorem Covered.split
    (covered : Covered account key seen (before ++ items) requests) :
    ∃ answered pending, requests = answered ++ pending ∧
      answered.length = (markersOf key (before.map (·.wire))).length ∧
      Covered account key (seen ++ waiting key before) items pending := by
  induction before generalizing seen requests with
  | nil => exact ⟨[], requests, rfl, rfl, by simpa using covered⟩
  | cons item before ih =>
      cases covered with
      | marker isMarker held rest =>
          obtain ⟨answered, pending, rfl, lengths, later⟩ := ih rest
          refine ⟨_ :: answered, pending, rfl, ?_, ?_⟩
          · simp [markersOf, isMarker, lengths]
          · simpa [waiting_cons, Frame.on?_of_marker isMarker] using later
      | other noMarker rest =>
          obtain ⟨answered, pending, rfl, lengths, later⟩ := ih rest
          refine ⟨answered, pending, rfl, ?_, ?_⟩
          · simp [markersOf, noMarker, lengths]
          · simpa [waiting_cons] using later

end Covering

/-! ## Queue operations and events -/

/-- A frame offered to a connection is no marker. -/
def Event.Unmarked (id : ConnId) (event : Event) : Prop :=
  ∀ frame, event = .frame id frame → frame.backfilled? = none

/-- An operation that only pushes, and no marker of the stream. -/
def QueueOp.PushesUnmarked (key : StreamKey) : QueueOp → Prop
  | .frame sent => sent.markerOn? key = none
  | .published _ _ _ entry => ∃ env, entry.wire = .of (.envelope env)
  | .purge _ => False

section Operations

variable [Codec] {limits : Limits} {queue next final : Outbound}
  {op : QueueOp} {ops : List QueueOp} {account : AccountId} {key : StreamKey}
  {seen : List Envelope} {requests : List Request}

omit [Codec] in
@[simp]
theorem solid_append (first second : List Item) :
    solid (first ++ second) = solid first ++ solid second :=
  List.filter_append ..

theorem Perform.solid_published {other : StreamKey} {kind : Kind}
    {epoch : Nat} {entry : Entry} (ok : queue.Ok)
    (performed : Perform limits queue (.published other kind epoch entry)
      next) :
    solid next.items =
      solid queue.items ++ solid [.ofEntry other kind epoch entry] := by
  obtain ⟨kept, thinned, appended⟩ := performed.thinned ok
  have same : solid kept = solid queue.items :=
    thinned.filter_eq _ (by simp)
  rw [appended, solid_append, same]

theorem Perform.covered_push (ok : queue.Ok)
    (performed : Perform limits queue op next)
    (pushes : op.PushesUnmarked key)
    (covered : Covered account key seen (solid queue.items) requests) :
    Covered account key seen (solid next.items) requests := by
  cases op with
  | frame frame =>
      rw [performed.of_frame ok]
      have solidEq : solid (queue.items ++ [.ofFrame frame]) =
          solid queue.items ++ [.ofFrame frame] := by
        rw [solid_append]
        rfl
      simp only [Outbound.counted, solidEq]
      exact covered.append_other pushes
  | published other kind epoch entry =>
      rw [performed.solid_published ok]
      obtain ⟨env, isEnvelope⟩ := pushes
      by_cases isTelemetry : kind = .telemetry
      · simpa [solid, Item.ofEntry, isTelemetry] using covered
      · have one : solid [.ofEntry other kind epoch entry] =
            [.ofEntry other kind epoch entry] := by
          simp [solid, Item.ofEntry, isTelemetry]
        rw [one]
        exact covered.append_other (Frame.markerOn?_of_envelope isEnvelope)
  | purge other => exact pushes.elim

theorem Performs.covered_pushes (ok : queue.Ok)
    (performed : Performs limits queue ops final)
    (pushes : ∀ op ∈ ops, op.PushesUnmarked key)
    (covered : Covered account key seen (solid queue.items) requests) :
    Covered account key seen (solid final.items) requests := by
  induction performed with
  | done => exact covered
  | next first rest ih =>
      exact ih (first.ok ok) (fun op member => pushes op (by simp [member]))
        (first.covered_push ok (pushes _ (by simp)) covered)

theorem Performs.solid_entries {kind : Kind} {epoch : Nat}
    {entries : List Entry} (ok : queue.Ok)
    (performed : Performs limits queue
      (entries.map fun entry => .published key kind epoch entry) final)
    (noTelemetry : kind ≠ .telemetry) :
    solid final.items =
      solid queue.items ++ entries.map (.ofEntry key kind epoch) := by
  induction entries generalizing queue with
  | nil => simp [performed.of_nil]
  | cons entry entries ih =>
      cases performed with
      | next first rest =>
          rw [ih (first.ok ok) rest, first.solid_published ok]
          simp [solid, Item.ofEntry, noTelemetry]

omit [Codec] in
theorem solid_filter (items : List Item) (keep : Item → Bool) :
    solid (items.filter keep) = (solid items).filter keep := by
  simp only [solid, List.filter_filter, Bool.and_comm]

end Operations

section Events

variable [Codec] {limits : Limits} {origins : Origins} {acct acct' : Account}
  {fx fx' : Effects} {event : Event} {events : List Event} {id : ConnId}
  {c c' : Conn} {account : AccountId} {key : StreamKey} {seen : List Envelope}
  {requests : List Request}

theorem Perform.covered_purge_other {other : StreamKey} {next : Outbound}
    (sourced : c.Sourced origins acct)
    (directed : ∀ target env, origins.direct target env →
      ∃ principal, env.sentTo = some (.principal principal))
    (performed : Perform limits c.out (.purge other) next)
    (differs : other ≠ key)
    (covered : Covered account key seen (solid c.out.items) requests) :
    Covered account key seen (solid next.items) requests := by
  rw [performed.of_purge sourced.queue_ok]
  simp only [Outbound.counted, solid_filter]
  refine covered.filter_away _ fun item member removed => ?_
  have belongs : item.stream = some other := by simpa using removed
  have queued : item ∈ c.out.items := (List.mem_filter.mp member).1
  obtain ⟨env, isEnvelope⟩ := (sourced.items item queued).exists_envelope
    (by simp [belongs])
  exact ⟨Frame.markerOn?_of_envelope isEnvelope,
    sourced.foreign directed queued (by simpa [belongs] using differs)⟩

/-- Purging the stream itself, when that strands no marker. -/
theorem Perform.covered_purge {next : Outbound}
    (sourced : c.Sourced origins acct)
    (performed : Perform limits c.out (.purge key) next)
    (unstranded : ¬ Stranding key c.out.items)
    (covered : Covered account key seen (solid c.out.items) requests) :
    Covered account key seen (solid next.items) requests := by
  rw [performed.of_purge sourced.queue_ok]
  simp only [Outbound.counted, solid_filter]
  apply covered.purge
  · rintro ⟨before, item, after, marker, split, found⟩
    obtain ⟨isMarker, whole, event, member, waits⟩ := found
    have sub : (before ++ item :: after).Sublist c.out.items := by
      rw [← split]
      exact List.filter_sublist
    obtain ⟨first, second, wholeEq, firstSub, secondSub⟩ :=
      List.append_sublist_iff.mp sub
    obtain ⟨skipped, rest, secondEq⟩ :=
      List.append_of_mem (secondSub.subset List.mem_cons_self)
    exact unstranded ⟨first ++ skipped, item, rest, marker,
      by simp [wholeEq, secondEq], isMarker, whole, event,
      by simp [firstSub.subset member], waits⟩
  · intro item member belongs
    obtain ⟨queued, noTelemetry⟩ := List.mem_filter.mp member
    obtain ⟨env, isEnvelope⟩ := (sourced.items item queued).exists_envelope
      (by simp [belongs])
    refine ⟨Frame.markerOn?_of_envelope isEnvelope, ?_⟩
    cases sourced.items item queued with
    | loose direct => cases belongs
    | published streamed carries published =>
        rcases streamed with isEvent | isTelemetry
        · simp [Item.ofEntry, isEvent]
        · simp [Item.ofEntry, isTelemetry] at noTelemetry

omit [Codec] in
theorem backfill_unmarked {other : StreamKey} {since : Option Position}
    {ring : Option Ring}
    (rings : ∀ found, ring = some found → found.Sourced origins other)
    (op : QueueOp) (member : op ∈ backfillOps ring other since) :
    op.PushesUnmarked key := by
  cases ring with
  | none => simp [backfillOps] at member
  | some ring =>
      obtain ⟨entry, entryMember, rfl⟩ := List.mem_map.mp member
      obtain ⟨_, env, carries, _⟩ := (rings ring rfl).entries entry
        (List.mem_filter.mp entryMember).1
      exact ⟨env, carries.wire_eq⟩

/-- An event that neither renews nor ends the subscription keeps the markers
covered. -/
theorem Passes.covered_away (act : Act limits acct fx event acct' fx')
    (passes : Passes limits event id c c') (rings : acct.Sourced origins)
    (sourced : c.Sourced origins acct)
    (directed : ∀ target env, origins.direct target env →
      ∃ principal, env.sentTo = some (.principal principal))
    (stamps : event.Stamps origins) (unmarked : event.Unmarked id)
    (stays : ∀ since ring, event ≠ .subscribed id key since ring)
    (remains : event ≠ .unsubscribed id key)
    (covered : Covered account key seen (solid c.out.items) requests) :
    Covered account key seen (solid c'.out.items) requests := by
  have performs := passes.performs
  have ok := sourced.queue_ok
  have pushes (only : ∀ op ∈ event.ops id c, op.PushesUnmarked key) :
      Covered account key seen (solid c'.out.items) requests :=
    performs.covered_pushes ok only covered
  cases event with
  | quiet => exact pushes (by simp [Event.ops])
  | frame target sent =>
      apply pushes
      intro op among
      simp only [Event.ops] at among
      split at among
      · rename_i mine
        subst mine
        rw [List.mem_singleton.mp among]
        exact Frame.markerOn?_of_backfilled (unmarked sent rfl)
      · simp at among
  | published other ring env =>
      apply pushes
      intro op among
      simp only [Event.ops] at among
      split at among
      · rw [List.mem_singleton.mp among]
        exact ⟨_, (stamps other ring env rfl).2.1.wire_eq⟩
      · simp at among
  | subscribed target other since ring =>
      simp only [Event.ops] at performs
      split at performs
      · rename_i mine
        subst mine
        have differs : other ≠ key := fun same =>
          stays since ring (by rw [same])
        have otherRef : other.toRef ≠ key.toRef := fun same =>
          differs (StreamKey.toRef_injective same)
        cases performs with
        | next first rest =>
            refine rest.covered_pushes (first.ok ok) ?_
              (first.covered_purge_other sourced directed differs covered)
            intro op among
            rcases List.mem_append.mp among with backfilled | marker
            · exact backfill_unmarked (fun found isRing => rings other found
                ((act.ring_subscribed rfl).1.trans isRing)) op backfilled
            · rw [List.mem_singleton.mp marker]
              cases ring <;>
                simp [QueueOp.PushesUnmarked, Frame.markerOn?, Frame.of,
                  Frame.backfilled?, backfillMarker, otherRef]
      · rw [performs.of_nil]
        exact covered
  | unsubscribed target other =>
      simp only [Event.ops] at performs
      split at performs
      · rename_i mine
        subst mine
        have differs : other ≠ key := fun same => remains (by rw [same])
        cases performs with
        | next first rest =>
            rw [rest.of_nil]
            exact first.covered_purge_other sourced directed differs covered
      · rw [performs.of_nil]
        exact covered
  | joined other conn role =>
      apply pushes
      intro op among
      rw [List.mem_singleton.mp among]
      rfl
  | left other principal role =>
      apply pushes
      intro op among
      rw [List.mem_singleton.mp among]
      rfl

theorem Lives.covered_away (lives : Lives limits id acct c events acct' c')
    (rings : acct.Sourced origins) (sourced : c.Sourced origins acct)
    (directed : ∀ target env, origins.direct target env →
      ∃ principal, env.sentTo = some (.principal principal))
    (genuine : ∀ event ∈ events, event.Sourced origins id c.principal)
    (unmarked : ∀ event ∈ events, event.Unmarked id)
    (stays : ∀ since ring, .subscribed id key since ring ∉ events)
    (remains : .unsubscribed id key ∉ events)
    (covered : Covered account key seen (solid c.out.items) requests) :
    Covered account key seen (solid c'.out.items) requests := by
  induction lives with
  | start => exact covered
  | quiet lives act found passes ih =>
      refine passes.covered_away act
        (lives.rings_sourced rings fun event member =>
          (genuine event member).published)
        (lives.sourced rings sourced genuine) directed
        (fun _ _ _ absurdity => by cases absurdity)
        (fun _ absurdity => by cases absurdity)
        (fun _ _ absurdity => by cases absurdity) (by simp)
        (ih sourced genuine unmarked stays remains covered)
  | @event _ _ _ _ _ events event _ _ lives act found passes ih =>
      have before : ∀ event ∈ events, event.Sourced origins id _ :=
        fun event member => genuine event (by simp [member])
      refine passes.covered_away act
        (lives.rings_sourced rings fun event member =>
          (before event member).published)
        (lives.sourced rings sourced before) directed
        (genuine event (by simp)).published (unmarked event (by simp))
        (fun since ring same => stays since ring (by simp [same]))
        (fun same => remains (by simp [same]))
        (ih sourced before
          (fun event member => unmarked event (by simp [member]))
          (fun since ring member => stays since ring (by simp [member]))
          (fun member => remains (by simp [member])) covered)

theorem Lives.out_of_nil (lives : Lives limits id acct c [] acct' c') :
    c'.out = c.out := by
  generalize none : [] = events at lives
  induction lives with
  | start => rfl
  | quiet lives act found passes ih =>
      exact (passes.of_nothing rfl).1.trans (ih none)
  | event => simp at none

/-- The first event that a sourced connection goes through, and the rest. -/
theorem Lives.uncons_sourced
    (lives : Lives limits id acct c (event :: events) acct' c')
    (rings : acct.Sourced origins) (sourced : c.Sourced origins acct)
    (genuine : ∀ other ∈ event :: events,
      other.Sourced origins id c.principal) :
    ∃ before after b b' fx fx', b.out = c.out ∧ before.Sourced origins ∧
      b.Sourced origins before ∧ Act limits before fx event after fx' ∧
      Passes limits event id b b' ∧ after.Sourced origins ∧
      b'.Sourced origins after ∧ b'.principal = c.principal ∧
      Lives limits id after b' events acct' c' := by
  obtain ⟨before, after, b, b', fx, fx', quiets, act, passes, rest⟩ :=
    lives.uncons
  have quietRings := quiets.rings_sourced rings (by simp)
  have quietSourced := quiets.sourced rings sourced (by simp)
  have samePrincipal := quiets.stable.1
  have first := genuine event (by simp)
  exact ⟨before, after, b, b', fx, fx', quiets.out_of_nil, quietRings,
    quietSourced, act, passes, act.sourced quietRings first.published,
    passes.sourced quiets.last act quietRings quietSourced
      (samePrincipal ▸ first),
    passes.principal_eq.trans samePrincipal, rest⟩

/-- A renewed subscription is answered by a marker that comes after what it
speaks for. -/
theorem Passes.covered_subscribed {request : Request}
    (act : Act limits acct fx (.subscribed id key request.since
      (request.ring? account key)) acct' fx')
    (passes : Passes limits (.subscribed id key request.since
      (request.ring? account key)) id c c')
    (rings : acct.Sourced origins) (sourced : c.Sourced origins acct)
    (unstranded : ¬ Stranding key c.out.items)
    (covered : Covered account key seen (solid c.out.items) requests) :
    Covered account key seen (solid c'.out.items)
      (requests ++ [request]) := by
  have performs := passes.performs
  simp only [Event.ops, if_true] at performs
  cases performs with
  | @next _ middle _ _ _ first rest =>
      have middleOk := first.ok sourced.queue_ok
      have purged := first.covered_purge sourced unstranded covered
      have ringBefore := (act.ring_subscribed rfl).1
      have ringSourced : ∀ found, request.ring? account key = some found →
          found.Sourced origins key := fun found isRing =>
        rings key found (ringBefore.trans isRing)
      obtain ⟨filled, backfills, marks⟩ := rest.of_append
      have marked := marks.of_single.of_frame (backfills.ok middleOk)
      have solidEq : solid c'.out.items = solid filled.items ++ [.ofFrame
          (.of (.backfilled (request.marker account key)))] := by
        rw [marked]
        simp only [Outbound.counted, solid_append]
        rfl
      rw [solidEq]
      apply (backfills.covered_pushes middleOk
        (backfill_unmarked ringSourced) purged).append_marker
      · cases found : request.ring? account key <;>
          simp [Item.ofFrame, Frame.markerOn?, Frame.of, Frame.backfilled?,
            Request.marker, backfillMarker, found]
      · intro env member
        cases found : request.ring? account key with
        | none => simp [Request.due, found] at member
        | some ring =>
            simp only [Request.due, found] at member
            split at member
            · rename_i isEvents
              rw [found] at backfills
              have entries := backfills.solid_entries middleOk
                (by simp [isEvents])
              have queued : waiting key ((ring.backfill
                  request.since).entries.map
                    (.ofEntry key ring.kind ring.epoch)) =
                  backlog key (some ring) request.since := by
                simp only [waiting, List.map_map]
                rw [backlog, ring.retainedAfter_eq]
                rfl
              rw [entries, waiting_append, queued]
              simp [member]
            · cases member

theorem Passes.covered_unsubscribed
    (passes : Passes limits (.unsubscribed id key) id c c')
    (sourced : c.Sourced origins acct)
    (unstranded : ¬ Stranding key c.out.items)
    (covered : Covered account key seen (solid c.out.items) requests) :
    Covered account key seen (solid c'.out.items) requests := by
  have performs := passes.performs
  simp only [Event.ops, if_true] at performs
  exact performs.of_single.covered_purge sourced unstranded covered

end Events

end WindowMlHub
