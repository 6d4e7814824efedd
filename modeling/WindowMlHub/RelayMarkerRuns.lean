import WindowMlHub.RelayMarkers

/-!
# Markers over a run

In a run in which no subscription is renewed or ended while one of its session
events waits before a marker that claims to leave nothing out, every such marker
is handed out after every session event it speaks for.  Without that condition a
marker can be handed out alone.
-/

namespace WindowMlHub

open CheckedEvaluation HashTables

/-- The connection renews or ends its subscription to a stream while that strands
a marker in its queue. -/
def Step.Strands (step : Step) (account : AccountId) (id : ConnId)
    (key : StreamKey) : Prop :=
  ∃ c frame, step.before.conn? account id = some c ∧
    step.call = .receive id frame ∧
    ((∃ since, frame.subscription? = some (key, since)) ∨
      frame.unsubscription? = some key) ∧
    Stranding key c.out.items

/-- What a step strands, computed. -/
def Step.strands (step : Step) (account : AccountId) (id : ConnId)
    (key : StreamKey) : Bool :=
  match step.call with
  | .receive conn frame =>
      decide (conn = id) &&
        (decide (frame.subscription?.map Prod.fst = some key) ||
          decide (frame.unsubscription? = some key)) &&
        (step.before.conn? account id).any fun c =>
          decide (Stranding key c.out.items)
  | _ => false

/-- The markers of a stream that have been handed to a connection or wait in its
queue answer its requests in order, and each that claims to leave nothing out
comes after what it speaks for. -/
def Conn.Marked (steps : List Step) (account : AccountId) (id : ConnId)
    (key : StreamKey) (c : Conn) : Prop :=
  ∃ answered pending, requestsOf account id key steps = answered ++ pending ∧
    answered.length = (markersOf key (handed id steps)).length ∧
    Covered account key (envelopesOf key (handed id steps))
      (solid c.out.items) pending

section Requests

variable {account : AccountId} {id : ConnId} {key : StreamKey} {step : Step}

theorem Step.strands_iff :
    step.Strands account id key ↔ step.strands account id key = true := by
  constructor
  · rintro ⟨c, frame, found, isReceive, asked | left, waits⟩
    · obtain ⟨since, asked⟩ := asked
      simp [strands, isReceive, asked, found, waits]
    · simp [strands, isReceive, left, found, waits]
  · intro computed
    unfold strands at computed
    split at computed
    · rename_i conn frame isReceive
      cases found : step.before.conn? account id with
      | none => simp [found] at computed
      | some c =>
          simp only [found, Option.any_some, Bool.and_eq_true, Bool.or_eq_true,
            decide_eq_true_eq] at computed
          obtain ⟨⟨rfl, asked | left⟩, waits⟩ := computed
          · obtain ⟨pair, isPair, rfl⟩ := Option.map_eq_some_iff.mp asked
            exact ⟨c, frame, found, isReceive, .inl ⟨pair.2, isPair⟩, waits⟩
          · exact ⟨c, frame, found, isReceive, .inr left, waits⟩
    · cases computed

instance (step : Step) (account : AccountId) (id : ConnId) (key : StreamKey) :
    Decidable (step.Strands account id key) :=
  decidable_of_iff _ Step.strands_iff.symm

theorem Step.request?_eq_some {request : Request} :
    step.request? account id key = some request ↔
      request.step = step ∧ (step.before.conn? account id).isSome ∧
      key.Valid step.before.limits ∧
      ∃ frame, step.call = .receive id frame ∧
        frame.subscription? = some (key, request.since) := by
  constructor
  · intro found
    unfold request? at found
    split at found
    · rename_i conn frame isReceive
      split at found
      · rename_i conditions
        obtain ⟨rfl, live, valid⟩ := conditions
        obtain ⟨⟨other, since⟩, asked, found⟩ :=
          Option.bind_eq_some_iff.mp found
        simp only [Option.ite_none_right_eq_some] at found
        obtain ⟨rfl, isRequest⟩ := found
        cases isRequest
        exact ⟨rfl, live, valid, frame, isReceive, asked⟩
      · cases found
    · cases found
  · rintro ⟨rfl, live, valid, frame, isReceive, asked⟩
    unfold request?
    rw [isReceive]
    simp [live, valid, asked]

theorem requestsOf_append (earlier : List Step) (step : Step) :
    requestsOf account id key (earlier ++ [step]) =
      requestsOf account id key earlier ++
        (step.request? account id key).toList := by
  rw [requestsOf, List.filterMap_append]
  cases found : step.request? account id key <;>
    simp [requestsOf, found]

theorem Step.request?_of_others (others : step.call.conn? ≠ some id) :
    step.request? account id key = none := by
  rw [Option.eq_none_iff_forall_ne_some]
  intro request found
  obtain ⟨_, _, _, frame, isReceive, _⟩ := request?_eq_some.mp found
  rw [isReceive] at others
  exact others rfl

end Requests

section Handing

variable [Codec] {origins : Origins} {acct : Account} {c : Conn}
  {key : StreamKey}

omit [Codec] in
/-- A frame that is handed out and is no gap report was queued. -/
theorem Outbound.handOut_split (key : StreamKey) {dropped : HashMap StreamKey Dropped}
    {taken : List Item} {before after : List Frame} {frame : Frame}
    (split : (handOut dropped taken).1 = before ++ frame :: after)
    (noGap : frame.gap? = none) :
    ∃ first item second, taken = first ++ item :: second ∧
      item.wire = frame ∧
      envelopesOf key before = envelopesOf key (first.map (·.wire)) ∧
      markersOf key before = markersOf key (first.map (·.wire)) := by
  induction taken generalizing dropped before with
  | nil => simp [handOut] at split
  | cons item taken ih =>
      unfold handOut at split
      cases owed : owedGap dropped item with
      | none =>
          simp only [owed] at split
          cases before with
          | nil =>
              obtain ⟨isFrame, _⟩ := List.cons.inj split
              exact ⟨[], item, taken, rfl, isFrame, rfl, rfl⟩
          | cons other before =>
              obtain ⟨rfl, rest⟩ := List.cons.inj split
              obtain ⟨first, found, second, rfl, isFrame, envelopes, markers⟩ :=
                ih rest
              refine ⟨item :: first, found, second, rfl, isFrame, ?_, ?_⟩
              · simp only [envelopesOf, List.map_cons, List.filterMap_cons]
                simp only [envelopesOf] at envelopes
                rw [envelopes]
              · simp only [markersOf, List.map_cons, List.filterMap_cons]
                simp only [markersOf] at markers
                rw [markers]
      | some pair =>
          simp only [owed] at split
          cases before with
          | nil =>
              obtain ⟨rfl, _⟩ := List.cons.inj split
              cases noGap
          | cons gap before =>
              obtain ⟨rfl, rest⟩ := List.cons.inj split
              cases before with
              | nil =>
                  obtain ⟨isFrame, _⟩ := List.cons.inj rest
                  exact ⟨[], item, taken, rfl, isFrame, rfl, rfl⟩
              | cons other before =>
                  obtain ⟨rfl, later⟩ := List.cons.inj rest
                  obtain ⟨first, found, second, rfl, isFrame, envelopes,
                    markers⟩ := ih later
                  refine ⟨item :: first, found, second, rfl, isFrame, ?_, ?_⟩
                  · have silent : (gapBefore item pair.1 pair.2).on? key =
                        none := rfl
                    simp only [envelopesOf, List.map_cons,
                      List.filterMap_cons, silent]
                    simp only [envelopesOf] at envelopes
                    rw [envelopes]
                  · have silent : (gapBefore item pair.1 pair.2).markerOn?
                        key = none := rfl
                    simp only [markersOf, List.map_cons, List.filterMap_cons,
                      silent]
                    simp only [markersOf] at markers
                    rw [markers]

omit [Codec] in
/-- Telemetry is no marker. -/
theorem markersOf_solid {items : List Item}
    (readable : ∀ item ∈ items, item.telemetry = true →
      item.wire.markerOn? key = none) :
    markersOf key ((solid items).map (·.wire)) =
      markersOf key (items.map (·.wire)) := by
  induction items with
  | nil => rfl
  | cons item items ih =>
      have later := ih fun item member => readable item (by simp [member])
      simp only [markersOf] at later
      cases isTelemetry : item.telemetry with
      | false =>
          simp only [markersOf, solid, isTelemetry, Bool.not_false,
            List.filter_cons_of_pos, List.map_cons, List.filterMap_cons]
          simp only [solid] at later
          rw [later]
      | true =>
          have unread := readable item (by simp) isTelemetry
          simp only [solid] at later
          simp [markersOf, solid, isTelemetry, unread, later]

omit [Codec] in
theorem waiting_solid_subset {items : List Item} {env : Envelope}
    (member : env ∈ waiting key (solid items)) : env ∈ waiting key items := by
  unfold waiting envelopesOf at member ⊢
  rw [List.filterMap_map, List.mem_filterMap] at member ⊢
  obtain ⟨item, isSolid, read⟩ := member
  exact ⟨item, (List.mem_filter.mp isSolid).1, read⟩

theorem Conn.Sourced.unmarked (sourced : c.Sourced origins acct) {item : Item}
    (member : item ∈ c.out.items) (isTelemetry : item.telemetry = true) :
    item.wire.markerOn? key = none := by
  obtain ⟨_, stream, belongs⟩ :=
    sourced.queue_ok.proper item member isTelemetry
  obtain ⟨env, isEnvelope⟩ := (sourced.items item member).exists_envelope
    (by simp [belongs])
  exact Frame.markerOn?_of_envelope isEnvelope

end Handing

section Runs

variable [Codec] {start hub : Hub} {steps : List Step} {step : Step}
  {account : AccountId} {id : ConnId} {c c' : Conn} {key : StreamKey}
  {order : HashOrder}

omit [Codec] in
theorem Conn.Marked.of_silent (unhanded : step.handed id = [])
    (unasked : step.request? account id key = none)
    {answered pending : List Request}
    (requests : requestsOf account id key steps = answered ++ pending)
    (lengths : answered.length = (markersOf key (handed id steps)).length)
    (covered : Covered account key (envelopesOf key (handed id steps))
      (solid c'.out.items) pending) :
    c'.Marked (steps ++ [step]) account id key := by
  refine ⟨answered, pending, ?_, ?_, ?_⟩
  · simp [requestsOf_append, unasked, requests]
  · simp [unhanded, lengths]
  · simpa [unhanded] using covered

/-- Taking from a queue hands out the first markers. -/
theorem Took.marked {acct acct' : Account} {taken rest : List Item}
    {origins : Origins} (sourced : c.Sourced origins acct')
    (took : Took step.before step.call step.reply step.after account id acct c
      taken rest)
    (unasked : step.request? account id key = none)
    (after : c' = { c with
      out := Outbound.counted rest (Outbound.handOut c.out.dropped taken).2
      armed := !rest.isEmpty })
    (marked : c.Marked steps account id key) :
    c'.Marked (steps ++ [step]) account id key := by
  obtain ⟨answered, pending, requests, lengths, covered⟩ := marked
  rw [took.split, solid_append] at covered
  obtain ⟨answers, left, rfl, more, covered⟩ := covered.split
  have readable (item : Item) (member : item ∈ taken)
      (isTelemetry : item.telemetry = true) :
      item.wire.markerOn? key = none :=
    sourced.unmarked (by rw [took.split]; simp [member]) isTelemetry
  rw [markersOf_solid readable] at more
  have envelopes : envelopesOf key (step.handed id) = waiting key taken := by
    rw [Step.handed_of_took took]
    exact Outbound.filterMap_handOut (Frame.on? key) (fun _ => rfl) _ _
  have markers : markersOf key (step.handed id) =
      markersOf key (taken.map (·.wire)) := by
    rw [Step.handed_of_took took]
    exact Outbound.filterMap_handOut (Frame.markerOn? key) (fun _ => rfl) _ _
  refine ⟨answered ++ answers, left, ?_, ?_, ?_⟩
  · simp [requestsOf_append, unasked, requests]
  · simp [markers, lengths, more]
  · rw [after, handed_append, handed_cons, handed_nil, List.append_nil,
      envelopesOf_append, envelopes]
    refine covered.mono fun env member => ?_
    rcases List.mem_append.mp member with old | new
    · exact List.mem_append_left _ old
    · exact List.mem_append_right _ (waiting_solid_subset new)

/-- A call that goes through events keeps the markers covered when it strands
none. -/
theorem Lived.marked {head tail : List Event} {fx : Effects}
    (ok : step.before.Ok) (sourced : step.before.Sourced steps)
    (delivers : step.call.DeliversOnly Frame.Plain)
    (unstranded : ¬ step.Strands account id key)
    (lived : Lived step.order step.before step.call step.reply step.after
      account id head tail fx c c')
    (marked : c.Marked steps account id key) :
    c'.Marked (steps ++ [step]) account id key := by
  obtain ⟨answered, pending, requests, lengths, covered⟩ := marked
  obtain ⟨fx', acts⟩ := lived.acts
  have found := lived.there
  have unhanded : step.handed id = [] :=
    Step.handed_of_frames lived.frames_eq
  obtain ⟨published, direct⟩ := originsOf_append steps step account
  have rings := (sourced.rings account).mono published
  have conn := (sourced.conns found).mono published direct rfl
  have genuine : ∀ event ∈ head ++ tail, event.Sourced
      (originsOf (steps ++ [step]) account) id c.principal :=
    Step.sourced ok (delivers.mono fun _ plain => plain.envelope) lived.heads
      lived.departures acts found
  have unmarked : ∀ event ∈ head ++ tail, event.Unmarked id := by
    intro event member frame isFrame
    subst isFrame
    rcases List.mem_append.mp member with inHead | inTail
    · exact (lived.heads.clear key delivers inHead).2.2
    · obtain ⟨_, _, _, absurdity⟩ := lived.departures _ inTail
      cases absurdity
  have tailStays (since : Option Position) (ring : Option Ring) :
      .subscribed id key since ring ∉ tail := by
    intro member
    obtain ⟨_, _, _, absurdity⟩ := lived.departures _ member
    cases absurdity
  have tailRemains : .unsubscribed id key ∉ tail := by
    intro member
    obtain ⟨_, _, _, absurdity⟩ := lived.departures _ member
    cases absurdity
  have directed : ∀ target env,
      (originsOf (steps ++ [step]) account).direct target env →
        ∃ principal, env.sentTo = some (.principal principal) :=
    fun _ _ => originsOf_directed
  have tailed {after : Account} {b : Conn}
      (rest : Lives step.before.limits id after b tail
        (step.after.record account) c')
      (ringsNow : after.Sourced (originsOf (steps ++ [step]) account))
      (sourcedNow : b.Sourced (originsOf (steps ++ [step]) account) after)
      (principal : b.principal = c.principal) {requests : List Request}
      (coveredNow : Covered account key (envelopesOf key (handed id steps))
        (solid b.out.items) requests) :
      Covered account key (envelopesOf key (handed id steps))
        (solid c'.out.items) requests :=
    rest.covered_away ringsNow sourcedNow directed
      (fun event member => principal ▸ genuine event (by simp [member]))
      (fun event member => unmarked event (by simp [member])) tailStays
      tailRemains coveredNow
  by_cases renews : ∃ since ring, .subscribed id key since ring ∈ head
  · obtain ⟨since, ring, member⟩ := renews
    obtain ⟨rfl, rfl, valid, frame, isReceive, asked⟩ :=
      lived.heads.subscribed_eq member
    have request : step.request? account id key = some ⟨step, since⟩ :=
      Step.request?_eq_some.mpr
        ⟨rfl, by simp [found], valid, frame, isReceive, asked⟩
    obtain ⟨before, after, b, b', fx₁, fx₂, same, ringsThen, sourcedThen, act,
      passes, ringsNow, sourcedNow, principal, rest⟩ :=
      lived.lives.uncons_sourced rings conn genuine
    rw [← same] at covered
    have first : Covered account key (envelopesOf key (handed id steps))
        (solid b'.out.items) (pending ++ [⟨step, since⟩]) :=
      passes.covered_subscribed act ringsThen sourcedThen (by
        rw [same]
        exact fun stranding => unstranded ⟨c, frame, found, isReceive,
          Or.inl ⟨since, asked⟩, stranding⟩) covered
    refine ⟨answered, pending ++ [⟨step, since⟩], ?_, ?_, ?_⟩
    · simp [requestsOf_append, request, requests]
    · simp [unhanded, lengths]
    · simpa [unhanded] using tailed rest ringsNow sourcedNow principal first
  push Not at renews
  have unasked : step.request? account id key = none := by
    rw [Option.eq_none_iff_forall_ne_some]
    intro request isRequest
    obtain ⟨_, _, valid, frame, isReceive, asked⟩ :=
      Step.request?_eq_some.mp isRequest
    have heads := lived.heads
    rw [isReceive] at heads
    have headEq := heads.of_subscribe asked valid lived.spared
    exact renews request.since (step.before.ring? account key) (by simp [headEq])
  refine Conn.Marked.of_silent unhanded unasked requests lengths ?_
  by_cases ends : .unsubscribed id key ∈ head
  · obtain ⟨rfl, frame, isReceive, asked⟩ := lived.heads.unsubscribed_eq ends
    obtain ⟨before, after, b, b', fx₁, fx₂, same, ringsThen, sourcedThen, act,
      passes, ringsNow, sourcedNow, principal, rest⟩ :=
      lived.lives.uncons_sourced rings conn genuine
    rw [← same] at covered
    refine tailed rest ringsNow sourcedNow principal
      (passes.covered_unsubscribed sourcedThen ?_ covered)
    rw [same]
    exact fun stranding => unstranded ⟨c, frame, found, isReceive,
      Or.inr asked, stranding⟩
  · refine lived.lives.covered_away rings conn directed genuine unmarked ?_ ?_
      covered
    · intro since ring member
      rcases List.mem_append.mp member with inHead | inTail
      · exact renews since ring inHead
      · exact tailStays since ring inTail
    · intro member
      rcases List.mem_append.mp member with inHead | inTail
      · exact ends inHead
      · exact tailRemains inTail

omit [Codec] in
theorem Covered.of_unmarked {seen : List Envelope} {items : List Item}
    (unmarked : ∀ item ∈ items, item.wire.markerOn? key = none) :
    Covered account key seen items [] := by
  induction items generalizing seen with
  | nil => exact .nil
  | cons item items ih =>
      exact .other (unmarked item (by simp))
        (ih fun item member => unmarked item (by simp [member]))

theorem Hub.Newcomer.unmarked {hello : Hello} {conn : Conn}
    (newcomer : hub.Newcomer order account hello conn) (item : Item)
    (member : item ∈ conn.out.items) : item.wire.markerOn? key = none := by
  obtain ⟨welcome, queueEq⟩ := newcomer.queue_eq
  rw [queueEq] at member
  obtain ⟨frame, frameMember, rfl⟩ := List.mem_map.mp member
  rcases List.mem_cons.mp frameMember with rfl | presence
  · rfl
  · obtain ⟨entry, _, rfl⟩ := List.mem_map.mp presence
    rfl

theorem Run.unasked (ok : start.Ok) (run : Run start steps hub)
    (unborn : hub.nextConn ≤ id) : requestsOf account id key steps = [] := by
  refine run.induct (fun steps hub => hub.nextConn ≤ id →
    requestsOf account id key steps = []) ok (fun _ => rfl) ?_ unborn
  intro earlier step _ beforeOk _ effect _ before unbornAfter
  have unbornBefore := effect.nextConn_le.trans unbornAfter
  rw [requestsOf_append, before unbornBefore]
  have nothing : step.request? account id key = none := by
    rw [Option.eq_none_iff_forall_ne_some]
    intro request isRequest
    obtain ⟨_, live, _⟩ := Step.request?_eq_some.mp isRequest
    obtain ⟨c, found⟩ := Option.isSome_iff_exists.mp live
    have known := beforeOk.fresh id
      (HashMap.mem_of_lookup (beforeOk.known_of_conn? found))
    exact Nat.lt_irrefl _ (Nat.lt_of_lt_of_le known unbornBefore)
  simp [nothing]

/-- In a run that strands no marker, markers come after what they speak for. -/
theorem Run.marked (ok : start.Ok) (empty : start.accounts = ∅)
    (run : Run start steps hub)
    (delivers : ∀ step ∈ steps, step.call.DeliversOnly Frame.Plain)
    (unstranded : ∀ step ∈ steps, ¬ step.Strands account id key) :
    hub.Sourced steps ∧ ∀ c, hub.conn? account id = some c →
      c.Marked steps account id key := by
  refine run.induct (fun steps hub => hub.Sourced steps ∧ ∀ c,
    hub.conn? account id = some c → c.Marked steps account id key) ok
    ⟨Hub.sourced_empty empty, fun c found =>
      (Hub.conn?_empty empty account id c found).elim⟩ ?_
  intro earlier step earlierRun beforeOk afterOk effect member before
  obtain ⟨sourced, marked⟩ := before
  have plain := delivers step member
  have sourcedAfter := effect.sourced beforeOk afterOk
    (plain.mono fun _ isPlain => isPlain.envelope) sourced
  refine ⟨sourcedAfter, fun c' found' => ?_⟩
  cases effect.fate beforeOk afterOk found' with
  | rest found same others unnamed =>
      obtain ⟨answered, pending, requests, lengths, covered⟩ :=
        marked c' found
      exact .of_silent (Step.handed_of_others others)
        (Step.request?_of_others others) requests lengths covered
  | took acct c taken rest took after same =>
      have found := took.there
      obtain ⟨budget, isTake⟩ := took.call_eq
      exact took.marked (sourced.conns found) (by
        simp [Step.request?, isTake]) after (marked c found)
  | lived head tail fx c lived =>
      have found := lived.there
      exact lived.marked beforeOk sourced plain (unstranded step member)
        (marked c found)
  | born hello conn mid tail born =>
      obtain ⟨nowMs, monoMs, revoker, isConnect⟩ := born.call_eq
      have unborn := born.id_eq.ge
      have unhanded : handed id earlier = [] :=
        earlierRun.handed_unborn ok unborn
      have unasked : requestsOf account id key earlier = [] ++ [] :=
        earlierRun.unasked ok unborn
      refine .of_silent (by simp [Step.handed, isConnect])
        (by simp [Step.request?, isConnect]) unasked (by simp [unhanded]) ?_
      obtain ⟨place, fx, fx', quiets, joins⟩ := born.joins
      have rings := (sourced.rings account).mono
        (originsOf_append earlier step account).1
      have midRings := joins.sourced (quiets.sourced rings (by simp))
        (fun _ _ _ absurdity => by cases absurdity)
      have departs (event : Event) (among : event ∈ tail) :
          (∀ frame, event ≠ .frame id frame) ∧
          (∀ other ring env, event ≠ .published other ring env) ∧
          (∀ since ring, event ≠ .subscribed id key since ring) ∧
          event ≠ .unsubscribed id key := by
        obtain ⟨_, _, _, rfl⟩ := born.departures event among
        simp
      refine born.lives.covered_away midRings (born.newcomer.sourced _ mid)
        (fun _ _ => originsOf_directed) ?_ ?_ ?_ ?_
        (Covered.of_unmarked fun item isSolid => ?_)
      · intro event among
        exact ⟨fun frame isFrame => ((departs event among).1 frame isFrame).elim,
          fun other ring env published =>
            ((departs event among).2.1 other ring env published).elim⟩
      · intro event among frame isFrame
        exact ((departs event among).1 frame isFrame).elim
      · intro since ring among
        exact (departs _ among).2.2.1 since ring rfl
      · intro among
        exact (departs _ among).2.2.2 rfl
      · exact born.newcomer.unmarked item (List.mem_filter.mp isSolid).1

end Runs

/-! ## What a marker speaks for -/

section Rings

variable [Codec] {start hub : Hub} {step : Step} {account : AccountId}
  {key : StreamKey} {ring ring' : Ring}

/-- A ring keeps its entries, gives some up, or adds the one with its next
number. -/
theorem Course.ring_entries {order : HashOrder} {hub' : Hub} {call : Call}
    {reply : Reply} (course : Course order hub call reply hub' account)
    (found : hub.ring? account key = some ring)
    (found' : hub'.ring? account key = some ring') :
    ∀ entry ∈ ring'.entries, entry ∈ ring.entries ∨
      entry.seq = ring.seq + 1 := by
  intro entry member
  cases course with
  | still same =>
      rw [same.ring?_eq, found] at found'
      cases found'
      exact Or.inl member
  | acted head tail fx fx' heads departures acts =>
      by_cases publishes : ∃ stamping env, .published key stamping env ∈ head
      · obtain ⟨stamping, env, published⟩ := publishes
        obtain ⟨_, conn, peer, original, rfl, publishing⟩ :=
          heads.published_eq published
        obtain ⟨next, nextFound, advanced⟩ := publishing.advanced
        obtain rfl : next = ring' :=
          Option.some.inj (nextFound.symm.trans found')
        rcases publishing.origin with same | ⟨missing, _⟩
        · obtain rfl : ring = stamping :=
            Option.some.inj (found.symm.trans same)
          rcases List.mem_append.mp (advanced.entries_suffix.subset member)
            with old | new
          · exact Or.inl old
          · rw [List.mem_singleton.mp new]
            exact Or.inr rfl
        · rw [found] at missing
          cases missing
      · push Not at publishes
        have silent (stamping : Ring) (env : Envelope) :
            .published key stamping env ∉ head ++ tail := by
          rw [List.mem_append, not_or]
          refine ⟨publishes stamping env, fun among => ?_⟩
          obtain ⟨_, _, _, absurdity⟩ := departures _ among
          cases absurdity
        rcases acts.ring_kept silent with
          gone | ⟨old, new, oldFound, newFound, trimmed⟩
        · rw [Hub.ring?, gone] at found'
          cases found'
        · obtain rfl : ring = old :=
            Option.some.inj (found.symm.trans oldFound)
          obtain rfl : new = ring' :=
            Option.some.inj (newFound.symm.trans found')
          exact Or.inl (trimmed.entries_suffix.subset member)

/-- A ring has this envelope under its number, or has given it up. -/
structure Ring.Remembers (ring : Ring) (env : Envelope) : Prop where
  epoch_eq : env.epoch = ring.epoch
  seq_le : env.seq ≤ ring.seq
  entry_eq : ∀ entry ∈ ring.entries, entry.seq = env.seq →
    entry.wire = .of (.envelope env)

theorem Ring.Sound.seq_le (sound : ring.Sound) {entry : Entry}
    (member : entry ∈ ring.entries) : entry.seq ≤ ring.seq := by
  have inRange : entry.seq ∈ ring.entries.map (·.seq) :=
    List.mem_map_of_mem member
  rw [sound.seqs_eq, List.mem_range'_1] at inRange
  have := sound.length_le_seq
  omega

/-- What a call publishes, the ring remembers. -/
theorem Effect.ring_remembers {env : Envelope}
    (effect : Effect step.order step.before step.call step.reply step.after)
    (ok : step.before.Ok)
    (published : step.publication account key = some env) :
    ∃ ring, step.after.ring? account key = some ring ∧
      ring.Remembers env := by
  obtain ⟨_, _, _, ring, _, _, found, _, _, newer, rfl⟩ :=
    Step.publication_eq_some published
  refine ⟨ring, found, rfl, Nat.le_refl _, fun entry member sameSeq => ?_⟩
  cases effect.course account with
  | still same =>
      rw [same.ring?_eq] at found
      rw [Hub.newestSeq_of_ring? found] at newer
      exact (Nat.lt_irrefl _ newer).elim
  | acted head tail fx fx' heads departures acts =>
      have whole : (head ++ tail).filterMap (Event.publication key) =
          (step.publication account key).toList :=
        Step.publication_eq heads departures acts
      rw [published, Option.toList_some] at whole
      obtain ⟨event, among, stamped⟩ := List.mem_filterMap.mp
        (whole ▸ List.mem_singleton_self _)
      cases event with
      | published other stamping env =>
          rw [Event.publication] at stamped
          split at stamped
          · rename_i sameKey
            subst sameKey
            have inHead : .published other stamping env ∈ head := by
              rcases List.mem_append.mp among with inHead | inTail
              · exact inHead
              · obtain ⟨_, _, _, absurdity⟩ := departures _ inTail
                cases absurdity
            obtain ⟨_, conn, peer, original, rfl, publishing⟩ :=
              heads.published_eq inHead
            obtain ⟨next, nextFound, advanced⟩ := publishing.advanced
            obtain rfl : next = ring :=
              Option.some.inj (nextFound.symm.trans found)
            rcases List.mem_append.mp (advanced.entries_suffix.subset member)
              with old | new
            · exfalso
              have small : entry.seq ≤ stamping.seq := by
                rcases publishing.origin with same | ⟨_, fresh⟩
                · exact ((ok.record_ok account).1.ring_ok
                    same).toSound.seq_le old
                · simp [fresh.entries_eq] at old
              have last : entry.seq = next.seq := sameSeq
              have := advanced.seq_eq
              omega
            · rw [List.mem_singleton.mp new, ← Option.some.inj stamped]
              rfl
          · cases stamped
      | _ => cases stamped

/-- A ring that stays remembers what was published on it. -/
theorem Run.ring_remembers {steps : List Step} {env : Envelope}
    (ok : start.Ok) (run : Run start (step :: steps) hub)
    (published : step.publication account key = some env)
    (stays : ∀ other ∈ steps, other.after.ring? account key ≠ none) :
    ∃ ring, hub.ring? account key = some ring ∧ ring.Remembers env := by
  obtain ⟨rfl, firstRun, rest⟩ := run.uncons
  obtain ⟨_, afterOk, effect⟩ := (firstRun.forall_steps ok).2 step (by simp)
  refine rest.induct (fun _ now => ∃ ring,
    now.ring? account key = some ring ∧ ring.Remembers env) afterOk
    (effect.ring_remembers ok published) ?_
  rintro earlier other _ _ _ otherEffect member ⟨ring, found, remembers⟩
  obtain ⟨ring', found'⟩ := Option.ne_none_iff_exists'.mp (stays other member)
  have course := otherEffect.course account
  have precedes := course.ring_precedes found found'
  refine ⟨ring', found', remembers.epoch_eq.trans precedes.epoch_eq.symm,
    remembers.seq_le.trans precedes.seq_le, fun entry among sameSeq => ?_⟩
  rcases course.ring_entries found found' entry among with old | new
  · exact remembers.entry_eq entry old sameSeq
  · have := remembers.seq_le
    omega

/-- An answer that is not truncated leaves out nothing after the position that
was asked for. -/
theorem Request.exists_due {origins : Origins} {request : Request}
    (found : request.ring? account key = some ring) (sound : ring.Sound)
    (sourced : ring.Sourced origins key)
    (events : ring.kind = .sessionEvents)
    (whole : (request.marker account key).truncated = false) {seq : Nat}
    (after : request.sinceSeq < seq) (upTo : seq ≤ ring.seq) :
    ∃ entry ∈ ring.entries, entry.seq = seq ∧
      ∃ env ∈ request.due account key, entry.wire = .of (.envelope env) ∧
        env.seq = seq ∧ env.epoch = ring.epoch := by
  have resume : ring.resumeAfter request.since ≤ request.sinceSeq := by
    unfold Ring.resumeAfter Request.sinceSeq
    cases request.since with
    | none => simp
    | some position =>
        simp only [Option.map_some, Option.getD_some]
        split <;> omega
  have first : ring.seq + 1 - ring.entries.length ≤
      ring.resumeAfter request.since + 1 := by
    simp only [Request.marker, found, backfillMarker, Ring.backfill,
      Bool.or_eq_false_iff, decide_eq_false_iff_not, not_lt] at whole
    refine le_trans ?_ (Ring.nextPosition_le _)
    cases entries : ring.entries with
    | nil => simpa [entries] using whole.1
    | cons entry rest =>
        have seqs := sound.seqs_eq
        rw [entries] at seqs
        simp only [List.map_cons, List.length_cons, List.range'_succ,
          List.cons.injEq] at seqs
        rw [List.length_cons, ← seqs.1]
        simpa [entries] using whole.1
  have length := sound.length_le_seq
  obtain ⟨entry, member, sameSeq⟩ : ∃ entry ∈ ring.entries,
      entry.seq = seq := by
    have inRange : seq ∈ ring.entries.map (·.seq) := by
      rw [sound.seqs_eq, List.mem_range'_1]
      omega
    exact List.mem_map.mp inRange
  obtain ⟨_, env, carries, _⟩ := sourced.entries entry member
  refine ⟨entry, member, sameSeq, env, ?_, carries.wire_eq,
    carries.seq_eq.trans sameSeq, carries.epoch_eq⟩
  simp only [Request.due, found, events, if_true, backlog, ring.retainedAfter_eq]
  refine List.mem_filterMap.mpr ⟨entry.wire, List.mem_map.mpr
    ⟨entry, List.mem_filter.mpr ⟨member, ?_⟩, rfl⟩, carries.on_eq⟩
  simp only [decide_eq_true_eq]
  omega

end Rings

/-- Whenever a connection is handed a marker of a stream that claims to leave
nothing out, the marker answers the request it stands for, and when the stream
carries session events, every envelope after the position asked for and up to
the marker's number has been handed out before it: an envelope under each of the
numbers, and each envelope that was published on the ring the request found. -/
def MarkersSound (steps : List Step) (account : AccountId) (id : ConnId)
    (key : StreamKey) : Prop :=
  ∀ earlier take later before frame after marker,
    steps = earlier ++ take :: later →
    (take.before.conn? account id).isSome →
    take.handed id = before ++ frame :: after →
    frame.markerOn? key = some marker → marker.truncated = false →
    ∃ request, (requestsOf account id key earlier)[
        (markersOf key (handed id earlier ++ before)).length]? =
          some request ∧
      request.marker account key = marker ∧
      ((∀ ring, request.ring? account key = some ring →
          ring.kind = .sessionEvents) →
        (∀ seq, request.sinceSeq < seq → seq ≤ marker.seq →
          ∃ env ∈ envelopesOf key (handed id earlier ++ before),
            env.seq = seq ∧ env.epoch = marker.epoch) ∧
        ∀ past publish between rest env,
          earlier = past ++ publish :: (between ++ request.step :: rest) →
          publish.publication account key = some env →
          (∀ step ∈ between, step.after.ring? account key ≠ none) →
          request.sinceSeq < env.seq → env.seq ≤ marker.seq →
            env ∈ envelopesOf key (handed id earlier ++ before))

section Soundness

variable [Codec] {start hub : Hub} {steps : List Step} {account : AccountId}
  {id : ConnId} {c : Conn} {key : StreamKey} {request : Request}

omit [Codec] in
theorem mem_requestsOf (member : request ∈ requestsOf account id key steps) :
    ∃ earlier later, steps = earlier ++ request.step :: later := by
  obtain ⟨step, among, found⟩ := List.mem_filterMap.mp member
  obtain ⟨rfl, _⟩ := Step.request?_eq_some.mp found
  obtain ⟨earlier, later, split⟩ := List.append_of_mem among
  exact ⟨earlier, later, split⟩

/-- Only a call that takes from a connection's queue hands it anything. -/
theorem Effect.took_of_handed {step : Step}
    (effect : Effect step.order step.before step.call step.reply step.after)
    (ok : step.before.Ok) (found : step.before.conn? account id = some c)
    (some : step.handed id ≠ []) :
    ∃ acct taken rest, Took step.before step.call step.reply step.after
      account id acct c taken rest := by
  cases effect with
  | idle unknown same noActions noFrames noAdmission =>
      exact (some (Step.handed_of_frames noFrames)).elim
  | acted other head mid fx left wake acted =>
      exact (some (Step.handed_of_frames acted.frames_eq)).elim
  | took other conn acct d taken rest took =>
      have mine : conn = id := by
        by_contra others
        apply some
        obtain ⟨budget, isTake⟩ := took.call_eq
        apply Step.handed_of_others
        rw [isTake]
        simpa [Call.conn?] using others
      subst mine
      obtain rfl : other = account := Option.some.inj
        (took.known.symm.trans (ok.known_of_conn? found))
      obtain rfl : d = c := Option.some.inj (took.there.symm.trans found)
      exact ⟨acct, taken, rest, took⟩

/-- A marker that is handed out answers its request, and what is due before it
has been handed out. -/
theorem Took.answers {step : Step} {acct acct' : Account}
    {taken left : List Item} {origins : Origins} {before after : List Frame}
    {frame : Frame} {marker : Backfilled} (sourced : c.Sourced origins acct')
    (took : Took step.before step.call step.reply step.after account id acct c
      taken left)
    (marked : c.Marked steps account id key)
    (handing : step.handed id = before ++ frame :: after)
    (isMarker : frame.markerOn? key = some marker) :
    ∃ request, (requestsOf account id key steps)[
        (markersOf key (handed id steps ++ before)).length]? = some request ∧
      request.marker account key = marker ∧
      (marker.truncated = false → ∀ env ∈ request.due account key,
        env ∈ envelopesOf key (handed id steps ++ before)) := by
  obtain ⟨answered, pending, requests, lengths, covered⟩ := marked
  rw [Step.handed_of_took took] at handing
  have noGap : frame.gap? = none := by
    unfold Frame.gap?
    split
    · cases isMarker
    · rfl
  obtain ⟨first, item, second, takenEq, isFrame, envelopes, markers⟩ :=
    Outbound.handOut_split key handing noGap
  have split := took.split
  rw [takenEq] at split
  have readable (other : Item) (member : other ∈ first ++ [item])
      (isTelemetry : other.telemetry = true) :
      other.wire.markerOn? key = none := by
    refine sourced.unmarked ?_ isTelemetry
    rw [split]
    rcases List.mem_append.mp member with old | new
    · simp [old]
    · simp [List.mem_singleton.mp new]
  have isSolid : item.telemetry = false := by
    by_contra isTelemetry
    have := readable item (by simp) (by simpa using isTelemetry)
    rw [isFrame, isMarker] at this
    cases this
  have solidEq : solid c.out.items =
      solid first ++ item :: solid (second ++ left) := by
    rw [split]
    simp [solid, isSolid]
  rw [solidEq] at covered
  obtain ⟨answers, rest, rfl, more, covered⟩ := covered.split
  rw [markersOf_solid fun other member => readable other (by simp [member])]
    at more
  cases covered with
  | other noMarker rest =>
      rw [isFrame, isMarker] at noMarker
      cases noMarker
  | @marker _ _ _ request _ isMarker' held rest =>
      rw [isFrame, isMarker] at isMarker'
      have sameMarker : request.marker account key = marker :=
        (Option.some.inj isMarker').symm
      refine ⟨request, ?_, sameMarker, fun whole env due => ?_⟩
      · rw [markersOf_append, markers, List.length_append, ← lengths, ← more,
          requests, ← List.append_assoc, ← List.length_append]
        simp
      · rw [envelopesOf_append, envelopes]
        rcases List.mem_append.mp (held (sameMarker ▸ whole) env due) with
          old | new
        · exact List.mem_append_left _ old
        · exact List.mem_append_right _ (waiting_solid_subset new)

/-- What is due before a marker is what the marker speaks for. -/
theorem Run.marker_speaks (ok : start.Ok) (empty : start.accounts = ∅)
    (run : Run start steps hub)
    (delivers : ∀ step ∈ steps, step.call.DeliversOnly Frame.Plain)
    (member : request ∈ requestsOf account id key steps)
    (whole : (request.marker account key).truncated = false)
    {seen : List Envelope}
    (held : ∀ env ∈ request.due account key, env ∈ seen)
    (events : ∀ ring, request.ring? account key = some ring →
      ring.kind = .sessionEvents) :
    (∀ seq, request.sinceSeq < seq →
        seq ≤ (request.marker account key).seq → ∃ env ∈ seen,
          env.seq = seq ∧
            env.epoch = (request.marker account key).epoch) ∧
      ∀ past publish between rest env,
        steps = past ++ publish :: (between ++ request.step :: rest) →
        publish.publication account key = some env →
        (∀ step ∈ between, step.after.ring? account key ≠ none) →
        request.sinceSeq < env.seq →
        env.seq ≤ (request.marker account key).seq → env ∈ seen := by
  cases found : request.ring? account key with
  | none =>
      have nothing : (request.marker account key).seq = 0 := by
        simp [Request.marker, found, backfillMarker]
      rw [nothing]
      exact ⟨fun seq above below => by omega,
        fun _ _ _ _ env _ _ _ above below => by omega⟩
  | some ring =>
      have seqEq : (request.marker account key).seq = ring.seq := by
        simp [Request.marker, found, backfillMarker]
      have epochEq : (request.marker account key).epoch = ring.epoch := by
        simp [Request.marker, found, backfillMarker]
      -- the ring the request found is in good order
      obtain ⟨origins, sound, sourced⟩ : ∃ origins, ring.Sound ∧
          ring.Sourced origins key := by
        obtain ⟨earlier, later, rfl⟩ := mem_requestsOf member
        obtain ⟨before, earlierRun, rest⟩ := run.split
        obtain ⟨rfl, _, _⟩ := rest.uncons
        have beforeOk := (earlierRun.forall_steps ok).1
        have earlierSourced := earlierRun.sourced ok
          (Hub.sourced_empty empty) fun step among =>
            (delivers step (by simp [among])).mono
              fun _ plain => plain.envelope
        exact ⟨_, ((beforeOk.record_ok account).1.ring_ok found).toSound,
          earlierSourced.rings account key ring found⟩
      rw [seqEq, epochEq]
      refine ⟨fun seq above below => ?_, ?_⟩
      · obtain ⟨_, _, _, env, due, _, sameSeq, sameEpoch⟩ :=
          Request.exists_due found sound sourced (events ring found) whole
            above below
        exact ⟨env, held env due, sameSeq, sameEpoch⟩
      · rintro past publish between rest env rfl published stays above below
        obtain ⟨start', pastRun, rest₁⟩ := run.split
        obtain ⟨middle, publishRun, rest₂⟩ := Run.split
          (show Run start' ((publish :: between) ++ request.step :: rest) hub
            from rest₁)
        obtain ⟨rfl, _, _⟩ := rest₂.uncons
        obtain ⟨kept, keptFound, remembers⟩ := publishRun.ring_remembers
          (pastRun.forall_steps ok).1 published stays
        obtain rfl : kept = ring :=
          Option.some.inj (keptFound.symm.trans found)
        obtain ⟨entry, among, sameSeq, dueEnv, due, wireEq, _, _⟩ :=
          Request.exists_due found sound sourced (events kept found) whole
            above below
        have wire := remembers.entry_eq entry among sameSeq
        rw [wireEq] at wire
        cases wire
        exact held env due

end Soundness

/-- In every run in which the server delivers no frames about streams of its
own, the markers that a connection is handed for a stream are sound if the
connection never renews or ends its subscription while that strands a marker in
its queue. -/
theorem relay_markers_sound [Codec] (limits : Limits) (seed : UInt64)
    (shard : UInt16) (start : Hub)
    (accepted : Hub.withIdSpace limits seed shard = .ok start)
    (calls : List (HashOrder × Call))
    (delivers : ∀ entry ∈ calls, entry.2.DeliversOnly Frame.Plain) :
    ∃ steps, start.run calls = .ok steps ∧ ∀ account id key,
      (∀ step ∈ steps, ¬ step.Strands account id key) →
        MarkersSound steps account id key := by
  obtain ⟨ok, _, empty, _⟩ := ok_withIdSpace accepted
  obtain ⟨steps, hub, ran, run⟩ := exists_run ok calls
  have plain := Hub.forall_calls ran delivers
  refine ⟨steps, ran, ?_⟩
  rintro account id key unstranded earlier take later before frame after marker
    rfl live handing isMarker whole
  obtain ⟨middle, earlierRun, rest⟩ := run.split
  obtain ⟨rfl, takeRun, _⟩ := rest.uncons
  have plainEarlier : ∀ step ∈ earlier,
      step.call.DeliversOnly Frame.Plain :=
    fun step member => plain step (by simp [member])
  obtain ⟨sourced, marked⟩ := earlierRun.marked ok empty plainEarlier
    (fun step member => unstranded step (by simp [member]))
  have beforeOk := (earlierRun.forall_steps ok).1
  obtain ⟨_, _, effect⟩ := (takeRun.forall_steps beforeOk).2 take (by simp)
  obtain ⟨c, found⟩ := Option.isSome_iff_exists.mp live
  obtain ⟨acct, taken, left, took⟩ := effect.took_of_handed beforeOk found
    (by simp [handing])
  obtain ⟨request, isNext, rfl, held⟩ := took.answers (sourced.conns found)
    (marked c found) handing isMarker
  exact ⟨request, isNext, rfl, earlierRun.marker_speaks ok empty plainEarlier
    (List.mem_of_getElem? isNext) whole (held whole)⟩

/-- A peer takes what it is sent before it ends its subscription, so the marker
that it is handed is sound. -/
theorem relay_markers_sound_take :
    ∃ start steps, Hub.withIdSpace {} 7 0 = .ok start ∧
      start.run [
        (.stored, .connect [9] { protocol := 1, principal := [1], role := 2 }
          0 0 .unknown),
        (.stored, .connect [9] { protocol := 1, principal := [2], role := 1 }
          0 0 .unknown),
        (.stored, .receive 1 (.of (.envelope
          { sentTo := some (.channel [5]), kind := 1 }))),
        (.stored, .receive 2 (.of (.subscribe ⟨some ⟨[1], [5]⟩, none⟩))),
        (.stored, .takeOutbound 2 1000),
        (.stored, .receive 2 (.of (.unsubscribe ⟨some ⟨[1], [5]⟩⟩)))] =
          .ok steps ∧
      (∀ step ∈ steps, ¬ step.Strands [9] 2 ⟨[1], [5]⟩) ∧
      MarkersSound steps [9] 2 ⟨[1], [5]⟩ := by
  obtain ⟨steps, ran, sound⟩ := relay_markers_sound {} 7 0
    ⟨{}, ∅, ∅, 1, 7, 0⟩ rfl [
      (.stored, .connect [9] { protocol := 1, principal := [1], role := 2 }
        0 0 .unknown),
      (.stored, .connect [9] { protocol := 1, principal := [2], role := 1 }
        0 0 .unknown),
      (.stored, .receive 1 (.of (.envelope
        { sentTo := some (.channel [5]), kind := 1 }))),
      (.stored, .receive 2 (.of (.subscribe ⟨some ⟨[1], [5]⟩, none⟩))),
      (.stored, .takeOutbound 2 1000),
      (.stored, .receive 2 (.of (.unsubscribe ⟨some ⟨[1], [5]⟩⟩)))]
    (by simp [Call.DeliversOnly])
  have unstranded : ∀ step ∈ steps, ¬ step.Strands [9] 2 ⟨[1], [5]⟩ :=
    holds_of_check ran (by decide +kernel)
  exact ⟨_, steps, rfl, ran, unstranded, sound [9] 2 ⟨[1], [5]⟩ unstranded⟩

/-- A peer ends its subscription before it takes what it is sent: the envelope is
purged, and the marker that speaks for it is handed out alone. -/
theorem relay_marker_stranded :
    ∃ start steps, Hub.withIdSpace {} 7 0 = .ok start ∧
      start.run [
        (.stored, .connect [9] { protocol := 1, principal := [1], role := 2 }
          0 0 .unknown),
        (.stored, .connect [9] { protocol := 1, principal := [2], role := 1 }
          0 0 .unknown),
        (.stored, .receive 1 (.of (.envelope
          { sentTo := some (.channel [5]), kind := 1 }))),
        (.stored, .receive 2 (.of (.subscribe ⟨some ⟨[1], [5]⟩, none⟩))),
        (.stored, .receive 2 (.of (.unsubscribe ⟨some ⟨[1], [5]⟩⟩))),
        (.stored, .takeOutbound 2 1000)] = .ok steps ∧
      ¬ MarkersSound steps [9] 2 ⟨[1], [5]⟩ := by
  obtain ⟨ok, _⟩ := ok_withIdSpace
    (show Hub.withIdSpace {} 7 0 = .ok ⟨{}, ∅, ∅, 1, 7, 0⟩ from rfl)
  obtain ⟨steps, _, ran, _⟩ := exists_run ok [
      (.stored, .connect [9] { protocol := 1, principal := [1], role := 2 }
        0 0 .unknown),
      (.stored, .connect [9] { protocol := 1, principal := [2], role := 1 }
        0 0 .unknown),
      (.stored, .receive 1 (.of (.envelope
        { sentTo := some (.channel [5]), kind := 1 }))),
      (.stored, .receive 2 (.of (.subscribe ⟨some ⟨[1], [5]⟩, none⟩))),
      (.stored, .receive 2 (.of (.unsubscribe ⟨some ⟨[1], [5]⟩⟩))),
      (.stored, .takeOutbound 2 1000)]
  refine ⟨_, steps, rfl, ran, fun sound => ?_⟩
  -- what the run did, as far as it matters here
  obtain ⟨unhanded, requests, live, envelopes, markers, frames⟩ :
      (steps.take 5).flatMap (·.handed 2) = [] ∧
      (requestsOf [9] 2 ⟨[1], [5]⟩ (steps.take 5)).map (fun request =>
        (request.since, (request.ring? [9] ⟨[1], [5]⟩).map (·.kind))) =
          [(none, some .sessionEvents)] ∧
      (steps.drop 5).map (fun step => (step.before.conn? [9] 2).isSome) =
        [true] ∧
      (steps.drop 5).map (fun step =>
        envelopesOf ⟨[1], [5]⟩ ((step.handed 2).take 2)) = [[]] ∧
      (steps.drop 5).map (fun step =>
        markersOf ⟨[1], [5]⟩ ((step.handed 2).take 2)) = [[]] ∧
      (steps.drop 5).map (fun step => (step.handed 2).drop 2) =
        [[.of (.backfilled
          ⟨some ⟨[1], [5]⟩, 3344595609062871, 1, false⟩)]] :=
    holds_of_check ran (by decide +kernel)
  obtain ⟨take, last⟩ : ∃ take, steps.drop 5 = [take] :=
    List.length_eq_one_iff.mp (by simpa using congrArg List.length live)
  rw [last] at live envelopes markers frames
  simp only [List.map_cons, List.map_nil, List.cons.injEq,
    and_true] at live envelopes markers frames
  have unhanded : handed 2 (steps.take 5) = [] := unhanded
  obtain ⟨request, isNext, _, covers⟩ := sound (steps.take 5) take []
    ((take.handed 2).take 2) (.of (.backfilled
      ⟨some ⟨[1], [5]⟩, 3344595609062871, 1, false⟩)) []
    ⟨some ⟨[1], [5]⟩, 3344595609062871, 1, false⟩
    (by rw [← last, List.take_append_drop]) live
    (by rw [← frames, List.take_append_drop]) rfl rfl
  rw [unhanded, List.nil_append, markers, List.length_nil] at isNext
  have first := congrArg (fun list => list[0]?) requests
  simp only [List.getElem?_map, isNext, Option.map_some,
    List.getElem?_cons_zero, Option.some.injEq, Prod.mk.injEq] at first
  obtain ⟨noPosition, events⟩ := first
  obtain ⟨env, member, _⟩ := (covers fun ring found => by
    simpa [found] using events).1 1 (by simp [Request.sinceSeq, noPosition])
      (Nat.le_refl _)
  rw [unhanded, List.nil_append, envelopes] at member
  cases member

end WindowMlHub
