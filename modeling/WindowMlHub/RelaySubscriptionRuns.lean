import WindowMlHub.RelayFollowing

/-!
# Following a subscription through a run

From the call that made a subscription on, every call but a renewal keeps the
account of the subscription.  What has been handed out since and what is queued
is accounted for by what the stream's ring retained at that time and every
publication on the stream since.
-/

namespace WindowMlHub

open CheckedEvaluation HashTables

/-- A call in which a connection asks to subscribe to a stream. -/
def Step.Asks (step : Step) (id : ConnId) (key : StreamKey)
    (since : Option Position) : Prop :=
  ∃ frame, step.call = .receive id frame ∧
    frame.subscription? = some (key, since)

/-- The last call in which a connection asks to subscribe to a stream, and the
calls after it. -/
structure LatestSubscribe (steps : List Step) (id : ConnId) (key : StreamKey)
    (since : Option Position) (subscribe : Step) (later : List Step) :
    Prop where
  split : ∃ earlier, steps = earlier ++ subscribe :: later
  asks : subscribe.Asks id key since
  latest : ∀ step ∈ later, ∀ position, ¬ step.Asks id key position

/-- A connection's queue holds no gap report, and it subscribes to streams that
have both ids. -/
structure Conn.Orderly (limits : Limits) (c : Conn) : Prop where
  gapless : c.Gapless
  valid : ∀ key ∈ c.subs, key.Valid limits

section Runs

variable [Codec] {start hub : Hub} {steps : List Step} {step : Step}
  {account : AccountId} {id : ConnId} {c c' : Conn} {key : StreamKey}
  {given : List Frame} {pushed : List Envelope} {head tail : List Event}
  {fx : Effects}

omit [Codec] in
theorem originsOf_directed {target : Bytes} {env : Envelope}
    (direct : (originsOf steps account).direct target env) :
    ∃ principal, env.sentTo = some (.principal principal) := by
  obtain ⟨_, _, _, _, _, _, _, addressed, _, rfl⟩ := direct
  exact ⟨target, addressed⟩

/-- What a call offers to one connection is not of a stream. -/
theorem Heads.clear (key : StreamKey) {order : HashOrder} {call : Call}
    {reply : Reply} {rings : StreamKey → Option Ring}
    (heads : Heads order hub account fx rings call reply head)
    (delivers : call.DeliversOnly Frame.Plain) {target : ConnId}
    {frame : Frame} (member : .frame target frame ∈ head) :
    frame.on? key = none ∧ frame.gap? = none ∧ frame.backfilled? = none := by
  have ofPlain (plain : frame.Plain) :
      frame.on? key = none ∧ frame.gap? = none ∧ frame.backfilled? = none :=
    ⟨Frame.on?_of_envelope plain.envelope, plain.gap, plain.backfilled⟩
  rcases heads.frame_eq member with
    plain | delivered | ⟨principal, _, peer, original, rfl, directing⟩
  · exact ofPlain plain
  · rw [delivered] at delivers
    exact ofPlain delivers
  · refine ⟨?_, rfl, rfl⟩
    rw [Option.eq_none_iff_forall_ne_some]
    intro env mine
    obtain ⟨same, _, sentTo⟩ := Frame.on?_eq_some.mp mine
    cases same
    have addressed := directing.addressed
    simp only [Envelope.fromSender, addressed] at sentTo
    cases sentTo

theorem Heads.all_clear (key : StreamKey) {order : HashOrder} {call : Call}
    {reply : Reply} {rings : StreamKey → Option Ring}
    (heads : Heads order hub account fx rings call reply head)
    (delivers : call.DeliversOnly Frame.Plain)
    (departures : ∀ event ∈ tail, ∃ other principal role,
      event = .left other principal role) :
    ∀ event ∈ head ++ tail, event.Clear id key := by
  intro event member frame isFrame
  subst isFrame
  rcases List.mem_append.mp member with inHead | inTail
  · obtain ⟨noEnvelope, noGap, _⟩ := heads.clear key delivers inHead
    exact ⟨noEnvelope, noGap⟩
  · obtain ⟨_, _, _, absurdity⟩ := departures _ inTail
    cases absurdity

theorem Hub.Newcomer.orderly {order : HashOrder} {hello : Hello} {conn : Conn}
    (newcomer : hub.Newcomer order account hello conn) (limits : Limits) :
    conn.Orderly limits := by
  obtain ⟨welcome, queueEq⟩ := newcomer.queue_eq
  constructor
  · intro frame member
    rw [queueEq] at member
    obtain ⟨item, itemMember, rfl⟩ := List.mem_map.mp member
    obtain ⟨sent, sentMember, rfl⟩ :=
      List.mem_map.mp (List.mem_filter.mp itemMember).1
    rcases List.mem_cons.mp sentMember with rfl | presence
    · rfl
    · obtain ⟨entry, _, rfl⟩ := List.mem_map.mp presence
      rfl
  · intro key member
    rw [newcomer.subs_eq] at member
    exact (AList.notMem_empty key member).elim

/-- Whatever calls are made, connections are orderly. -/
theorem Run.orderly (ok : start.Ok) (empty : start.accounts = ∅)
    (run : Run start steps hub)
    (delivers : ∀ step ∈ steps, step.call.DeliversOnly Frame.Plain) :
    ∀ account id c, hub.conn? account id = some c → c.Orderly hub.limits := by
  refine run.induct (fun _ hub => ∀ account id c,
    hub.conn? account id = some c → c.Orderly hub.limits) ok ?_ ?_
  · intro account id c found
    exact (Hub.conn?_empty empty account id c found).elim
  intro earlier step _ beforeOk afterOk effect member before account id c' found
  rw [effect.limits_eq]
  have plain := delivers step member
  cases effect.fate beforeOk afterOk found with
  | rest foundBefore same others unnamed => exact before account id c' foundBefore
  | took acct c taken rest took after same =>
      have foundBefore := took.there
      obtain ⟨gapless, valid⟩ := before account id c foundBefore
      rw [after]
      refine ⟨fun frame frameMember => gapless frame ?_, valid⟩
      obtain ⟨item, itemMember, rfl⟩ := List.mem_map.mp frameMember
      obtain ⟨inRest, isLoose⟩ := List.mem_filter.mp itemMember
      exact List.mem_map.mpr ⟨item, List.mem_filter.mpr
        ⟨by rw [took.split]; exact List.mem_append_right _ inRest, isLoose⟩,
        rfl⟩
  | lived head tail fx c lived =>
      have foundBefore := lived.there
      obtain ⟨gapless, valid⟩ := before account id c foundBefore
      have queueOk := (beforeOk.record_ok account).1.queue_ok lived.lives.first
      refine ⟨lived.lives.gapless queueOk ?_ gapless,
        lived.lives.subs_valid ?_ valid⟩
      · intro event eventMember frame isFrame
        exact (lived.heads.all_clear ⟨[], []⟩ plain lived.departures event
          eventMember frame isFrame).2
      · exact fun key since ring eventMember => (lived.subscribed_eq eventMember).1
  | born hello conn mid tail born =>
      obtain ⟨gapless, valid⟩ := born.newcomer.orderly step.before.limits
      have noEvent (event : Event) (eventMember : event ∈ tail) :
          (∀ frame, event ≠ .frame id frame) ∧
            ∀ key since ring, event ≠ .subscribed id key since ring := by
        obtain ⟨_, _, _, rfl⟩ := born.departures event eventMember
        exact ⟨by simp, by simp⟩
      refine ⟨born.lives.gapless born.newcomer.queue_ok ?_ gapless,
        born.lives.subs_valid ?_ valid⟩
      · intro event eventMember frame isFrame
        exact ((noEvent event eventMember).1 frame isFrame).elim
      · intro key since ring eventMember
        exact ((noEvent _ eventMember).2 key since ring rfl).elim

omit [Codec] in
theorem Conn.Followed.of_ring {acct acct' : Account}
    (followed : c.Followed key given pushed acct)
    (same : acct'.ring? key = acct.ring? key) :
    c.Followed key given pushed acct' :=
  ⟨same ▸ followed.numbered, fun kind epoch identified =>
    followed.tallied kind epoch (same ▸ identified)⟩

theorem Conn.Followed.taken {acct : Account} {taken rest : List Item}
    (followed : c.Followed key given pushed acct)
    (split : c.out.items = taken ++ rest) (armed : Bool) :
    Conn.Followed key (given ++ (Outbound.handOut c.out.dropped taken).1)
      pushed acct { c with
        out := Outbound.counted rest (Outbound.handOut c.out.dropped taken).2
        armed } := by
  refine ⟨followed.numbered, fun kind epoch identified => ?_⟩
  obtain ⟨tally, last, explained, tallied⟩ :=
    followed.tallied kind epoch identified
  rw [split] at tallied
  obtain ⟨tally', last', same, after⟩ := tallied.handOut
  refine ⟨tally', last', ?_, after⟩
  intro old member
  rw [same] at member
  exact explained old member

/-- Every call but a renewal of the subscription keeps its account. -/
theorem Fate.followed
    (fate : Fate step.order step.before step.call step.reply step.after
      account id c')
    (ok : step.before.Ok) (sourced : step.before.Sourced steps)
    (delivers : step.call.DeliversOnly Frame.Plain)
    (latest : ∀ frame since, step.call = .receive id frame →
      frame.subscription? ≠ some (key, since))
    (followed : ∀ c, step.before.conn? account id = some c → key ∈ c.subs →
      c.Followed key given pushed (step.before.record account))
    (hears : key ∈ c'.subs) :
    c'.Followed key (given ++ step.handed id)
      (pushed ++ (step.publication account key).toList)
      (step.after.record account) := by
  have silent (same : step.before.Undisturbed account step.after) :
      step.publication account key = none := by
    apply Step.publication_eq_none
    intro ring found
    rw [same.ring?_eq] at found
    rw [Hub.newestSeq_of_ring? found]
  have rings := (sourced.rings account).mono
    (originsOf_append steps step account).1
  cases fate with
  | rest found same others unnamed =>
      rw [silent same, Step.handed_of_others others]
      simpa using (followed c' found hears).of_ring (same.ring?_eq key)
  | took acct c taken rest took after same =>
      have found := took.there
      rw [silent same, Step.handed_of_took took, after]
      rw [after] at hears
      simpa using ((followed c found hears).taken took.split
        (!rest.isEmpty)).of_ring (same.ring?_eq key)
  | lived head tail fx c lived =>
      obtain ⟨fx', acts⟩ := lived.acts
      have found := lived.there
      have stays (since : Option Position) (ring : Option Ring) :
          .subscribed id key since ring ∉ head ++ tail := by
        intro member
        obtain ⟨-, frame, isReceive, asked⟩ := lived.subscribed_eq member
        exact latest frame since isReceive asked
      rw [Step.handed_of_frames lived.frames_eq, List.append_nil,
        ← Step.publication_eq lived.heads lived.departures acts]
      exact lived.lives.followed rings
        ((ok.record_ok account).1.queue_ok lived.lives.first)
        (Step.stamps lived.heads lived.departures acts)
        (lived.heads.all_clear key delivers lived.departures) stays
        (followed c found) hears
  | born hello conn mid tail born =>
      obtain ⟨before, fx, fx', quiets, joins⟩ := born.joins
      obtain ⟨nowMs, monoMs, revoker, isConnect⟩ := born.call_eq
      have midRings := joins.sourced (quiets.sourced rings (by simp))
        (fun _ _ _ absurdity => by cases absurdity)
      have nothing : step.publication account key = none := by
        simp [Step.publication, isConnect]
      have departs : tail.filterMap (Event.publication key) = [] := by
        rw [List.filterMap_eq_nil_iff]
        intro event member
        obtain ⟨_, _, _, rfl⟩ := born.departures event member
        rfl
      have unhanded : step.handed id = [] := by
        simp [Step.handed, isConnect]
      rw [nothing, unhanded]
      -- a newcomer has no subscriptions, so nothing is to be shown of it
      have after : c'.Followed key given
          (pushed ++ tail.filterMap (Event.publication key))
          (step.after.record account) := born.lives.followed midRings
        born.newcomer.queue_ok
        (fun event member => by
          obtain ⟨_, _, _, rfl⟩ := born.departures event member
          exact fun _ _ _ absurdity => by cases absurdity)
        (fun event member => by
          obtain ⟨_, _, _, rfl⟩ := born.departures event member
          exact fun _ absurdity => by cases absurdity)
        (fun since ring member => by
          obtain ⟨_, _, _, absurdity⟩ := born.departures _ member
          cases absurdity)
        (fun member => by
          rw [born.newcomer.subs_eq] at member
          exact (AList.notMem_empty key member).elim) hears
      simpa [departs] using after

/-- What a connection that is not closed asks for when it subscribes happens. -/
theorem Heads.of_subscribe {order : HashOrder} {reply : Reply}
    {rings : StreamKey → Option Ring} {frame : Frame}
    {since : Option Position}
    (heads : Heads order hub account fx rings (.receive id frame) reply head)
    (asked : frame.subscription? = some (key, since))
    (valid : key.Valid hub.limits) (spared : ¬ Doomed fx id) :
    head = [.subscribed id key since (hub.ring? account key)] := by
  cases heads with
  | received _ routed =>
      cases routed with
      | closed doomed => exact (spared doomed).elim
      | ignored noSubscribe => simp [noSubscribe] at asked
      | answered plain noSubscribe =>
          exact (noSubscribe key since asked valid).elim
      | published => cases asked
      | direct => cases asked
      | undelivered => cases asked
      | subscribed askedAgain =>
          rw [asked] at askedAgain
          cases askedAgain
          rfl
      | unsubscribed left =>
          exfalso
          unfold Frame.subscription? at asked
          unfold Frame.unsubscription? at left
          split at asked
          · cases left
          · cases asked

/-- The call that made a subscription, and what it left of the ring. -/
theorem Fate.subscribed {frame : Frame} {since : Option Position}
    (fate : Fate step.order step.before step.call step.reply step.after
      account id c')
    (ok : step.before.Ok) (sourced : step.before.Sourced steps)
    (orderly : ∀ c, step.before.conn? account id = some c →
      c.Orderly step.before.limits)
    (delivers : step.call.DeliversOnly Frame.Plain)
    (isReceive : step.call = .receive id frame)
    (asked : frame.subscription? = some (key, since))
    (hears : key ∈ c'.subs) :
    c'.Followed key [] (backlog key (step.before.ring? account key) since)
      (step.after.record account) := by
  cases fate with
  | rest found same others unnamed =>
      rw [isReceive] at others
      exact (others rfl).elim
  | took acct c taken rest took after same =>
      obtain ⟨budget, isTake⟩ := took.call_eq
      rw [isReceive] at isTake
      cases isTake
  | born hello conn mid tail born =>
      obtain ⟨_, _, _, isConnect⟩ := born.call_eq
      rw [isReceive] at isConnect
      cases isConnect
  | lived head tail fx c lived =>
      obtain ⟨fx', acts⟩ := lived.acts
      have found := lived.there
      have valid : key.Valid step.before.limits :=
        lived.lives.subs_valid (fun _ _ _ member => (lived.subscribed_eq member).1)
          (orderly c found).valid key hears
      have headEq : head = [.subscribed id key since
          (step.before.ring? account key)] := by
        have heads := lived.heads
        rw [isReceive] at heads
        exact heads.of_subscribe asked valid lived.spared
      have rings := (sourced.rings account).mono
        (originsOf_append steps step account).1
      obtain ⟨published, direct⟩ := originsOf_append steps step account
      have conn := (sourced.conns found).mono published direct rfl
      have stamps : ∀ event ∈ head ++ tail,
          event.Stamps (originsOf (steps ++ [step]) account) :=
        Step.stamps lived.heads lived.departures acts
      have clear : ∀ event ∈ head ++ tail, event.Clear id key :=
        lived.heads.all_clear key delivers lived.departures
      have lives := lived.lives
      rw [headEq, List.singleton_append] at lives stamps clear
      obtain ⟨before, after, b, b', fx₁, fx₂, quiets, act, passes, rest⟩ :=
        lives.uncons
      have beforeRings := quiets.rings_sourced rings (by simp)
      obtain ⟨ringBefore, _⟩ := act.ring_subscribed rfl
      have first := passes.followed_subscribed act (by
          intro ring ringFound
          rw [ringBefore] at ringFound
          exact ((ok.record_ok account).1.ring_ok ringFound).toSound)
        beforeRings (quiets.sourced rings conn (by simp))
        (quiets.gapless conn.queue_ok (by simp) (orderly c found).gapless)
        (fun _ _ => originsOf_directed)
      have departs : tail.filterMap (Event.publication key) = [] := by
        rw [List.filterMap_eq_nil_iff]
        intro event member
        obtain ⟨_, _, _, rfl⟩ := lived.departures event member
        rfl
      have later := rest.followed
        (act.sourced beforeRings (stamps _ (by simp)))
        (passes.performs.ok (quiets.queue_ok conn.queue_ok))
        (fun event member => stamps event (by simp [member]))
        (fun event member => clear event (by simp [member]))
        (fun since ring member => by
          obtain ⟨_, _, _, absurdity⟩ := lived.departures _ member
          cases absurdity)
        (fun _ => first) hears
      simpa [departs] using later

theorem Lives.subs_since {limits : Limits} {acct acct' : Account}
    {events : List Event} (lives : Lives limits id acct c events acct' c')
    (hears : key ∈ c'.subs) :
    key ∈ c.subs ∨ ∃ since ring, .subscribed id key since ring ∈ events := by
  refine lives.preserves (fun _ now => key ∈ now.subs → key ∈ c.subs ∨
    ∃ since ring, .subscribed id key since ring ∈ events) ?_ ?_ Or.inl hears
  · intro _ _ _ _ _ _ _ _ _ passes before member
    exact before ((passes.subs_iff key).mp member)
  · intro event among _ _ _ _ _ _ _ _ _ passes before member
    have subs := (passes.subs_iff key).mp member
    cases event with
    | subscribed target other since ring =>
        rcases subs with old | ⟨rfl, rfl⟩
        · exact before old
        · exact Or.inr ⟨since, ring, among⟩
    | unsubscribed target other => exact before subs.1
    | _ => exact before subs

/-- Nobody is subscribed who has not asked for it. -/
theorem Run.asked (ok : start.Ok) (empty : start.accounts = ∅)
    (run : Run start steps hub) :
    ∀ account id c key, hub.conn? account id = some c → key ∈ c.subs →
      ∃ step ∈ steps, ∃ since, step.Asks id key since := by
  refine run.induct (fun steps hub => ∀ account id c key,
    hub.conn? account id = some c → key ∈ c.subs →
      ∃ step ∈ steps, ∃ since, step.Asks id key since) ok ?_ ?_
  · intro account id c key found
    exact (Hub.conn?_empty empty account id c found).elim
  intro earlier step _ beforeOk afterOk effect _ before account id c' key found
    hears
  have old {c : Conn} (foundBefore : step.before.conn? account id = some c)
      (heard : key ∈ c.subs) :
      ∃ step' ∈ earlier ++ [step], ∃ since, step'.Asks id key since := by
    obtain ⟨asking, member, asks⟩ := before account id c key foundBefore heard
    exact ⟨asking, by simp [member], asks⟩
  cases effect.fate beforeOk afterOk found with
  | rest foundBefore same others unnamed => exact old foundBefore hears
  | took acct c taken rest took after same =>
      have foundBefore := took.there
      rw [after] at hears
      exact old foundBefore hears
  | lived head tail fx c lived =>
      have foundBefore := lived.there
      rcases lived.lives.subs_since hears with heard | ⟨since, ring, member⟩
      · exact old foundBefore heard
      · obtain ⟨-, frame, isReceive, asked⟩ := lived.subscribed_eq member
        exact ⟨step, by simp, since, frame, isReceive, asked⟩
  | born hello conn mid tail born =>
      rcases born.lives.subs_since hears with heard | ⟨since, ring, member⟩
      · rw [born.newcomer.subs_eq] at heard
        exact (AList.notMem_empty key heard).elim
      · obtain ⟨_, _, _, absurdity⟩ := born.departures _ member
        cases absurdity

omit [Codec] in
theorem exists_latestSubscribe
    (asked : ∃ step ∈ steps, ∃ since, step.Asks id key since) :
    ∃ since subscribe later,
      LatestSubscribe steps id key since subscribe later := by
  induction steps with
  | nil => simp at asked
  | cons step steps ih =>
      by_cases again : ∃ step ∈ steps, ∃ since, step.Asks id key since
      · obtain ⟨since, subscribe, later, ⟨earlier, split⟩, asks, latest⟩ :=
          ih again
        exact ⟨since, subscribe, later, ⟨step :: earlier, by simp [split]⟩,
          asks, latest⟩
      · push Not at again
        obtain ⟨asking, member, since, asks⟩ := asked
        rcases List.mem_cons.mp member with rfl | inRest
        · exact ⟨since, asking, steps, ⟨[], rfl⟩, asks, again⟩
        · exact (again asking inRest since asks).elim

/-- From the latest request to subscribe on, the account of a subscription is
kept. -/
theorem Run.followed {later : List Step} {subscribe : Step}
    {since : Option Position} (ok : start.Ok) (empty : start.accounts = ∅)
    (run : Run start steps hub)
    (delivers : ∀ step ∈ steps, step.call.DeliversOnly Frame.Plain)
    (subscribed : LatestSubscribe steps id key since subscribe later)
    (found : hub.conn? account id = some c) (hears : key ∈ c.subs) :
    c.Followed key (handed id later)
      (backlog key (subscribe.before.ring? account key) since ++
        later.filterMap fun step => step.publication account key)
      (hub.record account) := by
  obtain ⟨⟨earlier, rfl⟩, ⟨frame, isReceive, asked⟩, latest⟩ := subscribed
  obtain ⟨before, earlierRun, rest⟩ := run.split
  obtain ⟨rfl, firstRun, laterRun⟩ := rest.uncons
  have beforeOk := (earlierRun.forall_steps ok).1
  obtain ⟨_, afterOk, effect⟩ :=
    (firstRun.forall_steps beforeOk).2 subscribe (by simp)
  have unsent (step : Step) (member : step ∈ earlier ++ subscribe :: later) :
      step.call.DeliversOnly (·.envelope? = none) :=
    (delivers step member).mono fun _ plain => plain.envelope
  have sourced := earlierRun.sourced ok (Hub.sourced_empty empty)
    fun step member => unsent step (by simp [member])
  have sourcedAfter := effect.sourced beforeOk afterOk
    (unsent subscribe (by simp)) sourced
  refine (laterRun.induct (fun steps now =>
    now.Sourced (earlier ++ [subscribe] ++ steps) ∧ ∀ c,
      now.conn? account id = some c → key ∈ c.subs →
        c.Followed key (handed id steps)
          (backlog key (subscribe.before.ring? account key) since ++
            steps.filterMap fun step => step.publication account key)
          (now.record account)) afterOk ⟨?_, ?_⟩ ?_).2 c found hears
  · simpa using sourcedAfter
  · intro c found hears
    have first := (effect.fate beforeOk afterOk found).subscribed beforeOk
      sourced (fun c found => earlierRun.orderly ok empty
        (fun step member => delivers step (by simp [member])) account id c
        found) (delivers subscribe (by simp)) isReceive asked hears
    simpa using first
  · intro steps step _ stepBeforeOk stepAfterOk stepEffect member holds
    obtain ⟨sourcedNow, followed⟩ := holds
    have among : step ∈ earlier ++ subscribe :: later := by simp [member]
    refine ⟨?_, fun c' found' hears' => ?_⟩
    · rw [← List.append_assoc]
      exact stepEffect.sourced stepBeforeOk stepAfterOk (unsent step among)
        sourcedNow
    · have after := (stepEffect.fate stepBeforeOk stepAfterOk found').followed
        stepBeforeOk sourcedNow (delivers step among)
        (fun frame position again askedAgain =>
          latest step member position ⟨frame, again, askedAgain⟩)
        followed hears'
      have one : [step].filterMap (fun step => step.publication account key) =
          (step.publication account key).toList := by
        cases published : step.publication account key <;> simp [published]
      rw [handed_append, handed_cons, handed_nil, List.append_nil,
        List.filterMap_append, one, ← List.append_assoc]
      exact after

end Runs

section Keeping

variable [Codec] {limits : Limits} {acct acct' : Account} {id : ConnId} {c c' : Conn}
  {key : StreamKey} {events : List Event} {event : Event} {order : HashOrder}
  {hub hub' : Hub} {call : Call} {reply : Reply} {account : AccountId} {item : Item}

omit [Codec] in
/-- A stream is purged of a queue when its owner asks for it, or asks not to hear it. -/
theorem Event.of_purge (purges : .purge key ∈ event.ops id c) :
    (∃ since ring, event = .subscribed id key since ring) ∨ event = .unsubscribed id key := by
  cases event with
  | quiet => simp [ops] at purges
  | frame target sent => simp [ops] at purges
  | published key ring env => simp [ops] at purges
  | subscribed target other since ring =>
      simp only [ops] at purges
      split at purges
      · next same =>
          subst same
          rcases List.mem_cons.mp purges with isPurge | backfills
          · cases isPurge
            exact Or.inl ⟨since, ring, rfl⟩
          · cases ring <;> simp [backfillOps] at backfills
      · cases purges
  | unsubscribed target other =>
      simp only [ops] at purges
      split at purges
      · next same =>
          subst same
          cases List.mem_singleton.mp purges
          exact Or.inr rfl
      · cases purges
  | joined other conn role => simp [ops] at purges
  | left other principal role => simp [ops] at purges

theorem Lives.keeps (lives : Lives limits id acct c events acct' c') (ok : c.out.Ok)
    (member : item ∈ c.out.items) (lasting : item.telemetry = false)
    (stays : ∀ key, item.stream = some key → .unsubscribed id key ∉ events ∧
      ∀ since ring, .subscribed id key since ring ∉ events) : item ∈ c'.out.items := by
  refine (lives.preserves (fun _ now => now.out.Ok ∧ item ∈ now.out.items) ?_ ?_
    ⟨ok, member⟩).2
  · intro _ _ _ _ _ _ _ _ _ passes before
    refine ⟨passes.performs.ok before.1, passes.performs.keeps before.1 before.2 lasting ?_⟩
    intro key purges
    simp [Event.ops] at purges
  · intro event among _ _ _ _ _ _ _ _ _ passes before
    refine ⟨passes.performs.ok before.1, passes.performs.keeps before.1 before.2 lasting ?_⟩
    intro key purges isStream
    obtain ⟨left, renewed⟩ := stays key isStream
    rcases Event.of_purge purges with ⟨since, ring, rfl⟩ | rfl
    · exact renewed since ring among
    · exact left among

/-- Through a call, what is no telemetry waits or is handed out, unless its stream is
renewed or given up. -/
theorem Effect.keeps (effect : Effect order hub call reply hub') (ok : hub.Ok)
    (ok' : hub'.Ok) (found : hub.conn? account id = some c)
    (found' : hub'.conn? account id = some c')
    (member : item ∈ c.out.items) (lasting : item.telemetry = false)
    (stays : ∀ key frame, item.stream = some key → call = .receive id frame →
      frame.unsubscription? ≠ some key ∧ ∀ since, frame.subscription? ≠ some (key, since)) :
    item ∈ c'.out.items ∨
      ∃ budget, call = .takeOutbound id budget ∧ item.wire ∈ reply.frames := by
  cases effect.fate ok ok' found' with
  | rest before =>
      obtain rfl := Option.some.inj (found.symm.trans before)
      exact Or.inl member
  | took acct before taken rest took after =>
      obtain rfl := Option.some.inj (found.symm.trans took.there)
      rw [took.split] at member
      rcases List.mem_append.mp member with inTaken | inRest
      · obtain ⟨budget, isTake⟩ := took.call_eq
        refine Or.inr ⟨budget, isTake, ?_⟩
        rw [took.reply_eq]
        exact Outbound.mem_handOut inTaken
      · left
        rw [after]
        exact inRest
  | lived head tail fx before lived =>
      obtain rfl := Option.some.inj (found.symm.trans lived.there)
      refine Or.inl (lived.lives.keeps ((ok.record_ok account).1.queue_ok lived.lives.first)
        member lasting fun key isStream =>
        ⟨fun left => ?_, fun since ring renewed => ?_⟩)
      · obtain ⟨frame, isReceive, asked⟩ := lived.unsubscribed_eq left
        exact (stays key frame isStream isReceive).1 asked
      · obtain ⟨-, frame, isReceive, asked⟩ := lived.subscribed_eq renewed
        exact (stays key frame isStream isReceive).2 since asked
  | born hello conn mid tail born =>
      exact absurd found (born.not_there ok)

/-- What the ring retains waits for a connection that asks for it from the start. -/
theorem Effect.backfills {frame : Frame}
    (effect : Effect order hub (.receive id frame) reply hub')
    (ok : hub.Ok) (ok' : hub'.Ok) (found' : hub'.conn? account id = some c')
    (asked : frame.subscription? = some (key, none)) (valid : key.Valid hub.limits)
    {ring : Ring} (retained : hub.ring? account key = some ring)
    (lasting : ring.kind ≠ .telemetry) {entry : Entry} (member : entry ∈ ring.entries) :
    .ofEntry key ring.kind ring.epoch entry ∈ c'.out.items := by
  cases effect.fate ok ok' found' with
  | rest before same others => exact absurd rfl others
  | took acct before taken rest took =>
      obtain ⟨_, absurdity⟩ := took.call_eq
      cases absurdity
  | lived head tail fx c lived =>
      have isHead := lived.heads.of_subscribe asked valid lived.spared
      have lives := lived.lives
      rw [isHead, List.singleton_append, retained] at lives
      obtain ⟨before, after, b, b', fx₁, fx₂, quiets, act, passes, rest⟩ := lives.uncons
      have bOk := quiets.queue_ok ((ok.record_ok account).1.queue_ok lived.lives.first)
      have positive : 0 < entry.seq :=
        ((ok.record_ok account).1.ring_ok retained).toSound.seq_pos member
      have waits : Item.ofEntry key ring.kind ring.epoch entry ∈ b'.out.items := by
        have performs := passes.performs
        simp only [Event.ops, if_true] at performs
        cases performs with
        | next first others =>
            refine others.queues (first.ok bOk)
              (List.mem_append_left _ (List.mem_map_of_mem (a := entry) ?_)) rfl ?_ ?_
            · exact List.mem_filter.mpr ⟨member, by simpa [Ring.resumeAfter] using positive⟩
            · simp [Item.ofEntry, lasting]
            · intro key purges
              simp [backfillOps] at purges
      refine rest.keeps (passes.performs.ok bOk) waits (by simp [Item.ofEntry, lasting])
        fun other _ => ⟨fun left => ?_, fun since ring renewed => ?_⟩
      · obtain ⟨_, _, _, absurdity⟩ := lived.departures _ left
        cases absurdity
      · obtain ⟨_, _, _, absurdity⟩ := lived.departures _ renewed
        cases absurdity
  | born hello conn mid tail born =>
      obtain ⟨_, _, _, absurdity⟩ := born.call_eq
      cases absurdity

end Keeping
end WindowMlHub
