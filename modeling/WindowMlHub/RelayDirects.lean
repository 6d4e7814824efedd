import WindowMlHub.RelayFreshSubscribers
import WindowMlHub.RelayLives

/-!
# Direct envelopes

A direct envelope is offered to the one connection of its recipient.  It is in that
connection's queue when the call returns, and then nobody was closed; or it is in no
queue of a connection that is still there, and then the sender was told so, unless it
was closed itself.  While a call only offers frames and sees connections off, a queue
that survives it holds what it held before and the frames it was offered.
-/

namespace WindowMlHub

open CheckedEvaluation HashTables

/-- The error that a frame carries. -/
def Frame.notice? : Frame → Option ErrorNotice
  | ⟨some (.error notice)⟩ => some notice
  | _ => none

@[simp]
theorem errorFrame_notice? (code : Code) (reference : Nat) (message : String) :
    (errorFrame code reference message).notice? =
      some ⟨code.toInt, reference, message⟩ :=
  rfl

@[simp]
theorem errorFrame_envelope? (code : Code) (reference : Nat) (message : String) :
    (errorFrame code reference message).envelope? = none :=
  rfl

namespace Outbound

/-- The envelopes that wait in a queue. -/
def envelopes (queue : Outbound) : List Envelope :=
  queue.frames.filterMap Frame.envelope?

/-- The errors that wait in a queue. -/
def notices (queue : Outbound) : List ErrorNotice :=
  queue.frames.filterMap Frame.notice?

end Outbound

/-- What an event offers to one connection, of the frames that are not published. -/
def Event.offered (id : ConnId) : Event → List Frame
  | .frame target sent => if id = target then [sent] else []
  | .left _ principal role => [offlineNotice principal role]
  | _ => []

/-- An event that does no more than offer frames. -/
def Event.Offers : Event → Prop
  | .quiet | .frame _ _ | .left _ _ _ => True
  | _ => False

section Offering

variable [Codec] {limits : Limits} {id : ConnId} {acct acct' : Account}
  {events : List Event} {event : Event} {c c' : Conn}

theorem Perform.frames_eq {queue next : Outbound} {frame : Frame}
    (performed : Perform limits queue (.frame frame) next) :
    next.frames = queue.frames ++ [frame] := by
  cases performed with
  | frame ran =>
      have accepted : ¬ ((Item.ofFrame frame).sessionEvent = true ∧
          queue.sessionEvents ≥ limits.queueSessionEvents) := by
        simp [Item.ofFrame]
      unfold Outbound.pushFrame Outbound.push at ran
      rw [if_neg accepted] at ran
      obtain ⟨rfl, -⟩ := Prod.mk.inj ran
      simp [Outbound.frames, Item.ofFrame]

/-- A connection that passes an event which offers frames has these in its queue, after
all that was there. -/
theorem Passes.frames_eq (passes : Passes limits event id c c')
    (offers : event.Offers) :
    c'.out.frames = c.out.frames ++ event.offered id := by
  have performs := passes.performs
  cases event with
  | quiet => simp [performs.of_nil, Event.offered]
  | frame target frame =>
      simp only [Event.ops] at performs
      simp only [Event.offered]
      by_cases mine : id = target
      · rw [if_pos mine] at performs ⊢
        exact performs.of_single.frames_eq
      · rw [if_neg mine] at performs ⊢
        simp [performs.of_nil]
  | left other principal role => exact performs.of_single.frames_eq
  | published key ring env => exact offers.elim
  | subscribed target key since ring => exact offers.elim
  | unsubscribed target key => exact offers.elim
  | joined other conn role => exact offers.elim

theorem Lives.frames_eq (lives : Lives limits id acct c events acct' c')
    (offers : ∀ event ∈ events, event.Offers) :
    c'.out.frames = c.out.frames ++ events.flatMap (Event.offered id) := by
  induction lives with
  | start found => simp
  | quiet lives act found passes ih =>
      have same := passes.frames_eq trivial
      rw [same, ih offers]
      simp [Event.offered]
  | event lives act found passes ih =>
      have more := passes.frames_eq (offers _ (by simp))
      rw [more, ih fun event member => offers event (by simp [member])]
      simp

end Offering

/-! ## Who is closed, and with what -/

/-- Every connection on the list of those to close has fallen behind. -/
def Effects.Overrun (fx : Effects) : Prop :=
  ∀ entry ∈ fx.close, entry.2 = fellBehind

namespace Hub

theorem mem_actionsOf_close {wake : List ConnId} {left : List (ConnId × Frame)}
    {id : ConnId} {frame : Frame} :
    .close id frame ∈ actionsOf wake left ↔ (id, frame) ∈ left := by
  simp [actionsOf]

variable [Codec] {account : AccountId} {fx : Effects}

theorem enqueue_overrun (hub : Hub) (account : AccountId) (conn : ConnId)
    (frame : Frame) (overrun : fx.Overrun) :
    (hub.enqueue account conn frame fx).2.Overrun := by
  unfold enqueue
  split
  · exact overrun
  · split
    · exact overrun
    · simp only [Effects.Overrun, Conn.settle_close]
      intro entry member
      split at member
      · exact overrun entry member
      · rcases List.mem_cons.mp member with rfl | old
        · rfl
        · exact overrun entry old

theorem overrun_of_enqueue {hub hub' : Hub} {conn : ConnId} {frame : Frame}
    {fx' : Effects} (overrun : fx.Overrun)
    (ran : hub.enqueue account conn frame fx = (hub', fx')) : fx'.Overrun := by
  have still := hub.enqueue_overrun account conn frame overrun
  rwa [ran] at still

theorem enqueueAll_overrun (account : AccountId) (frame : Frame) (ids : List ConnId)
    (hub : Hub) (overrun : fx.Overrun) :
    (enqueueAll account frame ids hub fx).2.Overrun := by
  induction ids generalizing hub fx with
  | nil => exact overrun
  | cons id rest ih => exact ih _ (hub.enqueue_overrun account id frame overrun)

theorem forget_overrun (order : HashOrder) (hub : Hub) (conn : ConnId)
    (overrun : fx.Overrun) : (hub.forget order conn fx).2.Overrun := by
  unfold forget
  split
  · exact overrun
  · simp only
    split
    · exact overrun
    · split
      · exact overrun
      · exact enqueueAll_overrun _ _ _ _ overrun

/-- Whoever is closed because of others that fell behind has fallen behind. -/
theorem finishLoop_overrun (order : HashOrder) {fuel : Nat} {hub hub' : Hub}
    {fx' : Effects} {closed closed' : List (ConnId × Frame)} (overrun : fx.Overrun)
    (before : ∀ entry ∈ closed, entry.2 = fellBehind)
    (ran : finishLoop order fuel hub fx closed = .ok (hub', fx', closed')) :
    ∀ entry ∈ closed', entry.2 = fellBehind := by
  induction fuel generalizing hub fx closed with
  | zero => cases ran
  | succ fuel ih =>
      unfold finishLoop at ran
      split at ran
      · cases ran
        exact before
      · rename_i conn frame rest top
        have restOverrun : ({ fx with close := rest } : Effects).Overrun :=
          fun entry member => overrun entry (top ▸ List.mem_cons_of_mem _ member)
        split at ran
        · exact ih restOverrun before ran
        · refine ih (hub.forget_overrun order conn restOverrun) ?_ ran
          intro entry member
          rcases List.mem_append.mp member with old | new
          · exact before entry old
          · rw [List.mem_singleton.mp new]
            exact overrun (conn, frame) (top ▸ List.mem_cons_self)

theorem finish_overrun (order : HashOrder) {hub hub' : Hub} {wake : List ConnId}
    {left : List (ConnId × Frame)} (overrun : fx.Overrun)
    (ran : hub.finish order fx = .ok (hub', actionsOf wake left)) :
    ∀ entry ∈ left, entry.2 = fellBehind := by
  rintro ⟨id, frame⟩ member
  simp only [finish, bind_eq_ok] at ran
  obtain ⟨⟨last, lastFx, closed⟩, loop, answer⟩ := ran
  obtain ⟨-, same⟩ := Prod.mk.inj (Except.ok.inj answer)
  have closing : Action.close id frame ∈ actionsOf lastFx.wake closed :=
    same ▸ mem_actionsOf_close.mpr member
  exact finishLoop_overrun order overrun (by simp) loop (id, frame)
    (mem_actionsOf_close.mp closing)

end Hub

section Doom

variable [Codec] {limits : Limits} {id : ConnId} {acct acct' : Account}
  {fx fx' : Effects} {events : List Event}

/-- A doomed connection stays doomed until it leaves. -/
theorem Acts.doomed (acts : Acts limits acct fx events acct' fx')
    (stays : ∀ principal role, .left id principal role ∉ events)
    (member : id ∈ acct.conns) (doomed : Doomed fx id) : Doomed fx' id := by
  have step {acct₁ acct₂ : Account} {fx₁ fx₂ : Effects} {event : Event}
      (act : Act limits acct₁ fx₁ event acct₂ fx₂) (there : id ∈ acct₁.conns)
      (now : Doomed fx₁ id) (remains : ∀ principal role, event ≠ .left id principal role) :
      Doomed fx₂ id := by
    obtain ⟨c, found⟩ := HashMap.exists_lookup_of_mem there
    obtain ⟨c', -, kept⟩ := act.kept found remains
    rcases kept.doomed_or with later | ⟨spared, -⟩
    · exact later
    · exact (spared now).elim
  induction acts with
  | done => exact doomed
  | quiet acts act ih =>
      exact step act (acts.mem_conns stays member) (ih stays doomed)
        (fun _ _ absurdity => by cases absurdity)
  | event acts act ih =>
      have earlier := fun principal role among =>
        stays principal role (List.mem_append_left _ among)
      exact step act (acts.mem_conns earlier member) (ih earlier doomed)
        (fun principal role isLeft => stays principal role (by simp [isLeft]))

/-- A connection is closed before the call returns, or it is not doomed and remains. -/
theorem Hub.Settles.closes_or_remains {account : AccountId} {hub hub' : Hub}
    {head : List Event} {mid : Account} {left : List (ConnId × Frame)}
    {wake : List ConnId} (settles : hub.Settles account head mid fx left hub' wake)
    (member : id ∈ mid.conns) :
    (∃ frame, (id, frame) ∈ left) ∨
      ¬ Doomed fx id ∧ ∃ after, hub'.conn? account id = some after := by
  obtain ⟨events, fx', acts, departures, noClose, -⟩ := settles.tail_acts
  by_cases closed : ∃ frame, (id, frame) ∈ left
  · exact Or.inl closed
  · have stays (principal : Bytes) (role : Role) :
        .left id principal role ∉ events := by
      intro isLeft
      obtain ⟨entry, among, principal, role, same⟩ := departures.of_mem isLeft
      cases same
      exact closed ⟨entry.2, among⟩
    refine Or.inr ⟨fun doomed => ?_, ?_⟩
    · have still := acts.doomed stays member doomed
      simp [Doomed, noClose] at still
    · rw [hub'.conn?_eq]
      exact HashMap.exists_lookup_of_mem (acts.mem_conns stays member)

end Doom

/-! ## Sending directly -/

/-- What sending an envelope to a principal does in an account: nobody is there and the
sender is told, or the envelope is queued and nobody is to be closed, or it did not fit,
and then its recipient is to be closed and the sender is told. -/
inductive Sent (acct : Account) (conn : ConnId) (target : Bytes) (sent : Envelope)
    (fx : Effects) : List Event → Prop
  | offline {message : String} (nobody : acct.online.lookup target = none) :
      Sent acct conn target sent fx
        [.frame conn (errorFrame .unavailable sent.ref message)]
  | queued {targetConn : ConnId} {role : Role}
      (online : acct.online.lookup target = some (targetConn, role))
      (nobody : fx.close = []) :
      Sent acct conn target sent fx [.frame targetConn (.of (.envelope sent))]
  | overran {targetConn : ConnId} {role : Role} {message : String}
      (online : acct.online.lookup target = some (targetConn, role))
      (doomed : Doomed fx targetConn) :
      Sent acct conn target sent fx
        [.frame targetConn (.of (.envelope sent)),
          .frame conn (errorFrame .unavailable sent.ref message)]

theorem Sent.frames {acct : Account} {conn : ConnId} {target : Bytes} {sent : Envelope}
    {fx : Effects} {events : List Event} (outcome : Sent acct conn target sent fx events) :
    ∀ event ∈ events, ∃ id frame, event = .frame id frame := by
  intro event member
  cases outcome with
  | offline _ => exact ⟨_, _, List.mem_singleton.mp member⟩
  | queued _ _ => exact ⟨_, _, List.mem_singleton.mp member⟩
  | overran _ _ =>
      rcases List.mem_cons.mp member with rfl | rest
      · exact ⟨_, _, rfl⟩
      · exact ⟨_, _, List.mem_singleton.mp rest⟩

section Sending

variable [Codec] {account : AccountId} {hub : Hub} {acct : Account}
  {conn : ConnId} {c : Conn}

theorem Hub.direct_sent (record : hub.accounts.lookup account = some acct)
    (ok : acct.Ok hub.limits) (tidy : acct.Tidy) (conn : ConnId) {target : Bytes}
    {env sent : Envelope}
    (sentEq : { env with sentTo := some (.principal target) } = sent) :
    ∃ hub' acct' fx events,
      hub.direct account conn target env {} = .ok (hub', fx) ∧
      Moves account hub acct {} events hub' acct' fx ∧ fx.Overrun ∧
      Sent acct conn target sent fx events := by
  have reference : env.ref = sent.ref := by rw [← sentEq]
  have calm : ({} : Effects).Overrun := by simp [Effects.Overrun]
  unfold direct
  simp only [record, Option.bind_some]
  cases online : acct.online.lookup target with
  | none =>
      obtain ⟨hub', acct', fx, ran, moves⟩ := hub.enqueue_spec record ok tidy conn
        (errorFrame .unavailable env.ref "recipient is not online") {}
      exact ⟨hub', acct', fx, _, congrArg Except.ok ran, moves,
        overrun_of_enqueue calm ran, reference ▸ .offline online⟩
  | some entry =>
      obtain ⟨targetConn, role⟩ := entry
      obtain ⟨peer, peerFound, -⟩ := ok.conn_of_online online
      simp only [expect_some, ok_bind, peerFound, sentEq]
      obtain ⟨hub', acct', fx, ran, moves⟩ := hub.enqueue_spec record ok tidy
        targetConn (.of (.envelope sent)) {}
      have overrun := overrun_of_enqueue calm ran
      -- the push of `direct` is the one `enqueue` makes
      unfold enqueue at ran
      simp only [record, peerFound, Prod.mk.injEq] at ran
      obtain ⟨rfl, rfl⟩ := ran
      have close := peer.settle_close targetConn
        (peer.out.pushFrame (.of (.envelope sent)) hub.limits) {}
      cases answer : (peer.out.pushFrame (.of (.envelope sent)) hub.limits).2 with
      | ok _ =>
          rw [answer] at close
          exact ⟨_, acct', _, _, rfl, moves, overrun, .queued online close⟩
      | error slow =>
          rw [answer] at close
          have doomed : (targetConn, fellBehind) ∈ (peer.settle targetConn
              (peer.out.pushFrame (.of (.envelope sent)) hub.limits) {}).2.close :=
            close ▸ List.mem_cons_self
          obtain ⟨hub'', acct'', fx'', told, later⟩ :=
            Hub.enqueue_spec moves.within.record
              (moves.within.limits_eq ▸ moves.ok) moves.tidy conn
              (errorFrame .unavailable env.ref "recipient fell behind") _
          have there : targetConn ∈ acct'.conns :=
            moves.acts.mem_conns (by simp) (HashMap.mem_of_lookup peerFound)
          exact ⟨hub'', acct'', fx'', _, congrArg Except.ok told, moves.trans later,
            overrun_of_enqueue overrun told, reference ▸ .overran online
              (later.acts.doomed (by simp) there ⟨_, doomed⟩)⟩

/-- A direct envelope within the limits is handed on with nothing of what its sender wrote
about where it comes from. -/
theorem Hub.route_direct (record : hub.accounts.lookup account = some acct)
    (found : acct.conns.lookup conn = some c) {env : Envelope} {target : Bytes}
    (addressed : env.sentTo = some (.principal target))
    (directed : (Kind.ofInt env.kind).Directed)
    (payload : env.payload.length ≤ hub.limits.maxPayloadBytes)
    (coalesce : env.coalesce.length ≤ hub.limits.maxCoalesceBytes)
    (order : HashOrder) (fx : Effects) :
    ∃ sent : Envelope,
      { sent with sentTo := some (.principal target) } = env.fromSender c.principal ∧
      hub.route order account conn (.of (.envelope env)) fx =
        hub.direct account conn target sent fx := by
  have principal : hub.principalOf account conn = some c.principal := by
    simp [principalOf, conn?, record, found]
  have noKey : Kind.ofInt env.kind ≠ .telemetry := by
    rcases directed with kind | kind | kind
    all_goals simp [kind]
  refine ⟨{ env with
    sender := c.principal, seq := 0, epoch := 0, coalesce := [],
    sentTo := none }, by simp [Envelope.fromSender, noKey, addressed], ?_⟩
  change hub.onEnvelope order account conn env fx = _
  unfold onEnvelope
  rw [if_neg (Nat.not_lt.mpr payload), if_neg (Nat.not_lt.mpr coalesce), principal]
  rcases directed with kind | kind | kind
  all_goals simp only [addressed, kind]

theorem Hub.route_sent (record : hub.accounts.lookup account = some acct)
    (ok : acct.Ok hub.limits) (tidy : acct.Tidy)
    (found : acct.conns.lookup conn = some c) {env : Envelope} {target : Bytes}
    (addressed : env.sentTo = some (.principal target))
    (directed : (Kind.ofInt env.kind).Directed)
    (payload : env.payload.length ≤ hub.limits.maxPayloadBytes)
    (coalesce : env.coalesce.length ≤ hub.limits.maxCoalesceBytes)
    (order : HashOrder) :
    ∃ hub' acct' fx events,
      hub.route order account conn (.of (.envelope env)) {} = .ok (hub', fx) ∧
      Moves account hub acct {} events hub' acct' fx ∧ fx.Overrun ∧
      Sent acct conn target (env.fromSender c.principal) fx events := by
  obtain ⟨sent, sentEq, routed⟩ :=
    hub.route_direct record found addressed directed payload coalesce order {}
  rw [routed]
  exact direct_sent record ok tidy conn sentEq

end Sending

/-- The envelope is where it was sent: the recipient is online and its queue ends with
the envelope as the hub stamped it.  Nobody is closed, and the sender is told of no
error. -/
structure Delivered (hub hub' : Hub) (actions : List Action) (account : AccountId)
    (conn : ConnId) (c : Conn) (target : Bytes) (sent : Envelope) : Prop where
  arrived : ∃ targetConn role before after,
    (hub.record account).online.lookup target = some (targetConn, role) ∧
    hub.conn? account targetConn = some before ∧
    hub'.conn? account targetConn = some after ∧
    after.out.frames = before.out.frames ++ [.of (.envelope sent)]
  nobodyClosed : ∀ id frame, .close id frame ∉ actions
  untroubled : ∃ after, hub'.conn? account conn = some after ∧
    after.out.notices = c.out.notices

/-- The envelope is nowhere: no connection that is there, of any account, has an
envelope in its queue that was not there before.  The sender has been told exactly that,
or was closed, and a recipient that was online was closed because it fell behind. -/
structure Undelivered (hub hub' : Hub) (actions : List Action) (account : AccountId)
    (conn : ConnId) (c : Conn) (target : Bytes) (sent : Envelope) : Prop where
  nowhere : ∀ other id after, hub'.conn? other id = some after →
    ∃ before, hub.conn? other id = some before ∧
      after.out.envelopes = before.out.envelopes
  told : (∃ after message, hub'.conn? account conn = some after ∧
      after.out.notices = c.out.notices ++
        [⟨Code.unavailable.toInt, sent.ref, message⟩]) ∨
    ∃ frame, .close conn frame ∈ actions
  overrun : ∀ targetConn role,
    (hub.record account).online.lookup target = some (targetConn, role) →
      .close targetConn fellBehind ∈ actions

section Receiving

variable [Codec] {account : AccountId} {hub hub' : Hub} {conn : ConnId} {c : Conn}
  {actions : List Action} {target : Bytes} {sent : Envelope}

omit [Codec] in
theorem Delivered.not_undelivered
    (delivered : Delivered hub hub' actions account conn c target sent) :
    ¬ Undelivered hub hub' actions account conn c target sent := by
  intro undelivered
  obtain ⟨targetConn, role, before, after, -, found, foundAfter, more⟩ :=
    delivered.arrived
  obtain ⟨before', found', same⟩ := undelivered.nowhere account targetConn after foundAfter
  obtain rfl : before = before' := Option.some.inj (found.symm.trans found')
  simp [Outbound.envelopes, more, Frame.of, Frame.envelope?] at same

/-- What becomes of the queues when the doomed connections have left. -/
theorem Hub.Settles.frames_eq {head : List Event} {mid : Account} {fx : Effects}
    {left : List (ConnId × Frame)} {wake : List ConnId}
    (settles : hub.Settles account head mid fx left hub' wake)
    (offers : ∀ event ∈ head, event.Offers) {id : ConnId} {after : Conn}
    (found : hub'.conn? account id = some after) :
    ∃ before, hub.conn? account id = some before ∧ ¬ Doomed fx id ∧
      ∃ notices : List Frame, after.out.frames =
          before.out.frames ++ head.flatMap (Event.offered id) ++ notices ∧
        (left = [] → notices = []) ∧
        ∀ frame ∈ notices, ∃ principal role, frame = offlineNotice principal role := by
  obtain ⟨tail, fx', tailActs, departures, noClose, -⟩ := settles.tail_acts
  have leaves (event : Event) (member : event ∈ tail) :
      ∃ other principal role, event = .left other principal role := by
    obtain ⟨entry, -, principal, role, isLeft⟩ := departures.of_mem member
    exact ⟨entry.1, principal, role, isLeft⟩
  have spared : ¬ Doomed fx' id := by simp [Doomed, noClose]
  have tailOffers (event : Event) (member : event ∈ tail) : event.Offers := by
    obtain ⟨other, principal, role, rfl⟩ := leaves event member
    trivial
  have nobodyJoins {events earlier later : List Event}
      (offers : ∀ event ∈ events, event.Offers) {conn : Conn} {role : Role}
      (split : events = earlier ++ .joined id conn role :: later) : False :=
    offers (.joined id conn role) (by simp [split])
  have allOffer : ∀ event ∈ head ++ tail, event.Offers := by
    intro event member
    rcases List.mem_append.mp member with inHead | inTail
    · exact offers event inHead
    · exact tailOffers event inTail
  rw [hub'.conn?_eq] at found
  have spares : ¬ Doomed fx id := by
    rcases tailActs.lives found spared with ⟨-, -, before, -⟩ |
      ⟨earlier, conn, role, later, -, -, -, -, split, -⟩
    · exact before
    · exact (nobodyJoins tailOffers split).elim
  rcases (settles.head_acts.trans tailActs).lives found spared with
    ⟨before, lives, -, -⟩ | ⟨earlier, conn, role, later, -, -, -, -, split, -⟩
  · refine ⟨before, (hub.conn?_eq account id).trans lives.first, spares,
      tail.flatMap (Event.offered id), ?_, ?_, ?_⟩
    · rw [lives.frames_eq allOffer, List.flatMap_append, List.append_assoc]
    · rintro rfl
      rw [List.forall₂_nil_left_iff.mp departures, List.flatMap_nil]
    · intro frame member
      obtain ⟨event, among, offered⟩ := List.mem_flatMap.mp member
      obtain ⟨other, principal, role, rfl⟩ := leaves event among
      exact ⟨principal, role, List.mem_singleton.mp offered⟩
  · exact (nobodyJoins allOffer split).elim

theorem Hub.Settles.stays {head : List Event} {mid : Account} {fx : Effects}
    {left : List (ConnId × Frame)} {wake : List ConnId}
    (settles : hub.Settles account head mid fx left hub' wake)
    (frames : ∀ event ∈ head, ∃ id frame, event = .frame id frame) {id : ConnId}
    {before : Conn} (found : hub.conn? account id = some before) :
    (∃ frame, (id, frame) ∈ left) ∨
      ¬ Doomed fx id ∧ ∃ after, hub'.conn? account id = some after := by
  refine settles.closes_or_remains (settles.head_acts.mem_conns ?_ ?_)
  · intro principal role inHead
    obtain ⟨other, frame, absurdity⟩ := frames _ inHead
    cases absurdity
  · rw [hub.conn?_eq] at found
    exact HashMap.mem_of_lookup found

/-- An envelope is undelivered when nobody who stays has been offered it, and the sender,
if it stays, has been offered an error. -/
theorem Hub.Settles.undelivered {head : List Event} {mid : Account} {fx : Effects}
    {left : List (ConnId × Frame)} {wake : List ConnId} (message : String)
    (settles : hub.Settles account head mid fx left hub' wake)
    (overrun : ∀ entry ∈ left, entry.2 = fellBehind)
    (live : hub.conn? account conn = some c)
    (frames : ∀ event ∈ head, ∃ id frame, event = .frame id frame)
    (nobody : ∀ id, ¬ Doomed fx id →
      (head.flatMap (Event.offered id)).filterMap Frame.envelope? = [])
    (told : ¬ Doomed fx conn →
      (head.flatMap (Event.offered conn)).filterMap Frame.notice? =
        [⟨Code.unavailable.toInt, sent.ref, message⟩])
    (doomed : ∀ targetConn role,
      (hub.record account).online.lookup target = some (targetConn, role) →
        Doomed fx targetConn ∧ ∃ before, hub.conn? account targetConn = some before) :
    Undelivered hub hub' (actionsOf wake left) account conn c target sent := by
  have offers (event : Event) (member : event ∈ head) : event.Offers := by
    obtain ⟨id, frame, rfl⟩ := frames event member
    trivial
  have quiet {notices : List Frame} (departures : ∀ frame ∈ notices,
      ∃ principal role, frame = offlineNotice principal role) :
      notices.filterMap Frame.envelope? = [] ∧ notices.filterMap Frame.notice? = [] := by
    simp only [List.filterMap_eq_nil_iff]
    constructor
    all_goals
      intro frame member
      obtain ⟨principal, role, rfl⟩ := departures frame member
      rfl
  refine ⟨fun other id after found => ?_, ?_, fun targetConn role online => ?_⟩
  · by_cases same : other = account
    · subst same
      obtain ⟨before, foundBefore, spared, notices, framesEq, -, departures⟩ :=
        settles.frames_eq offers found
      refine ⟨before, foundBefore, ?_⟩
      simp only [Outbound.envelopes, framesEq, List.filterMap_append, nobody id spared,
        (quiet departures).1, List.append_nil]
    · refine ⟨after, ?_, rfl⟩
      rw [← found]
      simp only [conn?, settles.beside.others other same]
  · rcases settles.stays frames live with ⟨frame, closed⟩ | ⟨-, after, found⟩
    · exact Or.inr ⟨frame, mem_actionsOf_close.mpr closed⟩
    · obtain ⟨before, foundBefore, spared, notices, framesEq, -, departures⟩ :=
        settles.frames_eq offers found
      obtain rfl : before = c := Option.some.inj (foundBefore.symm.trans live)
      refine Or.inl ⟨after, message, found, ?_⟩
      simp only [Outbound.notices, framesEq, List.filterMap_append, told spared,
        (quiet departures).2, List.append_nil]
  · obtain ⟨isDoomed, before, found⟩ := doomed targetConn role online
    rcases settles.stays frames found with ⟨frame, closed⟩ | ⟨spared, -⟩
    · rw [mem_actionsOf_close, ← overrun _ closed]
      exact closed
    · exact (spared isDoomed).elim

/-- What a call that routed an envelope to a principal leaves behind. -/
theorem Hub.Settles.delivered_or {head : List Event} {mid : Account} {fx : Effects}
    {left : List (ConnId × Frame)} {wake : List ConnId} (ok : hub.Ok)
    (settles : hub.Settles account head mid fx left hub' wake)
    (overrun : ∀ entry ∈ left, entry.2 = fellBehind)
    (closesNobody : fx.close = [] → left = [])
    (live : hub.conn? account conn = some c)
    (outcome : Sent (hub.record account) conn target sent fx head) :
    Delivered hub hub' (actionsOf wake left) account conn c target sent ∨
      Undelivered hub hub' (actionsOf wake left) account conn c target sent := by
  have peer {targetConn : ConnId} {role : Role}
      (online : (hub.record account).online.lookup target = some (targetConn, role)) :
      ∃ before, hub.conn? account targetConn = some before := by
    obtain ⟨before, found, -⟩ := (ok.record_ok account).1.conn_of_online online
    exact ⟨before, (hub.conn?_eq account targetConn).trans found⟩
  have frames := outcome.frames
  cases outcome with
  | @offline message nobody =>
      refine Or.inr (settles.undelivered message overrun live frames ?_ ?_ ?_)
      · intro id _
        by_cases mine : id = conn
        all_goals simp [Event.offered, mine]
      · simp [Event.offered]
      · intro targetConn role online
        simp [nobody] at online
  | @queued targetConn role online nobody =>
      have nobodyLeft := closesNobody nobody
      -- nobody left, so everybody is there, with what it has been offered
      have follows {id : ConnId} {before : Conn}
          (found : hub.conn? account id = some before) :
          ∃ after, hub'.conn? account id = some after ∧ after.out.frames =
            before.out.frames ++
              Event.offered id (.frame targetConn (.of (.envelope sent))) := by
        rcases settles.stays frames found with ⟨frame, closed⟩ | ⟨-, after, foundAfter⟩
        · simp [nobodyLeft] at closed
        · obtain ⟨before', foundBefore, -, notices, framesEq, none, -⟩ :=
            settles.frames_eq (by simp [Event.Offers]) foundAfter
          obtain rfl : before' = before :=
            Option.some.inj (foundBefore.symm.trans found)
          refine ⟨after, foundAfter, ?_⟩
          simpa [none nobodyLeft] using framesEq
      refine Or.inl ⟨?_, fun id frame closed => ?_, ?_⟩
      · obtain ⟨before, found⟩ := peer online
        obtain ⟨after, foundAfter, more⟩ := follows found
        exact ⟨targetConn, role, before, after, online, found, foundAfter,
          by simpa [Event.offered] using more⟩
      · simp [mem_actionsOf_close, nobodyLeft] at closed
      · obtain ⟨after, foundAfter, more⟩ := follows live
        refine ⟨after, foundAfter, ?_⟩
        rw [Outbound.notices, more, List.filterMap_append]
        by_cases mine : conn = targetConn
        all_goals simp [Event.offered, mine, Outbound.notices, Frame.of, Frame.notice?]
  | @overran targetConn role message online isDoomed =>
      refine Or.inr (settles.undelivered message overrun live frames ?_ ?_ ?_)
      · intro id spared
        have differs : id ≠ targetConn := fun same => spared (same ▸ isDoomed)
        obtain rfl | other := eq_or_ne id conn
        · simp [Event.offered, differs]
        · simp [Event.offered, differs, other]
      · intro spared
        have differs : conn ≠ targetConn := fun same => spared (same ▸ isDoomed)
        simp [Event.offered, differs]
      · intro other role' online'
        obtain ⟨rfl, -⟩ := Prod.mk.inj (Option.some.inj (online.symm.trans online'))
        exact ⟨isDoomed, peer online⟩

/-- In every reachable state a direct envelope within the limits, from a connection that
is there, is in its recipient's queue when the call returns, or it is in no queue and
its sender was told or closed; and never both. -/
theorem direct_never_lost_silently (limits : Limits) (seed : UInt64) (shard : UInt16)
    (start : Hub) (accepted : Hub.withIdSpace limits seed shard = .ok start)
    (steps : List Step) (hub : Hub) (reached : Run start steps hub)
    (account : AccountId) (conn : ConnId) (c : Conn)
    (live : hub.conn? account conn = some c) (env : Envelope) (target : Bytes)
    (addressed : env.sentTo = some (.principal target))
    (directed : (Kind.ofInt env.kind).Directed)
    (payload : env.payload.length ≤ limits.maxPayloadBytes)
    (coalesce : env.coalesce.length ≤ limits.maxCoalesceBytes) (order : HashOrder) :
    ∃ hub' actions,
      hub.receive order conn (.of (.envelope env)) = .ok (hub', actions) ∧
      (Delivered hub hub' actions account conn c target (env.fromSender c.principal) ∨
        Undelivered hub hub' actions account conn c target
          (env.fromSender c.principal)) ∧
      ¬ (Delivered hub hub' actions account conn c target
            (env.fromSender c.principal) ∧
          Undelivered hub hub' actions account conn c target
            (env.fromSender c.principal)) := by
  obtain ⟨startOk, limitsEq, -, -⟩ := ok_withIdSpace accepted
  have ok := (reached.forall_steps startOk).1
  have same : hub.limits = limits := (reached.limits_eq startOk).trans limitsEq
  have known := ok.known_of_conn? live
  obtain ⟨acct, c', record, found⟩ := ok.exists_conn known
  obtain rfl : c' = c := by
    rw [hub.conn?_eq, Hub.record_of_lookup record] at live
    exact Option.some.inj (found.symm.trans live)
  obtain ⟨hub₁, acct₁, fx, events, routed, moves, overrun, outcome⟩ :=
    Hub.route_sent record (ok.account_ok record) (ok.account_tidy record) found
      addressed directed (same ▸ payload) (same ▸ coalesce) order
  have charged := Hub.moves_rate hub₁ account (moves.within.limits_eq ▸ moves.ok)
    moves.tidy fx (acct₁.rate.spend (fx.queued * frameCostBytes))
  have whole := moves.trans charged
  rw [List.append_nil] at whole
  have noJoin (id : ConnId) (conn : Conn) (role : Role) :
      .joined id conn role ∉ events := by
    intro member
    obtain ⟨_, _, absurdity⟩ := outcome.frames _ member
    cases absurdity
  have noLeave (id : ConnId) (principal : Bytes) (role : Role) :
      .left id principal role ∉ events := by
    intro member
    obtain ⟨_, _, absurdity⟩ := outcome.frames _ member
    cases absurdity
  have ok₁ := ok.moves record (Or.inl ⟨conn, HashMap.mem_of_lookup found⟩) whole
    noJoin noLeave
  have acts := whole.acts
  rw [← Hub.record_of_lookup record, ← Hub.record_of_lookup whole.within.record] at acts
  obtain ⟨hub', left, wake, ran, settles, -⟩ := Hub.finish_settles order ok ok₁
    whole.within.beside acts (fun id conn role member => (noJoin id conn role member).elim)
  have received : hub.receive order conn (.of (.envelope env)) =
      .ok (hub', Hub.actionsOf wake left) := by
    simp [Hub.receive, known, routed, Hub.chargeQueued, moves.within.record, ran]
  have closesNobody (nobody : fx.close = []) : left = [] := by
    refine List.eq_nil_iff_forall_not_mem.mpr fun entry member => ?_
    exact close_not_mem_of_finish nobody ran
      (Hub.mem_actionsOf_close.mpr (show (entry.1, entry.2) ∈ left from member))
  rw [← Hub.record_of_lookup record] at outcome
  have settled := settles.delivered_or ok (Hub.finish_overrun order overrun ran)
    closesNobody live outcome
  exact ⟨hub', _, received, settled, fun both => both.1.not_undelivered both.2⟩

end Receiving

/-- A command that a device sends to its connector. -/
def connectorCommand : Envelope :=
  { sentTo := some (.principal [1]), kind := Kind.command.toInt, ref := 7 }

/-- The command waits in the connector's queue. -/
theorem direct_never_lost_silently_connector :
    let calls : List (HashOrder × Call) := [
      (.stored, .connect [9] { protocol := 1, principal := [1], role := 2 } 0 5 .unknown),
      (.stored, .connect [9] { protocol := 1, principal := [2], role := 1 } 0 5 .unknown)]
    ∃ start steps hub c hub' actions, Hub.withIdSpace {} 7 0 = .ok start ∧
      start.run calls = .ok steps ∧ Run start steps hub ∧ hub.conn? [9] 2 = some c ∧
      hub.receive .stored 2 (.of (.envelope connectorCommand)) = .ok (hub', actions) ∧
      Delivered hub hub' actions [9] 2 c [1] (connectorCommand.fromSender c.principal) := by
  intro calls
  let start : Hub := ⟨{}, ∅, ∅, 1, 7, 0⟩
  have accepted : Hub.withIdSpace {} 7 0 = .ok start := rfl
  obtain ⟨steps, hub, ran, reached⟩ := exists_run (ok_withIdSpace accepted).1 calls
  obtain ⟨there, waiting, arrives⟩ :
      ((finalHub start steps).conn? [9] 2).isSome = true ∧
      ((finalHub start steps).conn? [9] 1).map (·.out.envelopes.length) = some 0 ∧
      ((finalHub start steps).receive .stored 2
        (.of (.envelope connectorCommand))).toOption.any (fun received =>
          decide ((received.1.conn? [9] 1).map (·.out.envelopes.length) = some 1)) = true :=
    holds_of_check ran (by decide +kernel)
  rw [reached.finalHub_eq] at there waiting arrives
  obtain ⟨c, live⟩ := Option.isSome_iff_exists.mp there
  obtain ⟨hub', actions, received, settled, -⟩ := direct_never_lost_silently {} 7 0 _
    accepted steps hub reached [9] 2 c live connectorCommand [1] rfl (Or.inl rfl)
    (by decide) (by decide) .stored
  refine ⟨start, steps, hub, c, hub', actions, accepted, ran, reached, live, received,
    settled.resolve_right fun undelivered => ?_⟩
  have arrived : ((hub', actions).1.conn? [9] 1).map (·.out.envelopes.length) = some 1 :=
    holds_of_check received arrives
  obtain ⟨after, found, one⟩ := Option.map_eq_some_iff.mp arrived
  obtain ⟨before, foundBefore, same⟩ := undelivered.nowhere [9] 1 after found
  rw [foundBefore, Option.map_some, Option.some.injEq] at waiting
  rw [same, waiting] at one
  cases one

end WindowMlHub
