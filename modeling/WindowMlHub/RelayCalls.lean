import WindowMlHub.RelayAdmission

/-!
# The six calls

The relay's whole interface as one type of calls and one type of replies, and
what each call does: it leaves the hub alone because it does not know the
connection, or it takes from one queue, or it goes through the events of one
account.  From a hub in good order no call panics, and the hub is in good order
afterwards.
-/

namespace WindowMlHub

open CheckedEvaluation HashTables

/-- A call of the relay's interface, with its arguments. -/
inductive Call
  | connect (account : AccountId) (hello : Hello) (nowMs monoMs : Nat)
      (revoker : Revoker)
  | receive (conn : ConnId) (frame : Frame)
  | close (conn : ConnId) (frame : Option Frame)
  | deliver (conn : ConnId) (frame : Frame)
  | charge (conn : ConnId) (bytes nowMs : Nat)
  | takeOutbound (conn : ConnId) (budget : Nat)
  deriving DecidableEq

/-- What a call returned. -/
inductive Reply
  | refused (frame : Frame)
  | admitted (id : ConnId) (actions : List Action)
  | done (actions : List Action)
  | charged (wait : Nat) (actions : List Action)
  | taken (taken : Taken)
  deriving DecidableEq

namespace Reply

/-- The actions a call returned. -/
def actions : Reply → List Action
  | refused _ => []
  | admitted _ actions => actions
  | done actions => actions
  | charged _ actions => actions
  | taken _ => []

/-- The frames a call handed out. -/
def frames : Reply → List Frame
  | taken result => result.frames
  | _ => []

/-- How many connections a call admitted. -/
def admissions : Reply → Nat
  | admitted _ _ => 1
  | _ => 0

end Reply

namespace Call

/-- The connection a call is about. -/
def conn? : Call → Option ConnId
  | connect .. => none
  | receive conn _ => some conn
  | close conn _ => some conn
  | deliver conn _ => some conn
  | charge conn _ _ => some conn
  | takeOutbound conn _ => some conn

/-- The account a call is about. -/
def account? (hub : Hub) : Call → Option AccountId
  | connect account .. => some account
  | call => call.conn?.bind fun conn => hub.connAccount.lookup conn

end Call

/-- Make a call. -/
def Hub.apply [Codec] (order : HashOrder) (hub : Hub) :
    Call → Checked (Hub × Reply)
  | .connect account hello nowMs monoMs revoker => do
      match ← hub.connect order account hello nowMs monoMs revoker with
      | (hub, .error frame) => return (hub, .refused frame)
      | (hub, .ok (id, actions)) => return (hub, .admitted id actions)
  | .receive conn frame => do
      let (hub, actions) ← hub.receive order conn frame
      return (hub, .done actions)
  | .close conn frame => do
      let (hub, actions) ← hub.close order conn frame
      return (hub, .done actions)
  | .deliver conn frame => do
      let (hub, actions) ← hub.deliver order conn frame
      return (hub, .done actions)
  | .charge conn bytes nowMs => do
      let (hub, wait, actions) ← hub.charge order conn bytes nowMs
      return (hub, .charged wait actions)
  | .takeOutbound conn budget => do
      let (hub, taken) ← hub.takeOutbound conn budget
      return (hub, .taken taken)

/-- The events a call itself causes, before any doomed connection leaves. -/
inductive Heads [Codec] (order : HashOrder) (hub : Hub)
    (account : AccountId) (fx : Effects)
    (rings : StreamKey → Option Ring) : Call → Reply → List Event → Prop
  | refused {hello : Hello} {nowMs monoMs : Nat} {revoker : Revoker}
      {frame : Frame} :
      Heads order hub account fx rings
        (.connect account hello nowMs monoMs revoker) (.refused frame) []
  | joined {hello : Hello} {nowMs monoMs : Nat} {revoker : Revoker}
      {conn : Conn} {actions : List Action}
      (newcomer : hub.Newcomer order account hello conn) :
      Heads order hub account fx rings
        (.connect account hello nowMs monoMs revoker)
        (.admitted hub.nextConn actions)
        [.joined hub.nextConn conn (Role.ofInt hello.role)]
  | received {conn : ConnId} {c : Conn} {frame : Frame}
      {actions : List Action} {events : List Event}
      (found : (hub.record account).conns.lookup conn = some c)
      (routed : Routed hub.limits (hub.record account) rings conn
        c.principal fx frame events) :
      Heads order hub account fx rings (.receive conn frame) (.done actions) events
  | closing {conn : ConnId} {frame : Frame} {actions : List Action}
      (doomed : Doomed fx conn) :
      Heads order hub account fx rings (.close conn (some frame)) (.done actions) []
  | closed {conn : ConnId} {actions : List Action} {principal : Bytes}
      {role : Role} (asleep : conn ∉ fx.wake) :
      Heads order hub account fx rings (.close conn none) (.done actions)
        [.left conn principal role]
  | delivered {conn : ConnId} {frame : Frame} {actions : List Action} :
      Heads order hub account fx rings (.deliver conn frame) (.done actions)
        [.frame conn frame]
  | charged {conn : ConnId} {bytes nowMs wait : Nat}
      {actions : List Action} :
      Heads order hub account fx rings (.charge conn bytes nowMs)
        (.charged wait actions) []
  | throttled {conn : ConnId} {bytes nowMs wait : Nat}
      {actions : List Action} :
      Heads order hub account fx rings (.charge conn bytes nowMs)
        (.charged wait actions) [.frame conn Hub.throttledNotice]

/-- The call went through events of one account. -/
structure Acted [Codec] (order : HashOrder) (hub : Hub) (call : Call)
    (reply : Reply) (hub' : Hub) (account : AccountId) (head : List Event)
    (mid : Account) (fx : Effects) (left : List (ConnId × Frame))
    (wake : List ConnId) : Prop where
  about : call.account? hub = some account
  heads : Heads order hub account fx (hub'.ring? account) call reply head
  settles : hub.Settles account head mid fx left hub' wake
  actions_eq : reply.actions = Hub.actionsOf wake left
  frames_eq : reply.frames = []
  nextConn_eq : hub'.nextConn = hub.nextConn + reply.admissions

/-- The call took from the queue of one connection. -/
structure Took [Codec] (hub : Hub) (call : Call) (reply : Reply) (hub' : Hub)
    (account : AccountId) (conn : ConnId) (acct : Account) (c : Conn)
    (taken rest : List Item) : Prop where
  call_eq : ∃ budget, call = .takeOutbound conn budget
  known : hub.connAccount.lookup conn = some account
  found : hub.accounts.lookup account = some acct
  connFound : acct.conns.lookup conn = some c
  split : c.out.items = taken ++ rest
  some_taken : c.out.items ≠ [] → taken ≠ []
  reply_eq : reply = .taken
    ⟨(Outbound.handOut c.out.dropped taken).1, !rest.isEmpty⟩
  hub_eq : hub' = hub.setAccount account { acct with
    conns := acct.conns.insert conn { c with
      out := Outbound.counted rest (Outbound.handOut c.out.dropped taken).2
      armed := !rest.isEmpty } }

/-- What a call does to the hub. -/
inductive Effect [Codec] (order : HashOrder) (hub : Hub) (call : Call)
    (reply : Reply) (hub' : Hub) : Prop
  | idle (unknown : ∃ conn, call.conn? = some conn ∧
        conn ∉ hub.connAccount) (same : hub' = hub)
      (noActions : reply.actions = []) (noFrames : reply.frames = [])
      (noAdmission : reply.admissions = 0)
  | took (account : AccountId) (conn : ConnId) (acct : Account) (c : Conn)
      (taken rest : List Item)
      (took : Took hub call reply hub' account conn acct c taken rest)
  | acted (account : AccountId) (head : List Event) (mid : Account)
      (fx : Effects) (left : List (ConnId × Frame)) (wake : List ConnId)
      (acted : Acted order hub call reply hub' account head mid fx left wake)

namespace Hub

variable [Codec] {order : HashOrder} {hub : Hub}

theorem finishLoop_nobody (order : HashOrder) (hub : Hub) {fx : Effects}
    (nobody : fx.close = []) {fuel : Nat} (positive : 0 < fuel)
    (closed : List (ConnId × Frame)) :
    finishLoop order fuel hub fx closed = .ok (hub, fx, closed) := by
  obtain ⟨fuel, rfl⟩ := Nat.exists_eq_succ_of_ne_zero positive.ne'
  simp [finishLoop, nobody]

theorem close_unknown (order : HashOrder) {conn : ConnId}
    (unknown : conn ∉ hub.connAccount) (frame : Option Frame) :
    hub.close order conn frame = .ok (hub, []) := by
  have noAccount : hub.connAccount.lookup conn = none :=
    AList.lookup_eq_none.mpr unknown
  cases frame with
  | none =>
      simp [close, forget, noAccount, finish, finishLoop, actionsOf]
  | some frame =>
      have skipped : finishLoop order (1 + HashMap.len hub.connAccount *
          HashMap.len hub.connAccount) hub {} [] = .ok (hub, {}, []) :=
        finishLoop_nobody order hub rfl (by omega) []
      simp [close, Effects.closing, finish, finishLoop, unknown, skipped,
        actionsOf]

theorem moves_rate (hub : Hub) (account : AccountId) {acct : Account}
    (ok : acct.Ok hub.limits) (tidy : acct.Tidy) (fx : Effects)
    (rate : Bucket) :
    Moves account hub acct fx [] (hub.setAccount account { acct with rate })
      { acct with rate } fx :=
  ⟨hub.within_setAccount account _,
    ⟨ok.online_of_conn, ok.conn_of_online, ok.subs_iff, ok.subscriber_known,
      ok.key_eq, ok.queue_ok, ok.ring_ok, ok.ringBytes_eq⟩, tidy,
    .single_quiet (act_quiet rfl rfl
      fun _ => Account.ring_kept_of_eq rfl)⟩

theorem Ok.with_rate {account : AccountId} {acct : Account} (ok : hub.Ok)
    (found : hub.accounts.lookup account = some acct) (rate : Bucket) :
    (hub.setAccount account { acct with rate }).Ok := by
  have inhabited : (∃ id, id ∈ acct.conns) ∨
      ∃ key, key ∈ ({ acct with rate } : Account).streams :=
    ok.inhabited found
  exact ok.moves found inhabited (moves_rate hub account
    (ok.account_ok found) (ok.account_tidy found) {} rate) (by simp) (by simp)

/-- A call that works on the record of a known connection and then finishes. -/
theorem acted_of_moves (order : HashOrder) (ok : hub.Ok) {conn : ConnId}
    {account : AccountId} {acct acct' : Account} {c : Conn} {hub₁ : Hub}
    {fx : Effects} {head : List Event}
    (found : hub.accounts.lookup account = some acct)
    (connFound : acct.conns.lookup conn = some c)
    (moves : Moves account hub acct {} head hub₁ acct' fx)
    (noJoin : ∀ id c role, .joined id c role ∉ head)
    (noLeave : ∀ id principal role, .left id principal role ∉ head)
    (call : Call) (about : call.account? hub = some account)
    (replyOf : List Action → Reply)
    (replies : ∀ actions, (replyOf actions).actions = actions ∧
      (replyOf actions).frames = [] ∧ (replyOf actions).admissions = 0)
    (heads : ∀ actions,
      Heads order hub account fx acct'.ring? call (replyOf actions) head) :
    ∃ hub' left wake,
      hub₁.finish order fx = .ok (hub', actionsOf wake left) ∧ hub'.Ok ∧
      Acted order hub call (replyOf (actionsOf wake left)) hub' account head
        acct' fx left wake := by
  have ok₁ := ok.moves found
    (Or.inl ⟨conn, HashMap.mem_of_lookup connFound⟩) moves noJoin noLeave
  have acts : Acts hub.limits (hub.record account) {} head
      (hub₁.record account) fx := by
    rw [record_of_lookup found, record_of_lookup moves.within.record]
    exact moves.acts
  obtain ⟨hub', left, wake, ran, settles, nextEq⟩ := finish_settles order ok
    ok₁ moves.within.beside acts
    (fun id c role member => (noJoin id c role member).elim)
  rw [record_of_lookup moves.within.record] at settles
  obtain ⟨actionsEq, framesEq, admissionsEq⟩ :=
    replies (actionsOf wake left)
  exact ⟨hub', left, wake, ran, settles.ok, about,
    settles.ring?_eq ▸ heads _, settles, actionsEq, framesEq,
    by rw [nextEq, moves.within.nextConn_eq, admissionsEq, Nat.add_zero]⟩

omit [Codec] in
theorem done_replies (actions : List Action) :
    (Reply.done actions).actions = actions ∧
      (Reply.done actions).frames = [] ∧
        (Reply.done actions).admissions = 0 :=
  ⟨rfl, rfl, rfl⟩

/-- What the spec of a call says. -/
def Behaves (order : HashOrder) (hub : Hub) (call : Call) : Prop :=
  ∃ reply hub', hub.apply order call = .ok (hub', reply) ∧ hub'.Ok ∧
    Effect order hub call reply hub'

theorem deliver_spec (order : HashOrder) (ok : hub.Ok) (conn : ConnId)
    (frame : Frame) : Behaves order hub (.deliver conn frame) := by
  cases known : hub.connAccount.lookup conn with
  | none =>
      refine ⟨.done [], hub, by simp [apply, deliver, known], ok,
        .idle ⟨conn, rfl, AList.lookup_eq_none.mp known⟩ rfl rfl rfl rfl⟩
  | some account =>
      obtain ⟨acct, c, found, connFound⟩ := ok.exists_conn known
      obtain ⟨hub₁, acct', fx, enqueued, moves⟩ := hub.enqueue_spec found
        (ok.account_ok found) (ok.account_tidy found) conn frame {}
      obtain ⟨hub', left, wake, ran, ok', acted⟩ := acted_of_moves order ok
        found connFound moves (by simp) (by simp) (.deliver conn frame)
        (by simpa [Call.account?, Call.conn?] using known) .done done_replies
        (fun _ => .delivered)
      exact ⟨_, hub', by simp [apply, deliver, known, enqueued, ran], ok',
        .acted _ _ _ _ _ _ acted⟩

/-- Receiving a frame is routing it, and then seeing off whoever is to be closed. -/
theorem receive_acted (order : HashOrder) (ok : hub.Ok) {conn : ConnId}
    {account : AccountId} {acct acct₁ : Account} {c : Conn} {hub₁ : Hub}
    {fx : Effects} {events : List Event} {frame : Frame}
    (known : hub.connAccount.lookup conn = some account)
    (found : hub.accounts.lookup account = some acct)
    (connFound : acct.conns.lookup conn = some c)
    (routedRan : hub.route order account conn frame {} = .ok (hub₁, fx))
    (moves : Moves account hub acct {} events hub₁ acct₁ fx)
    (routed : Routed hub.limits acct acct₁.ring? conn c.principal fx frame events) :
    ∃ hub' mid left wake,
      hub.apply order (.receive conn frame) =
        .ok (hub', .done (actionsOf wake left)) ∧ hub'.Ok ∧
      Acted order hub (.receive conn frame) (.done (actionsOf wake left)) hub'
        account events mid fx left wake := by
  have charged := moves_rate hub₁ account
    (moves.within.limits_eq ▸ moves.ok) moves.tidy fx
    (acct₁.rate.spend (fx.queued * frameCostBytes))
  have whole := moves.trans charged
  rw [List.append_nil] at whole
  obtain ⟨noJoin, noLeave⟩ := routed.no_join
  obtain ⟨hub', left, wake, ran, ok', acted⟩ := acted_of_moves order ok
    found connFound whole noJoin noLeave (.receive conn frame)
    (by simpa [Call.account?, Call.conn?] using known) .done done_replies
    (fun _ => .received
      (by rw [record_of_lookup found]; exact connFound)
      (by rw [record_of_lookup found]; exact routed))
  refine ⟨hub', _, left, wake, ?_, ok', acted⟩
  simp [apply, receive, known, routedRan, chargeQueued,
    moves.within.record, ran]

theorem receive_spec (order : HashOrder) (ok : hub.Ok) (conn : ConnId)
    (frame : Frame) : Behaves order hub (.receive conn frame) := by
  cases known : hub.connAccount.lookup conn with
  | none =>
      refine ⟨.done [], hub, by simp [apply, receive, known], ok,
        .idle ⟨conn, rfl, AList.lookup_eq_none.mp known⟩ rfl rfl rfl rfl⟩
  | some account =>
      obtain ⟨acct, c, found, connFound⟩ := ok.exists_conn known
      obtain ⟨hub₁, acct₁, fx, events, routedRan, moves, routed⟩ :=
        hub.route_spec found (ok.account_ok found) (ok.account_tidy found)
          connFound order frame {}
      obtain ⟨hub', mid, left, wake, ran, ok', acted⟩ :=
        receive_acted order ok known found connFound routedRan moves routed
      exact ⟨_, hub', ran, ok', .acted _ _ _ _ _ _ acted⟩

/-- A throttled connection is told, or nothing happens. -/
theorem notify_spec {limits : Limits} {acct : Account} {conn : ConnId}
    {c : Conn} (ok : acct.Ok limits)
    (found : acct.conns.lookup conn = some c) (wait nowMs : Nat) :
    ∃ acct' fx events, notify limits acct conn wait nowMs = (acct', fx) ∧
      acct'.Ok limits ∧ acct'.streams = acct.streams ∧
      Acts limits acct {} events acct' fx ∧
      (events = [] ∨ events = [.frame conn throttledNotice]) := by
  unfold notify
  rw [found]
  simp only
  split
  · split
    · let told : Conn := { c with throttleNoticeMs := some nowMs }
      let noted : Account :=
        { acct with conns := acct.conns.insert conn told }
      have notedOk : noted.Ok limits := by
        refine ok.with_conns ?_ ?_
        · intro id
          rw [HashMap.lookup_insert_eq]
          split
          · rename_i same
            rw [same, found]
            rfl
          · rfl
        · intro id other otherFound
          rw [HashMap.lookup_insert_eq] at otherFound
          split at otherFound
          · cases otherFound
            have sameQueue := ok.queue_ok found
            exact sameQueue
          · exact ok.queue_ok otherFound
      have offered : Offered
          (fun c => c.out.pushFrame throttledNotice limits) [conn]
          noted.conns {}
          (noted.conns.insert conn
            (told.settled (told.out.pushFrame throttledNotice limits)))
          (told.settle conn (told.out.pushFrame throttledNotice limits)
            {}).2 :=
        .cons (AList.lookup_insert acct.conns) (by simp) (.nil _ _ _)
      have quiet : Act limits acct {} .quiet noted {} := by
        refine ⟨?_, ?_, by simp, by simp, fun _ => rfl,
          fun _ _ => Account.ring_kept_of_eq rfl, by simp, by simp, by simp,
          by simp, by simp [Doomed]⟩
        · intro id old oldFound _
          simp only [noted, HashMap.lookup_insert_eq]
          split
          · rename_i same
            subst same
            obtain rfl : c = old := by simpa [found] using oldFound
            exact ⟨told, rfl, rfl, rfl, fun _ => Iff.rfl, Or.inr
              ⟨by simp [Doomed], .done _, by simp [Event.ops, told],
                by simp [Event.ops]⟩⟩
          · exact ⟨old, oldFound, .refl rfl (fun _ => Iff.rfl)
              (doomed_or_spared _ id)⟩
        · intro id other otherFound
          have member := HashMap.mem_of_lookup otherFound
          rcases (AList.mem_insert _).mp member with rfl | old
          · exact Or.inl (HashMap.mem_of_lookup found)
          · exact Or.inl old
      refine ⟨_, _, [.frame conn throttledNotice], rfl, ?_, rfl, ?_,
        Or.inr rfl⟩
      · have settledOk := notedOk.offered offered
        simp only [noted, AList.insert_insert] at settledOk
        rw [Conn.settle_fst]
        exact settledOk
      · have told := act_frame offered
        simp only [noted, AList.insert_insert] at told
        rw [Conn.settle_fst]
        exact (Acts.single_quiet quiet).event told
    · exact ⟨acct, {}, [], rfl, ok, rfl, .done _ _, Or.inl rfl⟩
  · exact ⟨acct, {}, [], rfl, ok, rfl, .done _ _, Or.inl rfl⟩

theorem charge_spec (order : HashOrder) (ok : hub.Ok) (conn : ConnId)
    (bytes nowMs : Nat) : Behaves order hub (.charge conn bytes nowMs) := by
  cases known : hub.connAccount.lookup conn with
  | none =>
      refine ⟨.charged 0 [], hub, by simp [apply, charge, known], ok,
        .idle ⟨conn, rfl, AList.lookup_eq_none.mp known⟩ rfl rfl rfl rfl⟩
  | some account =>
      obtain ⟨acct, c, found, connFound⟩ := ok.exists_conn known
      let rate := (acct.rate.refill nowMs hub.limits.accountBytesPerSecond
        hub.limits.accountBurstBytes).spend bytes
      let wait := rate.waitMs hub.limits.accountBytesPerSecond
      have charged := moves_rate hub account (ok.account_ok found)
        (ok.account_tidy found) {} rate
      obtain ⟨acct', fx, events, notified, ok', streamsEq, acts, eventsEq⟩ :=
        notify_spec charged.ok connFound wait nowMs
      have moves : Moves account hub acct {} events
          (hub.setAccount account acct') acct' fx := by
        refine ⟨hub.within_setAccount account acct', ok', ?_,
          charged.acts.trans acts⟩
        intro key stream streamFound
        rw [streamsEq] at streamFound
        exact charged.tidy key stream streamFound
      have noJoin : ∀ id c role, .joined id c role ∉ events := by
        rcases eventsEq with rfl | rfl <;> simp
      have noLeave : ∀ id principal role,
          .left id principal role ∉ events := by
        rcases eventsEq with rfl | rfl <;> simp
      obtain ⟨hub', left, wake, ran, finalOk, acted⟩ := acted_of_moves order
        ok found connFound moves noJoin noLeave (.charge conn bytes nowMs)
        (by simpa [Call.account?, Call.conn?] using known) (.charged wait)
        (fun _ => ⟨rfl, rfl, rfl⟩)
        (fun _ => by
          rcases eventsEq with rfl | rfl
          · exact .charged
          · exact .throttled)
      refine ⟨_, hub', ?_, finalOk, .acted _ _ _ _ _ _ acted⟩
      simp only [rate, wait] at notified ⊢
      simp [apply, charge, known, found, notified, ran]

theorem close_spec (order : HashOrder) (ok : hub.Ok) (conn : ConnId)
    (frame : Option Frame) : Behaves order hub (.close conn frame) := by
  cases known : hub.connAccount.lookup conn with
  | none =>
      have unknown := AList.lookup_eq_none.mp known
      exact ⟨.done [], hub, by simp [apply, close_unknown order unknown], ok,
        .idle ⟨conn, rfl, unknown⟩ rfl rfl rfl rfl⟩
  | some account =>
      obtain ⟨acct, c, found, connFound⟩ := ok.exists_conn known
      have about : (Call.close conn frame).account? hub = some account := by
        simpa [Call.account?, Call.conn?] using known
      cases frame with
      | some frame =>
          have moves := Moves.doom found (ok.account_ok found)
            (ok.account_tidy found) (HashMap.mem_of_lookup connFound) {} frame
          obtain ⟨hub', left, wake, ran, ok', acted⟩ := acted_of_moves order
            ok found connFound moves (by simp) (by simp) _ about .done
            done_replies (fun _ => .closing ⟨frame, List.mem_cons_self⟩)
          exact ⟨_, hub', by simp [apply, close, ran], ok',
            .acted _ _ _ _ _ _ acted⟩
      | none =>
          obtain ⟨hub₁, fx, principal, role, forgotten, forgets, acts, asleep,
            _⟩ :=
            forget_spec order ok known
              (show ({} : Effects).wake = ({} : Effects).wake from rfl)
              (fun _ _ => Iff.rfl)
          obtain ⟨hub', left, wake, ran, settles, nextEq⟩ :=
            finish_settles order ok forgets.ok forgets.beside acts (by simp)
          refine ⟨.done (actionsOf wake left), hub',
            by simp [apply, close, forgotten, ran], settles.ok, .acted _ _ _ _ _ _
              ⟨about, .closed fun woken => by simpa using asleep woken,
                settles, rfl, rfl, ?_⟩⟩
          rw [nextEq, forgets.nextConn_eq]
          rfl

theorem takeOutbound_spec (order : HashOrder) (ok : hub.Ok) (conn : ConnId)
    (budget : Nat) : Behaves order hub (.takeOutbound conn budget) := by
  cases known : hub.connAccount.lookup conn with
  | none =>
      refine ⟨.taken {}, hub, by simp [apply, takeOutbound, known], ok,
        .idle ⟨conn, rfl, AList.lookup_eq_none.mp known⟩ rfl rfl rfl rfl⟩
  | some account =>
      obtain ⟨acct, c, found, connFound⟩ := ok.exists_conn known
      have acctOk := ok.account_ok found
      obtain ⟨taken, rest, split, ran, restOk, progress⟩ :=
        Outbound.take_spec (acctOk.queue_ok connFound) budget
      refine ⟨_, _, ?_, ?_, .took account conn acct c taken rest
        ⟨⟨budget, rfl⟩, known, found, connFound, split, progress, rfl, rfl⟩⟩
      · simp [apply, takeOutbound, known, found, connFound, ran,
          Outbound.counted]
      · refine ok.update (within_setAccount hub account _).beside ?_ ?_ ?_ ?_
        · intro acct' acctFound
          rw [(within_setAccount hub account _).record] at acctFound
          cases acctFound
          have tidy := ok.account_tidy found
          refine ⟨?_, tidy, Or.inl ⟨conn, by simp⟩⟩
          refine acctOk.with_conns ?_ ?_
          · intro id
            rw [HashMap.lookup_insert_eq]
            split
            · rename_i same
              rw [same, connFound]
              rfl
            · rfl
          · intro id other otherFound
            rw [HashMap.lookup_insert_eq] at otherFound
            split at otherFound
            · cases otherFound
              exact restOk
            · exact acctOk.queue_ok otherFound
        · intro id
          rw [record_of_lookup (within_setAccount hub account _).record,
            AList.mem_insert]
          change hub.connAccount.lookup id = some account ↔ _
          rw [← ok.mem_record_iff, record_of_lookup found]
          constructor
          · exact Or.inr
          · rintro (rfl | old)
            · exact HashMap.mem_of_lookup connFound
            · exact old
        · intro id other _
          rfl
        · exact ok.fresh

omit [Codec] in
/-- A hello that is not refused comes from a principal that is offline. -/
theorem offline_of_refuseHello {account : AccountId} {hello : Hello}
    (passed : hub.refuseHello account hello = none) :
    hello.principal ∉ (hub.record account).online := by
  unfold refuseHello at passed
  unfold record
  split at passed
  · cases passed
  split at passed
  · cases passed
  split at passed
  · cases passed
  cases found : hub.accounts.lookup account with
  | none => simp
  | some acct =>
      simp only [found] at passed
      split at passed
      · cases passed
      · rename_i offline
        exact offline

theorem connect_spec (order : HashOrder) (ok : hub.Ok) (account : AccountId)
    (hello : Hello) (nowMs monoMs : Nat) (revoker : Revoker) :
    Behaves order hub (.connect account hello nowMs monoMs revoker) := by
  have refused (frame : Frame) {hub₁ : Hub} {acct' : Account}
      (ok₁ : hub₁.Ok) (beside : hub.Beside account hub₁)
      (acts : Acts hub.limits (hub.record account) {} [] acct' {})
      (recordEq : hub₁.record account = acct')
      (nextEq : hub₁.nextConn = hub.nextConn) :
      Effect order hub (.connect account hello nowMs monoMs revoker)
        (.refused frame) hub₁ :=
    .acted account [] acct' {} [] [] ⟨rfl, .refused,
      ⟨ok₁, beside, acts, ⟨[], {}, recordEq ▸ .done _ _, .nil, rfl, rfl⟩,
        by rw [← recordEq]; rfl, by simp, by simp, by simp⟩, rfl, rfl,
      nextEq⟩
  cases passed : hub.refuseHello account hello with
  | some frame =>
      exact ⟨.refused frame, hub, by simp [apply, connect, passed], ok,
        refused frame ok (.refl account hub) (.done _ _) rfl rfl⟩
  | none =>
      have offline := offline_of_refuseHello passed
      cases found : hub.accounts.lookup account with
      | none =>
          obtain ⟨conn, hub', mid, fx, left, wake, ran, newcomer, settles,
            nextEq⟩ := connectChecked_spec order ok offline nowMs monoMs revoker
          exact ⟨.admitted hub.nextConn (actionsOf wake left), hub',
            by simp [apply, connect, passed, found, ran], settles.ok,
            .acted _ _ _ _ _ _
              ⟨rfl, .joined newcomer, settles, rfl, rfl, nextEq⟩⟩
      | some acct =>
          let rate := acct.rate.refill monoMs
            hub.limits.accountBytesPerSecond hub.limits.accountBurstBytes
          let hub₁ := hub.setAccount account { acct with rate }
          have moves : Moves account hub acct {} [] hub₁ { acct with rate }
              {} :=
            moves_rate hub account (ok.account_ok found)
              (ok.account_tidy found) {} rate
          have ok₁ : hub₁.Ok := ok.with_rate found rate
          have acts : Acts hub.limits (hub.record account) {} []
              { acct with rate } {} := by
            rw [record_of_lookup found]
            exact moves.acts
          have recordEq : hub₁.record account = { acct with rate } :=
            record_of_lookup moves.within.record
          by_cases exceeds : rate.waitMs hub.limits.accountBytesPerSecond >
              connectRefusedAboveMs
          · refine ⟨.refused (overRate
                (rate.waitMs hub.limits.accountBytesPerSecond)), hub₁, ?_, ok₁,
              refused _ ok₁ moves.within.beside acts recordEq rfl⟩
            simp only [rate] at exceeds
            simp [apply, connect, passed, found, exceeds, hub₁, rate]
          · have offline₁ : hello.principal ∉
                (hub₁.record account).online := by
              rw [record_of_lookup found] at offline
              rw [recordEq]
              exact offline
            obtain ⟨conn, hub', mid, fx, left, wake, ran, newcomer, settles,
              nextEq⟩ := connectChecked_spec order ok₁ offline₁ nowMs monoMs revoker
            have newcomer₀ : hub.Newcomer order account hello conn := by
              obtain ⟨welcome, queueEq⟩ := newcomer.queue_eq
              refine { newcomer with
                offline := offline, queue_eq := ⟨welcome, ?_⟩ }
              rw [recordEq] at queueEq
              rw [record_of_lookup found]
              exact queueEq
            have settles₀ : hub.Settles account
                [.joined hub.nextConn conn (Role.ofInt hello.role)]
                mid fx left hub' wake :=
              ⟨settles.ok, moves.within.beside.trans settles.beside,
                acts.trans (recordEq ▸ settles.head_acts),
                settles.tail_acts, settles.ring?_eq, settles.nodup,
                settles.left_known, settles.left_gone⟩
            refine ⟨.admitted hub.nextConn (actionsOf wake left), hub', ?_,
              settles.ok, .acted _ _ _ _ _ _
                ⟨rfl, .joined newcomer₀, settles₀, rfl, rfl, nextEq⟩⟩
            simp only [hub₁, rate] at ran exceeds
            simp [apply, connect, passed, found, exceeds, ran]

theorem apply_spec (order : HashOrder) (ok : hub.Ok) (call : Call) :
    Behaves order hub call := by
  cases call with
  | connect account hello nowMs monoMs revoker =>
      exact connect_spec order ok account hello nowMs monoMs revoker
  | receive conn frame => exact receive_spec order ok conn frame
  | close conn frame => exact close_spec order ok conn frame
  | deliver conn frame => exact deliver_spec order ok conn frame
  | charge conn bytes nowMs => exact charge_spec order ok conn bytes nowMs
  | takeOutbound conn budget => exact takeOutbound_spec order ok conn budget

end Hub

end WindowMlHub
