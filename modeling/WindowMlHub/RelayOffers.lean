import WindowMlHub.RelayAccountEvents

/-!
# Offering frames to connections

`enqueue` and the fan-out of `publish` push to one connection after another; a
connection that takes the frame is woken unless it already is, and one that does
not is put on the list of those to close.  `Offered` is the joint effect on all
of them, which does not depend on the order.
-/

namespace WindowMlHub

open CheckedEvaluation HashTables

namespace Conn

/-- A connection after a push. -/
def settled (conn : Conn) (pushed : Outbound × Pushed) : Conn :=
  { conn with out := pushed.1, armed := conn.armed || pushed.2.isOk }

variable (conn : Conn) (id : ConnId) (pushed : Outbound × Pushed)
  (fx : Effects)

theorem settle_fst : (conn.settle id pushed fx).1 = conn.settled pushed := by
  unfold settle settled
  rcases pushed with ⟨out, _ | _⟩
  · simp [Except.isOk, Except.toBool]
  · cases armed : conn.armed <;>
      simp [arm, Except.isOk, Except.toBool]

theorem settle_close :
    (conn.settle id pushed fx).2.close =
      if pushed.2.isOk then fx.close else (id, fellBehind) :: fx.close := by
  unfold settle
  rcases pushed with ⟨out, _ | _⟩
  · simp [Except.isOk, Except.toBool, Effects.closing]
  · cases armed : conn.armed
    · by_cases awake : id ∈ fx.wake <;>
        simp [arm, Except.isOk, Except.toBool, Effects.wakeUp, awake]
    · simp [arm, Except.isOk, Except.toBool]

theorem mem_settle_wake {other : ConnId} :
    other ∈ (conn.settle id pushed fx).2.wake ↔
      other ∈ fx.wake ∨
        (other = id ∧ conn.armed = false ∧ pushed.2.isOk = true) := by
  unfold settle
  rcases pushed with ⟨out, _ | _⟩
  · simp [Except.isOk, Except.toBool, Effects.closing]
  · cases armed : conn.armed
    · by_cases awake : id ∈ fx.wake
      · simp only [arm, Except.isOk, Except.toBool, Effects.wakeUp,
          awake, if_true, and_true, Bool.false_eq_true, if_false]
        constructor
        · exact Or.inl
        · rintro (old | rfl)
          · exact old
          · exact awake
      · simp [arm, Except.isOk, Except.toBool, Effects.wakeUp, awake]
    · simp [arm, Except.isOk, Except.toBool]

theorem settle_wake_nodup (nodup : fx.wake.Nodup) :
    (conn.settle id pushed fx).2.wake.Nodup := by
  unfold settle
  rcases pushed with ⟨out, _ | _⟩
  · exact nodup
  · cases armed : conn.armed
    · by_cases awake : id ∈ fx.wake
      · simpa [arm, Effects.wakeUp, awake] using nodup
      · simp only [arm, Effects.wakeUp, awake, Bool.false_eq_true,
          if_false]
        exact List.nodup_append.mpr ⟨nodup, by simp, by
          rintro old member new single rfl
          exact awake (List.mem_singleton.mp single ▸ member)⟩
    · simpa [arm] using nodup

end Conn

/-- Every listed connection has been pushed to and settled. -/
structure Offered (push : Conn → Outbound × Pushed) (ids : List ConnId)
    (conns : HashMap ConnId Conn) (fx : Effects)
    (conns' : HashMap ConnId Conn) (fx' : Effects) : Prop where
  lookup_eq : ∀ id, conns'.lookup id = (conns.lookup id).map fun c =>
    if id ∈ ids then c.settled (push c) else c
  close_iff : ∀ id frame, (id, frame) ∈ fx'.close ↔
    (id, frame) ∈ fx.close ∨ frame = fellBehind ∧ id ∈ ids ∧
      ∃ c, conns.lookup id = some c ∧ (push c).2.isOk = false
  wake_iff : ∀ id, id ∈ fx'.wake ↔ id ∈ fx.wake ∨ id ∈ ids ∧
    ∃ c, conns.lookup id = some c ∧ c.armed = false ∧
      (push c).2.isOk = true
  wake_nodup : fx.wake.Nodup → fx'.wake.Nodup
  close_length : fx'.close.length ≤ fx.close.length + ids.length

namespace Offered

variable {push : Conn → Outbound × Pushed} {ids rest : List ConnId}
  {conns conns' : HashMap ConnId Conn} {fx fx' : Effects} {id : ConnId}
  {c : Conn}

theorem nil (push : Conn → Outbound × Pushed) (conns : HashMap ConnId Conn)
    (fx : Effects) : Offered push [] conns fx conns fx where
  lookup_eq id := by simp
  close_iff id frame := by simp
  wake_iff id := by simp
  wake_nodup nodup := nodup
  close_length := by simp

/-- A connection that is not there is passed over. -/
theorem skip (absent : conns.lookup id = none)
    (offered : Offered push rest conns fx conns' fx') :
    Offered push (id :: rest) conns fx conns' fx' where
  lookup_eq other := by
    rw [offered.lookup_eq]
    by_cases same : other = id
    · subst same
      simp [absent]
    · simp [same]
  close_iff other frame := by
    rw [offered.close_iff]
    by_cases same : other = id
    · subst same
      simp [absent]
    · simp [same]
  wake_iff other := by
    rw [offered.wake_iff]
    by_cases same : other = id
    · subst same
      simp [absent]
    · simp [same]
  wake_nodup := offered.wake_nodup
  close_length := by
    have := offered.close_length
    simp only [List.length_cons]
    omega

theorem cons (found : conns.lookup id = some c) (new : id ∉ rest)
    (offered : Offered push rest (conns.insert id (c.settled (push c)))
      (c.settle id (push c) fx).2 conns' fx') :
    Offered push (id :: rest) conns fx conns' fx' where
  lookup_eq other := by
    rw [offered.lookup_eq, HashMap.lookup_insert_eq]
    by_cases same : other = id
    · subst same
      simp [new, found]
    · simp [same]
  close_iff other frame := by
    rw [offered.close_iff, HashMap.lookup_insert_eq, Conn.settle_close]
    by_cases same : other = id
    · subst same
      cases accepted : (push c).2.isOk
      · simp only [Bool.false_eq_true, if_false, List.mem_cons,
          Prod.mk.injEq, true_and, new, false_and, and_false, or_false,
          found, Option.some.injEq, exists_eq_left', accepted,
          and_true]
        exact or_comm
      · simp [new, found, accepted]
    · cases accepted : (push c).2.isOk <;> simp [same]
  wake_iff other := by
    rw [offered.wake_iff, HashMap.lookup_insert_eq, Conn.mem_settle_wake]
    by_cases same : other = id
    · subst same
      simp [new, found]
    · simp [same]
  wake_nodup nodup := offered.wake_nodup
    (c.settle_wake_nodup id (push c) fx nodup)
  close_length := by
    have bound := offered.close_length
    rw [Conn.settle_close] at bound
    simp only [List.length_cons]
    split at bound
    · omega
    · simp only [List.length_cons] at bound
      omega

theorem mem_iff (offered : Offered push ids conns fx conns' fx')
    (id : ConnId) : id ∈ conns' ↔ id ∈ conns := by
  rw [← AList.lookup_isSome, ← AList.lookup_isSome, offered.lookup_eq]
  simp

theorem same (offered : Offered push ids conns fx conns' fx')
    (id : ConnId) :
    (conns'.lookup id).map (fun c => (c.principal, c.subs)) =
      (conns.lookup id).map (fun c => (c.principal, c.subs)) := by
  rw [offered.lookup_eq]
  cases conns.lookup id with
  | none => rfl
  | some c => by_cases member : id ∈ ids <;> simp [member, Conn.settled]

theorem queues [Codec] (offered : Offered push ids conns fx conns' fx')
    (queuesOk : ∀ {id c}, conns.lookup id = some c → c.out.Ok)
    (pushOk : ∀ {c : Conn}, c.out.Ok → (push c).1.Ok) :
    ∀ {id c}, conns'.lookup id = some c → c.out.Ok := by
  intro id c found
  rw [offered.lookup_eq] at found
  obtain ⟨old, oldFound, rfl⟩ := Option.map_eq_some_iff.mp found
  by_cases member : id ∈ ids
  · simpa [member, Conn.settled] using pushOk (queuesOk oldFound)
  · simpa [member] using queuesOk oldFound

theorem doomed_iff (offered : Offered push ids conns fx conns' fx')
    (id : ConnId) : Doomed fx' id ↔ Doomed fx id ∨ id ∈ ids ∧
      ∃ c, conns.lookup id = some c ∧ (push c).2.isOk = false := by
  constructor
  · rintro ⟨frame, member⟩
    rcases (offered.close_iff id frame).mp member with old | ⟨_, failed⟩
    · exact Or.inl ⟨frame, old⟩
    · exact Or.inr failed
  · rintro (⟨frame, old⟩ | failed)
    · exact ⟨frame, (offered.close_iff id frame).mpr (Or.inl old)⟩
    · exact ⟨fellBehind,
        (offered.close_iff id fellBehind).mpr (Or.inr ⟨rfl, failed⟩)⟩

theorem wake_live (offered : Offered push ids conns fx conns' fx') :
    ∀ id ∈ fx'.wake, id ∈ fx.wake ∨ id ∈ conns' := by
  intro id member
  rcases (offered.wake_iff id).mp member with old | ⟨_, c, found, _⟩
  · exact Or.inl old
  · exact Or.inr ((offered.mem_iff id).mpr (HashMap.mem_of_lookup found))

theorem close_known (offered : Offered push ids conns fx conns' fx') :
    ∀ id, Doomed fx' id → Doomed fx id ∨ id ∈ conns := by
  intro id doomed
  rcases (offered.doomed_iff id).mp doomed with old | ⟨_, c, found, _⟩
  · exact Or.inl old
  · exact Or.inr (HashMap.mem_of_lookup found)

/-- A connection that stays keeps its place under an event whose one operation
for the listed connections is the push. -/
theorem kept [Codec] {limits : Limits} (event : Event)
    (offered : Offered push ids conns fx conns' fx') (op : QueueOp)
    (found : conns.lookup id = some c)
    (subscribes : ∀ before key, event.Subscribes id before key ↔ before key)
    (opsEq : event.ops id c = if id ∈ ids then [op] else [])
    (isPush : op.pushes = true)
    (performed : (push c).2 = .ok () →
      Perform limits c.out op (push c).1) :
    ∃ c', conns'.lookup id = some c' ∧
      Kept limits event id c c' fx fx' := by
  have foundAfter := offered.lookup_eq id
  simp only [found, Option.map_some] at foundAfter
  refine ⟨_, foundAfter, ?_⟩
  by_cases member : id ∈ ids
  · rw [if_pos member] at opsEq ⊢
    refine ⟨rfl, rfl, fun key => (subscribes _ key).symm, ?_⟩
    cases answer : (push c).2 with
    | error slow =>
        left
        refine (offered.doomed_iff id).mpr (Or.inr ⟨member, c, found, ?_⟩)
        simp [answer, Except.isOk, Except.toBool]
    | ok _ =>
        by_cases doomed : Doomed fx id
        · exact Or.inl ((offered.doomed_iff id).mpr (Or.inl doomed))
        · refine Or.inr ⟨doomed, ?_, ?_, ?_⟩
          · rw [opsEq]
            exact .next (performed answer) (.done _)
          · simp [opsEq, isPush, Conn.settled, answer, Except.isOk,
              Except.toBool]
          · rw [offered.wake_iff]
            simp [opsEq, isPush, member, found, answer, Except.isOk,
              Except.toBool]
  · rw [if_neg member] at opsEq ⊢
    refine ⟨rfl, rfl, fun key => (subscribes _ key).symm, ?_⟩
    by_cases doomed : Doomed fx id
    · exact Or.inl ((offered.doomed_iff id).mpr (Or.inl doomed))
    · refine Or.inr ⟨doomed, ?_, ?_, ?_⟩
      · rw [opsEq]
        exact .done _
      · simp [opsEq]
      · rw [offered.wake_iff]
        simp [opsEq, member]

end Offered

/-- The hub is as before, except that the record of one account is now this.
The publish clock and the epoch counter may have moved. -/
structure Hub.Within (hub : Hub) (account : AccountId) (acct : Account)
    (hub' : Hub) : Prop where
  limits_eq : hub'.limits = hub.limits
  connAccount_eq : hub'.connAccount = hub.connAccount
  nextConn_eq : hub'.nextConn = hub.nextConn
  others : ∀ other, other ≠ account →
    hub'.accounts.lookup other = hub.accounts.lookup other
  record : hub'.accounts.lookup account = some acct

namespace Hub

variable {hub hub' hub'' : Hub} {account : AccountId} {acct acct' : Account}

theorem Within.refl (record : hub.accounts.lookup account = some acct) :
    hub.Within account acct hub :=
  ⟨rfl, rfl, rfl, fun _ _ => rfl, record⟩

theorem Within.trans (first : hub.Within account acct hub')
    (second : hub'.Within account acct' hub'') :
    hub.Within account acct' hub'' :=
  ⟨second.limits_eq.trans first.limits_eq,
    second.connAccount_eq.trans first.connAccount_eq,
    second.nextConn_eq.trans first.nextConn_eq,
    fun other differs =>
      (second.others other differs).trans (first.others other differs),
    second.record⟩

theorem within_setAccount (hub : Hub) (account : AccountId)
    (acct : Account) : hub.Within account acct (hub.setAccount account acct) :=
  ⟨rfl, rfl, rfl, fun other differs => by
      simp [setAccount, AList.lookup_insert_ne differs],
    by simp [setAccount]⟩

variable [Codec] {frame : Frame} {ids : List ConnId} {fx : Effects}

theorem enqueueAll_spec (record : hub.accounts.lookup account = some acct)
    (frame : Frame) (nodup : ids.Nodup) (fx : Effects) :
    ∃ hub' conns' fx', enqueueAll account frame ids hub fx = (hub', fx') ∧
      Offered (fun c => c.out.pushFrame frame hub.limits) ids acct.conns fx
        conns' fx' ∧
      hub.Within account { acct with conns := conns' } hub' := by
  induction ids generalizing hub acct fx with
  | nil => exact ⟨hub, acct.conns, fx, rfl, .nil _ _ _, .refl record⟩
  | cons id rest ih =>
      obtain ⟨new, restNodup⟩ := List.nodup_cons.mp nodup
      unfold enqueueAll enqueue
      cases found : acct.conns.lookup id with
      | none =>
          obtain ⟨hub', conns', fx', ran, offered, within⟩ :=
            ih record restNodup fx
          exact ⟨hub', conns', fx', by simpa [record, found] using ran,
            offered.skip found, within⟩
      | some c =>
          let pushed := c.out.pushFrame frame hub.limits
          have inserted := within_setAccount hub account
            { acct with conns := acct.conns.insert id (c.settled pushed) }
          obtain ⟨hub', conns', fx', ran, offered, within⟩ :=
            ih inserted.record restNodup (c.settle id pushed fx).2
          rw [inserted.limits_eq] at offered
          refine ⟨hub', conns', fx', ?_, .cons found new offered,
            inserted.trans within⟩
          simpa [record, found, Conn.settle_fst, pushed] using ran

theorem enqueue_eq_enqueueAll (hub : Hub) (account : AccountId)
    (id : ConnId) (frame : Frame) (fx : Effects) :
    hub.enqueue account id frame fx =
      enqueueAll account frame [id] hub fx :=
  rfl

end Hub

section Acting

variable [Codec] {limits : Limits} {acct acct' : Account} {fx fx' : Effects}
  {key : StreamKey}

omit [Codec] in
theorem Account.ring_kept_of_eq (same : acct'.ring? key = acct.ring? key) :
    (acct'.ring? key = none ∧
        (acct.ring? key = none ∨ acct.Unheard key)) ∨
      ∃ ring ring', acct.ring? key = some ring ∧
        acct'.ring? key = some ring' ∧ ring.Trimmed ring' := by
  cases found : acct.ring? key with
  | none => exact Or.inl ⟨same.trans found, Or.inl rfl⟩
  | some ring =>
      exact Or.inr ⟨ring, ring, rfl, same.trans found, .refl ring⟩

theorem Kept.refl {event : Event} {id : ConnId} {c : Conn}
    (nothing : event.ops id c = [])
    (subscribes : ∀ key, event.Subscribes id (· ∈ c.subs) key ↔ key ∈ c.subs)
    (same : Doomed fx' id ∨
      ¬ Doomed fx id ∧ (id ∈ fx'.wake ↔ id ∈ fx.wake)) :
    Kept limits event id c c fx fx' := by
  refine ⟨rfl, rfl, fun key => (subscribes key).symm, ?_⟩
  rcases same with doomed | ⟨spared, wake⟩
  · exact Or.inl doomed
  · exact Or.inr ⟨spared, by rw [nothing]; exact .done _, by simp [nothing],
      by simpa [nothing] using wake⟩

omit [Codec] in
theorem doomed_or_spared (fx : Effects) (id : ConnId) :
    Doomed fx id ∨ ¬ Doomed fx id ∧ (id ∈ fx.wake ↔ id ∈ fx.wake) := by
  by_cases doomed : Doomed fx id
  · exact Or.inl doomed
  · exact Or.inr ⟨doomed, Iff.rfl⟩

omit [Codec] in
theorem doomed_or_spared_closing (fx : Effects) (conn id : ConnId)
    (frame : Frame) :
    Doomed (fx.closing conn frame) id ∨
      ¬ Doomed fx id ∧ (id ∈ (fx.closing conn frame).wake ↔ id ∈ fx.wake) := by
  rcases doomed_or_spared fx id with ⟨sent, old⟩ | spared
  · exact Or.inl ⟨sent, List.mem_cons_of_mem _ old⟩
  · exact Or.inr spared

/-- Changing streams nobody listens to, and the work budget, is quiet. -/
theorem act_quiet (conns : acct'.conns = acct.conns)
    (online : acct'.online = acct.online)
    (rings : ∀ key, (acct'.ring? key = none ∧
        (acct.ring? key = none ∨ acct.Unheard key)) ∨
      ∃ ring ring', acct.ring? key = some ring ∧
        acct'.ring? key = some ring' ∧ ring.Trimmed ring') :
    Act limits acct fx .quiet acct' fx where
  kept {id c} found _ :=
    ⟨c, conns ▸ found, .refl rfl (fun _ => Iff.rfl) (doomed_or_spared fx id)⟩
  conns_new found := Or.inl (HashMap.mem_of_lookup (conns ▸ found))
  joined_new absurdity := by cases absurdity
  left_gone absurdity := by cases absurdity
  online_eq principal := by rw [online]; rfl
  ring_kept key _ := rings key
  ring_published absurdity := by cases absurdity
  ring_subscribed absurdity := by cases absurdity
  wake_live id member := Or.inl member
  wake_nodup nodup := nodup
  close_known id doomed := Or.inl doomed

/-- Putting a connection on the list of those to close is quiet. -/
theorem act_doom {id : ConnId} (frame : Frame) (member : id ∈ acct.conns) :
    Act limits acct fx .quiet acct (fx.closing id frame) where
  kept {other c} found _ :=
    ⟨c, found, .refl rfl (fun _ => Iff.rfl)
      (doomed_or_spared_closing fx id other frame)⟩
  conns_new found := Or.inl (HashMap.mem_of_lookup found)
  joined_new absurdity := by cases absurdity
  left_gone absurdity := by cases absurdity
  online_eq principal := rfl
  ring_kept key _ := Account.ring_kept_of_eq rfl
  ring_published absurdity := by cases absurdity
  ring_subscribed absurdity := by cases absurdity
  wake_live id member := Or.inl member
  wake_nodup nodup := nodup
  close_known other := by
    rintro ⟨sent, listed⟩
    rcases List.mem_cons.mp listed with new | old
    · obtain ⟨rfl, rfl⟩ := Prod.mk.inj new
      exact Or.inr member
    · exact Or.inl ⟨sent, old⟩

/-- Offering a frame to one connection. -/
theorem act_frame {id : ConnId} {frame : Frame}
    {conns' : HashMap ConnId Conn}
    (offered : Offered (fun c => c.out.pushFrame frame limits) [id]
      acct.conns fx conns' fx') :
    Act limits acct fx (.frame id frame) { acct with conns := conns' } fx' where
  kept {other c} found _ := by
    refine offered.kept _ (.frame frame) found (fun _ _ => Iff.rfl)
      (by simp [Event.ops]) rfl ?_
    intro accepted
    exact .frame (Prod.ext rfl accepted)
  conns_new found :=
    Or.inl ((offered.mem_iff _).mp (HashMap.mem_of_lookup found))
  joined_new absurdity := by cases absurdity
  left_gone absurdity := by cases absurdity
  online_eq principal := rfl
  ring_kept key _ := Account.ring_kept_of_eq rfl
  ring_published absurdity := by cases absurdity
  ring_subscribed absurdity := by cases absurdity
  wake_live := offered.wake_live
  wake_nodup := offered.wake_nodup
  close_known := offered.close_known

/-- A part of a call that works on one account's record: it leaves the record
in good order, having gone through these events. -/
structure Moves (account : AccountId) (hub : Hub) (acct : Account)
    (fx : Effects) (events : List Event) (hub' : Hub) (acct' : Account)
    (fx' : Effects) : Prop where
  within : hub.Within account acct' hub'
  ok : acct'.Ok hub.limits
  tidy : acct'.Tidy
  acts : Acts hub.limits acct fx events acct' fx'

namespace Moves

variable {account : AccountId} {hub hub' hub'' : Hub} {acct'' : Account}
  {fx'' : Effects} {events later : List Event}

theorem refl (record : hub.accounts.lookup account = some acct)
    (ok : acct.Ok hub.limits) (tidy : acct.Tidy) (fx : Effects) :
    Moves account hub acct fx [] hub acct fx :=
  ⟨.refl record, ok, tidy, .done acct fx⟩

theorem trans (first : Moves account hub acct fx events hub' acct' fx')
    (second : Moves account hub' acct' fx' later hub'' acct'' fx'') :
    Moves account hub acct fx (events ++ later) hub'' acct'' fx'' := by
  obtain ⟨within, ok, tidy, acts⟩ := second
  rw [first.within.limits_eq] at ok acts
  exact ⟨first.within.trans within, ok, tidy, first.acts.trans acts⟩

theorem doom (record : hub.accounts.lookup account = some acct)
    (ok : acct.Ok hub.limits) (tidy : acct.Tidy) {id : ConnId}
    (member : id ∈ acct.conns) (fx : Effects) (frame : Frame) :
    Moves account hub acct fx [] hub acct (fx.closing id frame) :=
  ⟨.refl record, ok, tidy, .single_quiet (act_doom frame member)⟩

end Moves

theorem Account.Ok.offered {frame : Frame} {ids : List ConnId}
    {conns' : HashMap ConnId Conn} (ok : acct.Ok limits)
    (offered : Offered (fun c => c.out.pushFrame frame limits) ids
      acct.conns fx conns' fx') :
    ({ acct with conns := conns' } : Account).Ok limits :=
  ok.with_conns offered.same
    (offered.queues ok.queue_ok fun queueOk => queueOk.pushFrame frame limits)

theorem Hub.enqueue_spec {account : AccountId} {hub : Hub}
    (record : hub.accounts.lookup account = some acct)
    (ok : acct.Ok hub.limits) (tidy : acct.Tidy) (id : ConnId)
    (frame : Frame) (fx : Effects) :
    ∃ hub' acct' fx', hub.enqueue account id frame fx = (hub', fx') ∧
      Moves account hub acct fx [.frame id frame] hub' acct' fx' := by
  obtain ⟨hub', conns', fx', ran, offered, within⟩ :=
    enqueueAll_spec record frame (List.nodup_singleton id) fx
  exact ⟨hub', _, fx', ran, within, ok.offered offered, tidy,
    .single (act_frame offered)⟩

end Acting

section Publishing

variable [Codec] {queue : Outbound}

/-- What a well-formed queue answers to a published entry. -/
def pushEntry (limits : Limits) (key : StreamKey) (kind : Kind) (epoch : Nat)
    (entry : Entry) (queue : Outbound) : Outbound × Pushed :=
  match queue.pushPublished key kind epoch entry limits with
  | .ok pushed => pushed
  | .error _ => (queue, .error ⟨⟩)

theorem pushEntry_eq (limits : Limits) (key : StreamKey) (kind : Kind)
    (epoch : Nat) (entry : Entry) (ok : queue.Ok) :
    queue.pushPublished key kind epoch entry limits =
        .ok (pushEntry limits key kind epoch entry queue) ∧
      (pushEntry limits key kind epoch entry queue).1.Ok := by
  obtain ⟨_, _, result, ran, resultOk, _⟩ :=
    Outbound.pushPublished_spec ok key kind epoch entry limits
  rw [pushEntry, ran]
  exact ⟨rfl, resultOk⟩

theorem fanOut_spec (limits : Limits) (key : StreamKey) (kind : Kind)
    (epoch : Nat) (entry : Entry) {ids : List ConnId} (nodup : ids.Nodup)
    (conns : HashMap ConnId Conn)
    (queues : ∀ {id c}, conns.lookup id = some c → c.out.Ok) (fx : Effects) :
    ∃ conns' fx',
      fanOut limits key kind epoch entry ids conns fx = .ok (conns', fx') ∧
      Offered (fun c => pushEntry limits key kind epoch entry c.out) ids
        conns fx conns' fx' := by
  induction ids generalizing conns fx with
  | nil => exact ⟨conns, fx, rfl, .nil _ _ _⟩
  | cons id rest ih =>
      obtain ⟨new, restNodup⟩ := List.nodup_cons.mp nodup
      unfold fanOut
      cases found : conns.lookup id with
      | none =>
          obtain ⟨conns', fx', ran, offered⟩ := ih restNodup conns queues fx
          exact ⟨conns', fx', ran, offered.skip found⟩
      | some c =>
          let pushed := pushEntry limits key kind epoch entry c.out
          obtain ⟨pushRan, pushOk⟩ :=
            pushEntry_eq limits key kind epoch entry (queues found)
          have nextQueues : ∀ {other : ConnId} {d : Conn},
              (conns.insert id (c.settled pushed)).lookup other = some d →
                d.out.Ok := by
            intro other d otherFound
            rw [HashMap.lookup_insert_eq] at otherFound
            split at otherFound
            · cases otherFound
              exact pushOk
            · exact queues otherFound
          obtain ⟨conns', fx', ran, offered⟩ := ih restNodup
            (conns.insert id (c.settled pushed)) nextQueues
            (c.settle id pushed fx).2
          refine ⟨conns', fx', ?_, .cons found new offered⟩
          simp only [pushRan, ok_bind, Conn.settle_fst]
          exact ran

end Publishing

end WindowMlHub
