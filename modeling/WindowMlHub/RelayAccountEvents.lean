import WindowMlHub.RelayAccountInvariant

/-!
# What happens in an account during a call

A call is taken apart into events: a frame offered to one connection, an
envelope published on a stream, a subscription made or ended, a connection that
joins or leaves.  An event says for every connection which operations its queue
undergoes, so that what a connection goes on to receive can be read off the
events alone.

The relation `Act` is what one event does to the account's tables and to the
collected effects.  A connection whose push failed is doomed: it is on the list
of connections to close, and before the call returns it has left.
-/

namespace WindowMlHub

open CheckedEvaluation HashTables

/-- One operation on a queue. -/
inductive QueueOp
  | frame (frame : Frame)
  | published (key : StreamKey) (kind : Kind) (epoch : Nat) (entry : Entry)
  | purge (key : StreamKey)

/-- Does this operation put anything into the queue? -/
def QueueOp.pushes : QueueOp → Bool
  | .frame _ | .published _ _ _ _ => true
  | .purge _ => false

/-- A queue operation that did not fail. -/
inductive Perform [Codec] (limits : Limits) :
    Outbound → QueueOp → Outbound → Prop
  | frame {queue next : Outbound} {frame : Frame}
      (ran : queue.pushFrame frame limits = (next, .ok ())) :
      Perform limits queue (.frame frame) next
  | published {queue next : Outbound} {key : StreamKey} {kind : Kind}
      {epoch : Nat} {entry : Entry}
      (ran : queue.pushPublished key kind epoch entry limits =
        .ok (next, .ok ())) :
      Perform limits queue (.published key kind epoch entry) next
  | purge {queue next : Outbound} {key : StreamKey}
      (ran : queue.purgeStream key = .ok next) :
      Perform limits queue (.purge key) next

/-- Queue operations in turn, none of which failed. -/
inductive Performs [Codec] (limits : Limits) :
    Outbound → List QueueOp → Outbound → Prop
  | done (queue : Outbound) : Performs limits queue [] queue
  | next {queue middle final : Outbound} {op : QueueOp} {ops : List QueueOp}
      (first : Perform limits queue op middle)
      (rest : Performs limits middle ops final) :
      Performs limits queue (op :: ops) final

theorem Performs.append [Codec] {limits : Limits}
    {queue middle final : Outbound} {ops later : List QueueOp}
    (first : Performs limits queue ops middle)
    (second : Performs limits middle later final) :
    Performs limits queue (ops ++ later) final := by
  induction first with
  | done queue => exact second
  | next step _ ih => exact .next step (ih second)

theorem Performs.of_nil [Codec] {limits : Limits} {queue final : Outbound}
    (performed : Performs limits queue [] final) : final = queue := by
  cases performed
  rfl

theorem Performs.of_single [Codec] {limits : Limits} {queue final : Outbound}
    {op : QueueOp} (performed : Performs limits queue [op] final) :
    Perform limits queue op final := by
  cases performed with
  | next first rest =>
      rw [rest.of_nil]
      exact first

/-- One thing that happens in an account. -/
inductive Event
  | quiet
  /-- a frame is offered to one connection -/
  | frame (target : ConnId) (frame : Frame)
  /-- an envelope is stamped by a ring and offered to the subscribers -/
  | published (key : StreamKey) (ring : Ring) (env : Envelope)
  /-- a connection subscribes to a stream with this ring -/
  | subscribed (target : ConnId) (key : StreamKey) (since : Option Position)
      (ring : Option Ring)
  | unsubscribed (target : ConnId) (key : StreamKey)
  /-- a connection joins, and the others are told -/
  | joined (id : ConnId) (conn : Conn) (role : Role)
  /-- a connection leaves, and the others are told -/
  | left (id : ConnId) (principal : Bytes) (role : Role)

/-- What a subscriber is sent of a stream's history. -/
def backfillOps (ring : Option Ring) (key : StreamKey)
    (since : Option Position) : List QueueOp :=
  match ring with
  | some ring => (ring.backfill since).entries.map
      fun entry => .published key ring.kind ring.epoch entry
  | none => []

/-- The marker that ends a backfill. -/
def backfillMarker (ring : Option Ring) (key : StreamKey)
    (since : Option Position) : Backfilled :=
  match ring with
  | some ring =>
      ⟨some key.toRef, ring.epoch, ring.seq, (ring.backfill since).truncated⟩
  | none => ⟨some key.toRef, 0, 0,
      since.any fun position => decide (position.seq > 0)⟩

/-- The notice that a principal has come online. -/
def onlineNotice (conn : Conn) (role : Role) : Frame :=
  .of (.presence ⟨conn.principal, role.toInt, true, conn.chain⟩)

/-- The notice that a principal has gone. -/
def offlineNotice (principal : Bytes) (role : Role) : Frame :=
  .of (.presence ⟨principal, role.toInt, false, []⟩)

namespace Event

/-- The operations an event performs on one connection's queue. -/
def ops (id : ConnId) (conn : Conn) : Event → List QueueOp
  | .quiet => []
  | .frame target sent => if id = target then [.frame sent] else []
  | .published key ring env =>
      if key ∈ conn.subs then
        [.published key ring.kind ring.epoch (ring.stamp env)]
      else
        []
  | .subscribed target key since ring =>
      if id = target then
        .purge key :: (backfillOps ring key since ++
          [.frame (.of (.backfilled (backfillMarker ring key since)))])
      else
        []
  | .unsubscribed target key => if id = target then [.purge key] else []
  | .joined _ conn role => [.frame (onlineNotice conn role)]
  | .left _ principal role => [.frame (offlineNotice principal role)]

/-- A connection's subscriptions after an event. -/
def Subscribes (event : Event) (id : ConnId) (before : StreamKey → Prop)
    (key : StreamKey) : Prop :=
  match event with
  | .subscribed target newKey _ _ => before key ∨ (id = target ∧ key = newKey)
  | .unsubscribed target oldKey => before key ∧ ¬ (id = target ∧ key = oldKey)
  | _ => before key

/-- Who is online after an event. -/
def online (event : Event) (before : HashMap Bytes (ConnId × Role)) :
    HashMap Bytes (ConnId × Role) :=
  match event with
  | .joined id conn role => before.insert conn.principal (id, role)
  | .left _ principal _ => before.erase principal
  | _ => before

end Event

/-- The connection is on the list of those to close. -/
def Doomed (fx : Effects) (id : ConnId) : Prop :=
  ∃ frame, (id, frame) ∈ fx.close

/-- A ring that stamped one more envelope, and may have evicted old ones. -/
structure Ring.Advanced (env : Envelope) (before after : Ring) : Prop where
  kind_eq : after.kind = before.kind
  epoch_eq : after.epoch = before.epoch
  seq_eq : after.seq = before.seq + 1
  entries_suffix : after.entries <:+ before.entries ++ [before.stamp env]

/-- A ring that has never stamped anything. -/
structure Ring.Fresh (ring : Ring) : Prop where
  epoch_pos : 0 < ring.epoch
  epoch_le : ring.epoch ≤ 2 ^ 53 - 1
  seq_eq : ring.seq = 0
  entries_eq : ring.entries = []

/-- What an event does to a connection that stays.  Either it is doomed, or its
queue has undergone the event's operations, and it has been woken when these
found it asleep. -/
structure Kept [Codec] (limits : Limits) (event : Event) (id : ConnId)
    (before after : Conn) (fx fx' : Effects) : Prop where
  principal_eq : after.principal = before.principal
  chain_eq : after.chain = before.chain
  subs_iff : ∀ key, key ∈ after.subs ↔
    event.Subscribes id (· ∈ before.subs) key
  doomed_or : Doomed fx' id ∨
    ¬ Doomed fx id ∧
      Performs limits before.out (event.ops id before) after.out ∧
      after.armed = (before.armed ||
        (event.ops id before).any QueueOp.pushes) ∧
      (id ∈ fx'.wake ↔ id ∈ fx.wake ∨ (before.armed = false ∧
        (event.ops id before).any QueueOp.pushes = true))

/-- What one event does to an account and to the collected effects. -/
structure Act [Codec] (limits : Limits) (acct : Account) (fx : Effects)
    (event : Event) (acct' : Account) (fx' : Effects) : Prop where
  kept : ∀ {id c}, acct.conns.lookup id = some c →
    (∀ principal role, event ≠ .left id principal role) →
      ∃ c', acct'.conns.lookup id = some c' ∧
        Kept limits event id c c' fx fx'
  conns_new : ∀ {id c}, acct'.conns.lookup id = some c →
    id ∈ acct.conns ∨
      ∃ role, event = .joined id c role ∧ ¬ Doomed fx' id ∧ id ∈ fx'.wake
  joined_new : ∀ {id c role}, event = .joined id c role →
    id ∉ acct.conns ∧ acct'.conns.lookup id = some c
  left_gone : ∀ {id principal role}, event = .left id principal role →
    id ∉ acct'.conns ∧ (∃ c, acct.conns.lookup id = some c ∧
      c.principal = principal) ∧
        acct.online.lookup principal = some (id, role)
  online_eq : ∀ principal, acct'.online.lookup principal =
    (event.online acct.online).lookup principal
  ring_kept : ∀ key, (∀ ring env, event ≠ .published key ring env) →
    (acct'.ring? key = none ∧
        (acct.ring? key = none ∨ acct.Unheard key)) ∨
      ∃ ring ring', acct.ring? key = some ring ∧
        acct'.ring? key = some ring' ∧ ring.Trimmed ring'
  ring_published : ∀ {key ring env}, event = .published key ring env →
    (acct.ring? key = some ring ∨ acct.ring? key = none ∧ ring.Fresh) ∧
      ∃ ring', acct'.ring? key = some ring' ∧ ring.Advanced env ring'
  ring_subscribed : ∀ {target key since ring},
    event = .subscribed target key since ring →
      acct.ring? key = ring ∧ acct'.ring? key = ring
  wake_live : ∀ id ∈ fx'.wake, id ∈ fx.wake ∨ id ∈ acct'.conns
  wake_nodup : fx.wake.Nodup → fx'.wake.Nodup
  close_known : ∀ id, Doomed fx' id → Doomed fx id ∨ id ∈ acct.conns

/-- Events in turn.  What changes no connection, no ring and no effect but by
eviction is not recorded. -/
inductive Acts [Codec] (limits : Limits) : Account → Effects → List Event →
    Account → Effects → Prop
  | done (acct : Account) (fx : Effects) : Acts limits acct fx [] acct fx
  | quiet {acct acct' acct'' : Account} {fx fx' fx'' : Effects}
      {events : List Event} (acts : Acts limits acct fx events acct' fx')
      (act : Act limits acct' fx' .quiet acct'' fx'') :
      Acts limits acct fx events acct'' fx''
  | event {acct acct' acct'' : Account} {fx fx' fx'' : Effects}
      {events : List Event} {event : Event}
      (acts : Acts limits acct fx events acct' fx')
      (act : Act limits acct' fx' event acct'' fx'') :
      Acts limits acct fx (events ++ [event]) acct'' fx''

namespace Acts

variable [Codec] {limits : Limits} {acct acct' acct'' : Account}
  {fx fx' fx'' : Effects} {events later : List Event} {event : Event}

theorem single (act : Act limits acct fx event acct' fx') :
    Acts limits acct fx [event] acct' fx' :=
  .event (.done acct fx) act

theorem single_quiet (act : Act limits acct fx .quiet acct' fx') :
    Acts limits acct fx [] acct' fx' :=
  .quiet (.done acct fx) act

theorem trans (first : Acts limits acct fx events acct' fx')
    (second : Acts limits acct' fx' later acct'' fx'') :
    Acts limits acct fx (events ++ later) acct'' fx'' := by
  induction second with
  | done => simpa using first
  | quiet acts act ih => exact .quiet (ih first) act
  | event acts act ih =>
      rw [← List.append_assoc]
      exact .event (ih first) act

/-- Everybody an account and the collected effects name is allowed. -/
structure Confined (allowed : ConnId → Prop) (acct : Account)
    (fx : Effects) : Prop where
  conns : ∀ id ∈ acct.conns, allowed id
  doomed : ∀ id, Doomed fx id → allowed id
  wake : ∀ id ∈ fx.wake, allowed id

/-- What is true of everybody named before the events is true of everybody
named after them, if it is true of everybody who joins. -/
theorem confined {allowed : ConnId → Prop}
    (acts : Acts limits acct fx events acct' fx')
    (before : Confined allowed acct fx)
    (joined : ∀ id c role, .joined id c role ∈ events → allowed id) :
    Confined allowed acct' fx' := by
  have step {acct₁ acct₂ : Account} {fx₁ fx₂ : Effects} {event : Event}
      (act : Act limits acct₁ fx₁ event acct₂ fx₂)
      (now : Confined allowed acct₁ fx₁)
      (newcomer : ∀ id c role, event = .joined id c role → allowed id) :
      Confined allowed acct₂ fx₂ := by
    have conns (id : ConnId) (member : id ∈ acct₂.conns) : allowed id := by
      obtain ⟨c, found⟩ := HashMap.exists_lookup_of_mem member
      rcases act.conns_new found with old | ⟨role, isJoined, _⟩
      · exact now.conns id old
      · exact newcomer id c role isJoined
    refine ⟨conns, fun id isDoomed => ?_, fun id member => ?_⟩
    · rcases act.close_known id isDoomed with old | known
      · exact now.doomed id old
      · exact now.conns id known
    · rcases act.wake_live id member with old | live
      · exact now.wake id old
      · exact conns id live
  induction acts with
  | done => exact before
  | quiet acts act ih =>
      exact step act (ih before joined) (fun _ _ _ absurdity => by
        cases absurdity)
  | event acts act ih =>
      exact step act
        (ih before fun id c role member => joined id c role (by simp [member]))
        (fun id c role isJoined => joined id c role (by simp [isJoined]))

/-- Without anybody joining, everybody there and everybody doomed was there, or
doomed, before. -/
theorem doomed_known (acts : Acts limits acct fx events acct' fx')
    (noJoin : ∀ id c role, .joined id c role ∉ events) (id : ConnId) :
    (id ∈ acct'.conns → id ∈ acct.conns) ∧
      (Doomed fx' id → Doomed fx id ∨ id ∈ acct.conns) := by
  have step {acct₁ acct₂ : Account} {fx₁ fx₂ : Effects} {event : Event}
      (act : Act limits acct₁ fx₁ event acct₂ fx₂)
      (notJoined : ∀ c role, event ≠ .joined id c role)
      (conns : id ∈ acct₁.conns → id ∈ acct.conns)
      (doomed : Doomed fx₁ id → Doomed fx id ∨ id ∈ acct.conns) :
      (id ∈ acct₂.conns → id ∈ acct.conns) ∧
        (Doomed fx₂ id → Doomed fx id ∨ id ∈ acct.conns) := by
    refine ⟨fun member => ?_, fun isDoomed => ?_⟩
    · obtain ⟨c, found⟩ := HashMap.exists_lookup_of_mem member
      rcases act.conns_new found with old | ⟨role, isJoined, _⟩
      · exact conns old
      · exact (notJoined c role isJoined).elim
    · rcases act.close_known id isDoomed with old | known
      · exact doomed old
      · exact Or.inr (conns known)
  induction acts with
  | done => exact ⟨fun member => member, Or.inl⟩
  | quiet acts act ih =>
      obtain ⟨conns, doomed⟩ := ih noJoin step
      exact step act (fun _ _ absurdity => by cases absurdity) conns doomed
  | event acts act ih =>
      obtain ⟨conns, doomed⟩ := ih
        (fun id c role member => noJoin id c role (by simp [member])) step
      exact step act
        (fun c role isJoined => noJoin id c role (by simp [isJoined]))
        conns doomed

theorem mem_conns (acts : Acts limits acct fx events acct' fx') {id : ConnId}
    (stays : ∀ principal role, .left id principal role ∉ events)
    (member : id ∈ acct.conns) : id ∈ acct'.conns := by
  induction acts with
  | done => exact member
  | quiet acts act ih =>
      obtain ⟨c, found⟩ := HashMap.exists_lookup_of_mem (ih stays)
      obtain ⟨c', found', _⟩ := act.kept found
        (fun _ _ absurdity => by cases absurdity)
      exact HashMap.mem_of_lookup found'
  | event acts act ih =>
      obtain ⟨c, found⟩ := HashMap.exists_lookup_of_mem
        (ih fun principal role among =>
          stays principal role (by simp [among]))
      obtain ⟨c', found', _⟩ := act.kept found
        (fun principal role isLeft => stays principal role (by simp [isLeft]))
      exact HashMap.mem_of_lookup found'

theorem joined_mem (acts : Acts limits acct fx events acct' fx')
    {id : ConnId} {conn : Conn} {role : Role}
    (joined : events = [.joined id conn role]) : id ∈ acct'.conns := by
  induction acts with
  | done => cases joined
  | quiet acts act ih =>
      exact (single_quiet act).mem_conns (by simp) (ih joined)
  | event acts act ih =>
      obtain ⟨_, last⟩ := List.append_inj'
        (show _ = [] ++ [Event.joined id conn role] from joined) rfl
      cases last
      exact HashMap.mem_of_lookup (act.joined_new rfl).2

/-- Without anybody joining or leaving, the connections are the same. -/
theorem mem_conns_iff (acts : Acts limits acct fx events acct' fx')
    (noJoin : ∀ id c role, .joined id c role ∉ events)
    (noLeave : ∀ id principal role, .left id principal role ∉ events)
    (id : ConnId) : id ∈ acct'.conns ↔ id ∈ acct.conns := by
  have step {before after : Account} {fx₁ fx₂ : Effects} {event : Event}
      (act : Act limits before fx₁ event after fx₂)
      (notJoined : ∀ c role, event ≠ .joined id c role)
      (notLeft : ∀ principal role, event ≠ .left id principal role) :
      id ∈ after.conns ↔ id ∈ before.conns := by
    constructor
    · intro member
      obtain ⟨c, found⟩ := HashMap.exists_lookup_of_mem member
      rcases act.conns_new found with old | ⟨role, isJoined, _⟩
      · exact old
      · exact (notJoined c role isJoined).elim
    · intro member
      obtain ⟨c, found⟩ := HashMap.exists_lookup_of_mem member
      obtain ⟨c', found', _⟩ := act.kept found notLeft
      exact HashMap.mem_of_lookup found'
  induction acts with
  | done => rfl
  | quiet acts act ih =>
      exact (step act (fun _ _ absurdity => by cases absurdity)
        (fun _ _ absurdity => by cases absurdity)).trans (ih noJoin noLeave)
  | event acts act ih =>
      rw [step act
        (fun c role isJoined => noJoin id c role (by simp [isJoined]))
        (fun principal role isLeft =>
          noLeave id principal role (by simp [isLeft]))]
      exact ih (fun id c role member => noJoin id c role (by simp [member]))
        (fun id principal role member =>
          noLeave id principal role (by simp [member]))

end Acts

end WindowMlHub
