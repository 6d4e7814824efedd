import WindowMlHub.ServerCloses
import WindowMlHub.RelayWakes

/-!
# The tasks that write

Every connection has a task that writes to its socket (`write_loop`).  It sleeps until it
is notified, takes from the relay until the relay says that nothing is left, flushes,
looks whether the relay has closed the connection, and sleeps again.

What the relay asks for is decided under the shard's lock, but the tasks are notified
after the lock was given back, so a notification may be under way while other calls take
the lock and while the task itself goes on.  `Notify` keeps a notification that finds
nobody waiting, and only one.
-/

namespace WindowMlHub

open CheckedEvaluation HashTables

/-- What is written to a socket as one message. -/
inductive SentMessage
  /-- what `take_outbound` handed out, joined -/
  | joined (frames : List Frame)
  | ping (nonce : Nat)
  /-- why the relay closed the connection -/
  | closing (frame : Frame)
  deriving DecidableEq

/-- The frames of the relay in a message. -/
def SentMessage.relayed : SentMessage → List Frame
  | joined frames => frames
  | _ => []

/-- How far a task that writes has come. -/
inductive WriterPhase
  /-- waits for a notification or for the time of a ping -/
  | parked
  /-- takes from the relay -/
  | draining
  /-- nothing was left: what was fed is to be flushed -/
  | drained
  /-- looks for a closing frame -/
  | flushed
  | ended
  deriving DecidableEq

/-- A task that writes: the messages that its sink holds, and those that are out. -/
structure Writer where
  phase : WriterPhase := .parked
  nonce : Nat := 0
  fed : List SentMessage := []
  sent : List SentMessage := []

/-- The frames of the relay that a task has fed to its sink. -/
def Writer.relayed (writer : Writer) : List Frame :=
  (writer.sent ++ writer.fed).flatMap SentMessage.relayed

/-- A shard with the tasks that write to its connections, and the handles that are still
to be notified. -/
structure WritingShard where
  state : ShardState
  waking : List ConnId := []
  writers : HashMap ConnId Writer := ∅

/-- What a task that writes does next.  The sink takes what it is given or fails. -/
inductive WriterMove
  | wake
  | ping (works : Bool)
  | take (works : Bool)
  | flush (works : Bool)
  | look (works : Bool)
  deriving DecidableEq

/-- A step of the shard.  The calls under its lock are single steps. -/
inductive WritingMove
  | connect (arrival : HelloArrival) (place : Bool)
  | onShard (calls : List (HashOrder × ShardCall))
  /-- `notify_one`, after the lock was given back -/
  | notify (conn : ConnId)
  | write (conn : ConnId) (move : WriterMove)
  /-- a connection has ended, and its task with it -/
  | remove (conn : ConnId)

namespace WritingShard

/-- What is done about an action while the lock is held.  `connect` looks at wakes
only. -/
def collect (closes : Bool) (shard : WritingShard) : Action → WritingShard
  | .wake conn =>
      match shard.state.handles.lookup conn with
      | none => shard
      | some _ => { shard with waking := shard.waking ++ [conn] }
  | .close conn frame =>
      match closes, shard.state.handles.lookup conn with
      | true, some handle =>
          { shard with
            state := { shard.state with
              handles := shard.state.handles.insert conn
                { handle with closing := some frame } }
            waking := shard.waking ++ [conn] }
      | _, _ => shard

/-- `Shared::on_shard`, up to where the lock is given back. -/
def onShard [Codec] (shard : WritingShard) (calls : List (HashOrder × ShardCall)) :
    Checked WritingShard := do
  let (hub, actions) ← shard.state.hub.callAll calls
  return actions.foldl (collect true) { shard with state := { shard.state with hub } }

/-- `Shared::connect`, up to where the lock is given back, and the task that it starts. -/
def connect [Codec] (shard : WritingShard) (arrival : HelloArrival) : Checked WritingShard := do
  match ← shard.state.hub.connect arrival.order arrival.account arrival.hello
      arrival.nowMs arrival.monoMs arrival.revoker with
  | (hub, .error _) => return { shard with state := { shard.state with hub } }
  | (hub, .ok (id, actions)) =>
      let handles := shard.state.handles.insert id {}
      let joined := { shard with
        state := { shard.state with hub, handles }
        writers := shard.writers.insert id {} }
      return actions.foldl (collect false) joined

/-- Replace the task of a connection. -/
def put (shard : WritingShard) (conn : ConnId) (writer : Writer) : WritingShard :=
  { shard with writers := shard.writers.insert conn writer }

/-- Replace the handle of a connection. -/
def putHandle (shard : WritingShard) (conn : ConnId) (handle : Handle) : WritingShard :=
  { shard with state := { shard.state with
    handles := shard.state.handles.insert conn handle } }

/-- What a task that writes does. -/
def write [Codec] (budget : Nat) (shard : WritingShard) (conn : ConnId) (handle : Handle)
    (writer : Writer) : WriterMove → Checked WritingShard
  | .wake =>
      if writer.phase = .parked ∧ handle.notified then
        .ok ((shard.putHandle conn { handle with notified := false }).put conn
          { writer with phase := .draining })
      else .ok shard
  | .ping works =>
      if writer.phase = .parked then
        let nonce := writer.nonce + 1
        .ok (shard.put conn (if works then
          { writer with phase := .draining, nonce, sent := writer.sent ++ [.ping nonce] }
        else { writer with phase := .ended, nonce }))
      else .ok shard
  | .take works =>
      if writer.phase = .draining then do
        let (hub, taken) ← shard.state.hub.takeOutbound conn budget
        let shard := { shard with state := { shard.state with hub } }
        if taken.frames ≠ [] ∧ works = false then
          return shard.put conn { writer with phase := .ended }
        else
          let fed := if taken.frames = [] then writer.fed
            else writer.fed ++ [.joined taken.frames]
          let phase := if taken.more then .draining else .drained
          return shard.put conn { writer with phase, fed }
      else .ok shard
  | .flush works =>
      if writer.phase = .drained then
        .ok (shard.put conn (if writer.fed ≠ [] ∧ works = false then
          { writer with phase := .ended }
        else
          { writer with phase := .flushed, fed := [], sent := writer.sent ++ writer.fed }))
      else .ok shard
  | .look works =>
      if writer.phase = .flushed then
        match handle.closing with
        | none => .ok (shard.put conn { writer with phase := .parked })
        | some frame =>
            .ok ((shard.putHandle conn { handle with closing := none }).put conn
              { writer with
                phase := .ended
                sent := if works then writer.sent ++ [.closing frame] else writer.sent })
      else .ok shard

/-- One step.  For an account that is new, `connect` finds a place in the server's count
or does not. -/
def step [Codec] (budget : Nat) (shard : WritingShard) : WritingMove → Checked WritingShard
  | .connect arrival place =>
      if arrival.account ∉ shard.state.hub.accounts ∧ place = false then .ok shard
      else shard.connect arrival
  | .onShard calls => shard.onShard calls
  | .notify conn =>
      if conn ∈ shard.waking then
        .ok { shard with state := shard.state.wake conn, waking := shard.waking.erase conn }
      else .ok shard
  | .write conn move =>
      match shard.state.handles.lookup conn, shard.writers.lookup conn with
      | some handle, some writer => shard.write budget conn handle writer move
      | _, _ => .ok shard
  | .remove conn =>
      .ok { shard with
        state := shard.state.removeHandle conn
        writers := shard.writers.erase conn }

/-- What a task that writes asks of the relay. -/
def writerCalls (budget : Nat) (conn : ConnId) (writer : Writer) :
    WriterMove → List (HashOrder × Call)
  | .take _ =>
      if writer.phase = .draining then [(.stored, .takeOutbound conn budget)] else []
  | _ => []

/-- What a step asks of the relay. -/
def calls (budget : Nat) (shard : WritingShard) : WritingMove → List (HashOrder × Call)
  | .connect arrival place =>
      if arrival.account ∉ shard.state.hub.accounts ∧ place = false then []
      else [(arrival.order, .connect arrival.account arrival.hello arrival.nowMs
        arrival.monoMs arrival.revoker)]
  | .onShard calls => calls.map fun entry => (entry.1, entry.2.toCall)
  | .write conn move =>
      match shard.state.handles.lookup conn, shard.writers.lookup conn with
      | some _, some writer => writerCalls budget conn writer move
      | _, _ => []
  | _ => []

/-- What steps one after another ask of the relay. -/
def callsOf [Codec] (budget : Nat) (shard : WritingShard) :
    List WritingMove → List (HashOrder × Call)
  | [] => []
  | move :: rest =>
      shard.calls budget move ++
        match shard.step budget move with
        | .ok next => next.callsOf budget rest
        | .error _ => []

/-- Steps one after another. -/
def run [Codec] (budget : Nat) (shard : WritingShard) :
    List WritingMove → Checked WritingShard
  | [] => .ok shard
  | move :: rest => do
      let shard ← shard.step budget move
      shard.run budget rest

end WritingShard

/-! ## What is collected under the lock -/

/-- What the actions of a call leave of a shard. -/
structure Collected (actions : List Action) (before after : WritingShard) : Prop where
  hub_eq : after.state.hub = before.state.hub
  writers_eq : after.writers = before.writers
  waking_subset : before.waking ⊆ after.waking
  mem_iff : ∀ id, id ∈ after.state.handles ↔ id ∈ before.state.handles
  woken : ∀ id, .wake id ∈ actions → id ∈ before.state.handles → id ∈ after.waking
  handle : ∀ id handle, after.state.handles.lookup id = some handle →
    ∃ old, before.state.handles.lookup id = some old ∧ handle.notified = old.notified ∧
      (handle.closing = old.closing ∨
        (∃ frame, .close id frame ∈ actions) ∧ id ∈ after.waking)

namespace Collected

variable {action : Action} {actions : List Action} {before middle after : WritingShard}

theorem nothing (actions : List Action) (shard : WritingShard)
    (asleep : ∀ id, .wake id ∈ actions → id ∉ shard.state.handles) :
    Collected actions shard shard where
  hub_eq := rfl
  writers_eq := rfl
  waking_subset := fun _ member => member
  mem_iff _ := Iff.rfl
  woken id member there := absurd there (asleep id member)
  handle _ handle found := ⟨handle, found, rfl, .inl rfl⟩

theorem one (closes : Bool) (shard : WritingShard) (action : Action) :
    Collected [action] shard (shard.collect closes action) := by
  cases action with
  | wake conn =>
      unfold WritingShard.collect
      dsimp only
      split
      next absent =>
        refine nothing _ _ fun id member => ?_
        obtain rfl : id = conn := by simpa using member
        exact AList.lookup_eq_none.mp absent
      next mine found =>
        exact {
          hub_eq := rfl
          writers_eq := rfl
          waking_subset := fun _ member => List.mem_append_left _ member
          mem_iff := fun _ => Iff.rfl
          woken := fun id member _ => by
            obtain rfl : id = conn := by simpa using member
            exact List.mem_append_right _ List.mem_cons_self
          handle := fun id handle found => ⟨handle, found, rfl, .inl rfl⟩ }
  | close conn frame =>
      unfold WritingShard.collect
      dsimp only
      split
      next mine found =>
        refine ⟨rfl, rfl, fun _ member => List.mem_append_left _ member, fun id => ?_, by simp,
          fun id handle later => ?_⟩
        · refine ⟨fun member => ?_, fun old => (AList.mem_insert _).mpr (.inr old)⟩
          rcases (AList.mem_insert _).mp member with rfl | old
          · exact HashMap.mem_of_lookup found
          · exact old
        · dsimp only at later
          rw [HashMap.lookup_insert_eq] at later
          split at later
          next same =>
            obtain rfl := Option.some.inj later
            refine ⟨mine, same ▸ found, rfl, .inr ⟨⟨frame, ?_⟩, ?_⟩⟩
            · rw [same]
              exact List.mem_cons_self
            · rw [same]
              exact List.mem_append_right _ List.mem_cons_self
          next other => exact ⟨handle, later, rfl, .inl rfl⟩
      next => exact nothing _ _ (by simp)

/-- Actions one after another. -/
theorem cons (first : Collected [action] before middle)
    (rest : Collected actions middle after) : Collected (action :: actions) before after where
  hub_eq := rest.hub_eq.trans first.hub_eq
  writers_eq := rest.writers_eq.trans first.writers_eq
  waking_subset := fun _ member => rest.waking_subset (first.waking_subset member)
  mem_iff id := (rest.mem_iff id).trans (first.mem_iff id)
  woken id member there := by
    rcases List.mem_cons.mp member with same | later
    · exact rest.waking_subset (first.woken id (by simp [same]) there)
    · exact rest.woken id later ((first.mem_iff id).mpr there)
  handle id handle found := by
    obtain ⟨mid, midFound, notified, closing⟩ := rest.handle id handle found
    obtain ⟨old, oldFound, oldNotified, oldClosing⟩ := first.handle id mid midFound
    refine ⟨old, oldFound, notified.trans oldNotified, ?_⟩
    rcases closing with same | ⟨⟨frame, member⟩, waking⟩
    · rcases oldClosing with oldSame | ⟨⟨frame, member⟩, waking⟩
      · exact .inl (same.trans oldSame)
      · refine .inr ⟨⟨frame, ?_⟩, rest.waking_subset waking⟩
        rw [List.mem_singleton.mp member]
        exact List.mem_cons_self
    · exact .inr ⟨⟨frame, List.mem_cons_of_mem _ member⟩, waking⟩

theorem all (closes : Bool) (shard : WritingShard) (actions : List Action) :
    Collected actions shard (actions.foldl (WritingShard.collect closes) shard) := by
  induction actions generalizing shard with
  | nil => exact nothing [] shard (by simp)
  | cons action rest ih => exact (one closes shard action).cons (ih _)

end Collected

/-! ## What a call of the relay means for who is armed -/

section Calls

variable [Codec] {start hub hub' : Hub} {steps : List Step} {id : ConnId}

/-- Who is armed after a call that does not take from its queue was armed before it, or is
woken. -/
theorem Effect.armed_or_woken {step : Step} {account : AccountId} {c' : Conn}
    (effect : Effect step.order step.before step.call step.reply step.after)
    (ok : step.before.Ok) (ok' : step.after.Ok) (others : ¬ step.Takes id)
    (found : step.after.conn? account id = some c') (armed : c'.armed = true) :
    .wake id ∈ step.reply.actions ∨
      ∃ c, step.before.conn? account id = some c ∧ c.armed = true := by
  have woken (count : step.wakes id = 1) : .wake id ∈ step.reply.actions := by
    refine List.count_pos_iff.mp ?_
    unfold Step.wakes at count
    rw [count]
    exact Nat.one_pos
  cases (effect.fate ok ok' found).rouses effect others with
  | rest before silent => exact .inr ⟨c', before, armed⟩
  | lived c before grows sleeps wakes =>
      by_cases asleep : c.armed = false
      · exact .inl (woken (by rw [wakes, if_pos ⟨asleep, armed⟩]))
      · exact .inr ⟨c, before, by simpa using asleep⟩
  | born new waiting armed count => exact .inl (woken count)

/-- What calls of the relay, made one after another, leave of the connections. -/
structure Called (hub hub' : Hub) (steps : List Step) (actions : List Action) : Prop where
  ok : hub'.Ok
  next_le : hub.nextConn ≤ hub'.nextConn
  run : Run hub steps hub'
  handed_nil : ∀ id, handed id steps = []
  armed : ∀ account id c', hub'.conn? account id = some c' → c'.armed = true →
    .wake id ∈ actions ∨ ∃ c, hub.conn? account id = some c ∧ c.armed = true
  gone : ∀ id, id < hub.nextConn → id ∉ hub.connAccount → id ∉ hub'.connAccount
  closed : ∀ id frame, .close id frame ∈ actions →
    id ∉ hub'.connAccount ∧ id < hub'.nextConn

theorem Called.nil (ok : hub.Ok) : Called hub hub [] [] where
  ok := ok
  next_le := Nat.le_refl _
  run := .start
  handed_nil _ := rfl
  armed _ _ c found armed := .inr ⟨c, found, armed⟩
  gone _ _ gone := gone
  closed := by simp

/-- One call that takes from no queue. -/
theorem Called.one {order : HashOrder} {call : Call} {reply : Reply} (ok : hub.Ok)
    (ran : hub.apply order call = .ok (hub', reply))
    (takes : ∀ id budget, call ≠ .takeOutbound id budget) :
    Called hub hub' [⟨hub, order, call, reply, hub'⟩] reply.actions := by
  obtain ⟨replyAgain, hubAgain, again, ok', effect⟩ := Hub.apply_spec order ok call
  obtain ⟨rfl, rfl⟩ := Prod.mk.inj (Except.ok.inj (ran.symm.trans again))
  let step : Step := ⟨hub, order, call, reply, hub'⟩
  have stepEffect : Effect step.order step.before step.call step.reply step.after := effect
  have others (id : ConnId) : ¬ step.Takes id := fun ⟨budget, isTake⟩ => takes id budget isTake
  exact {
    ok := ok'
    next_le := effect.nextConn_le
    run := Run.start.call ran
    handed_nil := fun id => by
      have none : step.handed id = [] := by
        unfold Step.handed
        split
        next conn budget isTake => exact absurd isTake (takes conn budget)
        next => rfl
      rw [handed_cons, none]
      rfl
    armed := fun account id c' found armed =>
      stepEffect.armed_or_woken ok ok' (others id) found armed
    gone := fun id old gone => Effect.gone_stays ok ok' stepEffect old gone
    closed := fun id frame member => Effect.closes ok stepEffect member }

/-- Calls after calls. -/
theorem Called.append {middle : Hub} {later : List Step} {actions more : List Action}
    (first : Called hub middle steps actions) (second : Called middle hub' later more) :
    Called hub hub' (steps ++ later) (actions ++ more) where
  ok := second.ok
  next_le := first.next_le.trans second.next_le
  run := first.run.append second.run
  handed_nil id := by rw [handed_append, first.handed_nil, second.handed_nil]; rfl
  armed account id c' found armed := by
    rcases second.armed account id c' found armed with woken | ⟨c, before, stillArmed⟩
    · exact .inl (List.mem_append_right _ woken)
    · rcases first.armed account id c before stillArmed with woken | earlier
      · exact .inl (List.mem_append_left _ woken)
      · exact .inr earlier
  gone id old gone :=
    second.gone id (Nat.lt_of_lt_of_le old first.next_le) (first.gone id old gone)
  closed id frame member := by
    rcases List.mem_append.mp member with early | late
    · obtain ⟨gone, old⟩ := first.closed id frame early
      exact ⟨second.gone id old gone, Nat.lt_of_lt_of_le old second.next_le⟩
    · exact second.closed id frame late

theorem Hub.callAll_called (ok : hub.Ok) (calls : List (HashOrder × ShardCall)) :
    ∃ hub' actions steps, hub.callAll calls = .ok (hub', actions) ∧
      Called hub hub' steps actions ∧ steps.map (fun step => (step.order, step.call)) =
        calls.map fun entry => (entry.1, entry.2.toCall) := by
  induction calls generalizing hub with
  | nil => exact ⟨hub, [], [], rfl, .nil ok, rfl⟩
  | cons entry rest ih =>
      obtain ⟨order, call⟩ := entry
      obtain ⟨reply, next, ran, nextOk, -⟩ := Hub.apply_spec order ok call.toCall
      obtain ⟨hub', actions, steps, later, called, asked⟩ := ih nextOk
      have first := Called.one ok ran (by cases call <;> simp [ShardCall.toCall])
      exact ⟨hub', reply.actions ++ actions, _, by simp [callAll, ran, later],
        first.append called, by simp [asked]⟩

end Calls

/-! ## What a take leaves -/

/-- The queue of a connection that the relay knows. -/
def Hub.queue? (hub : Hub) (conn : ConnId) : Option Outbound := do
  let account ← hub.connAccount.lookup conn
  let c ← hub.conn? account conn
  return c.out

/-- What the relay still has for a connection, the gaps that are owed among it. -/
def Hub.owed (hub : Hub) (conn : ConnId) : List Frame :=
  match hub.queue? conn with
  | none => []
  | some queue => (Outbound.handOut queue.dropped queue.items).1

/-- How many frames wait for a connection. -/
def Hub.waiting (hub : Hub) (conn : ConnId) : Nat :=
  match hub.queue? conn with
  | none => 0
  | some queue => queue.items.length

section Taking

/-- A take from the queue of a connection. -/
def takeStep (hub hub' : Hub) (conn : ConnId) (budget : Nat) (taken : Taken) : Step :=
  ⟨hub, .stored, .takeOutbound conn budget, .taken taken, hub'⟩

theorem handed_take (hub hub' : Hub) (conn id : ConnId) (budget : Nat) (taken : Taken) :
    handed id [takeStep hub hub' conn budget taken] =
      if conn = id then taken.frames else [] := by
  rw [handed_cons, handed_nil, List.append_nil]
  rfl

theorem Outbound.handOut_append (dropped : HashMap StreamKey Dropped) (first later : List Item) :
    handOut dropped (first ++ later) =
      ((handOut dropped first).1 ++ (handOut (handOut dropped first).2 later).1,
        (handOut (handOut dropped first).2 later).2) := by
  induction first generalizing dropped with
  | nil => rfl
  | cons item rest ih =>
      simp only [List.cons_append, handOut]
      split
      next key owed _ => simp [ih]
      next => simp [ih]

variable [Codec] {hub : Hub}

/-- What one take from the queue of a connection leaves. -/
structure Taking (hub hub' : Hub) (conn : ConnId) (budget : Nat) (taken : Taken) : Prop where
  ok : hub'.Ok
  run : Run hub [takeStep hub hub' conn budget taken] hub'
  known_eq : hub'.connAccount = hub.connAccount
  next_eq : hub'.nextConn = hub.nextConn
  owed_eq : hub.owed conn = taken.frames ++ hub'.owed conn
  fewer : taken.more = true → hub'.waiting conn < hub.waiting conn
  drained : taken.more = false → hub'.owed conn = []
  armed : ∀ account id c', hub'.conn? account id = some c' → c'.armed = true →
    if id = conn then taken.more = true
    else ∃ c, hub.conn? account id = some c ∧ c.armed = true

theorem Hub.takeOutbound_taking (ok : hub.Ok) (conn : ConnId) (budget : Nat) :
    ∃ hub' taken, hub.takeOutbound conn budget = .ok (hub', taken) ∧
      Taking hub hub' conn budget taken := by
  obtain ⟨reply, hub', ran, ok', effect⟩ := Hub.apply_spec .stored ok (.takeOutbound conn budget)
  have taking := ran
  simp only [apply, bind_eq_ok] at taking
  obtain ⟨⟨hub', taken⟩, taking, done⟩ := taking
  cases done
  dsimp only at ok' effect
  refine ⟨hub', taken, taking, ?_⟩
  let step := takeStep hub hub' conn budget taken
  have stepEffect : Effect step.order step.before step.call step.reply step.after := effect
  have run : Run hub [step] hub' := Run.start.call ran
  have others (account : AccountId) (id : ConnId) (c' : Conn) (other : id ≠ conn)
      (found : hub'.conn? account id = some c') (armed : c'.armed = true) :
      ∃ c, hub.conn? account id = some c ∧ c.armed = true := by
    have untaken : ¬ step.Takes id := by
      rintro ⟨_, isTake⟩
      cases isTake
      exact other rfl
    exact (stepEffect.armed_or_woken ok ok' untaken found armed).resolve_left
      (by simp [step, takeStep, Reply.actions])
  cases effect with
  | idle unknown same =>
      obtain ⟨_, ⟨⟩, absent⟩ := unknown
      subst same
      have nothing : taken = {} := by
        simp only [takeOutbound, AList.lookup_eq_none.mpr absent] at taking
        cases taking
        rfl
      have noQueue : hub'.queue? conn = none := by
        simp [queue?, AList.lookup_eq_none.mpr absent]
      subst nothing
      refine ⟨ok, run, rfl, rfl, rfl, by simp, fun _ => by simp [owed, noQueue],
        fun account id c' found armed => ?_⟩
      split
      next same =>
        exact absurd (HashMap.mem_of_lookup (ok.known_of_conn? (same ▸ found))) absent
      next other => exact others account id c' other found armed
  | took account taker acct c items rest took =>
      obtain ⟨_, ⟨⟩⟩ := took.call_eq
      obtain rfl := Reply.taken.inj took.reply_eq
      have before : hub.queue? conn = some c.out := by
        simp [queue?, took.known, took.there]
      have knownEq : hub'.connAccount = hub.connAccount := by
        rw [took.hub_eq]
        rfl
      have live : hub'.conn? account conn = some { c with
          out := Outbound.counted rest (Outbound.handOut c.out.dropped items).2
          armed := !rest.isEmpty } := by
        rw [took.hub_eq, conn?_eq, record_of_lookup (hub.within_setAccount account _).record]
        exact AList.lookup_insert _
      have after : hub'.queue? conn =
          some (Outbound.counted rest (Outbound.handOut c.out.dropped items).2) := by
        simp [queue?, knownEq, took.known, live]
      refine ⟨ok', run, knownEq, by rw [took.hub_eq]; rfl, ?_, fun more => ?_, fun none => ?_,
        fun other id c' found armed => ?_⟩
      · simp only [owed, before, after, took.split, Outbound.handOut_append, Outbound.counted]
      · have some_taken : items ≠ [] := by
          refine took.some_taken fun empty => ?_
          obtain ⟨-, rfl⟩ := List.append_eq_nil_iff.mp (took.split.symm.trans empty)
          cases more
        have pos := List.length_pos_iff.mpr some_taken
        simp only [waiting, before, after, took.split, Outbound.counted, List.length_append]
        omega
      · have empty : rest = [] := by simpa using none
        simp [owed, after, empty, Outbound.counted, Outbound.handOut]
      · split
        next same =>
          subst same
          have mine := ok'.known_of_conn? found
          rw [knownEq, took.known] at mine
          cases mine
          rw [live] at found
          cases found
          exact armed
        next other => exact others _ id c' other found armed
  | acted account head mid fx left wake acted => cases acted.heads

end Taking

/-! ## The invariant -/

/-- A notification is under way to the task or waits for it, or the task will ask the
relay again before it sleeps. -/
def Stirs (waking : List ConnId) (id : ConnId) (handle : Handle) (writer : Writer) : Prop :=
  id ∈ waking ∨ handle.notified = true ∨ writer.phase = .draining

/-- What holds between a connection, its handle and the task that writes to it, after
these steps of the relay. -/
structure Attends (hub : Hub) (waking : List ConnId) (steps : List Step) (id : ConnId)
    (handle : Handle) (writer : Writer) : Prop where
  armed : writer.phase ≠ .ended → ∀ account c, hub.conn? account id = some c →
    c.armed = true → Stirs waking id handle writer
  closing : writer.phase ≠ .ended → handle.closing.isSome →
    Stirs waking id handle writer ∨ writer.phase = .drained ∨ writer.phase = .flushed
  gone : handle.closing.isSome → id ∉ hub.connAccount
  flushed : writer.phase = .parked ∨ writer.phase = .flushed → writer.fed = []
  relayed : writer.relayed <+: handed id steps
  relayed_eq : writer.phase ≠ .ended → writer.relayed = handed id steps

/-- What every run of the shard preserves. -/
structure WritingShard.Awake [Codec] (start : Hub) (steps : List Step)
    (shard : WritingShard) : Prop where
  ok : shard.state.hub.Ok
  run : Run start steps shard.state.hub
  staffed : ∀ id ∈ shard.state.handles, id ∈ shard.writers
  fresh : ∀ id ∈ shard.state.handles, id < shard.state.hub.nextConn
  attends : ∀ id handle writer, shard.state.handles.lookup id = some handle →
    shard.writers.lookup id = some writer →
      Attends shard.state.hub shard.waking steps id handle writer

section Keeping

variable [Codec] {start hub hub' : Hub} {steps more : List Step} {actions : List Action}
  {id : ConnId} {writer : Writer}

omit [Codec] in
theorem Stirs.mono {waking waking' : List ConnId} {handle handle' : Handle}
    (stirs : Stirs waking id handle writer) (subset : waking ⊆ waking')
    (notified : handle'.notified = handle.notified) : Stirs waking' id handle' writer := by
  rcases stirs with waked | kept | draining
  · exact .inl (subset waked)
  · exact .inr (.inl (notified.trans kept))
  · exact .inr (.inr draining)

omit [Codec] in
/-- What stirs a task that is not about to ask the relay stirs it in every phase. -/
theorem Stirs.resting {waking : List ConnId} {handle : Handle}
    (stirs : Stirs waking id handle writer) (rests : writer.phase ≠ .draining)
    (next : Writer) : Stirs waking id handle next := by
  rcases stirs with waked | kept | draining
  · exact .inl waked
  · exact .inr (.inl kept)
  · exact absurd draining rests

omit [Codec] in
theorem Attends.relayed_of_eq {waking : List ConnId} {handle : Handle} {next : Writer}
    (attends : Attends hub waking steps id handle writer)
    (same : next.relayed = writer.relayed) : next.relayed <+: handed id steps :=
  same ▸ attends.relayed

/-- A connection that was there before the calls is still attended after them. -/
theorem Attends.called {before after : WritingShard} {old handle : Handle}
    (attends : Attends hub before.waking steps id old writer)
    (called : Called hub hub' more actions) (collected : Collected actions before after)
    (admitted : id < hub.nextConn) (there : id ∈ before.state.handles)
    (notified : handle.notified = old.notified)
    (closing : handle.closing = old.closing ∨
      (∃ frame, .close id frame ∈ actions) ∧ id ∈ after.waking) :
    Attends hub' after.waking (steps ++ more) id handle writer where
  armed alive account c found armed := by
    rcases called.armed account id c found armed with woken | ⟨c₀, foundBefore, armedBefore⟩
    · exact .inl (collected.woken id woken there)
    · exact (attends.armed alive account c₀ foundBefore armedBefore).mono
        collected.waking_subset notified
  closing alive waiting := by
    rcases closing with same | ⟨-, waked⟩
    · rcases attends.closing alive (same ▸ waiting) with stirs | later
      · exact .inl (stirs.mono collected.waking_subset notified)
      · exact .inr later
    · exact .inl (.inl waked)
  gone waiting := by
    rcases closing with same | ⟨⟨frame, member⟩, -⟩
    · exact called.gone id admitted (attends.gone (same ▸ waiting))
    · exact (called.closed id frame member).1
  flushed := attends.flushed
  relayed := by
    rw [handed_append, called.handed_nil, List.append_nil]
    exact attends.relayed
  relayed_eq alive := by
    rw [handed_append, called.handed_nil, List.append_nil]
    exact attends.relayed_eq alive

/-- The task of a connection that the calls admitted begins with its first wake under
way. -/
theorem Attends.newcomer {before after : WritingShard} {handle : Handle}
    (called : Called hub hub' more actions) (collected : Collected actions before after)
    (unborn : ∀ account, hub.conn? account id = none) (unsent : handed id steps = [])
    (there : id ∈ before.state.handles)
    (closing : handle.closing = none ∨
      (∃ frame, .close id frame ∈ actions) ∧ id ∈ after.waking) :
    Attends hub' after.waking (steps ++ more) id handle {} := by
  have nobody : handed id (steps ++ more) = [] := by
    rw [handed_append, called.handed_nil, List.append_nil, unsent]
  refine ⟨fun _ account c live armed => ?_, fun _ waiting => ?_, fun waiting => ?_,
    fun _ => rfl, by rw [nobody]; exact List.prefix_refl _, fun _ => nobody.symm⟩
  · rcases called.armed account id c live armed with woken | ⟨c₀, found, -⟩
    · exact .inl (collected.woken id woken there)
    · rw [unborn] at found
      cases found
  · rcases closing with unclosed | ⟨-, waked⟩
    · rw [unclosed] at waiting
      cases waiting
    · exact .inl (.inl waked)
  · rcases closing with unclosed | ⟨⟨frame, member⟩, -⟩
    · rw [unclosed] at waiting
      cases waiting
    · exact (called.closed id frame member).1

namespace WritingShard.Awake

variable {shard : WritingShard}

/-- A move that does not call the relay adds no step. -/
theorem uncalled (awake : shard.Awake start steps) :
    ∃ next more, (.ok shard : Checked WritingShard) = .ok next ∧
      next.Awake start (steps ++ more) ∧
      more.map (fun step => (step.order, step.call)) = [] := by
  refine ⟨shard, [], rfl, ?_, rfl⟩
  rwa [List.append_nil]

/-- What `on_shard` preserves. -/
theorem onShard (awake : shard.Awake start steps) (calls : List (HashOrder × ShardCall)) :
    ∃ next more, shard.onShard calls = .ok next ∧ next.Awake start (steps ++ more) ∧
      more.map (fun step => (step.order, step.call)) =
        calls.map fun entry => (entry.1, entry.2.toCall) := by
  obtain ⟨hub, actions, more, ran, called, asked⟩ := Hub.callAll_called awake.ok calls
  have collected := Collected.all true { shard with state := { shard.state with hub } } actions
  refine ⟨_, more, by simp only [WritingShard.onShard, ran, ok_bind]; rfl, ?_, asked⟩
  have hubEq := collected.hub_eq
  refine ⟨hubEq ▸ called.ok, hubEq ▸ awake.run.append called.run, fun id there => ?_,
    fun id there => ?_, fun id handle writer found writing => ?_⟩
  · rw [collected.writers_eq]
    exact awake.staffed id ((collected.mem_iff id).mp there)
  · rw [hubEq]
    exact Nat.lt_of_lt_of_le (awake.fresh id ((collected.mem_iff id).mp there)) called.next_le
  · obtain ⟨old, oldFound, notified, closing⟩ := collected.handle id handle found
    rw [collected.writers_eq] at writing
    have there := HashMap.mem_of_lookup oldFound
    rw [hubEq]
    refine Attends.called ?_ called collected (awake.fresh id there) there notified closing
    exact awake.attends id old writer oldFound writing

/-- What `connect` preserves: the task that it starts has its first wake under way. -/
theorem connect (awake : shard.Awake start steps) (startOk : start.Ok)
    (arrival : HelloArrival) :
    ∃ next more, shard.connect arrival = .ok next ∧ next.Awake start (steps ++ more) ∧
      more.map (fun step => (step.order, step.call)) =
        [(arrival.order, .connect arrival.account arrival.hello arrival.nowMs
          arrival.monoMs arrival.revoker)] := by
  obtain ⟨reply, hub, ran, hubOk, effect⟩ := Hub.apply_spec arrival.order awake.ok
    (.connect arrival.account arrival.hello arrival.nowMs arrival.monoMs arrival.revoker)
  have called := Called.one awake.ok ran (by simp)
  have connected := ran
  simp only [Hub.apply, bind_eq_ok] at connected
  obtain ⟨⟨after, outcome⟩, connected, done⟩ := connected
  cases outcome with
  | error frame =>
      cases done
      let next : WritingShard := { shard with state := { shard.state with hub } }
      have collected : Collected [] next next := .nothing [] next (by simp)
      refine ⟨next, [_], by simp only [WritingShard.connect, connected, ok_bind]; rfl,
        ⟨hubOk, awake.run.append called.run, awake.staffed,
          fun id there => Nat.lt_of_lt_of_le (awake.fresh id there) called.next_le,
          fun id handle writer found writing => ?_⟩, rfl⟩
      have there := HashMap.mem_of_lookup found
      refine Attends.called ?_ called collected (awake.fresh id there) there rfl (.inl rfl)
      exact awake.attends id handle writer found writing
  | ok joined =>
      obtain ⟨newcomer, actions⟩ := joined
      cases done
      let admission : Step := ⟨shard.state.hub, arrival.order, .connect arrival.account
        arrival.hello arrival.nowMs arrival.monoMs arrival.revoker,
        .admitted newcomer actions, hub⟩
      have admits : admission.Admits newcomer := ⟨actions, rfl⟩
      obtain ⟨new, fresh, -⟩ := admits.spec effect
      dsimp only [admission] at new fresh
      let joined : WritingShard := { shard with
        state := { shard.state with hub, handles := shard.state.handles.insert newcomer {} }
        writers := shard.writers.insert newcomer {} }
      have collected := Collected.all false joined actions
      refine ⟨_, [admission], by simp only [WritingShard.connect, connected, ok_bind]; rfl,
        ?_, rfl⟩
      have hubEq := collected.hub_eq
      refine ⟨hubEq ▸ hubOk, hubEq ▸ awake.run.append called.run, fun id there => ?_,
        fun id there => ?_, fun id handle writer found writing => ?_⟩
      · rw [collected.writers_eq]
        rcases (AList.mem_insert _).mp ((collected.mem_iff id).mp there) with rfl | old
        · exact (AList.mem_insert _).mpr (.inl rfl)
        · exact (AList.mem_insert _).mpr (.inr (awake.staffed id old))
      · rw [hubEq]
        rcases (AList.mem_insert _).mp ((collected.mem_iff id).mp there) with rfl | old
        · exact fresh
        · exact Nat.lt_of_lt_of_le (awake.fresh id old) called.next_le
      · obtain ⟨old, oldFound, notified, closing⟩ := collected.handle id handle found
        rw [collected.writers_eq] at writing
        have there := HashMap.mem_of_lookup oldFound
        rw [hubEq]
        dsimp only [joined] at oldFound writing
        rw [HashMap.lookup_insert_eq] at oldFound writing
        by_cases mine : id = newcomer
        · rw [if_pos mine] at oldFound writing
          cases oldFound
          cases writing
          have next_le : shard.state.hub.nextConn ≤ id := mine ▸ new ▸ Nat.le_refl _
          refine Attends.newcomer called collected (fun account => ?_)
            (awake.run.handed_unborn startOk next_le) there closing
          refine Option.eq_none_iff_forall_ne_some.mpr fun c live => ?_
          have known := awake.ok.fresh id (HashMap.mem_of_lookup (awake.ok.known_of_conn? live))
          exact absurd known (Nat.not_lt.mpr next_le)
        · rw [if_neg mine] at oldFound writing
          refine Attends.called ?_ called collected
            (awake.fresh id (HashMap.mem_of_lookup oldFound)) there notified closing
          exact awake.attends id old writer oldFound writing

/-- A task and its handle change, and nothing else. -/
theorem renew (awake : shard.Awake start steps) {next : WritingShard} {conn : ConnId}
    {handle : Handle} {writer : Writer} (there : conn ∈ shard.state.handles)
    (hubEq : next.state.hub = shard.state.hub) (wakingEq : next.waking = shard.waking)
    (handles : ∀ id, next.state.handles.lookup id =
      if id = conn then some handle else shard.state.handles.lookup id)
    (writers : ∀ id, next.writers.lookup id =
      if id = conn then some writer else shard.writers.lookup id)
    (attends : Attends shard.state.hub shard.waking steps conn handle writer) :
    next.Awake start steps := by
  have known (id : ConnId) (member : id ∈ next.state.handles) : id ∈ shard.state.handles := by
    obtain ⟨mine, found⟩ := HashMap.exists_lookup_of_mem member
    rw [handles] at found
    split at found
    next same => exact same ▸ there
    next other => exact HashMap.mem_of_lookup found
  refine ⟨hubEq ▸ awake.ok, hubEq ▸ awake.run, fun id member => ?_,
    fun id member => hubEq ▸ awake.fresh id (known id member),
    fun id mine task found writing => ?_⟩
  · obtain ⟨task, writing⟩ := HashMap.exists_lookup_of_mem (awake.staffed id (known id member))
    by_cases same : id = conn
    · exact HashMap.mem_of_lookup ((writers id).trans (if_pos same))
    · exact HashMap.mem_of_lookup ((writers id).trans ((if_neg same).trans writing))
  · rw [handles] at found
    rw [writers] at writing
    rw [hubEq, wakingEq]
    split at found
    next same =>
      rw [if_pos same] at writing
      cases found
      cases writing
      exact same ▸ attends
    next other =>
      rw [if_neg other] at writing
      exact awake.attends id mine task found writing

theorem put (awake : shard.Awake start steps) {conn : ConnId} {handle : Handle}
    {writer : Writer} (found : shard.state.handles.lookup conn = some handle)
    (attends : Attends shard.state.hub shard.waking steps conn handle writer) :
    (shard.put conn writer).Awake start steps := by
  refine awake.renew (HashMap.mem_of_lookup found) rfl rfl (fun id => ?_)
    (fun id => HashMap.lookup_insert_eq _ _ _ _) attends
  split
  next same => exact same ▸ found
  next => rfl

theorem putBoth (awake : shard.Awake start steps) {conn : ConnId} {handle : Handle}
    {writer : Writer} (there : conn ∈ shard.state.handles)
    (attends : Attends shard.state.hub shard.waking steps conn handle writer) :
    ((shard.putHandle conn handle).put conn writer).Awake start steps :=
  awake.renew there rfl rfl (fun _ => HashMap.lookup_insert_eq _ _ _ _)
    (fun _ => HashMap.lookup_insert_eq _ _ _ _) attends

variable {budget : Nat} {conn : ConnId} {handle : Handle}

/-- What a take leaves of the others, and of the task that takes. -/
theorem afterTake (awake : shard.Awake start steps)
    (found : shard.state.handles.lookup conn = some handle) {hub : Hub} {taken : Taken}
    (taking : Taking shard.state.hub hub conn budget taken) {next : Writer}
    (mine : Attends hub shard.waking
      (steps ++ [takeStep shard.state.hub hub conn budget taken]) conn handle next) :
    ({ shard with state := { shard.state with hub } }.put conn next).Awake start
      (steps ++ [takeStep shard.state.hub hub conn budget taken]) := by
  refine ⟨taking.ok, awake.run.append taking.run, fun id there => ?_, fun id there => ?_,
    fun id other task otherFound writing => ?_⟩
  · exact (AList.mem_insert _).mpr (.inr (awake.staffed id there))
  · exact taking.next_eq ▸ awake.fresh id there
  · rw [WritingShard.put, HashMap.lookup_insert_eq] at writing
    split at writing
    next same =>
      cases writing
      cases Option.some.inj (found.symm.trans (same ▸ otherFound))
      exact same ▸ mine
    next differs =>
      have old := awake.attends id other task otherFound writing
      have handedEq : handed id (steps ++ [takeStep shard.state.hub hub conn budget taken]) =
          handed id steps := by
        rw [handed_append, handed_take, if_neg (Ne.symm differs), List.append_nil]
      refine ⟨fun alive account c live armed => ?_, old.closing,
        fun waiting => taking.known_eq ▸ old.gone waiting, old.flushed, handedEq ▸ old.relayed,
        fun alive => handedEq ▸ old.relayed_eq alive⟩
      have before := taking.armed account id c live armed
      rw [if_neg differs] at before
      obtain ⟨c₀, foundBefore, armedBefore⟩ := before
      exact old.armed alive account c₀ foundBefore armedBefore

/-- What a task takes from the relay. -/
theorem take (awake : shard.Awake start steps)
    (found : shard.state.handles.lookup conn = some handle)
    (writing : shard.writers.lookup conn = some writer) (works : Bool) :
    ∃ next more, shard.write budget conn handle writer (.take works) = .ok next ∧
      next.Awake start (steps ++ more) ∧ more.map (fun step => (step.order, step.call)) =
        writerCalls budget conn writer (.take works) := by
  have old := awake.attends conn handle writer found writing
  by_cases draining : writer.phase = .draining
  case neg =>
    refine ⟨shard, [], by simp [WritingShard.write, draining], ?_, ?_⟩
    · rwa [List.append_nil]
    · rw [writerCalls, if_neg draining, List.map_nil]
  have asked (hub : Hub) (taken : Taken) : [takeStep shard.state.hub hub conn budget taken].map
      (fun step => (step.order, step.call)) = writerCalls budget conn writer (.take works) := by
    rw [writerCalls, if_pos draining]
    rfl
  obtain ⟨hub, taken, took, taking⟩ := Hub.takeOutbound_taking awake.ok conn budget
  have alive : writer.phase ≠ .ended := by simp [draining]
  have handedEq : handed conn (steps ++ [takeStep shard.state.hub hub conn budget taken]) =
      writer.relayed ++ taken.frames := by
    rw [handed_append, old.relayed_eq alive, handed_take, if_pos rfl]
  simp only [WritingShard.write, draining, if_true, took, ok_bind]
  split
  next fails =>
    refine ⟨_, _, rfl, awake.afterTake found taking ⟨by simp, by simp,
      fun waiting => taking.known_eq ▸ old.gone waiting, by simp, ?_, by simp⟩, asked _ _⟩
    rw [handedEq]
    exact List.prefix_append _ _
  next works =>
    have relayedEq : (writer.sent ++ if taken.frames = [] then writer.fed
        else writer.fed ++ [.joined taken.frames]).flatMap SentMessage.relayed =
          writer.relayed ++ taken.frames := by
      split
      next none => simp [none, Writer.relayed]
      next => simp [Writer.relayed, SentMessage.relayed]
    refine ⟨_, _, rfl, awake.afterTake found taking ⟨fun _ account c live armed => ?_,
      fun _ waiting => ?_, fun waiting => taking.known_eq ▸ old.gone waiting, fun idle => ?_,
      ?_, fun _ => ?_⟩, asked _ _⟩
    · have more := taking.armed account conn c live armed
      rw [if_pos rfl] at more
      exact .inr (.inr (by simp [more]))
    · by_cases more : taken.more = true
      · exact .inl (.inr (.inr (by simp [more])))
      · exact .inr (.inl (by simp [more]))
    · by_cases more : taken.more = true <;> simp [more] at idle
    · rw [handedEq, Writer.relayed, relayedEq]
    · rw [handedEq, Writer.relayed, relayedEq]

/-- What any step of a task preserves. -/
theorem write (awake : shard.Awake start steps)
    (found : shard.state.handles.lookup conn = some handle)
    (writing : shard.writers.lookup conn = some writer) (move : WriterMove) :
    ∃ next more, shard.write budget conn handle writer move = .ok next ∧
      next.Awake start (steps ++ more) ∧ more.map (fun step => (step.order, step.call)) =
        writerCalls budget conn writer move := by
  have old := awake.attends conn handle writer found writing
  have there := HashMap.mem_of_lookup found
  cases move with
  | wake =>
      rw [WritingShard.write]
      split
      next ready =>
        have alive : writer.phase ≠ .ended := by simp [ready.1]
        exact uncalled (awake.putBoth there ⟨fun _ _ _ _ _ => .inr (.inr rfl),
          fun _ _ => .inl (.inr (.inr rfl)), old.gone, by simp, old.relayed,
          fun _ => old.relayed_eq alive⟩)
      next => exact awake.uncalled
  | ping works =>
      rw [WritingShard.write]
      split
      next parked =>
        have alive : writer.phase ≠ .ended := by simp [parked]
        have relayedEq : ((writer.sent ++ [SentMessage.ping (writer.nonce + 1)]) ++
            writer.fed).flatMap SentMessage.relayed = writer.relayed := by
          simp [Writer.relayed, SentMessage.relayed]
        refine uncalled (awake.put found ?_)
        cases works with
        | true =>
            refine ⟨fun _ _ _ _ _ => .inr (.inr rfl), fun _ _ => .inl (.inr (.inr rfl)),
              old.gone, by simp, ?_, fun _ => ?_⟩
            · exact old.relayed_of_eq relayedEq
            · exact relayedEq.trans (old.relayed_eq alive)
        | false => exact ⟨by simp, by simp, old.gone, by simp, old.relayed, by simp⟩
      next => exact awake.uncalled
  | take works => exact awake.take found writing works
  | flush works =>
      rw [WritingShard.write]
      split
      next drained =>
        have alive : writer.phase ≠ .ended := by simp [drained]
        refine uncalled (awake.put found ?_)
        split
        next fails => exact ⟨by simp, by simp, old.gone, by simp, old.relayed, by simp⟩
        next =>
          have relayedEq : ((writer.sent ++ writer.fed) ++ []).flatMap SentMessage.relayed =
              writer.relayed := by
            rw [List.append_nil]
            rfl
          refine ⟨fun _ account c live armed => ?_, fun _ _ => .inr (.inr rfl), old.gone,
            fun _ => rfl, ?_, fun _ => ?_⟩
          · exact (old.armed alive account c live armed).resting (by simp [drained]) _
          · exact old.relayed_of_eq relayedEq
          · exact relayedEq.trans (old.relayed_eq alive)
      next => exact awake.uncalled
  | look works =>
      rw [WritingShard.write]
      split
      next flushed =>
        have alive : writer.phase ≠ .ended := by simp [flushed]
        split
        next unclosed =>
          refine uncalled (awake.put found ⟨fun _ account c live armed => ?_, ?_, old.gone,
            fun _ => old.flushed (.inr flushed), old.relayed, fun _ => old.relayed_eq alive⟩)
          · exact (old.armed alive account c live armed).resting (by simp [flushed]) _
          · simp [unclosed]
        next frame closing =>
          have relayedEq : ((if works then writer.sent ++ [.closing frame] else writer.sent) ++
              writer.fed).flatMap SentMessage.relayed = writer.relayed := by
            cases works <;> simp [Writer.relayed, SentMessage.relayed]
          refine uncalled (awake.putBoth there ⟨by simp, by simp, by simp, by simp, ?_, by simp⟩)
          exact old.relayed_of_eq relayedEq
      next => exact awake.uncalled

/-- A notification arrives. -/
theorem notify (awake : shard.Awake start steps) (conn : ConnId) :
    ({ shard with state := shard.state.wake conn, waking := shard.waking.erase conn } :
      WritingShard).Awake start steps := by
  have hubEq : (shard.state.wake conn).hub = shard.state.hub := ShardState.wake_hub _ _
  refine ⟨hubEq ▸ awake.ok, hubEq ▸ awake.run,
    fun id there => awake.staffed id (ShardState.mem_wake_iff.mp there),
    fun id there => hubEq ▸ awake.fresh id (ShardState.mem_wake_iff.mp there),
    fun id handle writer found writing => ?_⟩
  have moved : ∃ old, shard.state.handles.lookup id = some old ∧
      handle.closing = old.closing ∧ (Stirs shard.waking id old writer →
        Stirs (shard.waking.erase conn) id handle writer) := by
    unfold ShardState.wake at found
    by_cases mine : id = conn
    · subst mine
      split at found
      next absent =>
        rw [absent] at found
        cases found
      next old oldFound =>
        dsimp only at found
        rw [AList.lookup_insert] at found
        cases found
        exact ⟨old, oldFound, rfl, fun _ => .inr (.inl rfl)⟩
    · have same : shard.state.handles.lookup id = some handle := by
        split at found
        next => exact found
        next old oldFound => rwa [AList.lookup_insert_ne mine] at found
      refine ⟨handle, same, rfl, fun stirs => ?_⟩
      rcases stirs with waked | kept | draining
      · exact .inl ((List.mem_erase_of_ne mine).mpr waked)
      · exact .inr (.inl kept)
      · exact .inr (.inr draining)
  obtain ⟨old, oldFound, closing, stirs⟩ := moved
  have before := awake.attends id old writer oldFound writing
  refine ⟨fun alive account c live armed => ?_, fun alive waiting => ?_, fun waiting => ?_,
    before.flushed, before.relayed, before.relayed_eq⟩
  · exact stirs (before.armed alive account c (hubEq ▸ live) armed)
  · exact (before.closing alive (closing ▸ waiting)).imp_left stirs
  · exact hubEq ▸ before.gone (closing ▸ waiting)

theorem remove (awake : shard.Awake start steps) (conn : ConnId) :
    ({ shard with
      state := shard.state.removeHandle conn
      writers := shard.writers.erase conn } : WritingShard).Awake start steps := by
  refine ⟨awake.ok, awake.run, fun id there => ?_, fun id there => ?_,
    fun id handle writer found writing => ?_⟩
  · obtain ⟨differs, old⟩ := AList.mem_erase.mp there
    exact AList.mem_erase.mpr ⟨differs, awake.staffed id old⟩
  · exact awake.fresh id (AList.mem_erase.mp there).2
  · simp only [ShardState.removeHandle] at found
    rw [HashMap.lookup_erase_eq] at found writing
    split at found
    next => cases found
    next differs =>
      rw [if_neg differs] at writing
      exact awake.attends id handle writer found writing

/-- What every step preserves. -/
theorem step (awake : shard.Awake start steps) (startOk : start.Ok) (budget : Nat)
    (move : WritingMove) :
    ∃ next more, shard.step budget move = .ok next ∧ next.Awake start (steps ++ more) ∧
      more.map (fun step => (step.order, step.call)) = shard.calls budget move := by
  cases move with
  | connect arrival place =>
      rw [WritingShard.step, WritingShard.calls]
      split
      next => exact awake.uncalled
      next => exact awake.connect startOk arrival
  | onShard calls => exact awake.onShard calls
  | notify conn =>
      rw [WritingShard.step]
      split
      next => exact (awake.notify conn).uncalled
      next => exact awake.uncalled
  | write conn move =>
      rw [WritingShard.step, WritingShard.calls]
      split
      next handle writer found writing => exact awake.write found writing move
      next => exact awake.uncalled
  | remove conn => exact (awake.remove conn).uncalled

theorem runs (awake : shard.Awake start steps) (startOk : start.Ok) (budget : Nat)
    (moves : List WritingMove) :
    ∃ next more, shard.run budget moves = .ok next ∧ next.Awake start (steps ++ more) ∧
      more.map (fun step => (step.order, step.call)) = shard.callsOf budget moves := by
  induction moves generalizing shard steps with
  | nil =>
      refine ⟨shard, [], rfl, ?_, rfl⟩
      rwa [List.append_nil]
  | cons move rest ih =>
      obtain ⟨middle, first, stepped, after, asked⟩ := awake.step startOk budget move
      obtain ⟨next, later, ran, final, askedLater⟩ := ih after
      refine ⟨next, first ++ later, by simp [WritingShard.run, stepped, ran],
        List.append_assoc .. ▸ final, ?_⟩
      rw [List.map_append, asked, askedLater, WritingShard.callsOf, stepped]

end WritingShard.Awake

end Keeping

/-! ## Nothing is stranded -/

section Stranding

variable [Codec] {start : Hub} {steps : List Step} {shard : WritingShard} {id : ConnId}
  {handle : Handle} {writer : Writer}

theorem Run.armed_of_owed {hub : Hub} (ok : start.Ok) (empty : start.accounts = ∅)
    (run : Run start steps hub) (waits : hub.owed id ≠ []) :
    ∃ account c, hub.conn? account id = some c ∧ c.armed = true := by
  cases queue : hub.queue? id with
  | none => exact absurd (by simp [Hub.owed, queue]) waits
  | some out =>
      have known := queue
      simp only [Hub.queue?, Option.bind_eq_bind, Option.bind_eq_some_iff] at known
      obtain ⟨account, -, c, live, same⟩ := known
      obtain rfl := Option.some.inj same
      refine ⟨account, c, live,
        (run.alert ok (fun account id c => Hub.conn?_empty empty account id c) live).1.armed ?_⟩
      intro none
      exact waits (by simp [Hub.owed, queue, none, Outbound.handOut])

theorem WritingShard.Awake.idle (awake : shard.Awake start steps) (ok : start.Ok)
    (empty : start.accounts = ∅) (found : shard.state.handles.lookup id = some handle)
    (writing : shard.writers.lookup id = some writer) (parked : writer.phase = .parked)
    (quiet : ¬ Stirs shard.waking id handle writer) :
    handle.closing = none ∧ shard.state.hub.owed id = [] := by
  have attends := awake.attends id handle writer found writing
  have alive : writer.phase ≠ .ended := by simp [parked]
  constructor
  · by_contra closing
    rcases attends.closing alive (Option.isSome_iff_ne_none.mpr closing) with
      stirs | drained | flushed
    · exact quiet stirs
    · simp [parked] at drained
    · simp [parked] at flushed
  · by_contra waits
    obtain ⟨account, c, live, armed⟩ := awake.run.armed_of_owed ok empty waits
    exact quiet (attends.armed alive account c live armed)

end Stranding

theorem WritingShard.awake_start [Codec] {hub : Hub} (ok : hub.Ok) :
    (WritingShard.mk { hub } [] ∅).Awake hub [] where
  ok := ok
  run := .start
  staffed id there := by cases there
  fresh id there := by cases there
  attends id handle writer found writing := by cases found

/-- In every run of a shard the relay is called as the moves of the run ask, and a task that
sleeps while no notification waits for it or is under way has nothing to write: no frame is
queued or owed for its connection, its sink holds nothing back, and no closing frame waits.
What a task wrote is what the relay handed out for its connection, in that order. -/
theorem writers_never_strand [Codec] (limits : Limits) (seed : UInt64) (shard : UInt16)
    (hub : Hub) (accepted : Hub.withIdSpace limits seed shard = .ok hub) (budget : Nat)
    (moves : List WritingMove) :
    ∃ steps final, (WritingShard.mk { hub } [] ∅).run budget moves = .ok final ∧
      Run hub steps final.state.hub ∧
      steps.map (fun step => (step.order, step.call)) =
        (WritingShard.mk { hub } [] ∅).callsOf budget moves ∧
      ∀ id handle writer, final.state.handles.lookup id = some handle →
        final.writers.lookup id = some writer →
          (writer.phase = .parked → handle.notified = false → id ∉ final.waking →
            final.state.hub.owed id = [] ∧ writer.fed = [] ∧ handle.closing = none) ∧
          (writer.phase ≠ .ended → writer.relayed = handed id steps) := by
  obtain ⟨ok, -, empty, -⟩ := ok_withIdSpace accepted
  obtain ⟨final, steps, ran, awake, asked⟩ :=
    (WritingShard.awake_start ok).runs ok budget moves
  refine ⟨steps, final, ran, awake.run, asked, fun id handle writer found writing => ⟨?_, ?_⟩⟩
  · intro parked unnotified unwoken
    have quiet : ¬ Stirs final.waking id handle writer := by
      rintro (waked | kept | draining)
      · exact unwoken waked
      · simp [unnotified] at kept
      · simp [parked] at draining
    obtain ⟨unclosed, nothing⟩ := awake.idle ok empty found writing parked quiet
    exact ⟨nothing, (awake.attends id handle writer found writing).flushed (.inl parked),
      unclosed⟩
  · exact (awake.attends id handle writer found writing).relayed_eq

/-- The task of the first connection of an account writes the welcome and sleeps again. -/
theorem writers_never_strand_welcome :
    let arrival : HelloArrival :=
      ⟨.stored, [9], { protocol := 1, principal := [1], role := 2 }, 0, 0, .unknown⟩
    let moves : List WritingMove := [.connect arrival true, .notify 1, .write 1 .wake,
      .write 1 (.take true), .write 1 (.flush true), .write 1 (.look true)]
    ∃ final writer, (WritingShard.mk { hub := ⟨{}, ∅, ∅, 1, 7, 0⟩ } [] ∅).run 100 moves =
        .ok final ∧ final.writers.lookup 1 = some writer ∧ writer.relayed.length = 1 ∧
      final.state.hub.owed 1 = [] := by
  intro arrival moves
  obtain ⟨steps, final, ran, -, -, idle⟩ :=
    writers_never_strand {} 7 0 ⟨{}, ∅, ∅, 1, 7, 0⟩ rfl 100 moves
  have facts : (match (WritingShard.mk { hub := ⟨{}, ∅, ∅, 1, 7, 0⟩ } [] ∅).run 100 moves with
      | .error _ => none
      | .ok (final : WritingShard) => some ((final.state.handles.lookup 1).map (·.notified),
          (final.writers.lookup 1).map fun writer => (writer.phase, writer.relayed.length),
          final.waking)) =
      some (some false, some (.parked, 1), []) := by decide +kernel
  rw [ran] at facts
  simp only [Option.some.injEq, Prod.mk.injEq, Option.map_eq_some_iff] at facts
  obtain ⟨⟨handle, found, unnotified⟩, ⟨writer, writing, parked, one⟩, noneWaking⟩ := facts
  have nothing := (idle 1 handle writer found writing).1 parked unnotified (by simp [noneWaking])
  exact ⟨final, writer, ran, writing, one, nothing.1⟩

end WindowMlHub
