import WindowMlHub.ServerAccounts

/-!
# Closing what the relay has closed

When the relay closes a connection it forgets it, and leaves it to the server to tell
the connection's task.  `Shared::on_shard` does; `Shared::connect` looks at wakes only.
A connection whose queue overflows when another one joins so keeps a handle that nobody
closes.

Calls on one shard are single steps here, as they hold the shard's lock throughout.
-/

namespace WindowMlHub

open CheckedEvaluation HashTables

/-! ## Who is gone after a call -/

section Departing

variable [Codec] {limits : Limits} {acct acct' : Account} {fx fx' : Effects}
  {events : List Event} {id : ConnId}

/-- Who is there, or joins, and does not leave, is there afterwards. -/
theorem Acts.stays (acts : Acts limits acct fx events acct' fx')
    (there : id ∈ acct.conns ∨ ∃ c role, .joined id c role ∈ events)
    (stays : ∀ principal role, .left id principal role ∉ events) : id ∈ acct'.conns := by
  have step {before after : Account} {fx₁ fx₂ : Effects} {event : Event}
      (act : Act limits before fx₁ event after fx₂)
      (notLeft : ∀ principal role, event ≠ .left id principal role)
      (known : id ∈ before.conns) : id ∈ after.conns := by
    obtain ⟨c, found⟩ := HashMap.exists_lookup_of_mem known
    obtain ⟨c', foundAfter, -⟩ := act.kept found notLeft
    exact HashMap.mem_of_lookup foundAfter
  induction acts with
  | done => exact there.resolve_right (by simp)
  | quiet acts act ih => exact step act (by simp) (ih there stays)
  | @event _ _ _ _ _ earlier last acts act ih =>
      have before (principal : Bytes) (role : Role) : .left id principal role ∉ earlier :=
        fun member => stays principal role (List.mem_append_left _ member)
      by_cases joins : ∃ c role, last = .joined id c role
      · obtain ⟨c, role, rfl⟩ := joins
        exact HashMap.mem_of_lookup (act.joined_new rfl).2
      · refine step act (fun principal role isLeft => ?_) (ih ?_ before)
        · exact stays principal role (by simp [isLeft])
        · rcases there with known | ⟨c, role, member⟩
          · exact .inl known
          · rcases List.mem_append.mp member with old | new
            · exact .inr ⟨c, role, old⟩
            · exact absurd ⟨c, role, (List.mem_singleton.mp new).symm⟩ joins

variable {order : HashOrder} {hub hub' : Hub} {call : Call} {reply : Reply}

theorem Heads.left_eq {account : AccountId} {rings : StreamKey → Option Ring}
    {head : List Event} {principal : Bytes} {role : Role}
    (heads : Heads order hub account fx rings call reply head)
    (left : .left id principal role ∈ head) : call = .close id none := by
  cases heads with
  | received found routed => exact (routed.no_join.2 _ _ _ left).elim
  | closed asleep =>
      simp only [List.mem_singleton, Event.left.injEq] at left
      rw [left.1]
  | _ => simp at left

omit [Codec] in
theorem close_mem_actionsOf {wake : List ConnId} {left : List (ConnId × Frame)}
    {entry : ConnId × Frame} (member : entry ∈ left) :
    .close entry.1 entry.2 ∈ Hub.actionsOf wake left :=
  List.mem_append_right _ (List.mem_map.mpr ⟨entry, member, rfl⟩)

/-- Whom the relay no longer knows it asked the server to close, or was told to
forget. -/
theorem Effect.departed (effect : Effect order hub call reply hub') (ok : hub.Ok)
    (ok' : hub'.Ok) (known : id ∈ hub.connAccount ∨ ∃ actions, reply = .admitted id actions)
    (gone : id ∉ hub'.connAccount) :
    (∃ frame, .close id frame ∈ reply.actions) ∨ call = .close id none := by
  cases effect with
  | idle unknown same noActions noFrames noAdmission =>
      rw [same] at gone
      rcases known with known | ⟨actions, rfl⟩
      · exact absurd known gone
      · simp [Reply.admissions] at noAdmission
  | took account conn acct c taken rest took =>
      rcases known with known | ⟨actions, admitted⟩
      · rw [took.hub_eq] at gone
        exact absurd known gone
      · rw [took.reply_eq] at admitted
        cases admitted
  | acted account head mid fx left wake acted =>
      obtain ⟨tail, fx', tailActs, departures, -, -⟩ := acted.settles.tail_acts
      have whole := acted.settles.head_acts.trans tailActs
      by_cases leaves : ∃ principal role, .left id principal role ∈ head ++ tail
      · obtain ⟨principal, role, member⟩ := leaves
        rcases List.mem_append.mp member with first | later
        · exact .inr (acted.heads.left_eq first)
        · obtain ⟨entry, inLeft, other, otherRole, same⟩ := departures.of_mem later
          obtain ⟨rfl, -, -⟩ := Event.left.inj same
          refine .inl ⟨entry.2, ?_⟩
          rw [acted.actions_eq]
          exact close_mem_actionsOf inLeft
      · refine absurd ?_ gone
        have notLeft (principal : Bytes) (role : Role) :
            .left id principal role ∉ head ++ tail :=
          fun member => leaves ⟨principal, role, member⟩
        rcases known with known | ⟨actions, admitted⟩
        · obtain ⟨whose, found⟩ := HashMap.exists_lookup_of_mem known
          by_cases same : whose = account
          · have there : id ∈ (hub.record account).conns := by
              rw [ok.mem_record_iff, found, same]
            have after := whole.stays (.inl there) notLeft
            rw [ok'.mem_record_iff] at after
            exact HashMap.mem_of_lookup after
          · have after := (ok.known_other ok' acted.settles.beside same).mpr found
            exact HashMap.mem_of_lookup after
        · subst admitted
          have joins : ∃ c role, .joined id c role ∈ head ++ tail := by
            have heads := acted.heads
            cases heads with
            | joined newcomer => exact ⟨_, _, List.mem_append_left _ List.mem_cons_self⟩
          have after := whole.stays (.inr joins) notLeft
          rw [ok'.mem_record_iff] at after
          exact HashMap.mem_of_lookup after

end Departing

/-! ## Runs of one shard -/

/-- A step of a shard, each under the shard's lock.  For an account that is new,
`connect` finds a place in the server's count or does not. -/
inductive ShardMove
  | connect (arrival : HelloArrival) (place : Bool)
  | onShard (calls : List (HashOrder × ShardCall))
  | take (conn : ConnId) (budget : Nat)
  | remove (conn : ConnId)

/-- A step of a run, with the shard before and after it. -/
structure ShardStep where
  before : ShardState
  move : ShardMove
  after : ShardState

namespace ShardState

def step [Codec] (state : ShardState) : ShardMove → Checked ShardState
  | .connect arrival place =>
      if arrival.account ∉ state.hub.accounts ∧ place = false then
        .ok state
      else do
        let (state, _) ← state.connect arrival
        return state
  | .onShard calls => state.onShard calls
  | .take conn budget => state.takeOutbound conn budget
  | .remove conn => .ok (state.removeHandle conn)

def run [Codec] (state : ShardState) : List ShardMove → Checked (List ShardStep)
  | [] => .ok []
  | move :: rest => do
      let next ← state.step move
      let later ← next.run rest
      return ⟨state, move, next⟩ :: later

/-- A closing frame was stored for the connection, and its task notified. -/
def Told (state : ShardState) (id : ConnId) : Prop :=
  ∃ handle, state.handles.lookup id = some handle ∧ handle.closing.isSome ∧
    handle.notified = true

end ShardState

/-- The task of the connection has called `close` on it. -/
def ClosedIn (id : ConnId) (moves : List ShardMove) : Prop :=
  ∃ calls, .onShard calls ∈ moves ∧ ∃ order frame, (order, .close id frame) ∈ calls

/-- Every handle is of a connection that the relay knows, that was told to close, or
whose task has closed it. -/
def ShardState.Attended (past : List ShardMove) (state : ShardState) : Prop :=
  ∀ id ∈ state.handles, id ∈ state.hub.connAccount ∨ state.Told id ∨ ClosedIn id past

/-- The relay would admit this hello. -/
def Hub.Welcomes (hub : Hub) (account : AccountId) (hello : Hello) (monoMs : Nat) : Prop :=
  hub.refuseHello account hello = none ∧
    ∀ acct, hub.accounts.lookup account = some acct →
      (acct.rate.refill monoMs hub.limits.accountBytesPerSecond
        hub.limits.accountBurstBytes).waitMs hub.limits.accountBytesPerSecond ≤
          connectRefusedAboveMs

/-- Every connection of the account has room in its queue to be told who came. -/
def Hub.Roomy [Codec] (hub : Hub) (account : AccountId) (hello : Hello) : Prop :=
  ∀ id c, (hub.record account).conns.lookup id = some c →
    (c.out.pushFrame (.of (.presence ⟨hello.principal, (Role.ofInt hello.role).toInt, true,
      presentable hello.chain⟩)) hub.limits).2.isOk = true

/-- If the step admits a connection, the others of its account have room in their
queues to be told. -/
def ShardStep.Roomy [Codec] (step : ShardStep) : Prop :=
  ∀ arrival place, step.move = .connect arrival place →
    step.before.hub.Welcomes arrival.account arrival.hello arrival.monoMs →
      step.before.hub.Roomy arrival.account arrival.hello

instance [Codec] (hub : Hub) (account : AccountId) (hello : Hello) :
    Decidable (hub.Roomy account hello) :=
  decidable_of_iff
    (∀ entry ∈ (hub.record account).conns.entries,
      (entry.2.out.pushFrame (.of (.presence ⟨hello.principal, (Role.ofInt hello.role).toInt,
        true, presentable hello.chain⟩)) hub.limits).2.isOk = true)
    ⟨fun every id c found => every ⟨id, c⟩ (AList.mem_lookup_iff.mp found),
      fun roomy entry member => roomy entry.1 entry.2 (AList.mem_lookup_iff.mpr member)⟩

/-- Enough for a step to be roomy, computed: the queues have room even if the relay
does not admit the connection. -/
def ShardStep.roomy [Codec] (step : ShardStep) : Bool :=
  match step.move with
  | .connect arrival _ => decide (step.before.hub.Roomy arrival.account arrival.hello)
  | _ => true

theorem ShardStep.roomy_of_check [Codec] {step : ShardStep} (check : step.roomy = true) :
    step.Roomy := by
  intro arrival place isConnect _
  simpa [roomy, isConnect] using check

/-! ## Joining with room to be told -/

section Joining

variable [Codec] {hub hub' : Hub} {account : AccountId} {order : HashOrder}
  {hello : Hello} {nowMs monoMs : Nat} {revoker : Revoker} {id : ConnId}
  {actions : List Action}

theorem enqueueAll_roomy {acct : Account} {frame : Frame} {ids : List ConnId}
    (found : hub.accounts.lookup account = some acct) (nodup : ids.Nodup)
    (roomy : ∀ id ∈ ids, ∀ c, acct.conns.lookup id = some c →
      (c.out.pushFrame frame hub.limits).2.isOk = true) {fx : Effects}
    (nobody : fx.close = []) : (Hub.enqueueAll account frame ids hub fx).2.close = [] := by
  obtain ⟨hub', conns, fx', enqueued, offered, -⟩ :=
    Hub.enqueueAll_spec found frame nodup fx
  rw [enqueued, List.eq_nil_iff_forall_not_mem]
  rintro ⟨id, sent⟩ member
  rcases (offered.close_iff id sent).mp member with old | ⟨-, listed, c, connFound, failed⟩
  · rw [nobody] at old
    cases old
  · rw [roomy id listed c connFound] at failed
    cases failed

omit [Codec] in
theorem wake_of_actionsOf_nobody {wake : List ConnId} {action : Action}
    (member : action ∈ Hub.actionsOf wake []) : ∃ conn, action = .wake conn := by
  simp only [Hub.actionsOf, List.map_nil, List.append_nil] at member
  obtain ⟨conn, -, rfl⟩ := List.mem_map.mp member
  exact ⟨conn, rfl⟩

theorem finish_nobody {fx : Effects} (nobody : fx.close = []) :
    hub.finish order fx = .ok (hub, Hub.actionsOf fx.wake []) := by
  simp [Hub.finish, Hub.finishLoop, nobody]

/-- Nobody is closed when everybody has room. -/
theorem connectChecked_roomy (ok : hub.Ok) (roomy : hub.Roomy account hello)
    (ran : hub.connectChecked order account hello nowMs monoMs revoker =
      .ok (hub', .ok (id, actions))) :
    ∀ action ∈ actions, ∃ conn, action = .wake conn := by
  simp only [Hub.connectChecked, bind_eq_ok] at ran
  obtain ⟨⟨final, acts⟩, finished, done⟩ := ran
  cases done
  have new : hub.nextConn ∉ (hub.record account).conns := by
    rw [ok.mem_record_iff]
    intro known
    exact Nat.lt_irrefl _ (ok.fresh _ (HashMap.mem_of_lookup known))
  rw [finish_nobody] at finished
  · obtain ⟨-, rfl⟩ := Prod.mk.inj (Except.ok.inj finished)
    exact fun action member => wake_of_actionsOf_nobody member
  · refine enqueueAll_roomy (AList.lookup_insert hub.accounts)
      (order.conns.nodup_list (hub.record account).conns.nodupKeys) ?_ rfl
    intro other listed c found
    have differs : other ≠ hub.nextConn := by
      rintro rfl
      exact new ((order.conns.mem_list).mp listed)
    rw [AList.lookup_insert_ne differs] at found
    exact roomy other c found

/-- A connect that was refused, or found everybody with room, closes nobody. -/
theorem connect_roomy (ok : hub.Ok)
    (roomy : hub.Welcomes account hello monoMs → hub.Roomy account hello)
    (ran : hub.connect order account hello nowMs monoMs revoker =
      .ok (hub', .ok (id, actions))) :
    ∀ action ∈ actions, ∃ conn, action = .wake conn := by
  unfold Hub.connect at ran
  split at ran
  · cases ran
  next passed =>
    split at ran
    next absent =>
      exact connectChecked_roomy ok (roomy ⟨passed, by simp [absent]⟩) ran
    next acct found =>
      dsimp only at ran
      split at ran
      · cases ran
      next affordable =>
        have welcome : hub.Welcomes account hello monoMs := by
          refine ⟨passed, fun other foundOther => ?_⟩
          obtain rfl := Option.some.inj (found.symm.trans foundOther)
          exact Nat.le_of_not_lt affordable
        refine connectChecked_roomy (ok.with_rate found _) ?_ ran
        intro other c connFound
        rw [Hub.record_of_lookup (AList.lookup_insert hub.accounts)] at connFound
        refine roomy welcome other c ?_
        rwa [Hub.record_of_lookup found]

end Joining

/-! ## What the server does about it -/

namespace ShardState

variable {state : ShardState} {id conn : ConnId}

theorem mem_wake_iff : id ∈ (state.wake conn).handles ↔ id ∈ state.handles := by
  unfold wake
  split
  · exact Iff.rfl
  next handle found =>
    constructor
    · intro member
      rcases (AList.mem_insert _).mp member with rfl | old
      · exact HashMap.mem_of_lookup found
      · exact old
    · exact fun old => (AList.mem_insert _).mpr (.inr old)

theorem Told.wake (told : state.Told id) (conn : ConnId) : (state.wake conn).Told id := by
  unfold ShardState.wake
  split
  · exact told
  next handle found =>
    obtain ⟨mine, mineFound, closing, notified⟩ := told
    by_cases same : id = conn
    · subst same
      obtain rfl := Option.some.inj (found.symm.trans mineFound)
      exact ⟨_, AList.lookup_insert _, closing, rfl⟩
    · refine ⟨mine, ?_, closing, notified⟩
      rw [AList.lookup_insert_ne same]
      exact mineFound

theorem mem_act_iff (action : Action) : id ∈ (state.act action).handles ↔ id ∈ state.handles := by
  cases action with
  | wake conn => exact mem_wake_iff
  | close conn frame =>
      unfold act
      dsimp only
      split
      · exact Iff.rfl
      next handle found =>
        constructor
        · intro member
          rcases (AList.mem_insert _).mp member with rfl | old
          · exact HashMap.mem_of_lookup found
          · exact old
        · exact fun old => (AList.mem_insert _).mpr (.inr old)

theorem Told.act (told : state.Told id) (action : Action) : (state.act action).Told id := by
  cases action with
  | wake conn => exact told.wake conn
  | close conn frame =>
      unfold ShardState.act
      dsimp only
      split
      · exact told
      next handle found =>
        obtain ⟨mine, mineFound, closing, notified⟩ := told
        by_cases same : id = conn
        · subst same
          exact ⟨_, AList.lookup_insert _, rfl, rfl⟩
        · refine ⟨mine, ?_, closing, notified⟩
          rw [AList.lookup_insert_ne same]
          exact mineFound

theorem told_act_close (there : id ∈ state.handles) (frame : Frame) :
    (state.act (.close id frame)).Told id := by
  obtain ⟨handle, found⟩ := HashMap.exists_lookup_of_mem there
  simp only [act, found]
  exact ⟨_, AList.lookup_insert _, rfl, rfl⟩

theorem mem_foldl_act_iff (actions : List Action) :
    id ∈ (actions.foldl act state).handles ↔ id ∈ state.handles := by
  induction actions generalizing state with
  | nil => exact Iff.rfl
  | cons action rest ih => rw [List.foldl_cons, ih, mem_act_iff]

theorem Told.foldl_act (told : state.Told id) (actions : List Action) :
    (actions.foldl ShardState.act state).Told id := by
  induction actions generalizing state with
  | nil => exact told
  | cons action rest ih => exact ih (told.act action)

theorem told_foldl_act (there : id ∈ state.handles) {frame : Frame} {actions : List Action}
    (member : .close id frame ∈ actions) : (actions.foldl act state).Told id := by
  induction actions generalizing state with
  | nil => cases member
  | cons action rest ih =>
      rcases List.mem_cons.mp member with rfl | later
      · exact (told_act_close there frame).foldl_act rest
      · exact ih ((mem_act_iff action).mpr there) later

theorem foldl_actJoined (actions : List Action) :
    (id ∈ (actions.foldl actJoined state).handles ↔ id ∈ state.handles) ∧
      (state.Told id → (actions.foldl actJoined state).Told id) := by
  induction actions generalizing state with
  | nil => exact ⟨Iff.rfl, fun told => told⟩
  | cons action rest ih =>
      obtain ⟨member, told⟩ := @ih (state.actJoined action)
      cases action with
      | wake conn =>
          exact ⟨member.trans mem_wake_iff, fun before => told (before.wake conn)⟩
      | close conn frame => exact ⟨member, told⟩

end ShardState

section Attending

variable [Codec]

/-- Whom the calls of `on_shard` made the relay forget. -/
theorem Hub.callAll_departed {hub hub' : Hub} (ok : hub.Ok)
    {calls : List (HashOrder × ShardCall)} {actions : List Action} {id : ConnId}
    (ran : hub.callAll calls = .ok (hub', actions)) (known : id ∈ hub.connAccount)
    (gone : id ∉ hub'.connAccount) :
    (∃ frame, .close id frame ∈ actions) ∨ ∃ order frame, (order, .close id frame) ∈ calls := by
  induction calls generalizing hub actions with
  | nil =>
      cases ran
      exact absurd known gone
  | cons entry rest ih =>
      obtain ⟨order, call⟩ := entry
      simp only [callAll, bind_eq_ok] at ran
      obtain ⟨⟨next, reply⟩, first, ⟨final, later⟩, restRan, done⟩ := ran
      cases done
      obtain ⟨replyAgain, nextAgain, firstAgain, nextOk, effect⟩ :=
        Hub.apply_spec order ok call.toCall
      obtain ⟨rfl, rfl⟩ := Prod.mk.inj (Except.ok.inj (first.symm.trans firstAgain))
      by_cases there : id ∈ next.connAccount
      · rcases ih nextOk restRan there with ⟨frame, member⟩ | ⟨order, frame, member⟩
        · exact .inl ⟨frame, List.mem_append_right _ member⟩
        · exact .inr ⟨order, frame, List.mem_cons_of_mem _ member⟩
      · rcases effect.departed ok nextOk (.inl known) there with ⟨frame, member⟩ | called
        · exact .inl ⟨frame, List.mem_append_left _ member⟩
        · refine .inr ⟨order, none, ?_⟩
          cases call with
          | close conn frame =>
              obtain ⟨rfl, rfl⟩ := Call.close.inj called
              exact List.mem_cons_self
          | _ => cases called

omit [Codec] in
theorem ClosedIn.snoc {id : ConnId} {past : List ShardMove} (closed : ClosedIn id past)
    (move : ShardMove) : ClosedIn id (past ++ [move]) := by
  obtain ⟨calls, member, called⟩ := closed
  exact ⟨calls, List.mem_append_left _ member, called⟩

namespace ShardState

namespace Attended

variable {state : ShardState} {past : List ShardMove}

omit [Codec] in
theorem later (attended : state.Attended past) (move : ShardMove) :
    state.Attended (past ++ [move]) := by
  intro id there
  rcases attended id there with known | told | closed
  · exact .inl known
  · exact .inr (.inl told)
  · exact .inr (.inr (closed.snoc move))

/-- What a connect preserves that closes nobody. -/
theorem connect (attended : state.Attended past) (ok : state.hub.Ok)
    {arrival : HelloArrival} {next : ShardState} {result : Except Frame ConnId}
    (ran : state.connect arrival = .ok (next, result))
    (roomy : state.hub.Welcomes arrival.account arrival.hello arrival.monoMs →
      state.hub.Roomy arrival.account arrival.hello) (move : ShardMove) :
    next.Attended (past ++ [move]) ∧ next.hub.Ok := by
  obtain ⟨reply, hub, applied, hubOk, effect⟩ := Hub.apply_spec arrival.order ok
    (.connect arrival.account arrival.hello arrival.nowMs arrival.monoMs arrival.revoker)
  simp only [Hub.apply, bind_eq_ok] at applied
  obtain ⟨⟨after, outcome⟩, connected, done⟩ := applied
  simp only [ShardState.connect, connected, ok_bind] at ran
  cases outcome with
  | error frame =>
      cases done
      cases ran
      refine ⟨fun id there => ?_, hubOk⟩
      rcases attended id there with known | told | closed
      · left
        by_contra gone
        simpa [Reply.actions] using effect.departed ok hubOk (.inl known) gone
      · exact .inr (.inl told)
      · exact .inr (.inr (closed.snoc move))
  | ok joined =>
      obtain ⟨newcomer, actions⟩ := joined
      cases done
      cases ran
      obtain ⟨hubEq, -⟩ := foldl_hub actJoined_hub actJoined_accounts actions
        { state with hub, handles := state.handles.insert newcomer {} }
      have wakes := connect_roomy ok roomy connected
      have remains {id : ConnId} (known : id ∈ state.hub.connAccount ∨
          ∃ acts, Reply.admitted newcomer actions = .admitted id acts) :
          id ∈ hub.connAccount := by
        by_contra gone
        rcases effect.departed ok hubOk known gone with ⟨frame, member⟩ | called
        · obtain ⟨conn, absurdity⟩ := wakes _ member
          cases absurdity
        · cases called
      rw [hubEq]
      refine ⟨fun id there => ?_, hubOk⟩
      rw [(foldl_actJoined actions).1] at there
      rw [hubEq]
      by_cases new : id = newcomer
      · exact .inl (remains (.inr ⟨actions, by rw [new]⟩))
      · have old := ((AList.mem_insert _).mp there).resolve_left new
        rcases attended id old with known | ⟨handle, found, closing, notified⟩ | closed
        · exact .inl (remains (.inl known))
        · refine .inr (.inl ((foldl_actJoined actions).2 ⟨handle, ?_, closing, notified⟩))
          exact (AList.lookup_insert_ne new).trans found
        · exact .inr (.inr (closed.snoc move))

/-- What a step preserves. -/
theorem step (attended : state.Attended past) (ok : state.hub.Ok) (move : ShardMove)
    {next : ShardState} (ran : state.step move = .ok next)
    (roomy : (ShardStep.mk state move next).Roomy) :
    next.Attended (past ++ [move]) ∧ next.hub.Ok := by
  cases move with
  | onShard calls =>
      obtain ⟨hub, actions, called, hubOk, -⟩ := Hub.callAll_spec ok calls
      simp only [ShardState.step, onShard, called, ok_bind] at ran
      cases ran
      obtain ⟨hubEq, -⟩ := foldl_hub act_hub act_accounts actions { state with hub }
      rw [hubEq]
      refine ⟨fun id there => ?_, hubOk⟩
      rw [mem_foldl_act_iff] at there
      rw [hubEq]
      rcases attended id there with known | told | closed
      · by_cases stays : id ∈ hub.connAccount
        · exact .inl stays
        · rcases Hub.callAll_departed ok called known stays with
            ⟨frame, member⟩ | ⟨order, frame, member⟩
          · exact .inr (.inl (told_foldl_act there member))
          · exact .inr (.inr ⟨calls, by simp, order, frame, member⟩)
      · have before : Told { state with hub } id := told
        exact .inr (.inl (before.foldl_act actions))
      · exact .inr (.inr (closed.snoc _))
  | connect arrival place =>
      unfold ShardState.step at ran
      dsimp only at ran
      split at ran
      next full =>
        cases ran
        exact ⟨attended.later _, ok⟩
      next spare =>
        simp only [bind_eq_ok] at ran
        obtain ⟨⟨joined, result⟩, connected, done⟩ := ran
        cases done
        exact attended.connect ok connected (roomy arrival place rfl) _
  | take conn budget =>
      obtain ⟨reply, hub, taking, hubOk, effect⟩ :=
        Hub.apply_spec .stored ok (.takeOutbound conn budget)
      simp only [Hub.apply, bind_eq_ok] at taking
      obtain ⟨⟨after, taken⟩, took, done⟩ := taking
      cases done
      simp only [ShardState.step, takeOutbound, took, ok_bind] at ran
      cases ran
      refine ⟨fun id there => ?_, hubOk⟩
      rcases attended id there with known | told | closed
      · left
        by_contra gone
        simpa [Reply.actions] using effect.departed ok hubOk (.inl known) gone
      · exact .inr (.inl told)
      · exact .inr (.inr (closed.snoc _))
  | remove conn =>
      cases ran
      refine ⟨fun id there => ?_, ok⟩
      obtain ⟨differs, old⟩ := (AList.mem_erase).mp there
      rcases attended id old with known | ⟨handle, found, closing, notified⟩ | closed
      · exact .inl known
      · refine .inr (.inl ⟨handle, ?_, closing, notified⟩)
        exact (AList.lookup_erase_ne differs).trans found
      · exact .inr (.inr (closed.snoc _))

end Attended

theorem step_ok {state : ShardState} (ok : state.hub.Ok) (move : ShardMove) :
    ∃ next, state.step move = .ok next ∧ next.hub.Ok := by
  cases move with
  | onShard calls =>
      obtain ⟨next, ran, nextOk, -⟩ := onShard_count ok calls
      exact ⟨next, ran, nextOk⟩
  | connect arrival place =>
      unfold step
      dsimp only
      split
      · exact ⟨state, rfl, ok⟩
      · obtain ⟨next, result, ran, nextOk, -⟩ := connect_count ok arrival
        exact ⟨next, by simp [ran], nextOk⟩
  | take conn budget =>
      obtain ⟨hub, taken, took, hubOk, -⟩ := Hub.takeOutbound_count ok conn budget
      exact ⟨{ state with hub }, by simp [step, takeOutbound, took], hubOk⟩
  | remove conn => exact ⟨state.removeHandle conn, rfl, ok⟩

theorem run_ok {state : ShardState} (ok : state.hub.Ok) (moves : List ShardMove) :
    ∃ steps, state.run moves = .ok steps := by
  induction moves generalizing state with
  | nil => exact ⟨[], rfl⟩
  | cons move rest ih =>
      obtain ⟨next, stepped, nextOk⟩ := step_ok ok move
      obtain ⟨later, ran⟩ := ih nextOk
      exact ⟨⟨state, move, next⟩ :: later, by simp [run, stepped, ran]⟩

/-- What a run preserves. -/
theorem Attended.run {state : ShardState} {past : List ShardMove}
    (attended : state.Attended past) (ok : state.hub.Ok) {moves : List ShardMove}
    {steps : List ShardStep} (ran : state.run moves = .ok steps)
    (roomy : ∀ step ∈ steps, step.Roomy) (index : Nat) (step : ShardStep)
    (found : steps[index]? = some step) :
    step.after.Attended (past ++ moves.take (index + 1)) := by
  induction moves generalizing state past steps index with
  | nil =>
      cases ran
      cases found
  | cons move rest ih =>
      simp only [ShardState.run, bind_eq_ok] at ran
      obtain ⟨next, stepped, later, restRan, done⟩ := ran
      cases done
      obtain ⟨nextAttended, nextOk⟩ :=
        attended.step ok move stepped (roomy _ List.mem_cons_self)
      cases index with
      | zero =>
          obtain rfl := Option.some.inj found
          simpa using nextAttended
      | succ index =>
          have after := ih nextAttended nextOk restRan
            (fun other member => roomy other (List.mem_cons_of_mem _ member)) index found
          rwa [List.append_assoc] at after

end ShardState

end Attending

/-- Every close reaches its connection.  No run of a shard panics; and if a connection
is admitted only when the others of its account have room in their queues to be told,
then after every step each handle is of a connection that the relay knows, that was
told to close, or whose own task has closed it. -/
theorem server_closes_reach [Codec] (limits : Limits) (seed : UInt64) (shard : UInt16)
    (hub : Hub) (accepted : Hub.withIdSpace limits seed shard = .ok hub)
    (moves : List ShardMove) :
    ∃ steps, ShardState.run { hub } moves = .ok steps ∧
      ((∀ step ∈ steps, step.Roomy) → ∀ (index : Nat) (step : ShardStep),
        steps[index]? = some step →
          step.after.Attended (moves.take (index + 1))) := by
  have ok := (ok_withIdSpace accepted).1
  obtain ⟨steps, ran⟩ := @ShardState.run_ok _ { hub } ok moves
  refine ⟨steps, ran, fun roomy index step found => ?_⟩
  have attended : ShardState.Attended [] { hub } := fun id there => by cases there
  exact attended.run ok ran roomy index step found

/-- A second connection joins, and the queue of the first has room to be told. -/
theorem server_closes_reach_sibling :
    let first : HelloArrival :=
      ⟨.stored, [9], { protocol := 1, principal := [1], role := 2 }, 0, 0, .unknown⟩
    let second : HelloArrival :=
      ⟨.stored, [9], { protocol := 1, principal := [2], role := 2 }, 0, 0, .unknown⟩
    let moves := [.connect first true, .connect second true]
    ∃ steps, ShardState.run { hub := ⟨{}, ∅, ∅, 1, 7, 0⟩ } moves = .ok steps ∧
      ∀ (index : Nat) (step : ShardStep), steps[index]? = some step →
        step.after.Attended (moves.take (index + 1)) := by
  intro first second moves
  obtain ⟨steps, ran, reach⟩ := server_closes_reach {} 7 0 ⟨{}, ∅, ∅, 1, 7, 0⟩ rfl moves
  have check : ∀ step ∈ steps, step.roomy = true := holds_of_check ran (by decide +kernel)
  exact ⟨steps, ran, reach fun step member => ShardStep.roomy_of_check (check step member)⟩

/-- A second connection joins while the queue of the first is too full to be told: the
relay closes the first, and its task never hears of it. -/
theorem connect_drops_close :
    let first : HelloArrival :=
      ⟨.stored, [9], { protocol := 1, principal := [1], role := 2 }, 0, 0, .unknown⟩
    let second : HelloArrival :=
      ⟨.stored, [9], { protocol := 1, principal := [2], role := 2 }, 0, 0, .unknown⟩
    let moves := [.connect first true, .connect second true]
    ∃ hub steps step, Hub.withIdSpace { queueBytes := 40 } 7 0 = .ok hub ∧
      ShardState.run { hub } moves = .ok steps ∧ steps[1]? = some step ∧
      ¬ step.after.Attended moves := by
  intro first second moves
  let hub : Hub := ⟨{ queueBytes := 40 }, ∅, ∅, 1, 7, 0⟩
  have accepted : Hub.withIdSpace { queueBytes := 40 } 7 0 = .ok hub := rfl
  obtain ⟨steps, ran⟩ := @ShardState.run_ok _ { hub } (ok_withIdSpace accepted).1 moves
  have facts : (match ShardState.run { hub } moves with
      | .error _ => none
      | .ok steps => steps[1]?.map fun (step : ShardStep) =>
          (decide (1 ∈ step.after.handles), decide (1 ∈ step.after.hub.connAccount),
            (step.after.handles.lookup 1).map (·.closing))) =
      some (true, false, some none) := by decide +kernel
  rw [ran] at facts
  obtain ⟨step, found, same⟩ := Option.map_eq_some_iff.mp facts
  obtain ⟨there, gone, waiting⟩ : 1 ∈ step.after.handles ∧
      1 ∉ step.after.hub.connAccount ∧
      (step.after.handles.lookup 1).map (·.closing) = some none := by
    simpa using same
  refine ⟨hub, steps, step, accepted, ran, found, fun attended => ?_⟩
  rcases attended 1 there with known | ⟨handle, handleFound, closing, -⟩ | ⟨calls, member, -⟩
  · exact gone known
  · rw [handleFound] at waiting
    obtain unclosed : handle.closing = none := by simpa using waiting
    rw [unclosed] at closing
    cases closing
  · simp [moves] at member

end WindowMlHub
