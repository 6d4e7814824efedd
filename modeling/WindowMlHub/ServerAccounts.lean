import WindowMlHub.ServerShards
import Mathlib.Algebra.BigOperators.Group.Finset.Piecewise

/-!
# The limit on accounts across the shards

However calls on the shards interleave, the server's count is what the shards recorded
plus what is reserved for accounts about to be admitted.  No relay holds more accounts
than that, so the limit on the count is a limit on all of them together.
-/

namespace WindowMlHub

open CheckedEvaluation HashTables

/-! ## Accounts that a call adds -/

section Calls

variable [Codec] {order : HashOrder} {hub hub' : Hub} {call : Call} {reply : Reply}

/-- A call about a connection adds no account. -/
theorem Effect.mem_of_mem (effect : Effect order hub call reply hub') (ok : hub.Ok)
    {conn : ConnId} (about : call.conn? = some conn) {account : AccountId}
    (member : account ∈ hub'.accounts) : account ∈ hub.accounts := by
  cases effect with
  | idle unknown same => rwa [same] at member
  | took other taker acct c taken rest took =>
      rw [took.hub_eq] at member
      rcases (AList.mem_insert _).mp member with rfl | old
      · exact HashMap.mem_of_lookup took.found
      · exact old
  | acted other head mid fx left wake acted =>
      by_cases same : account = other
      · obtain ⟨known, found⟩ : ∃ id, hub.connAccount.lookup id = some other := by
          have whose := acted.about
          cases call with
          | connect => cases about
          | _ => exact ⟨_, whose⟩
        obtain ⟨acct, c, recorded, -⟩ := ok.exists_conn found
        rw [same]
        exact HashMap.mem_of_lookup recorded
      · obtain ⟨acct, found⟩ := HashMap.exists_lookup_of_mem member
        rw [acted.settles.beside.others account same] at found
        exact HashMap.mem_of_lookup found

theorem Effect.mem_of_mem_connect {account : AccountId} {hello : Hello}
    {nowMs monoMs : Nat} {revoker : Revoker}
    (effect : Effect order hub (.connect account hello nowMs monoMs revoker) reply hub')
    {other : AccountId} (member : other ∈ hub'.accounts) :
    other = account ∨ other ∈ hub.accounts := by
  cases effect with
  | idle unknown => simp [Call.conn?] at unknown
  | took _ _ _ _ _ _ took => simpa using took.call_eq
  | acted whose head mid fx left wake acted =>
      obtain rfl : account = whose := Option.some.inj acted.about
      by_cases same : other = account
      · exact .inl same
      · obtain ⟨acct, found⟩ := HashMap.exists_lookup_of_mem member
        rw [acted.settles.beside.others other same] at found
        exact .inr (HashMap.mem_of_lookup found)

theorem Hub.callAll_spec (ok : hub.Ok) (calls : List (HashOrder × ShardCall)) :
    ∃ hub' actions, hub.callAll calls = .ok (hub', actions) ∧ hub'.Ok ∧
      HashMap.len hub'.accounts ≤ HashMap.len hub.accounts := by
  induction calls generalizing hub with
  | nil => exact ⟨hub, [], rfl, ok, Nat.le_refl _⟩
  | cons entry rest ih =>
      obtain ⟨order, call⟩ := entry
      obtain ⟨reply, next, ran, nextOk, effect⟩ := Hub.apply_spec order ok call.toCall
      obtain ⟨hub', actions, later, ok', fewer⟩ := ih nextOk
      refine ⟨hub', reply.actions ++ actions, by simp [callAll, ran, later], ok',
        fewer.trans (HashMap.len_le_of_forall_mem fun account member => ?_)⟩
      obtain ⟨conn, about⟩ : ∃ conn, call.toCall.conn? = some conn := by
        cases call <;> exact ⟨_, rfl⟩
      exact effect.mem_of_mem ok about member

theorem Hub.takeOutbound_count (ok : hub.Ok) (conn : ConnId) (budget : Nat) :
    ∃ hub' taken, hub.takeOutbound conn budget = .ok (hub', taken) ∧ hub'.Ok ∧
      HashMap.len hub'.accounts = HashMap.len hub.accounts := by
  obtain ⟨reply, hub', ran, ok', effect⟩ := Hub.apply_spec .stored ok (.takeOutbound conn budget)
  simp only [apply, bind_eq_ok] at ran
  obtain ⟨⟨next, taken⟩, took, done⟩ := ran
  cases done
  dsimp only at ok' effect
  refine ⟨_, taken, took, ok', Nat.le_antisymm
    (HashMap.len_le_of_forall_mem fun account member => effect.mem_of_mem ok rfl member)
    ?_⟩
  cases effect with
  | idle unknown same => rw [same]
  | took account taker acct c taken rest took =>
      rw [took.hub_eq, setAccount,
        HashMap.len_insert_of_mem (HashMap.mem_of_lookup took.found)]
  | acted account head mid fx left wake acted => cases acted.heads

end Calls

namespace ShardState

theorem wake_hub (state : ShardState) (conn : ConnId) : (state.wake conn).hub = state.hub := by
  unfold wake
  split <;> rfl

theorem wake_accounts (state : ShardState) (conn : ConnId) :
    (state.wake conn).accounts = state.accounts := by
  unfold wake
  split <;> rfl

theorem act_hub (state : ShardState) (action : Action) : (state.act action).hub = state.hub := by
  cases action with
  | wake conn => exact state.wake_hub conn
  | close conn frame =>
      unfold act
      dsimp only
      split <;> rfl

theorem act_accounts (state : ShardState) (action : Action) :
    (state.act action).accounts = state.accounts := by
  cases action with
  | wake conn => exact state.wake_accounts conn
  | close conn frame =>
      unfold act
      dsimp only
      split <;> rfl

theorem actJoined_hub (state : ShardState) (action : Action) :
    (state.actJoined action).hub = state.hub := by
  cases action with
  | wake conn => exact state.wake_hub conn
  | close conn frame => rfl

theorem actJoined_accounts (state : ShardState) (action : Action) :
    (state.actJoined action).accounts = state.accounts := by
  cases action with
  | wake conn => exact state.wake_accounts conn
  | close conn frame => rfl

theorem foldl_hub {apply : ShardState → Action → ShardState}
    (hub : ∀ state action, (apply state action).hub = state.hub)
    (accounts : ∀ state action, (apply state action).accounts = state.accounts)
    (actions : List Action) (state : ShardState) :
    (actions.foldl apply state).hub = state.hub ∧
      (actions.foldl apply state).accounts = state.accounts := by
  induction actions generalizing state with
  | nil => exact ⟨rfl, rfl⟩
  | cons action rest ih =>
      obtain ⟨hubEq, accountsEq⟩ := ih (apply state action)
      exact ⟨hubEq.trans (hub state action), accountsEq.trans (accounts state action)⟩

variable [Codec] {state : ShardState}

theorem onShard_count (ok : state.hub.Ok) (calls : List (HashOrder × ShardCall)) :
    ∃ state', state.onShard calls = .ok state' ∧ state'.hub.Ok ∧
      state'.accounts = state.accounts ∧ state'.accountCount ≤ state.accountCount := by
  obtain ⟨hub, actions, ran, hubOk, fewer⟩ := Hub.callAll_spec ok calls
  obtain ⟨hubEq, accountsEq⟩ := foldl_hub act_hub act_accounts actions { state with hub }
  refine ⟨actions.foldl act { state with hub }, by simp [onShard, ran], ?_, accountsEq, ?_⟩
  · rw [hubEq]
    exact hubOk
  · rw [accountCount, hubEq]
    exact fewer

/-- What `connect` leaves of a shard: at most the account that joined is new. -/
theorem connect_count (ok : state.hub.Ok) (arrival : HelloArrival) :
    ∃ state' result, state.connect arrival = .ok (state', result) ∧ state'.hub.Ok ∧
      state'.accounts = state.accounts ∧
      state'.accountCount ≤ state.accountCount + 1 ∧
      (arrival.account ∈ state.hub.accounts → state'.accountCount ≤ state.accountCount) := by
  obtain ⟨reply, hub, ran, hubOk, effect⟩ := Hub.apply_spec arrival.order ok
    (.connect arrival.account arrival.hello arrival.nowMs arrival.monoMs arrival.revoker)
  have more : HashMap.len hub.accounts ≤ state.accountCount + 1 :=
    HashMap.len_le_succ fun other member => effect.mem_of_mem_connect member
  have same (present : arrival.account ∈ state.hub.accounts) :
      HashMap.len hub.accounts ≤ state.accountCount := by
    refine HashMap.len_le_of_forall_mem fun other member => ?_
    rcases effect.mem_of_mem_connect member with rfl | old
    · exact present
    · exact old
  simp only [Hub.apply, bind_eq_ok] at ran
  obtain ⟨⟨next, outcome⟩, connected, done⟩ := ran
  cases outcome with
  | error frame =>
      cases done
      exact ⟨{ state with hub }, .error frame, by simp [connect, connected], hubOk, rfl, more,
        same⟩
  | ok joined =>
      obtain ⟨id, actions⟩ := joined
      cases done
      obtain ⟨hubEq, accountsEq⟩ := foldl_hub actJoined_hub actJoined_accounts actions
        { state with hub, handles := state.handles.insert id {} }
      refine ⟨_, .ok id, by simp only [connect, connected, ok_bind]; rfl, ?_, accountsEq, ?_, ?_⟩
      · rw [hubEq]
        exact hubOk
      · rw [accountCount, hubEq]
        exact more
      · rw [accountCount, hubEq]
        exact same

end ShardState

/-! ## What the count counts -/

/-- How far a shard's record is from the accounts its relay holds. -/
def Shard.Settled (shard : Shard) : Prop :=
  match shard.holder with
  | .free => shard.state.accountCount = shard.state.accounts
  | .entered _ => shard.state.accountCount = shard.state.accounts
  | .cleared arrival reserved =>
      shard.state.accountCount = shard.state.accounts ∧
        (arrival.account ∉ shard.state.hub.accounts → reserved = 1)
  | .called _ reserved =>
      shard.state.accountCount ≤ shard.state.accounts + reserved

/-- What a shard has in the count. -/
def Shard.claimed (shard : Shard) : Nat :=
  shard.state.accounts + shard.holder.reserved

theorem Shard.Settled.count_le {shard : Shard} (settled : shard.Settled) :
    shard.state.accountCount ≤ shard.claimed := by
  obtain ⟨state, holder⟩ := shard
  cases holder with
  | free => exact Nat.le_of_eq settled
  | entered call => exact Nat.le_of_eq settled
  | cleared arrival reserved => exact settled.1.le.trans (Nat.le_add_right _ _)
  | called result reserved => exact settled

namespace Server

variable {count : Nat} {server : Server count} {index : Fin count}

theorem sum_put (measure : Shard → Nat) (server : Server count) (index : Fin count)
    (shard : Shard) :
    ∑ i, measure ((server.put index shard).shards i) + measure (server.shards index) =
      ∑ i, measure (server.shards i) + measure shard := by
  have rest (i : Fin count) : measure ((server.put index shard).shards i) =
      Function.update (fun i => measure (server.shards i)) index (measure shard) i := by
    by_cases same : i = index
    · subst same
      simp [put]
    · simp [put, same]
  rw [Finset.sum_congr rfl fun i _ => rest i,
    Finset.sum_update_of_mem (Finset.mem_univ index),
    ← Finset.add_sum_erase Finset.univ (fun i => measure (server.shards i))
      (Finset.mem_univ index), Finset.sdiff_singleton_eq_erase]
  omega

section Steps

variable [Codec]

theorem step_enter (call : ServerCall) (held : (server.shards index).holder = .free) :
    server.step index (.enter call) =
      .ok (server.put index { server.shards index with holder := .entered call }) := by
  simp [step, held]

theorem step_take (conn : ConnId) (budget : Nat)
    (held : (server.shards index).holder = .free) :
    server.step index (.take conn budget) = (do
      let state ← (server.shards index).state.takeOutbound conn budget
      return server.put index { server.shards index with state }) := by
  simp [step, held]

theorem step_remove (conn : ConnId) (held : (server.shards index).holder = .free) :
    server.step index (.remove conn) = .ok (server.put index { server.shards index with
      state := (server.shards index).state.removeHandle conn }) := by
  simp [step, held]

theorem step_of_held {move : ServerMove} (other : move ≠ .advance)
    (held : (server.shards index).holder ≠ .free) : server.step index move = .ok server := by
  cases move with
  | advance => exact absurd rfl other
  | _ =>
      cases holder : (server.shards index).holder with
      | free => exact absurd holder held
      | _ => simp [step, holder]

end Steps

/-- The count is what the shards have in it, each within what it may claim. -/
structure Balanced [Codec] (server : Server count) : Prop where
  hub_ok : ∀ index, (server.shards index).state.hub.Ok
  settled : ∀ index, (server.shards index).Settled
  counted : server.accounts = ∑ index, (server.shards index).claimed
  bounded : server.accounts ≤ server.maxAccounts

namespace Balanced

variable [Codec]

/-- A shard changes, and the count by as much as what the shard has in it. -/
theorem put (balanced : server.Balanced) {shard : Shard} {accounts : Nat}
    (ok : shard.state.hub.Ok) (settled : shard.Settled)
    (change : accounts + (server.shards index).claimed = server.accounts + shard.claimed)
    (bounded : accounts ≤ server.maxAccounts) :
    ({ server with accounts }.put index shard).Balanced where
  hub_ok other := by
    by_cases same : other = index
    · subst same
      simpa [Server.put] using ok
    · simpa [Server.put, same] using balanced.hub_ok other
  settled other := by
    by_cases same : other = index
    · subst same
      simpa [Server.put] using settled
    · simpa [Server.put, same] using balanced.settled other
  counted := by
    have sums := sum_put Shard.claimed { server with accounts } index shard
    have counted := balanced.counted
    change accounts = _
    change _ + (server.shards index).claimed =
      ∑ i, (server.shards i).claimed + shard.claimed at sums
    omega
  bounded := bounded

theorem put_same (balanced : server.Balanced) {shard : Shard} (ok : shard.state.hub.Ok)
    (settled : shard.Settled) (same : shard.claimed = (server.shards index).claimed) :
    (server.put index shard).Balanced := by
  have change : server.accounts + (server.shards index).claimed =
      server.accounts + shard.claimed := by rw [same]
  exact balanced.put ok settled change balanced.bounded

theorem claimed_le (balanced : server.Balanced) (index : Fin count) :
    (server.shards index).claimed ≤ server.accounts := by
  rw [balanced.counted]
  exact Finset.single_le_sum (f := fun i => (server.shards i).claimed)
    (fun _ _ => Nat.zero_le _) (Finset.mem_univ index)

/-- Reconciling gives back what is not used, and never takes more than there is. -/
theorem reconcile (balanced : server.Balanced) (small : server.maxAccounts < 2 ^ 64)
    {result : ServerResult} {reserved : Nat}
    (called : (server.shards index).holder = .called result reserved) :
    (reconcileAccounts server.accounts (server.shards index).state reserved).1 +
        (server.shards index).claimed =
      server.accounts + (server.shards index).state.accountCount := by
  have settled := balanced.settled index
  have claimed := balanced.claimed_le index
  have bounded := balanced.bounded
  simp only [Shard.Settled, called] at settled
  simp only [Shard.claimed, called, Holder.reserved] at claimed ⊢
  unfold reconcileAccounts
  dsimp only
  split
  next more => omega
  next notMore =>
    split
    next less =>
      have wraps : fetchSub server.accounts
          ((server.shards index).state.accountCount - (server.shards index).state.accounts -
            reserved : Int).natAbs =
          server.accounts - ((server.shards index).state.accounts + reserved -
            (server.shards index).state.accountCount) := by
        unfold fetchSub
        omega
      rw [wraps]
      omega
    next notLess => omega

/-- What the holder of a lock does next keeps the balance. -/
theorem advance (balanced : server.Balanced) (small : server.maxAccounts < 2 ^ 64)
    (index : Fin count) :
    ∃ server' result, server.advance index = .ok (server', result) ∧ server'.Balanced ∧
      server'.maxAccounts = server.maxAccounts := by
  have ok := balanced.hub_ok index
  have settled := balanced.settled index
  unfold Server.advance
  cases held : (server.shards index).holder with
  | free => exact ⟨server, none, rfl, balanced, rfl⟩
  | entered call =>
      simp only [Shard.Settled, held] at settled
      cases call with
      | onShard calls =>
          obtain ⟨state, ran, stateOk, sameRecord, fewer⟩ :=
            ShardState.onShard_count ok calls
          refine ⟨_, none, by simp [ran]; rfl, balanced.put_same stateOk ?_ ?_, rfl⟩
          · change state.accountCount ≤ state.accounts + 0
            omega
          · simp [Shard.claimed, Holder.reserved, held, sameRecord]
      | connect arrival =>
          dsimp only
          split
          next present =>
            refine ⟨_, none, rfl, balanced.put_same ok ⟨settled, fun absent => ?_⟩ ?_, rfl⟩
            · exact absurd present absent
            · simp [Shard.claimed, Holder.reserved, held]
          next absent =>
            unfold Server.reserve
            split
            next refused =>
              refine ⟨_, _, rfl, balanced.put_same ok settled ?_, rfl⟩
              simp [Shard.claimed, Holder.reserved, held]
            next accounts granted =>
              split at granted
              next room =>
                cases granted
                refine ⟨_, none, rfl, balanced.put ok ⟨settled, fun _ => rfl⟩ ?_ room, rfl⟩
                simp [Shard.claimed, Holder.reserved, held]
                omega
              next => cases granted
  | cleared arrival reserved =>
      simp only [Shard.Settled, held] at settled
      obtain ⟨exactly, place⟩ := settled
      obtain ⟨state, result, ran, stateOk, sameRecord, more, same⟩ :=
        ShardState.connect_count ok arrival
      refine ⟨_, none, by simp [ran]; rfl, balanced.put_same stateOk ?_ ?_, rfl⟩
      · change state.accountCount ≤ state.accounts + reserved
        by_cases present : arrival.account ∈ (server.shards index).state.hub.accounts
        · have := same present
          omega
        · have := place present
          omega
      · simp [Shard.claimed, Holder.reserved, held, sameRecord]
  | called result reserved =>
      have balance := balanced.reconcile small held
      have bounded := balanced.bounded
      have unused : (server.shards index).state.accountCount ≤
          (server.shards index).claimed := settled.count_le
      have within : (reconcileAccounts server.accounts (server.shards index).state
          reserved).1 ≤ server.maxAccounts := by omega
      exact ⟨_, result, rfl, balanced.put ok rfl balance within, rfl⟩

/-- A step keeps the balance. -/
theorem step (balanced : server.Balanced) (small : server.maxAccounts < 2 ^ 64)
    (index : Fin count) (move : ServerMove) :
    ∃ server', server.step index move = .ok server' ∧ server'.Balanced ∧
      server'.maxAccounts = server.maxAccounts := by
  have ok := balanced.hub_ok index
  have settled := balanced.settled index
  cases move with
  | advance =>
      obtain ⟨server', result, ran, balanced', sameMax⟩ := balanced.advance small index
      exact ⟨server', by simp [Server.step, ran], balanced', sameMax⟩
  | enter call =>
      by_cases held : (server.shards index).holder = .free
      · simp only [Shard.Settled, held] at settled
        exact ⟨_, step_enter call held, balanced.put_same ok settled
          (by simp [Shard.claimed, Holder.reserved, held]), rfl⟩
      · exact ⟨server, step_of_held (by simp) held, balanced, rfl⟩
  | take conn budget =>
      by_cases held : (server.shards index).holder = .free
      · simp only [Shard.Settled, held] at settled
        obtain ⟨hub, taken, ran, hubOk, same⟩ := Hub.takeOutbound_count ok conn budget
        let taking : Shard :=
          { server.shards index with state := { (server.shards index).state with hub } }
        have stays : taking.Settled := by
          simp only [Shard.Settled, taking, held]
          exact same.trans settled
        refine ⟨server.put index taking, ?_, balanced.put_same hubOk stays rfl, rfl⟩
        rw [step_take conn budget held, ShardState.takeOutbound, ran]
        rfl
      · exact ⟨server, step_of_held (by simp) held, balanced, rfl⟩
  | remove conn =>
      by_cases held : (server.shards index).holder = .free
      · simp only [Shard.Settled, held] at settled
        let removed : Shard := { server.shards index with
          state := (server.shards index).state.removeHandle conn }
        have stays : removed.Settled := by
          simp only [Shard.Settled, removed, held]
          exact settled
        exact ⟨server.put index removed, step_remove conn held,
          balanced.put_same ok stays rfl, rfl⟩
      · exact ⟨server, step_of_held (by simp) held, balanced, rfl⟩

theorem run (balanced : server.Balanced) (small : server.maxAccounts < 2 ^ 64)
    (moves : List (Fin count × ServerMove)) :
    ∃ server', server.run moves = .ok server' ∧ server'.Balanced ∧
      server'.maxAccounts = server.maxAccounts := by
  induction moves generalizing server with
  | nil => exact ⟨server, rfl, balanced, rfl⟩
  | cons entry rest ih =>
      obtain ⟨index, move⟩ := entry
      obtain ⟨next, stepped, nextBalanced, sameMax⟩ := balanced.step small index move
      obtain ⟨final, ran, finalBalanced, finalMax⟩ := ih nextBalanced (sameMax ▸ small)
      exact ⟨final, by simp [Server.run, stepped, ran], finalBalanced,
        finalMax.trans sameMax⟩

end Balanced

end Server

/-- What holds of the count of accounts, and of the accounts behind it. -/
structure Server.Counted {count : Nat} (server : Server count) : Prop where
  /-- what the shards recorded, and what connects in progress have reserved -/
  counted : server.accounts = ∑ index, (server.shards index).state.accounts +
    ∑ index, (server.shards index).holder.reserved
  bounded : server.accounts ≤ server.maxAccounts
  /-- what a call is about to give back was counted -/
  no_underflow : ∀ index result reserved,
    (server.shards index).holder = .called result reserved →
      (server.shards index).state.accounts + reserved -
        (server.shards index).state.accountCount ≤ server.accounts
  total_le : ∑ index, (server.shards index).state.accountCount ≤ server.maxAccounts
  total_eq : (∀ index, (server.shards index).holder = .free) →
    server.accounts = ∑ index, (server.shards index).state.accountCount

theorem Server.Balanced.toCounted [Codec] {count : Nat} {server : Server count}
    (balanced : server.Balanced) : server.Counted where
  counted := by
    rw [balanced.counted, ← Finset.sum_add_distrib]
    rfl
  bounded := balanced.bounded
  no_underflow index result reserved called := by
    have claimed := balanced.claimed_le index
    simp only [Shard.claimed, called, Holder.reserved] at claimed
    omega
  total_le :=
    calc
      ∑ index, (server.shards index).state.accountCount ≤
          ∑ index, (server.shards index).claimed :=
        Finset.sum_le_sum fun index _ => (balanced.settled index).count_le
      _ = server.accounts := balanced.counted.symm
      _ ≤ server.maxAccounts := balanced.bounded
  total_eq free := by
    rw [balanced.counted]
    refine Finset.sum_congr rfl fun index _ => ?_
    have settled := balanced.settled index
    simp only [Shard.Settled, free index] at settled
    simp [Shard.claimed, Holder.reserved, free index, settled]

theorem Server.balanced_start [Codec] {count : Nat} {limits : Limits} {seed : UInt64}
    {hubs : Fin count → Hub}
    (accepted : ∀ index, Hub.withIdSpace limits.ofShard (seed + .ofNat index.val)
      (.ofNat index.val) = .ok (hubs index)) :
    (Server.start limits hubs).Balanced where
  hub_ok index := (ok_withIdSpace (accepted index)).1
  settled index := by
    obtain ⟨-, -, noAccounts, -⟩ := ok_withIdSpace (accepted index)
    change HashMap.len (hubs index).accounts = 0
    rw [noAccounts]
    rfl
  counted := by
    simp [start, Shard.claimed, Holder.reserved]
  bounded := Nat.zero_le _

/-- The global limit on accounts.  However calls that connect and calls that work on the
shards interleave, step by step and over any number of shards: the count is what the
shards recorded plus the places reserved, it stays within `max_accounts` and is never
taken below zero, all relays together hold no more accounts than that, and between calls
it is exactly their number. -/
theorem server_accounts_counted [Codec] {count : Nat} (limits : Limits) (seed : UInt64)
    (hubs : Fin count → Hub)
    (accepted : ∀ index, Hub.withIdSpace limits.ofShard (seed + .ofNat index.val)
      (.ofNat index.val) = .ok (hubs index))
    (small : limits.maxAccounts < 2 ^ 64) (moves : List (Fin count × ServerMove)) :
    ∃ server, (Server.start limits hubs).run moves = .ok server ∧ server.Counted ∧
      server.maxAccounts = limits.maxAccounts := by
  obtain ⟨server, ran, balanced, sameMax⟩ :=
    (Server.balanced_start accepted).run small moves
  exact ⟨server, ran, balanced.toCounted, sameMax⟩

theorem server_accounts_counted_two :
    let hubs : Fin 2 → Hub :=
      ![⟨Limits.ofShard {}, ∅, ∅, 1, 7, 0⟩, ⟨Limits.ofShard {}, ∅, ∅, 2 ^ 48 + 1, 8, 0⟩]
    let arrival : HelloArrival :=
      ⟨.stored, [9], { protocol := 1, principal := [1], role := 2 }, 0, 0, .unknown⟩
    ∃ server, (Server.start {} hubs).run
        [(0, .enter (.connect arrival)), (0, .advance), (1, .enter (.onShard [])),
          (0, .advance), (1, .advance), (0, .advance)] = .ok server ∧
      server.Counted := by
  intro hubs arrival
  obtain ⟨server, ran, counted, -⟩ := server_accounts_counted {} 7 hubs
    (by intro index; fin_cases index <;> rfl) (by decide)
    [(0, .enter (.connect arrival)), (0, .advance), (1, .enter (.onShard [])),
      (0, .advance), (1, .advance), (0, .advance)]
  exact ⟨server, ran, counted⟩

end WindowMlHub
