import WindowMlHub.RelayRuns
import Mathlib.Logic.Function.Basic

/-!
# The shards of the server

`Shared` of the hub's `lib.rs`: several relays, each with the wake-up handles of the
connections it holds, each under a lock of its own, and one count of accounts for all
of them.  A new account reserves a place in that count before it is admitted, and every
call brings the count in line with its shard.

The operations on the count are single steps, and calls on different shards interleave
between them.  What the holder of a lock does to its own shard nobody else can see, so
it is part of the step before it.
-/

namespace WindowMlHub

open CheckedEvaluation HashTables

/-- A connection's wake-up and, once the relay has closed it, the frame to send before
the socket is closed. -/
structure Handle where
  notified : Bool := false
  closing : Option Frame := none
  deriving DecidableEq

structure ShardState where
  hub : Hub
  handles : HashMap ConnId Handle := ∅
  /-- this shard's contribution to the count of accounts, as last reconciled -/
  accounts : Nat := 0

/-- A call that `Shared::on_shard` makes on a shard's relay. -/
inductive ShardCall
  | receive (conn : ConnId) (frame : Frame)
  | close (conn : ConnId) (frame : Option Frame)
  | deliver (conn : ConnId) (frame : Frame)
  | charge (conn : ConnId) (bytes nowMs : Nat)
  deriving DecidableEq

/-- The relay's own call. -/
def ShardCall.toCall : ShardCall → Call
  | receive conn frame => .receive conn frame
  | close conn frame => .close conn frame
  | deliver conn frame => .deliver conn frame
  | charge conn bytes nowMs => .charge conn bytes nowMs

/-- The arguments of `Shared::connect`, and the clocks it reads. -/
structure HelloArrival where
  order : HashOrder
  account : AccountId
  hello : Hello
  nowMs : Nat
  monoMs : Nat
  revoker : Revoker

/-- The calls of a function that `on_shard` runs, with all that they asked for. -/
def Hub.callAll [Codec] (hub : Hub) :
    List (HashOrder × ShardCall) → Checked (Hub × List Action)
  | [] => .ok (hub, [])
  | (order, call) :: rest => do
      let (hub, reply) ← hub.apply order call.toCall
      let (hub, actions) ← hub.callAll rest
      return (hub, reply.actions ++ actions)

namespace ShardState

/-- `account_count` of the shard's relay. -/
def accountCount (state : ShardState) : Nat :=
  HashMap.len state.hub.accounts

/-- Wake the task of a connection, if its handle is still there. -/
def wake (state : ShardState) (conn : ConnId) : ShardState :=
  match state.handles.lookup conn with
  | none => state
  | some handle =>
      { state with handles := state.handles.insert conn { handle with notified := true } }

/-- What `on_shard` does about an action. -/
def act (state : ShardState) : Action → ShardState
  | .wake conn => state.wake conn
  | .close conn frame =>
      match state.handles.lookup conn with
      | none => state
      | some _ => { state with handles := state.handles.insert conn ⟨true, some frame⟩ }

/-- What `connect` does about an action. -/
def actJoined (state : ShardState) : Action → ShardState
  | .wake conn => state.wake conn
  | .close _ _ => state

/-- The part of `Shared::on_shard` that works on the shard. -/
def onShard [Codec] (state : ShardState) (calls : List (HashOrder × ShardCall)) :
    Checked ShardState := do
  let (hub, actions) ← state.hub.callAll calls
  return actions.foldl act { state with hub }

/-- The part of `Shared::connect` that works on the shard, once the account has its
place in the count. -/
def connect [Codec] (state : ShardState) (arrival : HelloArrival) :
    Checked (ShardState × Except Frame ConnId) := do
  match ← state.hub.connect arrival.order arrival.account arrival.hello
      arrival.nowMs arrival.monoMs arrival.revoker with
  | (hub, .error frame) => return ({ state with hub }, .error frame)
  | (hub, .ok (id, actions)) =>
      let joined := { state with hub, handles := state.handles.insert id {} }
      return (actions.foldl actJoined joined, .ok id)

/-- What the writer of a connection takes from its queue. -/
def takeOutbound [Codec] (state : ShardState) (conn : ConnId) (budget : Nat) :
    Checked ShardState := do
  let (hub, _) ← state.hub.takeOutbound conn budget
  return { state with hub }

/-- A connection has ended. -/
def removeHandle (state : ShardState) (conn : ConnId) : ShardState :=
  { state with handles := state.handles.erase conn }

end ShardState

/-! ## The count of accounts -/

/-- `AtomicUsize::fetch_add`, which wraps. -/
def fetchAdd (count amount : Nat) : Nat :=
  (count + amount) % 2 ^ 64

/-- `AtomicUsize::fetch_sub`, which wraps. -/
def fetchSub (count amount : Nat) : Nat :=
  (count + 2 ^ 64 - amount) % 2 ^ 64

/-- `reconcile_accounts`: the count and the shard afterwards. -/
def reconcileAccounts (count : Nat) (state : ShardState) (reserved : Nat) :
    Nat × ShardState :=
  let now := state.accountCount
  let change : Int := now - state.accounts - reserved
  let count :=
    if change > 0 then fetchAdd count change.toNat
    else if change < 0 then fetchSub count change.natAbs
    else count
  (count, { state with accounts := now })

/-- A call of the server that takes a shard's lock and reconciles its accounts. -/
inductive ServerCall
  | connect (arrival : HelloArrival)
  | onShard (calls : List (HashOrder × ShardCall))

/-- What `Shared::connect` returns; `on_shard` returns nothing of its own. -/
abbrev ServerResult := Option (Except Frame ConnId)

/-- How far the call that holds a shard's lock has come. -/
inductive Holder
  | free
  | entered (call : ServerCall)
  /-- its account exists, or has a place reserved -/
  | cleared (arrival : HelloArrival) (reserved : Nat)
  /-- the relay was called, and the accounts are to be reconciled -/
  | called (result : ServerResult) (reserved : Nat)

/-- The places that the holder of a lock has reserved. -/
def Holder.reserved : Holder → Nat
  | .cleared _ reserved => reserved
  | .called _ reserved => reserved
  | _ => 0

structure Shard where
  state : ShardState
  holder : Holder := .free

/-- The shards, and the count that `max_accounts` bounds. -/
structure Server (count : Nat) where
  maxAccounts : Nat
  accounts : Nat := 0
  shards : Fin count → Shard

/-- A step of the server: a call takes the lock of a shard, the holder of a lock goes
on, a writer takes from a queue, or a connection that ended removes its handle. -/
inductive ServerMove
  | enter (call : ServerCall)
  | advance
  | take (conn : ConnId) (budget : Nat)
  | remove (conn : ConnId)

/-- What a new account is told when there is no place for it. -/
def relayIsFull : Frame :=
  errorFrame .limit 0 "relay is full"

namespace Server

variable {count : Nat}

def put (server : Server count) (index : Fin count) (shard : Shard) : Server count :=
  { server with shards := Function.update server.shards index shard }

/-- `fetch_update` of `connect`: the count with one place more, if there is one. -/
def reserve (server : Server count) : Option Nat :=
  if server.accounts < server.maxAccounts then some (server.accounts + 1) else none

/-- The next step of the call that holds a lock, and its result if it ended. -/
def advance [Codec] (server : Server count) (index : Fin count) :
    Checked (Server count × ServerResult) :=
  let state := (server.shards index).state
  match (server.shards index).holder with
  | .free => .ok (server, none)
  | .entered (.connect arrival) =>
      if arrival.account ∈ state.hub.accounts then
        .ok (server.put index ⟨state, .cleared arrival 0⟩, none)
      else
        match server.reserve with
        | none => .ok (server.put index ⟨state, .free⟩, some (.error relayIsFull))
        | some accounts =>
            .ok ({ server with accounts }.put index ⟨state, .cleared arrival 1⟩, none)
  | .entered (.onShard calls) => do
      let state ← state.onShard calls
      return (server.put index ⟨state, .called none 0⟩, none)
  | .cleared arrival reserved => do
      let (state, result) ← state.connect arrival
      return (server.put index ⟨state, .called (some result) reserved⟩, none)
  | .called result reserved =>
      let (accounts, state) := reconcileAccounts server.accounts state reserved
      .ok ({ server with accounts }.put index ⟨state, .free⟩, result)

/-- One step at a shard.  Whoever needs a lock that is held waits. -/
def step [Codec] (server : Server count) (index : Fin count) (move : ServerMove) :
    Checked (Server count) :=
  let shard := server.shards index
  match move, shard.holder with
  | .advance, _ => do
      let (server, _) ← server.advance index
      return server
  | .enter call, .free => .ok (server.put index { shard with holder := .entered call })
  | .take conn budget, .free => do
      let state ← shard.state.takeOutbound conn budget
      return server.put index { shard with state }
  | .remove conn, .free =>
      .ok (server.put index { shard with state := shard.state.removeHandle conn })
  | _, _ => .ok server

/-- Steps one after another. -/
def run [Codec] (server : Server count) :
    List (Fin count × ServerMove) → Checked (Server count)
  | [] => .ok server
  | (index, move) :: rest => do
      let server ← server.step index move
      server.run rest

/-- The server as `serve` makes it, with these relays. -/
def start (limits : Limits) (hubs : Fin count → Hub) : Server count where
  maxAccounts := limits.maxAccounts
  shards index := ⟨{ hub := hubs index }, .free⟩

end Server

/-- The limits of a shard's relay: the server bounds the accounts of all of them. -/
def Limits.ofShard (limits : Limits) : Limits :=
  { limits with maxAccounts := 2 ^ 64 - 1 }

end WindowMlHub
