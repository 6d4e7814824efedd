import WindowMlHub.RelayQueue

/-!
# The relay

`lib.rs` of the relay crate: the hub's routing core, with no IO.  Accounts,
presence, streams and their rings, subscriptions and per-connection queues, as
one state with six public calls.  Every `expect`, map indexing and unsigned
subtraction of the source is a point at which `Checked` evaluation can fail, and
every loop runs on fuel.

The hash tables of the source are walked in an order that nothing determines, so
every call takes the order it happens to see as an argument.
-/

namespace WindowMlHub

open CheckedEvaluation HashTables

/-- An account, as the server resolved it.  Opaque to the relay. -/
abbrev AccountId := Bytes

/-- A connection's handle, unique for the life of this relay. -/
abbrev ConnId := Nat

/-- The least time between two `Error{THROTTLED}` notices to one connection. -/
def throttleNoticeMs : Nat := 10000

/-- The shortest wait worth telling a connection about. -/
def throttleNoticeMinWaitMs : Nat := 100

/-- The largest integer a double holds exactly. -/
def maxExactInADouble : UInt64 := 0x1fffffffffffff

/-- The most a chain may be, to be carried in presence. -/
def maxPresenceChainBytes : Nat := 2 * 1100

/-- The protocol major this relay speaks. -/
def protocolMajor : Nat := 1

/-- `Welcome.features`: this hub keeps a record of each account's signer. -/
def featureRevoker : String := "revoker"

/-- The chain as presence will carry it, or nothing at all. -/
def presentable (chain : List Certificate) : List Certificate :=
  let total := (chain.map fun certificate =>
    certificate.body.length + certificate.signature.length).sum
  if chain.length > 2 ∨ total > maxPresenceChainBytes then [] else chain

/-- What the server can say about an account's revocation signer. -/
inductive Revoker
  | unknown
  | none
  | known (certificate : Certificate)
  deriving DecidableEq, Repr

/-- What the server must do after a call. -/
inductive Action
  /-- frames are queued for this connection -/
  | wake (conn : ConnId)
  /-- send this error frame, then close; the relay has forgotten it -/
  | close (conn : ConnId) (frame : Frame)
  deriving DecidableEq, Repr

/-- What `take_outbound` took. -/
structure Taken where
  frames : List Frame := []
  more : Bool := false
  deriving DecidableEq, Repr

structure Conn where
  principal : Bytes
  chain : List Certificate
  out : Outbound
  subs : HashSet StreamKey
  /-- a `Wake` was sent and the queue has not been seen empty since -/
  armed : Bool
  throttleNoticeMs : Option Nat

structure Stream where
  key : StreamKey
  /-- absent until the first publish decides the stream's kind -/
  ring : Option Ring
  subscribers : HashSet ConnId

structure Account where
  conns : HashMap ConnId Conn := ∅
  online : HashMap Bytes (ConnId × Role) := ∅
  streams : HashMap StreamKey Stream := ∅
  ringBytes : Nat := 0
  rate : Bucket := {}

/-- The relay's whole state. -/
structure Hub where
  limits : Limits
  accounts : HashMap AccountId Account
  connAccount : HashMap ConnId AccountId
  nextConn : ConnId
  epochState : UInt64
  clock : Nat

/-- Actions collected during one call.  `close` is a stack, newest first. -/
structure Effects where
  wake : List ConnId := []
  close : List (ConnId × Frame) := []
  /-- frames queued for any connection -/
  queued : Nat := 0

/-- The order in which one call sees each hash table it walks. -/
structure HashOrder where
  online : Walk (Σ _ : Bytes, ConnId × Role)
  conns : Walk ConnId
  subscribers : Walk ConnId
  subs : Walk StreamKey
  streams : Walk (Σ _ : StreamKey, Stream)

/-- Every table in storage order. -/
def HashOrder.stored : HashOrder :=
  ⟨.stored _, .stored _, .stored _, .stored _, .stored _⟩

/-- An error frame. -/
def errorFrame (code : Code) (reference : Nat) (message : String) : Frame :=
  .of (.error ⟨code.toInt, reference, message⟩)

/-- What a connection too far behind is told. -/
def fellBehind : Frame :=
  errorFrame .slowConsumer 0 "fell behind"

namespace Effects

/-- `Effects::wake`. -/
def wakeUp (fx : Effects) (conn : ConnId) : Effects :=
  if conn ∈ fx.wake then fx else { fx with wake := fx.wake ++ [conn] }

/-- `fx.close.push((conn, frame))`. -/
def closing (fx : Effects) (conn : ConnId) (frame : Frame) : Effects :=
  { fx with close := (conn, frame) :: fx.close }

end Effects

namespace Conn

/-- Count a queued frame, and wake the connection unless a wake is already
outstanding. -/
def arm (conn : Conn) (id : ConnId) (fx : Effects) : Conn × Effects :=
  let fx := { fx with queued := fx.queued + 1 }
  if conn.armed then
    (conn, fx)
  else
    ({ conn with armed := true }, fx.wakeUp id)

/-- What every caller does with the answer of a push: arm the connection, or
have it closed. -/
def settle (conn : Conn) (id : ConnId) (pushed : Outbound × Pushed)
    (fx : Effects) : Conn × Effects :=
  match pushed.2 with
  | .ok _ => arm { conn with out := pushed.1 } id fx
  | .error _ => ({ conn with out := pushed.1 }, fx.closing id fellBehind)

end Conn

/-- Take a subscriber off a stream, and the stream off its account when nothing
is left of it. -/
def leaveStream (conn : ConnId) (streams : HashMap StreamKey Stream)
    (key : StreamKey) : HashMap StreamKey Stream :=
  match streams.lookup key with
  | none => streams
  | some stream =>
      let subscribers := stream.subscribers.erase conn
      if HashMap.len subscribers = 0 ∧ stream.ring.isNone then
        streams.erase key
      else
        streams.insert key { stream with subscribers }

/-- What a subscription is answered with: the backfill, the stream's kind, epoch
and newest seq, and whether the backfill is truncated. -/
def Stream.history (stream : Stream) (since : Option Position) :
    List Entry × Kind × Nat × Nat × Bool :=
  match stream.ring with
  | some ring =>
      let backfill := ring.backfill since
      (backfill.entries, ring.kind, ring.epoch, ring.seq, backfill.truncated)
  | none => ([], .unspecified, 0, 0,
      since.any fun position => decide (position.seq > 0))

/-- Push a published entry to each subscriber in turn. -/
def fanOut [Codec] (limits : Limits) (key : StreamKey) (kind : Kind)
    (epoch : Nat) (entry : Entry) :
    List ConnId → HashMap ConnId Conn → Effects →
      Checked (HashMap ConnId Conn × Effects)
  | [], conns, fx => .ok (conns, fx)
  | id :: rest, conns, fx =>
      match conns.lookup id with
      | none => fanOut limits key kind epoch entry rest conns fx
      | some conn => do
          let pushed ← conn.out.pushPublished key kind epoch entry limits
          let (conn, fx) := conn.settle id pushed fx
          fanOut limits key kind epoch entry rest (conns.insert id conn) fx

/-- Push a backfill's entries, stopping at the first that does not fit. -/
def pushBackfill [Codec] (limits : Limits) (key : StreamKey) (kind : Kind)
    (epoch : Nat) :
    List Entry → Outbound → Nat → Checked (Outbound × Nat × Pushed)
  | [], out, queued => .ok (out, queued, .ok ())
  | entry :: rest, out, queued => do
      let (out, pushed) ← out.pushPublished key kind epoch entry limits
      match pushed with
      | .ok _ => pushBackfill limits key kind epoch rest out (queued + 1)
      | .error slow => return (out, queued, .error slow)

namespace Account

/-- The ring that gives up its oldest entry: the largest, with its stream. -/
def largestRing (order : HashOrder) (acct : Account) :
    Option (StreamKey × Stream × Ring) :=
  maxByKey (fun found => found.2.2.bytes)
    ((order.streams.list acct.streams.entries).filterMap fun entry =>
      entry.2.ring.map fun ring => (entry.1, entry.2, ring))

/-- Keep an account's retained payload under its budget by taking from its
largest ring. -/
def enforceRingBudget [Codec] (order : HashOrder) (budget : Nat) :
    Nat → Account → Checked Account
  | 0, _ => .error .hang
  | fuel + 1, acct =>
      if acct.ringBytes > budget then
        match acct.largestRing order with
        | some (key, stream, ring) =>
            if ring.entries = [] then
              .ok acct
            else do
              let (ring, freed) ← ring.evictOldest
              let ringBytes ← sub acct.ringBytes freed
              enforceRingBudget order budget fuel { acct with
                ringBytes
                streams := acct.streams.insert key
                  { stream with ring := some ring } }
        | none => .ok acct
      else
        .ok acct

/-- How many entries all rings retain together: the budget loop cannot run
longer. -/
def retained (acct : Account) : Nat :=
  HashMap.total (fun stream : Stream =>
    (stream.ring.map fun ring => ring.entries.length).getD 0) acct.streams

end Account

/-- The splitmix64 output function. -/
def splitmix64 (state : UInt64) : UInt64 :=
  let z := (state ^^^ (state >>> 30)) * 0xbf58476d1ce4e5b9
  let z := (z ^^^ (z >>> 27)) * 0x94d049bb133111eb
  z ^^^ (z >>> 31)

/-- The loop of `next_epoch`: splitmix64 over a seeded counter, never 0. -/
def nextEpochLoop : Nat → UInt64 → Checked (UInt64 × Nat)
  | 0, _ => .error .hang
  | fuel + 1, state =>
      let state := state + 0x9e3779b97f4a7c15
      let z := splitmix64 state &&& maxExactInADouble
      if z ≠ 0 then .ok (state, z.toNat) else nextEpochLoop fuel state

namespace Hub

/-- A relay that is shard `shard` of several, or why these limits cannot
work. -/
def withIdSpace (limits : Limits) (epochSeed : UInt64) (shard : UInt16) :
    Except String Hub :=
  if limits.ringSessionEvents > limits.queueSessionEvents then
    .error "a session-events backfill must fit in a connection's queue"
  else if limits.accountBytesPerSecond = 0 ∨ limits.accountBurstBytes = 0 then
    .error "an account's work rate and burst must be positive"
  else if limits.maxPayloadBytes ≥ limits.maxFrameBytes then
    .error "a payload must fit in a frame with its envelope"
  else
    .ok {
      limits
      accounts := ∅
      connAccount := ∅
      nextConn := shard.toNat * 2 ^ 48 + 1
      epochState := epochSeed
      clock := 0 }

/-- Write an account's record back. -/
def setAccount (hub : Hub) (account : AccountId) (acct : Account) : Hub :=
  { hub with accounts := hub.accounts.insert account acct }

@[simp]
theorem setAccount_limits (hub : Hub) (account : AccountId)
    (acct : Account) : (hub.setAccount account acct).limits = hub.limits :=
  rfl

@[simp]
theorem setAccount_connAccount (hub : Hub) (account : AccountId)
    (acct : Account) :
    (hub.setAccount account acct).connAccount = hub.connAccount :=
  rfl

@[simp]
theorem setAccount_nextConn (hub : Hub) (account : AccountId)
    (acct : Account) :
    (hub.setAccount account acct).nextConn = hub.nextConn :=
  rfl

/-- The record of a connection of an account. -/
def conn? (hub : Hub) (account : AccountId) (conn : ConnId) : Option Conn :=
  (hub.accounts.lookup account).bind fun acct => acct.conns.lookup conn

/-- `principal_of`. -/
def principalOf (hub : Hub) (account : AccountId) (conn : ConnId) :
    Option Bytes :=
  (hub.conn? account conn).map (·.principal)

def enqueue [Codec] (hub : Hub) (account : AccountId) (conn : ConnId)
    (frame : Frame) (fx : Effects) : Hub × Effects :=
  match hub.accounts.lookup account with
  | none => (hub, fx)
  | some acct =>
      match acct.conns.lookup conn with
      | none => (hub, fx)
      | some c =>
          let (c, fx) := c.settle conn (c.out.pushFrame frame hub.limits) fx
          (hub.setAccount account
            { acct with conns := acct.conns.insert conn c }, fx)

/-- `for other in others { self.enqueue(..) }` -/
def enqueueAll [Codec] (account : AccountId) (frame : Frame) :
    List ConnId → Hub → Effects → Hub × Effects
  | [], hub, fx => (hub, fx)
  | other :: rest, hub, fx =>
      let (hub, fx) := hub.enqueue account other frame fx
      enqueueAll account frame rest hub fx

/-- Remove a connection and tell its account's other connections it went
offline. -/
def forget [Codec] (order : HashOrder) (hub : Hub) (conn : ConnId)
    (fx : Effects) : Hub × Effects :=
  match hub.connAccount.lookup conn with
  | none => (hub, fx)
  | some account =>
      let hub := { hub with connAccount := hub.connAccount.erase conn }
      match hub.accounts.lookup account with
      | none => (hub, fx)
      | some acct =>
          match acct.conns.lookup conn with
          | none => (hub, fx)
          | some c =>
              let conns := acct.conns.erase conn
              let (online, role) :=
                match acct.online.lookup c.principal with
                | some (id, role) =>
                    if id = conn then
                      (acct.online.erase c.principal, role)
                    else
                      (acct.online, .unspecified)
                | none => (acct.online, .unspecified)
              let streams := (order.subs.list c.subs.keys).foldl
                (leaveStream conn) acct.streams
              let others := order.conns.list conns.keys
              let hub :=
                if HashMap.len conns = 0 ∧ HashMap.len streams = 0 then
                  { hub with accounts := hub.accounts.erase account }
                else
                  hub.setAccount account { acct with conns, online, streams }
              let presence : Presence :=
                ⟨c.principal, role.toInt, false, []⟩
              enqueueAll account (.of (.presence presence)) others hub fx

/-- The loop of `finish`: apply closes, each of which may cascade into presence
for others. -/
def finishLoop [Codec] (order : HashOrder) :
    Nat → Hub → Effects → List (ConnId × Frame) →
      Checked (Hub × Effects × List (ConnId × Frame))
  | 0, _, _, _ => .error .hang
  | fuel + 1, hub, fx, closed =>
      match fx.close with
      | [] => .ok (hub, fx, closed)
      | (conn, frame) :: rest =>
          let fx := { fx with close := rest }
          if closed.any (fun entry => entry.1 = conn) ∨
              conn ∉ hub.connAccount then
            finishLoop order fuel hub fx closed
          else
            let (hub, fx) := hub.forget order conn fx
            finishLoop order fuel hub fx (closed ++ [(conn, frame)])

/-- The actions of a call, from the wakes it collected and the connections it
closed. -/
def actionsOf (wake : List ConnId) (closed : List (ConnId × Frame)) :
    List Action :=
  (wake.filter fun conn => !closed.any fun entry => entry.1 = conn).map .wake ++
    closed.map fun entry => .close entry.1 entry.2

/-- Apply closes and produce the actions.  Each of the `n` connections is
forgotten at most once and then adds fewer than `n` entries. -/
def finish [Codec] (order : HashOrder) (hub : Hub) (fx : Effects) :
    Checked (Hub × List Action) := do
  let known := HashMap.len hub.connAccount
  let (hub, fx, closed) ←
    finishLoop order (fx.close.length + known * known + 1) hub fx []
  return (hub, actionsOf fx.wake closed)

/-- A fresh ring epoch. -/
def nextEpoch (hub : Hub) : Checked (Hub × Nat) := do
  let (epochState, epoch) ← nextEpochLoop (2 ^ 11 + 1) hub.epochState
  return ({ hub with epochState }, epoch)

/-- Make sure `key` has a stream entry, evicting the least recently published
stream nobody subscribes to when the account is at its limit.  False when
nothing could be evicted. -/
def ensureStream (order : HashOrder) (hub : Hub) (account : AccountId)
    (key : StreamKey) : Checked (Hub × Bool) := do
  let acct ← expect "connection's account exists" (hub.accounts.lookup account)
  let created : Stream := ⟨key, none, ∅⟩
  if key ∈ acct.streams then
    return (hub, true)
  else if HashMap.len acct.streams ≥ hub.limits.maxStreamsPerAccount then
    let idle := (order.streams.list acct.streams.entries).filter fun entry =>
      decide (HashMap.len entry.2.subscribers = 0)
    match minByKey (fun entry =>
        (entry.2.ring.map fun ring => ring.touched).getD 0) idle with
    | none => return (hub, false)
    | some victim => do
        let freed := (victim.2.ring.map fun ring => ring.bytes).getD 0
        let ringBytes ← sub acct.ringBytes freed
        return (hub.setAccount account { acct with
            ringBytes
            streams := (acct.streams.erase victim.1).insert key created },
          true)
  else
    return (hub.setAccount account
      { acct with streams := acct.streams.insert key created }, true)

/-- The part of `publish` after the stream is known to take this kind: stamp,
retain, fan out, and keep the account's rings within their budget. -/
def publishInto [Codec] (order : HashOrder) (hub : Hub) (account : AccountId)
    (key : StreamKey) (kind : Kind) (epoch : Nat) (env : Envelope)
    (fx : Effects) : Checked (Hub × Effects) := do
  let hub := { hub with clock := hub.clock + 1 }
  let acct ← expect "connection's account exists" (hub.accounts.lookup account)
  let stream ← expect "ensured above" (acct.streams.lookup key)
  let ring := stream.ring.getD (.new kind epoch hub.clock)
  let (ring, published) ←
    ring.publish env (hub.limits.ringCapacity kind) hub.clock
  let ringBytes ← sub (acct.ringBytes + published.added) published.freed
  let (conns, fx) ← fanOut hub.limits stream.key kind ring.epoch
    published.entry (order.subscribers.list stream.subscribers.keys)
    acct.conns fx
  let acct := { acct with
    conns
    ringBytes
    streams := acct.streams.insert key { stream with ring := some ring } }
  let acct ← acct.enforceRingBudget order hub.limits.accountRingBytes
    (acct.retained + 1)
  return (hub.setAccount account acct, fx)

def publish [Codec] (order : HashOrder) (hub : Hub) (account : AccountId)
    (conn : ConnId) (key : StreamKey) (kind : Kind) (env : Envelope)
    (fx : Effects) : Checked (Hub × Effects) := do
  let (hub, ensured) ← hub.ensureStream order account key
  if ensured then
    let acct ← index (hub.accounts.lookup account)
    let stream ← index (acct.streams.lookup key)
    match stream.ring with
    | some ring =>
        if ring.kind ≠ kind then
          let notice :=
            errorFrame .invalid env.ref "channel already carries another kind"
          return hub.enqueue account conn notice fx
        else
          publishInto order hub account key kind 0 env fx
    | none => do
        let (hub, epoch) ← hub.nextEpoch
        publishInto order hub account key kind epoch env fx
  else
    return (hub, fx.closing conn (errorFrame .limit env.ref
      "too many streams for this account"))

def direct [Codec] (hub : Hub) (account : AccountId) (conn : ConnId)
    (target : Bytes) (env : Envelope) (fx : Effects) :
    Checked (Hub × Effects) :=
  match (hub.accounts.lookup account).bind
      fun acct => acct.online.lookup target with
  | none => .ok (hub.enqueue account conn
      (errorFrame .unavailable env.ref "recipient is not online") fx)
  | some (targetConn, _) => do
      let env := { env with sentTo := some (.principal target) }
      let acct ←
        expect "connection's account exists" (hub.accounts.lookup account)
      let c ← expect "online principals have connections"
        (acct.conns.lookup targetConn)
      let pushed := c.out.pushFrame (.of (.envelope env)) hub.limits
      let (c, fx) := c.settle targetConn pushed fx
      let hub := hub.setAccount account
        { acct with conns := acct.conns.insert targetConn c }
      match pushed.2 with
      | .ok _ => return (hub, fx)
      | .error _ =>
          let notice :=
            errorFrame .unavailable env.ref "recipient fell behind"
          return hub.enqueue account conn notice fx

/-- `on_envelope`: the client-controlled routing fields are overwritten before
anything is decided. -/
def onEnvelope [Codec] (order : HashOrder) (hub : Hub) (account : AccountId)
    (conn : ConnId) (env : Envelope) (fx : Effects) :
    Checked (Hub × Effects) :=
  if env.payload.length > hub.limits.maxPayloadBytes then
    .ok (hub, fx.closing conn (errorFrame .limit env.ref "payload too large"))
  else if env.coalesce.length > hub.limits.maxCoalesceBytes then
    .ok (hub,
      fx.closing conn (errorFrame .limit env.ref "coalesce key too long"))
  else
    match hub.principalOf account conn with
    | none => .ok (hub, fx)
    | some sender =>
        let kind := Kind.ofInt env.kind
        let env := { env with sender, seq := 0, epoch := 0 }
        match env.sentTo, kind with
        | some (.channel channel), .sessionEvents =>
            if channel = [] ∨ channel.length > hub.limits.maxIdBytes then
              .ok (hub.enqueue account conn
                (errorFrame .invalid env.ref "bad channel") fx)
            else
              publish order hub account conn ⟨sender, channel⟩ kind
                { env with coalesce := [] } fx
        | some (.channel channel), .telemetry =>
            if channel = [] ∨ channel.length > hub.limits.maxIdBytes then
              .ok (hub.enqueue account conn
                (errorFrame .invalid env.ref "bad channel") fx)
            else
              publish order hub account conn ⟨sender, channel⟩ kind env fx
        | some (.principal target), .command
        | some (.principal target), .commandResult
        | some (.principal target), .bulk =>
            hub.direct account conn target
              { env with coalesce := [], sentTo := none } fx
        | _, .unspecified => .ok (hub.enqueue account conn
            (errorFrame .unsupported env.ref "unknown kind") fx)
        | _, _ => .ok (hub.enqueue account conn
            (errorFrame .invalid env.ref
              "kind does not match its address") fx)

/-- The part of `on_subscribe` after the stream is ensured: replace the
subscription, push the backfill, and mark its end. -/
def subscribeTo [Codec] (hub : Hub) (account : AccountId) (conn : ConnId)
    (key : StreamKey) (since : Option Position) (fx : Effects) :
    Checked (Hub × Effects) := do
  let acct ← expect "connection's account exists" (hub.accounts.lookup account)
  let stream ← expect "ensured above" (acct.streams.lookup key)
  let c ← expect "receiving connection exists" (acct.conns.lookup conn)
  let purged ← c.out.purgeStream key
  let (entries, kind, epoch, seq, truncated) := stream.history since
  let (out, queued, pushed) ←
    pushBackfill hub.limits stream.key kind epoch entries purged fx.queued
  let fx := { fx with queued }
  let hub := hub.setAccount account { acct with
    conns := acct.conns.insert conn
      { c with out, subs := c.subs.insert key () }
    streams := acct.streams.insert key
      { stream with subscribers := stream.subscribers.insert conn () } }
  match pushed with
  | .error _ => return (hub, fx.closing conn fellBehind)
  | .ok _ =>
      let done : Backfilled := ⟨some key.toRef, epoch, seq, truncated⟩
      return hub.enqueue account conn (.of (.backfilled done)) fx

def onSubscribe [Codec] (order : HashOrder) (hub : Hub) (account : AccountId)
    (conn : ConnId) (request : Subscribe) (fx : Effects) :
    Checked (Hub × Effects) :=
  match request.stream with
  | none => .ok (hub.enqueue account conn
      (errorFrame .invalid 0 "subscribe needs a stream") fx)
  | some stream =>
      if stream.publisher = [] ∨
          stream.publisher.length > hub.limits.maxIdBytes ∨
          stream.channel = [] ∨
          stream.channel.length > hub.limits.maxIdBytes then
        .ok (hub.enqueue account conn (errorFrame .invalid 0 "bad stream") fx)
      else do
        let key : StreamKey := ⟨stream.publisher, stream.channel⟩
        let acct ← index (hub.accounts.lookup account)
        let already := (acct.conns.lookup conn).any fun c =>
          decide (key ∈ c.subs)
        let count := ((acct.conns.lookup conn).map fun c =>
          HashMap.len c.subs).getD 0
        if !already ∧ count ≥ hub.limits.maxSubscriptionsPerConnection then
          return (hub, fx.closing conn
            (errorFrame .limit 0 "too many subscriptions"))
        else
          let (hub, ensured) ← hub.ensureStream order account key
          if ensured then
            hub.subscribeTo account conn key request.since fx
          else
            return (hub, fx.closing conn
              (errorFrame .limit 0 "too many streams for this account"))

def unsubscribe [Codec] (hub : Hub) (account : AccountId) (conn : ConnId)
    (key : StreamKey) : Checked Hub :=
  match hub.accounts.lookup account with
  | none => .ok hub
  | some acct => do
      let conns ←
        match acct.conns.lookup conn with
        | none => pure acct.conns
        | some c => do
            let out ← c.out.purgeStream key
            pure (acct.conns.insert conn
              { c with out, subs := c.subs.erase key })
      return hub.setAccount account
        { acct with conns, streams := leaveStream conn acct.streams key }

/-- The checks of `connect` that come before the work budget. -/
def refuseHello (hub : Hub) (account : AccountId) (hello : Hello) :
    Option Frame :=
  if hello.protocol < protocolMajor then
    some (errorFrame .unsupported 0 "protocol version not supported")
  else if Role.ofInt hello.role = .unspecified ∨ hello.principal = [] ∨
      hello.principal.length > hub.limits.maxIdBytes ∨ account = [] ∨
      account.length > hub.limits.maxIdBytes then
    some (errorFrame .invalid 0 "hello needs a principal, a role and an account")
  else if account ∉ hub.accounts ∧
      HashMap.len hub.accounts ≥ hub.limits.maxAccounts then
    some (errorFrame .limit 0 "relay is full")
  else
    match hub.accounts.lookup account with
    | none => none
    | some acct =>
        if hello.principal ∈ acct.online then
          some (errorFrame .unauthenticated 0 "principal already connected")
        else if HashMap.len acct.conns ≥ hub.limits.maxConnectionsPerAccount then
          some (errorFrame .limit 0 "too many connections for this account")
        else
          none

/-- The `Welcome` a new connection is sent. -/
def welcome (hub : Hub) (nowMs : Nat) (revoker : Revoker) : Welcome :=
  let (certificate, features) :=
    match revoker with
    | .unknown => (none, [])
    | .none => (none, [featureRevoker])
    | .known certificate => (some certificate, [featureRevoker])
  ⟨protocolMajor, nowMs, some hub.limits.announce, certificate, features⟩

/-- Who is online already, as the new connection is told. -/
def snapshot (order : HashOrder) (acct : Account) : List Frame :=
  (order.online.list acct.online.entries).map fun entry =>
    let chain := ((acct.conns.lookup entry.2.1).map (·.chain)).getD []
    .of (.presence ⟨entry.1, entry.2.2.toInt, true, chain⟩)

/-- The part of `connect` after every check has passed. -/
def connectChecked [Codec] (order : HashOrder) (hub : Hub) (account : AccountId)
    (hello : Hello) (nowMs monoMs : Nat) (revoker : Revoker) :
    Checked (Hub × Except Frame (ConnId × List Action)) := do
  let acct := (hub.accounts.lookup account).getD {}
  let rate := (acct.rate.refill monoMs hub.limits.accountBytesPerSecond
    hub.limits.accountBurstBytes).spend connectCostBytes
  let id := hub.nextConn
  -- a failed push of the greeting is ignored, and the frame is queued anyway
  let out := (.of (.welcome (hub.welcome nowMs revoker)) ::
    snapshot order acct).foldl
      (fun out frame => (out.pushFrame frame hub.limits).1) ({} : Outbound)
  let role := Role.ofInt hello.role
  let (conn, fx) := Conn.arm
    ⟨hello.principal, presentable hello.chain, out, ∅, false, none⟩ id {}
  let others := order.conns.list acct.conns.keys
  let hub := { hub with
    accounts := hub.accounts.insert account { acct with
      rate
      conns := acct.conns.insert id conn
      online := acct.online.insert hello.principal (id, role) }
    connAccount := hub.connAccount.insert id account
    nextConn := id + 1 }
  let presence : Presence :=
    ⟨hello.principal, role.toInt, true, presentable hello.chain⟩
  let (hub, fx) := enqueueAll account (.of (.presence presence)) others hub fx
  let (hub, actions) ← hub.finish order fx
  return (hub, .ok (id, actions))

/-- What a connection to an account far over its work rate is told. -/
def overRate (wait : Nat) : Frame :=
  errorFrame .limit 0 s!"account over its work rate; try again in {wait} ms"

/-- Admit a connection whose `Hello` the server has authenticated. -/
def connect [Codec] (order : HashOrder) (hub : Hub) (account : AccountId)
    (hello : Hello) (nowMs monoMs : Nat) (revoker : Revoker) :
    Checked (Hub × Except Frame (ConnId × List Action)) :=
  match hub.refuseHello account hello with
  | some frame => .ok (hub, .error frame)
  | none =>
      match hub.accounts.lookup account with
      | none => hub.connectChecked order account hello nowMs monoMs revoker
      | some acct =>
          let rate := acct.rate.refill monoMs hub.limits.accountBytesPerSecond
            hub.limits.accountBurstBytes
          let hub := hub.setAccount account { acct with rate }
          let wait := rate.waitMs hub.limits.accountBytesPerSecond
          if wait > connectRefusedAboveMs then
            .ok (hub, .error (overRate wait))
          else
            hub.connectChecked order account hello nowMs monoMs revoker

/-- The routing part of `receive`. -/
def route [Codec] (order : HashOrder) (hub : Hub) (account : AccountId)
    (conn : ConnId) (frame : Frame) (fx : Effects) : Checked (Hub × Effects) :=
  match frame.body with
  | some (.envelope env) => hub.onEnvelope order account conn env fx
  | some (.subscribe request) => hub.onSubscribe order account conn request fx
  | some (.unsubscribe request) =>
      match request.stream with
      | none => .ok (hub, fx)
      | some stream => do
          let hub ← hub.unsubscribe account conn
            ⟨stream.publisher, stream.channel⟩
          return (hub, fx)
  | some (.ping nonce) =>
      .ok (hub.enqueue account conn (.of (.pong nonce)) fx)
  | some (.pong _) | some (.error _) => .ok (hub, fx)
  | some (.hello _) =>
      .ok (hub, fx.closing conn (errorFrame .invalid 0 "hello sent twice"))
  | some (.welcome _) | some (.backfilled _) | some (.gap _)
  | some (.presence _) | some (.challenge _) =>
      .ok (hub, fx.closing conn
        (errorFrame .invalid 0 "a hub-to-peer frame sent to the hub"))
  | some (.pairOffer _) | some (.pairFetch _) | some (.pairAnswer _)
  | some (.paired _) =>
      .ok (hub, fx.closing conn
        (errorFrame .invalid 0 "a pairing frame the relay does not route"))
  | none => .ok (hub.enqueue account conn
      (errorFrame .unsupported 0 "unknown frame") fx)

/-- Charge an account for the frames a call queued on its behalf. -/
def chargeQueued (hub : Hub) (account : AccountId) (queued : Nat) : Hub :=
  match hub.accounts.lookup account with
  | none => hub
  | some acct => hub.setAccount account
      { acct with rate := acct.rate.spend (queued * frameCostBytes) }

/-- Route one frame a connection sent. -/
def receive [Codec] (order : HashOrder) (hub : Hub) (conn : ConnId)
    (frame : Frame) : Checked (Hub × List Action) :=
  match hub.connAccount.lookup conn with
  | none => .ok (hub, [])
  | some account => do
      let (hub, fx) ← hub.route order account conn frame {}
      finish order (hub.chargeQueued account fx.queued) fx

/-- Close a connection from outside the routing. -/
def close [Codec] (order : HashOrder) (hub : Hub) (conn : ConnId)
    (frame : Option Frame) : Checked (Hub × List Action) :=
  match frame with
  | some frame => hub.finish order (Effects.closing {} conn frame)
  | none =>
      let (hub, fx) := hub.forget order conn {}
      hub.finish order fx

/-- Queue one frame for a connection, from the server. -/
def deliver [Codec] (order : HashOrder) (hub : Hub) (conn : ConnId)
    (frame : Frame) : Checked (Hub × List Action) :=
  match hub.connAccount.lookup conn with
  | none => .ok (hub, [])
  | some account =>
      let (hub, fx) := hub.enqueue account conn frame {}
      hub.finish order fx

/-- What a throttled connection is told. -/
def throttledNotice : Frame :=
  errorFrame .throttled 0 "account over its work rate; reading slowed"

/-- Tell a connection it is being slowed down, at most once in a while. -/
def notify [Codec] (limits : Limits) (acct : Account) (conn : ConnId)
    (wait nowMs : Nat) : Account × Effects :=
  if wait ≥ throttleNoticeMinWaitMs then
    match acct.conns.lookup conn with
    | none => (acct, {})
    | some c =>
        if c.throttleNoticeMs.all fun last =>
            decide (nowMs - last ≥ throttleNoticeMs) then
          let c := { c with throttleNoticeMs := some nowMs }
          let (c, fx) :=
            c.settle conn (c.out.pushFrame throttledNotice limits) {}
          ({ acct with conns := acct.conns.insert conn c }, fx)
        else
          (acct, {})
  else
    (acct, {})

/-- Charge a connection's account for a websocket message it sent. -/
def charge [Codec] (order : HashOrder) (hub : Hub) (conn : ConnId)
    (bytes nowMs : Nat) : Checked (Hub × Nat × List Action) :=
  match hub.connAccount.lookup conn with
  | none => .ok (hub, 0, [])
  | some account =>
      match hub.accounts.lookup account with
      | none => .ok (hub, 0, [])
      | some acct => do
          let rate := (acct.rate.refill nowMs hub.limits.accountBytesPerSecond
            hub.limits.accountBurstBytes).spend bytes
          let wait := rate.waitMs hub.limits.accountBytesPerSecond
          let (acct, fx) :=
            notify hub.limits { acct with rate } conn wait nowMs
          let (hub, actions) ← (hub.setAccount account acct).finish order fx
          return (hub, wait, actions)

/-- Frames queued for a connection, oldest first.  When nothing is left the
connection is disarmed. -/
def takeOutbound [Codec] (hub : Hub) (conn : ConnId) (budget : Nat) :
    Checked (Hub × Taken) :=
  match hub.connAccount.lookup conn with
  | none => .ok (hub, {})
  | some account =>
      match hub.accounts.lookup account with
      | none => .ok (hub, {})
      | some acct =>
          match acct.conns.lookup conn with
          | none => .ok (hub, {})
          | some c => do
              let (out, frames) ← c.out.take budget
              let more := !out.items.isEmpty
              return (hub.setAccount account { acct with
                conns := acct.conns.insert conn { c with out, armed := more } },
                ⟨frames, more⟩)

end Hub

end WindowMlHub
