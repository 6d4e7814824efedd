import WindowMlHub.HashTables
import WindowMlHub.RelayRing

/-!
# One connection's outbound queue

`queue.rs`, where backpressure is decided by kind.  Session events and direct
envelopes are never dropped; telemetry is coalesced and, past its bound, dropped
with a `Gap` before the stream's next delivered envelope.
-/

namespace WindowMlHub

open CheckedEvaluation HashTables

/-- A stream: one channel of one publisher, always within an account. -/
structure StreamKey where
  publisher : Bytes
  channel : Bytes
  deriving DecidableEq, Repr

/-- `StreamKey::to_ref`. -/
def StreamKey.toRef (key : StreamKey) : StreamRef :=
  ⟨key.publisher, key.channel⟩

/-- The queue refused an item because the connection is too far behind. -/
structure SlowConsumer where
  deriving DecidableEq, Repr

/-- What a push answers. -/
abbrev Pushed := Except SlowConsumer Unit

/-- An encoded frame with the few facts the queue decides on. -/
structure Item where
  wire : Frame
  /-- set for a published envelope of either kind -/
  stream : Option StreamKey
  seq : Nat
  epoch : Nat
  coalesce : Bytes
  telemetry : Bool
  sessionEvent : Bool
  deriving DecidableEq, Repr

/-- Dropped telemetry on one stream, waiting to be reported. -/
structure Dropped where
  epoch : Nat := 0
  count : Nat := 0
  deriving DecidableEq, Repr

structure Outbound where
  items : List Item := []
  bytes : Nat := 0
  sessionEvents : Nat := 0
  telemetry : Nat := 0
  dropped : HashMap StreamKey Dropped := ∅

namespace Item

/-- The item `push_frame` queues: a control frame or a direct envelope. -/
def ofFrame (frame : Frame) : Item where
  wire := frame
  stream := none
  seq := 0
  epoch := 0
  coalesce := []
  telemetry := false
  sessionEvent := false

/-- The item `push_published` queues. -/
def ofEntry (stream : StreamKey) (kind : Kind) (epoch : Nat)
    (entry : Entry) : Item where
  wire := entry.wire
  stream := some stream
  seq := entry.seq
  epoch := epoch
  coalesce := entry.coalesce
  telemetry := decide (kind = .telemetry)
  sessionEvent := decide (kind = .sessionEvents)

end Item

namespace Outbound

/-- `Outbound::push`: a session event past its bound is refused; past the byte
bound the item is queued all the same and the caller closes the connection. -/
def push [Codec] (queue : Outbound) (item : Item) (limits : Limits) :
    Outbound × Pushed :=
  if item.sessionEvent ∧ queue.sessionEvents ≥ limits.queueSessionEvents then
    (queue, .error ⟨⟩)
  else
    let queue := { queue with
      sessionEvents := queue.sessionEvents + item.sessionEvent.toNat
      telemetry := queue.telemetry + item.telemetry.toNat
      bytes := queue.bytes + wireLen item.wire
      items := queue.items ++ [item] }
    (queue, if queue.bytes > limits.queueBytes then .error ⟨⟩ else .ok ())

/-- Queue a control frame or a direct envelope. -/
def pushFrame [Codec] (queue : Outbound) (frame : Frame) (limits : Limits) :
    Outbound × Pushed :=
  queue.push (.ofFrame frame) limits

/-- The queued telemetry envelope a new one with this key supersedes. -/
def coalesceTarget (queue : Outbound) (stream : StreamKey)
    (coalesce : Bytes) : Option Nat :=
  if coalesce = [] then
    none
  else
    queue.items.findIdx? fun item =>
      item.telemetry && decide (item.stream = some stream) &&
        decide (item.coalesce = coalesce)

/-- Take the telemetry item at a position out of the queue. -/
def removeAt [Codec] (queue : Outbound) (position : Nat) :
    Checked (Outbound × Item) := do
  let item ← expect "position is in range" queue.items[position]?
  let bytes ← sub queue.bytes (wireLen item.wire)
  let telemetry ← sub queue.telemetry 1
  return ({ queue with items := queue.items.eraseIdx position, bytes, telemetry },
    item)

/-- Drop the oldest telemetry of any stream, counting it for its `Gap`. -/
def dropOldestTelemetry [Codec] (queue : Outbound) : Checked Outbound :=
  match queue.items.findIdx? (·.telemetry) with
  | none => .ok queue
  | some position => do
      let (queue, item) ← queue.removeAt position
      let key ← expect "a telemetry item belongs to a stream" item.stream
      let dropped := (queue.dropped.lookup key).getD {}
      return { queue with
        dropped := queue.dropped.insert key ⟨item.epoch, dropped.count + 1⟩ }

/-- `while self.telemetry >= bound { self.drop_oldest_telemetry(); }` -/
def dropPast [Codec] (bound : Nat) : Nat → Outbound → Checked Outbound
  | 0, _ => .error .hang
  | fuel + 1, queue =>
      if queue.telemetry ≥ bound then do
        let queue ← queue.dropOldestTelemetry
        dropPast bound fuel queue
      else
        .ok queue

/-- Take out the queued envelope that a new one with this key supersedes. -/
def supersede [Codec] (queue : Outbound) (stream : StreamKey)
    (coalesce : Bytes) : Checked Outbound :=
  match queue.coalesceTarget stream coalesce with
  | some position => do
      let (queue, _) ← queue.removeAt position
      return queue
  | none => .ok queue

/-- Queue a published envelope of `stream`, applying the policy of its kind. -/
def pushPublished [Codec] (queue : Outbound) (stream : StreamKey) (kind : Kind)
    (epoch : Nat) (entry : Entry) (limits : Limits) :
    Checked (Outbound × Pushed) := do
  let item := Item.ofEntry stream kind epoch entry
  if kind ≠ .telemetry then
    return queue.push item limits
  else
    let queue ← queue.supersede stream item.coalesce
    let queue ←
      dropPast (max limits.queueTelemetry 1) (queue.telemetry + 1) queue
    return queue.push item limits

/-- Remove everything queued for `key`'s stream and forget its unreported
drops. -/
def purgeStream [Codec] (queue : Outbound) (key : StreamKey) :
    Checked Outbound := do
  let purged := queue.items.filter fun item => decide (item.stream = some key)
  let bytes ← sub queue.bytes (purged.map fun item => wireLen item.wire).sum
  let sessionEvents ←
    sub queue.sessionEvents (purged.map fun item => item.sessionEvent.toNat).sum
  let telemetry ←
    sub queue.telemetry (purged.map fun item => item.telemetry.toNat).sum
  return {
    items := queue.items.filter fun item => decide (item.stream ≠ some key)
    bytes, sessionEvents, telemetry
    dropped := queue.dropped.erase key }

/-- Count a telemetry item out of the queue, and emit the `Gap` its stream
owes before it. -/
def reportGap (queue : Outbound) (item : Item) (out : List Frame) :
    Checked (Outbound × List Frame) :=
  if item.telemetry then do
    let telemetry ← sub queue.telemetry 1
    let key ← expect "a telemetry item belongs to a stream" item.stream
    match queue.dropped.lookup key with
    | some dropped =>
        let gap : Gap :=
          ⟨some key.toRef, dropped.epoch, dropped.count, item.seq⟩
        return ({ queue with telemetry, dropped := queue.dropped.erase key },
          out ++ [.of (.gap gap)])
    | none => return ({ queue with telemetry }, out)
  else
    .ok (queue, out)

/-- The loop of `take`, over the queued items from the front. -/
def takeLoop [Codec] (budget : Nat) :
    List Item → Outbound → List Frame → Nat → Checked (Outbound × List Frame)
  | [], queue, out, _ => .ok ({ queue with items := [] }, out)
  | item :: rest, queue, out, spent =>
      if out ≠ [] ∧ spent + wireLen item.wire > budget then
        .ok ({ queue with items := item :: rest }, out)
      else do
        let bytes ← sub queue.bytes (wireLen item.wire)
        let sessionEvents ← sub queue.sessionEvents item.sessionEvent.toNat
        let queue := { queue with bytes, sessionEvents }
        let (queue, out) ← reportGap queue item out
        takeLoop budget rest queue (out ++ [item.wire])
          (spent + wireLen item.wire)

/-- Take queued frames, oldest first, up to about `budget` bytes (always at
least one frame when any is queued). -/
def take [Codec] (queue : Outbound) (budget : Nat) :
    Checked (Outbound × List Frame) :=
  takeLoop budget queue.items queue [] 0

end Outbound

end WindowMlHub
