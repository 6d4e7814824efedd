import WindowMlHub.WireFrames

/-!
# The relay's bounds and an account's work budget

`limits.rs` and `rate.rs`: every bound the relay enforces, and the token bucket
that one account's connections share.  The balance is kept in thousandths of a
byte, in saturating 128-bit arithmetic.
-/

namespace WindowMlHub

/-- Every bound the relay enforces. -/
structure Limits where
  maxFrameBytes : Nat := 1048576
  maxPayloadBytes : Nat := 1047552
  maxIdBytes : Nat := 64
  maxCoalesceBytes : Nat := 16
  ringSessionEvents : Nat := 512
  ringTelemetry : Nat := 256
  accountRingBytes : Nat := 67108864
  maxStreamsPerAccount : Nat := 1024
  maxConnectionsPerAccount : Nat := 64
  maxAccounts : Nat := 10000
  maxSubscriptionsPerConnection : Nat := 256
  queueSessionEvents : Nat := 1024
  queueTelemetry : Nat := 128
  queueBytes : Nat := 16777216
  accountBytesPerSecond : Nat := 8388608
  accountBurstBytes : Nat := 33554432
  deriving DecidableEq, Repr

namespace Limits

/-- `u32::try_from(n).unwrap_or(u32::MAX)`. -/
def clampU32 (n : Nat) : Nat :=
  min n (2 ^ 32 - 1)

/-- The part a peer is told in `Welcome`. -/
def announce (limits : Limits) : AnnouncedLimits where
  maxFrameBytes := clampU32 limits.maxFrameBytes
  maxPayloadBytes := clampU32 limits.maxPayloadBytes
  ringSessionEvents := clampU32 limits.ringSessionEvents
  ringTelemetry := clampU32 limits.ringTelemetry
  accountBytesPerSecond := limits.accountBytesPerSecond
  accountBurstBytes := limits.accountBurstBytes

/-- Envelopes retained in a ring of this kind. -/
def ringCapacity (limits : Limits) : Kind → Nat
  | .sessionEvents => limits.ringSessionEvents
  | _ => limits.ringTelemetry

end Limits

/-- What one frame costs beyond its bytes. -/
def frameCostBytes : Nat := 64

/-- What admitting a connection costs the account. -/
def connectCostBytes : Nat := 12 * frameCostBytes

/-- Debt above which a connection is refused rather than charged. -/
def connectRefusedAboveMs : Nat := 1000

/-- Clamping to the range of `i128`. -/
def saturate (amount : Int) : Int :=
  max (-(2 ^ 127)) (min amount (2 ^ 127 - 1))

/-- One account's token bucket. -/
structure Bucket where
  /-- thousandths of a byte of work available; negative is debt -/
  balance : Int := 0
  /-- the time refill has been credited up to; none before the first refill -/
  creditedMs : Option Nat := none
  deriving DecidableEq, Repr

namespace Bucket

/-- Credit the time since the last refill, up to `burst` bytes.  A clock that
goes backwards credits nothing. -/
def refill (bucket : Bucket) (nowMs rate burst : Nat) : Bucket :=
  match bucket.creditedMs with
  | none => { bucket with creditedMs := some nowMs }
  | some credited =>
      if nowMs ≤ credited then
        bucket
      else
        let earned := saturate (((nowMs - credited : Nat) : Int) * rate)
        { balance := min (saturate (bucket.balance + earned)) (burst * 1000)
          creditedMs := some nowMs }

/-- Spend `bytes`, going into debt if need be. -/
def spend (bucket : Bucket) (bytes : Nat) : Bucket :=
  { bucket with balance := saturate (bucket.balance - bytes * 1000) }

/-- How long until the debt is repaid, in milliseconds rounded up. -/
def waitMs (bucket : Bucket) (rate : Nat) : Nat :=
  if 0 ≤ bucket.balance ∨ rate = 0 then
    0
  else
    min ((bucket.balance.natAbs + rate - 1) / rate) (2 ^ 64 - 1)

end Bucket

end WindowMlHub
