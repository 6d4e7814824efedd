import Mathlib

/-!
# The frames of the wire protocol

The messages of `proto/wmlhub/v1/hub.proto` and the certificate of
`identity.proto`, as the generated structs hold them: a protobuf enumeration is
carried as the integer the peer sent, and an unknown value reads as the
unspecified member.

An encoded frame is represented by the frame it decodes to.  All that the relay
reads off the encoded bytes is their number, which a `Codec` supplies.
-/

namespace WindowMlHub

/-- A byte string. -/
abbrev Bytes := List UInt8

/-- `saturating_add` of unsigned 64-bit numbers. -/
def saturatingAdd (left right : Nat) : Nat :=
  min (left + right) (2 ^ 64 - 1)

/-- What a connection is, in the hub's routing. -/
inductive Role
  | unspecified
  | runtime
  | client
  | boxConnector
  deriving DecidableEq, Repr

namespace Role

/-- `role as i32`. -/
def toInt : Role → Int
  | unspecified => 0
  | runtime => 1
  | client => 2
  | boxConnector => 3

/-- The generated accessor: an unknown value is the default. -/
def ofInt : Int → Role
  | 1 => runtime
  | 2 => client
  | 3 => boxConnector
  | _ => unspecified

@[simp]
theorem ofInt_toInt (role : Role) : ofInt role.toInt = role := by
  cases role <;> rfl

end Role

/-- How the hub treats an envelope. -/
inductive Kind
  | unspecified
  | sessionEvents
  | telemetry
  | command
  | commandResult
  | bulk
  deriving DecidableEq, Repr

namespace Kind

/-- `kind as i32`. -/
def toInt : Kind → Int
  | unspecified => 0
  | sessionEvents => 1
  | telemetry => 2
  | command => 3
  | commandResult => 4
  | bulk => 5

/-- `Kind::try_from(value).unwrap_or(Kind::Unspecified)`. -/
def ofInt : Int → Kind
  | 1 => sessionEvents
  | 2 => telemetry
  | 3 => command
  | 4 => commandResult
  | 5 => bulk
  | _ => unspecified

@[simp]
theorem ofInt_toInt (kind : Kind) : ofInt kind.toInt = kind := by
  cases kind <;> rfl

end Kind

/-- The error codes of `Error.Code`. -/
inductive Code
  | unspecified
  | unsupported
  | unauthenticated
  | invalid
  | unavailable
  | limit
  | slowConsumer
  | throttled
  deriving DecidableEq, Repr

/-- `code as i32`. -/
def Code.toInt : Code → Int
  | unspecified => 0
  | unsupported => 1
  | unauthenticated => 2
  | invalid => 3
  | unavailable => 4
  | limit => 5
  | slowConsumer => 6
  | throttled => 7

/-- The signed bytes of a certificate and the signature over them. -/
structure Certificate where
  body : Bytes
  signature : Bytes
  deriving DecidableEq, Repr

structure Hello where
  protocol : Nat
  principal : Bytes
  role : Int
  accountCredential : Bytes := []
  accountRoot : Bytes := []
  chain : List Certificate := []
  signature : Bytes := []
  invite : Bytes := []
  deriving DecidableEq, Repr

/-- `v1::Limits`: the part of the relay's limits a peer is told. -/
structure AnnouncedLimits where
  maxFrameBytes : Nat
  maxPayloadBytes : Nat
  ringSessionEvents : Nat
  ringTelemetry : Nat
  accountBytesPerSecond : Nat
  accountBurstBytes : Nat
  deriving DecidableEq, Repr

structure Welcome where
  protocol : Nat
  serverTimeMs : Nat
  limits : Option AnnouncedLimits
  revoker : Option Certificate
  features : List String
  deriving DecidableEq, Repr

structure StreamRef where
  publisher : Bytes
  channel : Bytes
  deriving DecidableEq, Repr

structure Position where
  epoch : Nat
  seq : Nat
  deriving DecidableEq, Repr

/-- Where an envelope goes: a principal (direct) or a channel of the sender
(published). -/
inductive To
  | principal (target : Bytes)
  | channel (channel : Bytes)
  deriving DecidableEq, Repr

/-- The only frame that carries user data.  `sentTo` is the `to` oneof. -/
structure Envelope where
  sentTo : Option To
  kind : Int
  sender : Bytes := []
  seq : Nat := 0
  epoch : Nat := 0
  coalesce : Bytes := []
  ref : Nat := 0
  payload : Bytes := []
  deriving DecidableEq, Repr

structure Subscribe where
  stream : Option StreamRef
  since : Option Position
  deriving DecidableEq, Repr

structure Unsubscribe where
  stream : Option StreamRef
  deriving DecidableEq, Repr

structure Backfilled where
  stream : Option StreamRef
  epoch : Nat
  seq : Nat
  truncated : Bool
  deriving DecidableEq, Repr

structure Gap where
  stream : Option StreamRef
  epoch : Nat
  dropped : Nat
  resumeSeq : Nat
  deriving DecidableEq, Repr

structure Presence where
  principal : Bytes
  role : Int
  online : Bool
  chain : List Certificate
  deriving DecidableEq, Repr

structure ErrorNotice where
  code : Int
  ref : Nat
  message : String
  deriving DecidableEq, Repr

structure Challenge where
  nonce : Bytes
  hub : String
  serverTimeMs : Nat
  deriving DecidableEq, Repr

structure PairOffer where
  codeHash : Bytes
  offer : Bytes
  deriving DecidableEq, Repr

structure PairAnswer where
  codeHash : Bytes
  answer : Bytes
  deriving DecidableEq, Repr

structure Paired where
  offer : Bytes
  answer : Bytes
  deriving DecidableEq, Repr

/-- The members of the `body` oneof of `Frame`. -/
inductive Body
  | hello (hello : Hello)
  | welcome (welcome : Welcome)
  | envelope (envelope : Envelope)
  | subscribe (subscribe : Subscribe)
  | unsubscribe (unsubscribe : Unsubscribe)
  | backfilled (backfilled : Backfilled)
  | gap (gap : Gap)
  | presence (presence : Presence)
  | ping (nonce : Nat)
  | pong (nonce : Nat)
  | error (notice : ErrorNotice)
  | challenge (challenge : Challenge)
  | pairOffer (offer : PairOffer)
  | pairFetch (codeHash : Bytes)
  | pairAnswer (answer : PairAnswer)
  | paired (paired : Paired)
  deriving DecidableEq, Repr

/-- One unit on the wire. -/
structure Frame where
  body : Option Body
  deriving DecidableEq, Repr

namespace Frame

/-- A frame with this body. -/
def of (body : Body) : Frame :=
  ⟨some body⟩

/-- The envelope a frame carries. -/
def envelope? : Frame → Option Envelope
  | ⟨some (.envelope envelope)⟩ => some envelope
  | _ => none

/-- The presence notice a frame carries. -/
def presence? : Frame → Option Presence
  | ⟨some (.presence presence)⟩ => some presence
  | _ => none

/-- The backfill marker a frame carries. -/
def backfilled? : Frame → Option Backfilled
  | ⟨some (.backfilled marker)⟩ => some marker
  | _ => none

/-- The gap report a frame carries. -/
def gap? : Frame → Option Gap
  | ⟨some (.gap gap)⟩ => some gap
  | _ => none

end Frame

/-- The generated encoder, as far as the relay depends on it: how many bytes
`encode_frame` makes of a frame, length prefix included. -/
class Codec where
  wireLen : Frame → Nat

export Codec (wireLen)

end WindowMlHub
