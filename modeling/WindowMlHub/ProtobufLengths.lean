import WindowMlHub.WireFrames

/-!
# Encoded lengths

How many bytes the generated encoder makes of a frame, from `hub.proto` and
`identity.proto`: a field that has its default value takes no bytes, a member of
a `oneof` always takes some, and all field numbers but the last of `Frame` fit a
one-byte tag.  Nothing about the relay is proved of this encoder in particular;
it is the one that concrete runs are evaluated with.
-/

namespace WindowMlHub

namespace Protobuf

/-- A base-128 varint of at most 64 bits. -/
def varint (value : Nat) : Nat :=
  if value < 2 ^ 7 then 1
  else if value < 2 ^ 14 then 2
  else if value < 2 ^ 21 then 3
  else if value < 2 ^ 28 then 4
  else if value < 2 ^ 35 then 5
  else if value < 2 ^ 42 then 6
  else if value < 2 ^ 49 then 7
  else if value < 2 ^ 56 then 8
  else if value < 2 ^ 63 then 9
  else 10

/-- A length-delimited field that is present. -/
def delimited (length : Nat) : Nat :=
  1 + varint length + length

def bytes (value : Bytes) : Nat :=
  if value = [] then 0 else delimited value.length

def string (value : String) : Nat :=
  if value.utf8ByteSize = 0 then 0 else delimited value.utf8ByteSize

def uint (value : Nat) : Nat :=
  if value = 0 then 0 else 1 + varint value

/-- An enum field; a negative value is sign-extended to ten bytes. -/
def enum (value : Int) : Nat :=
  if value = 0 then 0
  else if value < 0 then 11
  else 1 + varint value.toNat

def bool (value : Bool) : Nat :=
  if value then 2 else 0

def optional {α : Type} (length : α → Nat) (value : Option α) : Nat :=
  (value.map fun message => delimited (length message)).getD 0

def repeated {α : Type} (length : α → Nat) (values : List α) : Nat :=
  (values.map fun message => delimited (length message)).sum

def certificate (value : Certificate) : Nat :=
  bytes value.body + bytes value.signature

def streamRef (value : StreamRef) : Nat :=
  bytes value.publisher + bytes value.channel

def position (value : Position) : Nat :=
  uint value.epoch + uint value.seq

def hello (value : Hello) : Nat :=
  uint value.protocol + bytes value.principal + enum value.role +
    bytes value.accountCredential + bytes value.accountRoot +
    repeated certificate value.chain + bytes value.signature +
    bytes value.invite

def announcedLimits (value : AnnouncedLimits) : Nat :=
  uint value.maxFrameBytes + uint value.maxPayloadBytes +
    uint value.ringSessionEvents + uint value.ringTelemetry +
    uint value.accountBytesPerSecond + uint value.accountBurstBytes

def welcome (value : Welcome) : Nat :=
  uint value.protocol + uint value.serverTimeMs +
    optional announcedLimits value.limits +
    optional certificate value.revoker +
    repeated String.utf8ByteSize value.features

def sentTo : To → Nat
  | .principal target => delimited target.length
  | .channel channel => delimited channel.length

def envelope (value : Envelope) : Nat :=
  (value.sentTo.map sentTo).getD 0 + enum value.kind + bytes value.sender +
    uint value.seq + uint value.epoch + bytes value.coalesce +
    uint value.ref + bytes value.payload

def presence (value : Presence) : Nat :=
  bytes value.principal + enum value.role + bool value.online +
    repeated certificate value.chain

def body : Body → Nat
  | .hello value => delimited (hello value)
  | .welcome value => delimited (welcome value)
  | .envelope value => delimited (envelope value)
  | .subscribe value => delimited
      (optional streamRef value.stream + optional position value.since)
  | .unsubscribe value => delimited (optional streamRef value.stream)
  | .backfilled value => delimited (optional streamRef value.stream +
      uint value.epoch + uint value.seq + bool value.truncated)
  | .gap value => delimited (optional streamRef value.stream +
      uint value.epoch + uint value.dropped + uint value.resumeSeq)
  | .presence value => delimited (presence value)
  | .ping nonce => delimited (uint nonce)
  | .pong nonce => delimited (uint nonce)
  | .error value => delimited
      (enum value.code + uint value.ref + string value.message)
  | .challenge value => delimited
      (bytes value.nonce + string value.hub + uint value.serverTimeMs)
  | .pairOffer value => delimited (bytes value.codeHash + bytes value.offer)
  | .pairFetch codeHash => delimited (bytes codeHash)
  | .pairAnswer value => delimited (bytes value.codeHash + bytes value.answer)
  -- field 16 takes a two-byte tag
  | .paired value => 1 + delimited (bytes value.offer + bytes value.answer)

/-- `encode_frame`, with its length prefix. -/
def frame (value : Frame) : Nat :=
  let length := (value.body.map body).getD 0
  varint length + length

/-! ## Bounds -/

theorem varint_le (value : Nat) : varint value ≤ 10 := by
  unfold varint
  split_ifs <;> omega

theorem delimited_le (length : Nat) : delimited length ≤ length + 11 := by
  have := varint_le length
  unfold delimited
  omega

theorem bytes_le (value : Bytes) : bytes value ≤ value.length + 11 := by
  unfold bytes
  split
  · omega
  · exact delimited_le value.length

theorem enum_le (value : Int) : enum value ≤ 11 := by
  have := varint_le value.toNat
  unfold enum
  split_ifs <;> omega

theorem ite_lt_mono {small large bound width first second : Nat} (atMost : small ≤ large)
    (below : width ≤ second) (past : first ≤ second) :
    (if small < bound then width else first) ≤ (if large < bound then width else second) := by
  split_ifs <;> omega

theorem varint_mono {small large : Nat} (atMost : small ≤ large) :
    varint small ≤ varint large := by
  unfold varint
  repeat' apply ite_lt_mono atMost
  all_goals try split_ifs
  all_goals omega

theorem delimited_mono {small large : Nat} (atMost : small ≤ large) :
    delimited small ≤ delimited large := by
  have := varint_mono atMost
  unfold delimited
  omega

theorem uint_le (value : Nat) : uint value ≤ 11 := by
  have := varint_le value
  unfold uint
  split <;> omega

theorem uint_mono {small large : Nat} (atMost : small ≤ large) : uint small ≤ uint large := by
  have := varint_mono atMost
  unfold uint
  by_cases none : large = 0
  · simp [none, show small = 0 by omega]
  · rw [if_neg none]
    split <;> omega

end Protobuf

/-- The encoder generated from the schema. -/
instance protobuf : Codec :=
  ⟨Protobuf.frame⟩

end WindowMlHub
