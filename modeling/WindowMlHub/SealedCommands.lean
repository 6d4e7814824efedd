import WindowMlHub.CertificateChains
import WindowMlHub.ReplayWindows

/-!
# Sealed commands and grants

A command is sealed to its recipient, signed by its sender and carries the sender's
certificate chain; a stream key reaches a device as a grant, sealed in the same way under
labels of its own.  A recipient checks all there is to check and asks the replay window
last, so only what verified may take a place in it.

A nonce is forgotten by the clock at which it arrived, and a message is refused by the
time that it carries.  What a recipient remembers is a queue that forgets from the front:
while no reading of its clock reaches two windows past an arrival, the message that
arrived then is refused, and if the clock never steps back it is too old by the time it
is forgotten.  The sender and the nonce alone may come again: a sender that signs the
nonce anew, two windows later, is heard.

Decoding, encryption, signatures and hashing come from libraries and are parameters.
-/

namespace WindowMlHub

open CheckedEvaluation HashTables RetentionQueues TextFormats

/-- `Sealed`: an encapsulated key and a ciphertext. -/
structure Sealed where
  enc : Bytes
  ciphertext : Bytes
  deriving DecidableEq, Repr

structure SignedCommand where
  body : Bytes
  signature : Bytes
  chain : List Certificate
  deriving DecidableEq, Repr

/-- `CommandBody`.  `sentBy` and `sentTo` are its `from` and `to`. -/
structure CommandBody where
  sentBy : Bytes
  sentTo : Bytes
  scope : Text
  nonce : Bytes
  timeMs : Nat
  body : Bytes
  answers : Bytes
  deriving DecidableEq, Repr

structure SignedGrant where
  body : Bytes
  signature : Bytes
  chain : List Certificate
  deriving DecidableEq, Repr

/-- `GrantBody`.  `sentBy` and `sentTo` are its `from` and `to`. -/
structure GrantBody where
  sentBy : Bytes
  sentTo : Bytes
  nonce : Bytes
  timeMs : Nat
  channel : Bytes
  keyId : Bytes
  key : Bytes
  fromCounter : Nat
  deriving DecidableEq, Repr

/-- The primitives of keys, with the decoders of sealed messages and single-shot public
key encryption: whether bytes are an encapsulated key, and what a secret opens (the
secret, the encapsulated key, the info, the ciphertext). -/
structure SealPrimitives extends KeyPrimitives where
  decodeSealed : Bytes → Option Sealed
  decodeSignedCommand : Bytes → Option SignedCommand
  decodeCommandBody : Bytes → Option CommandBody
  decodeSignedGrant : Bytes → Option SignedGrant
  decodeGrantBody : Bytes → Option GrantBody
  isEncappedKey : Bytes → Bool
  singleShotOpen : Bytes → Bytes → Bytes → Bytes → Option Bytes

/-- `MAX_SEALED_BYTES`. -/
def maxSealedBytes : Nat := 2 ^ 20

/-- `NONCE_BYTES`. -/
def nonceBytes : Nat := 16

/-- `KEY_ID_BYTES`. -/
def keyIdBytes : Nat := 8

/-- `MAX_CHANNEL_BYTES`. -/
def maxChannelBytes : Nat := 64

/-- `SEAL_INFO_LABEL`. -/
def sealInfoLabel : Bytes :=
  asciiBytes "wmlhub/seal/v1\x00".toList

/-- `GRANT_INFO_LABEL`. -/
def grantInfoLabel : Bytes :=
  asciiBytes "wmlhub/keygrant/v1\x00".toList

/-- `KEY_ID_LABEL`. -/
def keyIdLabel : Bytes :=
  asciiBytes "wmlhub/streamkey-id/v1\x00".toList

/-- `COMMAND_LABEL`. -/
def commandLabel : Bytes :=
  asciiBytes "wmlhub/command/v1\x00".toList

/-- `GRANT_LABEL`. -/
def grantLabel : Bytes :=
  asciiBytes "wmlhub/grant/v1\x00".toList

/-- Why a sealed message was refused. -/
inductive OpenError
  | tooLarge
  | malformed
  | decrypt
  | chain (error : ChainError)
  | notSender
  | signature
  | notForMe
  | clock
  | scope
  | replay
  | busy
  deriving DecidableEq, Repr

/-- What the window's refusals are called. -/
def ReplayError.toOpenError : ReplayError → OpenError
  | .replay => .replay
  | .busy => .busy

/-- `Opened`: a verified command or result.  `sentBy` is its `from`. -/
structure Opened where
  sentBy : Bytes
  scope : Text
  nonce : Bytes
  timeMs : Nat
  body : Bytes
  answers : Option Bytes
  leaf : CertificateBody
  chain : List Certificate
  deriving DecidableEq, Repr

/-- `Grant`: a stream key handed to one device. -/
structure Grant where
  publisher : Bytes
  publisherKey : Bytes
  channel : Bytes
  keyId : Bytes
  key : Bytes
  fromCounter : Nat
  deriving DecidableEq, Repr

/-- A principal receiving commands.  `agreement` is the secret of its agreement key. -/
structure Receiver where
  principal : Bytes
  agreement : Bytes
  accountRoot : Bytes
  replay : ReplayWindow

/-- `u64::abs_diff`. -/
def absDiff (left right : Nat) : Nat :=
  (left - right) + (right - left)

/-- `info`. -/
def sealInfo (label sentBy sentTo : Bytes) : Bytes :=
  label ++ sentBy ++ sentTo

/-- Which key a frame names: `StreamKey::id`. -/
def SealPrimitives.streamKeyId (primitives : SealPrimitives) (key : Bytes) : Bytes :=
  (primitives.digest (keyIdLabel ++ key)).take keyIdBytes

namespace Receiver

open CheckedConditions

variable (primitives : SealPrimitives)

/-- `Receiver::new`. -/
def new (identityPublic agreement accountRoot : Bytes) : Receiver where
  principal := primitives.principalId identityPublic
  agreement := agreement
  accountRoot := accountRoot
  replay := .withCapacity maxReplayEntries maxReplayPerSender

/-- `unseal`: decrypt what was sealed to this principal under a label. -/
def unsealMessage (receiver : Receiver) (label sender sealed : Bytes) :
    Except OpenError Bytes := do
  ensure (sealed.length ≤ maxSealedBytes) .tooLarge
  let sealed ← require (primitives.decodeSealed sealed) .malformed
  ensure (primitives.isEncappedKey sealed.enc) .malformed
  require (primitives.singleShotOpen receiver.agreement sealed.enc
    (sealInfo label sender receiver.principal) sealed.ciphertext) .decrypt

/-- `check_chain`: the chain reaches the account's root and its leaf is the sender. -/
def checkChain (receiver : Receiver) (sender : Bytes) (chain : List Certificate)
    (nowMs : Nat) : Except OpenError Verified := do
  let verified ←
    (verifyChain primitives.toKeyPrimitives receiver.accountRoot chain nowMs).mapError
      .chain
  ensure (verified.principal = sender) .notSender
  return verified

/-- The part of `check_addressing` before the window: from that sender, to this
recipient, inside the clock window. -/
def addressed (receiver : Receiver) (sender sentBy sentTo nonce : Bytes)
    (timeMs nowMs : Nat) : Except OpenError Unit := do
  ensure (sentBy = sender) .notSender
  ensure (sentTo = receiver.principal) .notForMe
  ensure (nonce.length = nonceBytes) .malformed
  ensure (absDiff timeMs nowMs ≤ clockWindowMs) .clock

/-- `check_addressing`. -/
def checkAddressing (receiver : Receiver) (sender sentBy sentTo nonce : Bytes)
    (timeMs nowMs : Nat) : Checked (Receiver × Except OpenError Bytes) :=
  match receiver.addressed sender sentBy sentTo nonce timeMs nowMs with
  | .error refusal => .ok (receiver, .error refusal)
  | .ok () => do
      let (replay, answer) ← receiver.replay.admitNonce sender nonce nowMs
      return ({ receiver with replay },
        (answer.mapError ReplayError.toOpenError).map fun _ => nonce)

/-- What a command answers: nothing if it names a scope that the sender's certificate
grants, and another command's nonce if it names no scope. -/
def readAnswers (leaf : CertificateBody) (body : CommandBody) :
    Except OpenError (Option Bytes) :=
  if body.answers = [] ∧ body.scope ≠ [] then do
    ensure (body.scope ∈ leaf.scopes) .scope
    return none
  else if body.answers ≠ [] ∧ body.scope = [] then do
    ensure (body.answers.length = nonceBytes) .malformed
    return some body.answers
  else
    .error .malformed

/-- The part of `open` before the addressing is checked. -/
def readCommand (receiver : Receiver) (sender sealed : Bytes) (nowMs : Nat) :
    Except OpenError (Verified × SignedCommand × CommandBody × Option Bytes) := do
  ensure (sender.length = 32) .notSender
  let plaintext ← receiver.unsealMessage primitives sealInfoLabel sender sealed
  let signed ← require (primitives.decodeSignedCommand plaintext) .malformed
  let verified ← receiver.checkChain primitives sender signed.chain nowMs
  ensure (primitives.verify verified.leafKey commandLabel signed.body signed.signature)
    .signature
  let body ← require (primitives.decodeCommandBody signed.body) .malformed
  let answers ← readAnswers verified.leaf body
  return (verified, signed, body, answers)

/-- `Receiver::open`. -/
def openCommand (receiver : Receiver) (sender sealed : Bytes) (nowMs : Nat) :
    Checked (Receiver × Except OpenError Opened) :=
  match receiver.readCommand primitives sender sealed nowMs with
  | .error refusal => .ok (receiver, .error refusal)
  | .ok (verified, signed, body, answers) => do
      let (receiver, answer) ← receiver.checkAddressing sender body.sentBy body.sentTo
        body.nonce body.timeMs nowMs
      return (receiver, answer.map fun nonce => {
        sentBy := sender
        scope := body.scope
        nonce := nonce
        timeMs := body.timeMs
        body := body.body
        answers := answers
        leaf := verified.leaf
        chain := signed.chain })

/-- The part of `open_grant` before the addressing is checked. -/
def readGrant (receiver : Receiver) (sender sealed : Bytes) (nowMs : Nat) :
    Except OpenError (Verified × GrantBody) := do
  ensure (sender.length = 32) .notSender
  let plaintext ← receiver.unsealMessage primitives grantInfoLabel sender sealed
  let signed ← require (primitives.decodeSignedGrant plaintext) .malformed
  let verified ← receiver.checkChain primitives sender signed.chain nowMs
  ensure (primitives.verify verified.leafKey grantLabel signed.body signed.signature)
    .signature
  let body ← require (primitives.decodeGrantBody signed.body) .malformed
  ensure (body.key.length = 32) .malformed
  ensure (body.keyId.length = keyIdBytes) .malformed
  ensure (body.channel ≠ [] ∧ body.channel.length ≤ maxChannelBytes) .malformed
  ensure (primitives.streamKeyId body.key = body.keyId) .malformed
  return (verified, body)

/-- `open_grant`. -/
def openGrant (receiver : Receiver) (sender sealed : Bytes) (nowMs : Nat) :
    Checked (Receiver × Except OpenError Grant) :=
  match receiver.readGrant primitives sender sealed nowMs with
  | .error refusal => .ok (receiver, .error refusal)
  | .ok (verified, body) => do
      let (receiver, answer) ← receiver.checkAddressing sender body.sentBy body.sentTo
        body.nonce body.timeMs nowMs
      return (receiver, answer.map fun _ => {
        publisher := sender
        publisherKey := verified.leafKey
        channel := body.channel
        keyId := body.keyId
        key := body.key
        fromCounter := body.fromCounter })

end Receiver

end WindowMlHub
