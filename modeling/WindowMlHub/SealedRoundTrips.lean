import WindowMlHub.ConnectorRelay
import WindowMlHub.ReplayProtection
import WindowMlHub.SealEncoding
import WindowMlHub.StreamEncoding

/-!
# Sealed messages from one end to the other

A command, a result and a grant are built in the same layers: a body, its signature with
the chain of the signer, and single-shot public key encryption that binds a label, the
sender and the recipient.  A recipient takes the layers off again and checks each.

Whatever is built passes every check at the recipient it is meant for, and nothing of it
opens as a message of the other label, at another recipient, or for another sender.

The encryption is ideal: what it makes opens with the secret of the key it was made for and
under the info it was made under, and with nothing else.
-/

namespace WindowMlHub

open CheckedConditions RetentionQueues TextFormats

/-- The primitives of streams with the sealing side of public key encryption: the public
key of a secret, and what is sealed to a public key (the key, the info, the plaintext, the
randomness), which is an encapsulated key and a ciphertext. -/
structure HpkePrimitives extends StreamPrimitives where
  agreementPublic : Bytes → Bytes
  singleShotSeal : Bytes → Bytes → Bytes → Bytes → Option (Bytes × Bytes)

/-- Ideal encryption of this kind, which adds sixteen bytes. -/
structure HpkePrimitives.IdealHpke (primitives : HpkePrimitives) : Prop where
  opens : ∀ {key info plaintext randomness enc ciphertext},
    primitives.singleShotSeal key info plaintext randomness = some (enc, ciphertext) →
      primitives.isEncappedKey enc = true ∧ ciphertext.length = plaintext.length + 16 ∧
        ∀ secret, primitives.agreementPublic secret = key →
          primitives.singleShotOpen secret enc info ciphertext = some plaintext
  only : ∀ {key info plaintext randomness enc ciphertext secret other opened},
    primitives.singleShotSeal key info plaintext randomness = some (enc, ciphertext) →
      primitives.singleShotOpen secret enc other ciphertext = some opened →
        primitives.agreementPublic secret = key ∧ other = info

/-- `Sender`: who is sending, and the chain that proves it. -/
structure Sender where
  identity : Identity
  chain : List Certificate

/-- `Recipient`: where a message goes, and the key that it is sealed to. -/
structure Recipient where
  principal : Bytes
  agreementKey : Bytes
  deriving DecidableEq, Repr

/-- `SealError`, where it concerns a message. -/
inductive MessageSealError
  | hpke
  deriving DecidableEq, Repr

section Building

variable (primitives : HpkePrimitives)

/-- The principal that a message is from. -/
def Sender.id (sender : Sender) : Bytes :=
  primitives.principalId sender.identity.publicKey

theorem Sender.length_id (sender : Sender) : (sender.id primitives).length = 32 :=
  primitives.length_principalId _

/-- `hpke_seal`. -/
def hpkeSeal (label sentBy : Bytes) (target : Recipient) (plaintext randomness : Bytes) :
    Except MessageSealError Bytes :=
  match primitives.singleShotSeal target.agreementKey (sealInfo label sentBy target.principal)
    plaintext randomness with
  | none => .error .hpke
  | some (enc, ciphertext) => .ok (Sealed.encode ⟨enc, ciphertext⟩)

/-- The body that `seal` signs, with the nonce that is drawn. -/
def commandBody (sender : Sender) (target : Recipient) (scope : Text) (body answers : Bytes)
    (nowMs : Nat) (nonce : Bytes) : CommandBody where
  sentBy := sender.id primitives
  sentTo := target.principal
  scope := scope
  nonce := nonce
  timeMs := nowMs
  body := body
  answers := answers

/-- `seal`, with the nonce and the randomness that are drawn. -/
def sealMessage (sender : Sender) (target : Recipient) (scope : Text) (body answers : Bytes)
    (nowMs : Nat) (nonce randomness : Bytes) : Except MessageSealError (Bytes × Bytes) := do
  let command := (commandBody primitives sender target scope body answers nowMs nonce).encode
  let signed := SignedCommand.encode
    ⟨command, sender.identity.sign (commandLabel ++ command), sender.chain⟩
  let sealed ←
    hpkeSeal primitives sealInfoLabel (sender.id primitives) target signed randomness
  return (sealed, nonce)

/-- `seal_command`. -/
def sealCommand (sender : Sender) (target : Recipient) (scope : Text) (body : Bytes)
    (nowMs : Nat) (nonce randomness : Bytes) : Except MessageSealError (Bytes × Bytes) :=
  sealMessage primitives sender target scope body [] nowMs nonce randomness

/-- `seal_result`. -/
def sealResult (sender : Sender) (target : Recipient) (answers body : Bytes) (nowMs : Nat)
    (nonce randomness : Bytes) : Except MessageSealError Bytes :=
  (sealMessage primitives sender target [] body answers nowMs nonce randomness).map Prod.fst

/-- `wrap_key`, with the nonce and the randomness that are drawn. -/
def wrapKey (sender : Sender) (target : Recipient) (channel key : Bytes)
    (fromCounter nowMs : Nat) (nonce randomness : Bytes) : Except MessageSealError Bytes :=
  let grant := (wrapBody primitives.toStreamPrimitives sender.identity target.principal channel
    key fromCounter nowMs nonce).encode
  let signed := SignedGrant.encode
    ⟨grant, sender.identity.sign (grantLabel ++ grant), sender.chain⟩
  hpkeSeal primitives grantInfoLabel (sender.id primitives) target signed randomness

end Building

/-! ## The outer layer -/

section Unsealing

variable {primitives : HpkePrimitives} {receiver : Receiver} {target : Recipient}
  {label sentBy plaintext randomness sealed : Bytes}

theorem hpkeSeal_eq_ok
    (isSealed : hpkeSeal primitives label sentBy target plaintext randomness = .ok sealed) :
    ∃ enc ciphertext, primitives.singleShotSeal target.agreementKey
        (sealInfo label sentBy target.principal) plaintext randomness =
          some (enc, ciphertext) ∧
      sealed = Sealed.encode ⟨enc, ciphertext⟩ := by
  unfold hpkeSeal at isSealed
  split at isSealed
  · cases isSealed
  · next enc ciphertext found => exact ⟨enc, ciphertext, found, (Except.ok.inj isSealed).symm⟩

/-- The recipient takes off the layer that was put on for it. -/
theorem unsealMessage_hpkeSeal (codes : primitives.CodesMessages)
    (hpke : primitives.IdealHpke)
    (isSealed : hpkeSeal primitives label sentBy target plaintext randomness = .ok sealed)
    (small : sealed.length ≤ maxSealedBytes)
    (principal : receiver.principal = target.principal)
    (agreement : primitives.agreementPublic receiver.agreement = target.agreementKey) :
    receiver.unsealMessage primitives.toSealPrimitives label sentBy sealed = .ok plaintext ∧
      plaintext.length < 2 ^ 64 := by
  obtain ⟨enc, ciphertext, made, rfl⟩ := hpkeSeal_eq_ok isSealed
  obtain ⟨encapped, length, opens⟩ := hpke.opens made
  have counted : (Sealed.encode ⟨enc, ciphertext⟩).length < 2 ^ 64 :=
    lt_of_le_of_lt small (by decide)
  have inside := Sealed.ciphertext_le ⟨enc, ciphertext⟩
  dsimp only at inside
  refine ⟨?_, by omega⟩
  simp only [Receiver.unsealMessage, bind_eq_ok, ensure_eq_ok, require_eq_ok, exists_const]
  refine ⟨small, ⟨enc, ciphertext⟩, codes.seals _ counted, encapped, ?_⟩
  rw [principal]
  exact opens _ agreement

theorem of_unsealMessage_hpkeSeal (codes : primitives.CodesMessages)
    (hpke : primitives.IdealHpke)
    (isSealed : hpkeSeal primitives label sentBy target plaintext randomness = .ok sealed)
    {other claimed opened : Bytes}
    (unsealed : receiver.unsealMessage primitives.toSealPrimitives other claimed sealed =
      .ok opened) :
    primitives.agreementPublic receiver.agreement = target.agreementKey ∧
      sealInfo other claimed receiver.principal = sealInfo label sentBy target.principal := by
  obtain ⟨enc, ciphertext, made, rfl⟩ := hpkeSeal_eq_ok isSealed
  simp only [Receiver.unsealMessage, bind_eq_ok, ensure_eq_ok, require_eq_ok, exists_const]
    at unsealed
  obtain ⟨small, found, decoded, -, opens⟩ := unsealed
  have counted : (Sealed.encode ⟨enc, ciphertext⟩).length < 2 ^ 64 :=
    lt_of_le_of_lt small (by decide)
  obtain rfl := Option.some.inj (decoded.symm.trans (codes.seals _ counted))
  exact hpke.only made opens

end Unsealing

theorem sealInfo_inj {label sentBy sentTo claimed principal : Bytes}
    (lengths : claimed.length = sentBy.length)
    (same : sealInfo label claimed principal = sealInfo label sentBy sentTo) :
    claimed = sentBy ∧ principal = sentTo := by
  simp only [sealInfo, List.append_assoc, List.append_cancel_left_eq] at same
  exact List.append_inj same lengths

theorem sealInfo_labels (sentBy sentTo claimed principal : Bytes) :
    sealInfo sealInfoLabel sentBy sentTo ≠ sealInfo grantInfoLabel claimed principal := by
  intro same
  have front := congrArg (List.take 8) same
  simp only [sealInfo, List.append_assoc] at front
  rw [List.take_append_of_le_length (by decide),
    List.take_append_of_le_length (by decide)] at front
  revert front
  decide

/-! ## What a recipient checks -/

/-- The window takes the nonce of a sender: it is not remembered, and there is space. -/
structure ReplayWindow.HasRoomFor (window : ReplayWindow) (sender nonce : Bytes)
    (nowMs : Nat) : Prop where
  fresh : (sender, nonce) ∉ (forgetDue nowMs window.order).map Prod.snd
  share : ReplayWindow.share (forgetDue nowMs window.order) sender = 0 ∨
    ReplayWindow.share (forgetDue nowMs window.order) sender < window.perSender
  space : (forgetDue nowMs window.order).length < window.capacity

theorem ReplayWindow.HasRoomFor.admits {window : ReplayWindow} {sender nonce : Bytes}
    {nowMs : Nat} (room : window.HasRoomFor sender nonce nowMs) (ok : window.Ok) :
    ∃ after, window.admitNonce sender nonce nowMs = .ok (after, .ok ()) := by
  obtain ⟨fresh, share, space⟩ := room
  obtain ⟨after, answer, admitted, -, -, -, answered⟩ := admit_spec ok sender nonce nowMs
  generalize after.order = order at answered
  cases answered with
  | replay known => exact absurd known fresh
  | busy _ full => omega
  | noted _ _ _ => exact ⟨after, admitted⟩

/-- A recipient at a reading of its clock that has every reason to take what a sender made
for it: it is who the sender meant, the chain verifies and ends with the key that the sender
signs with, the clocks agree and the window, which is as calls leave it, takes the nonce. -/
structure Receiver.Expects (primitives : HpkePrimitives) (receiver : Receiver)
    (sender : Sender) (target : Recipient) (sealedMs : Nat) (nonce : Bytes)
    (verified : Verified) (nowMs : Nat) : Prop where
  principal : receiver.principal = target.principal
  agreement : primitives.agreementPublic receiver.agreement = target.agreementKey
  chain : verifyChain primitives.toKeyPrimitives receiver.accountRoot sender.chain nowMs =
    .ok verified
  leafKey : verified.leafKey = sender.identity.publicKey
  timely : absDiff sealedMs nowMs ≤ clockWindowMs
  window : receiver.replay.Ok
  room : receiver.replay.HasRoomFor (sender.id primitives) nonce nowMs

/-- A chain that verifies names its leaf, whose scopes have names. -/
theorem leaf_of_verifyChain {primitives : KeyPrimitives} {root : Bytes}
    {chain : List Certificate} {nowMs : Nat} {verified : Verified}
    (accepted : verifyChain primitives root chain nowMs = .ok verified) :
    verified.principal = primitives.principalId verified.leafKey ∧
      [] ∉ verified.leaf.scopes := by
  simp only [verifyChain, bind_eq_ok, ensure_eq_ok, exists_const, mapM_eq_ok,
    require_eq_ok, key32_eq_ok, pure_eq_ok_iff] at accepted
  obtain ⟨-, bodies, decoded, ⟨⟩, -, leaf, head, _, ⟨-, rfl⟩, rfl⟩ := accepted
  refine ⟨rfl, fun nameless => ?_⟩
  cases decoded with
  | nil => cases head
  | cons first rest =>
      obtain rfl := Option.some.inj head
      simp only [decodeBody, bind_eq_ok, require_eq_ok, ensure_eq_ok, pure_eq_ok_iff,
        exists_const] at first
      obtain ⟨-, body, -, -, ⟨-, named, -⟩, rfl⟩ := first
      have named := List.all_eq_true.mp named [] nameless
      simp [scopeNameOk, utf8Length] at named

namespace Receiver.Expects

variable {primitives : HpkePrimitives} {receiver : Receiver} {sender : Sender}
  {target : Recipient} {sealedMs nowMs : Nat} {nonce : Bytes} {verified : Verified}

theorem checkChain
    (expects : receiver.Expects primitives sender target sealedMs nonce verified nowMs) :
    receiver.checkChain primitives.toSealPrimitives (sender.id primitives) sender.chain
      nowMs = .ok verified := by
  obtain ⟨principal, -⟩ := leaf_of_verifyChain expects.chain
  have isSender : verified.principal = sender.id primitives := by
    rw [principal, expects.leafKey, Sender.id]
  simp only [Receiver.checkChain, bind_eq_ok, ensure_eq_ok, exists_const, pure_eq_ok_iff]
  exact ⟨verified, by rw [expects.chain]; rfl, isSender, rfl⟩

theorem checkAddressing
    (expects : receiver.Expects primitives sender target sealedMs nonce verified nowMs)
    (isNonce : nonce.length = nonceBytes) :
    ∃ after, receiver.checkAddressing (sender.id primitives) (sender.id primitives)
      target.principal nonce sealedMs nowMs = .ok (after, .ok nonce) := by
  have addressed : receiver.addressed (sender.id primitives) (sender.id primitives)
      target.principal nonce sealedMs nowMs = .ok () := by
    simp only [Receiver.addressed, bind_eq_ok, ensure_eq_ok, exists_const]
    exact ⟨trivial, expects.principal.symm, isNonce, expects.timely⟩
  obtain ⟨replay, admitted⟩ := expects.room.admits expects.window
  refine ⟨{ receiver with replay }, ?_⟩
  rw [Receiver.checkAddressing, addressed]
  simp only [admitted]
  rfl

theorem verify
    (expects : receiver.Expects primitives sender target sealedMs nonce verified nowMs)
    (signs : sender.identity.SignsFor primitives.toKeyPrimitives) (label body : Bytes) :
    primitives.verify verified.leafKey label body (sender.identity.sign (label ++ body)) =
      true := by
  rw [expects.leafKey]
  exact signs _

end Receiver.Expects

/-! ## Commands and results -/

section Commands

variable {primitives : HpkePrimitives} {receiver : Receiver} {sender : Sender}
  {target : Recipient} {scope : Text} {sealedMs nowMs : Nat}
  {body answers nonce randomness sealed drawn : Bytes} {verified : Verified}

theorem sealMessage_eq_ok
    (made : sealMessage primitives sender target scope body answers sealedMs nonce randomness =
      .ok (sealed, drawn)) :
    drawn = nonce ∧ ∃ signed : SignedCommand,
      signed.body =
        (commandBody primitives sender target scope body answers sealedMs nonce).encode ∧
      signed.signature = sender.identity.sign (commandLabel ++ signed.body) ∧
      signed.chain = sender.chain ∧
      hpkeSeal primitives sealInfoLabel (sender.id primitives) target signed.encode
        randomness = .ok sealed := by
  simp only [sealMessage, bind_eq_ok, pure_eq_ok_iff, Prod.mk.injEq] at made
  obtain ⟨_, encrypted, rfl, rfl⟩ := made
  exact ⟨rfl, _, rfl, rfl, rfl, encrypted⟩

theorem sealResult_eq_ok
    (made : sealResult primitives sender target answers body sealedMs nonce randomness =
      .ok sealed) :
    ∃ drawn, sealMessage primitives sender target [] body answers sealedMs nonce randomness =
      .ok (sealed, drawn) := by
  unfold sealResult at made
  cases whole : sealMessage primitives sender target [] body answers sealedMs nonce
      randomness with
  | error refusal =>
      rw [whole] at made
      cases made
  | ok both =>
      rw [whole] at made
      obtain rfl := Except.ok.inj made
      exact ⟨both.2, rfl⟩

/-- Whatever is sealed for it passes the recipient's checks up to the one of the scope. -/
theorem readCommand_sealed (codes : primitives.CodesMessages) (hpke : primitives.IdealHpke)
    (signs : sender.identity.SignsFor primitives.toKeyPrimitives)
    (expects : receiver.Expects primitives sender target sealedMs nonce verified nowMs)
    (isTime : sealedMs < 2 ^ 64) (small : sealed.length ≤ maxSealedBytes)
    (made : sealMessage primitives sender target scope body answers sealedMs nonce randomness =
      .ok (sealed, drawn)) :
    ∃ signed : SignedCommand, signed.chain = sender.chain ∧
      receiver.readCommand primitives.toSealPrimitives (sender.id primitives) sealed nowMs =
        (Receiver.readAnswers verified.leaf
          (commandBody primitives sender target scope body answers sealedMs nonce)).map
            fun read => (verified, signed,
              commandBody primitives sender target scope body answers sealedMs nonce,
              read) := by
  obtain ⟨-, signed, isBody, signature, chain, encrypted⟩ := sealMessage_eq_ok made
  obtain ⟨unsealed, counted⟩ := unsealMessage_hpkeSeal codes hpke encrypted small
    expects.principal expects.agreement
  have within : signed.body.length < 2 ^ 64 :=
    lt_of_le_of_lt (signedFields_body_le signed.body signed.signature signed.chain) counted
  have decoded : primitives.decodeCommandBody signed.body =
      some (commandBody primitives sender target scope body answers sealedMs nonce) := by
    rw [isBody]
    exact codes.commandBodies _ isTime (isBody ▸ within)
  have genuine := expects.verify signs commandLabel signed.body
  rw [← signature] at genuine
  have known := expects.checkChain
  rw [← chain] at known
  refine ⟨signed, chain, ?_⟩
  rw [Receiver.readCommand, ensure_bind (sender.length_id primitives), bind_of_eq_ok unsealed,
    require_bind (codes.signedCommands _ counted), bind_of_eq_ok known, ensure_bind genuine,
    require_bind decoded]
  cases Receiver.readAnswers verified.leaf
      (commandBody primitives sender target scope body answers sealedMs nonce) with
  | error refusal => rfl
  | ok read => rfl

/-- What the body says of its scope and of the command it answers decides the rest. -/
theorem openCommand_sealed (codes : primitives.CodesMessages) (hpke : primitives.IdealHpke)
    (signs : sender.identity.SignsFor primitives.toKeyPrimitives)
    (expects : receiver.Expects primitives sender target sealedMs nonce verified nowMs)
    (isTime : sealedMs < 2 ^ 64) (isNonce : nonce.length = nonceBytes)
    (small : sealed.length ≤ maxSealedBytes)
    (made : sealMessage primitives sender target scope body answers sealedMs nonce randomness =
      .ok (sealed, drawn)) :
    ∃ after, receiver.openCommand primitives.toSealPrimitives (sender.id primitives) sealed
        nowMs =
      .ok (after, (Receiver.readAnswers verified.leaf
        (commandBody primitives sender target scope body answers sealedMs nonce)).map
          fun read => {
            sentBy := sender.id primitives
            scope := scope
            nonce := nonce
            timeMs := sealedMs
            body := body
            answers := read
            leaf := verified.leaf
            chain := sender.chain }) := by
  obtain ⟨signed, chain, readIt⟩ :=
    readCommand_sealed codes hpke signs expects isTime small made
  obtain ⟨after, addressed⟩ := expects.checkAddressing isNonce
  unfold Receiver.openCommand
  cases read : Receiver.readAnswers verified.leaf
      (commandBody primitives sender target scope body answers sealedMs nonce) with
  | error refusal =>
      rw [read] at readIt
      rw [readIt]
      exact ⟨receiver, rfl⟩
  | ok found =>
      rw [read] at readIt
      rw [readIt]
      refine ⟨after, ?_⟩
      simp only [Except.map, commandBody, addressed, chain]
      rfl

theorem readAnswers_command {leaf : CertificateBody} {body : CommandBody}
    (noAnswers : body.answers = []) (isScoped : body.scope ≠ [])
    (granted : body.scope ∈ leaf.scopes) : Receiver.readAnswers leaf body = .ok none := by
  rw [Receiver.readAnswers, if_pos ⟨noAnswers, isScoped⟩, ensure_bind granted]
  rfl

theorem readAnswers_notGranted {leaf : CertificateBody} {body : CommandBody}
    (noAnswers : body.answers = []) (isScoped : body.scope ≠ [])
    (notGranted : body.scope ∉ leaf.scopes) :
    Receiver.readAnswers leaf body = .error .scope := by
  rw [Receiver.readAnswers, if_pos ⟨noAnswers, isScoped⟩, ensure, if_neg notGranted]
  rfl

theorem readAnswers_result {leaf : CertificateBody} {body : CommandBody}
    (answers : body.answers.length = nonceBytes) (unscoped : body.scope = []) :
    Receiver.readAnswers leaf body = .ok (some body.answers) := by
  have answering : body.answers ≠ [] := by
    intro nothing
    rw [nothing] at answers
    cases answers
  rw [Receiver.readAnswers, if_neg (by simp [answering]), if_pos ⟨answering, unscoped⟩,
    ensure_bind answers]
  rfl

end Commands

/-! ## Grants -/

section Grants

variable {primitives : HpkePrimitives} {receiver : Receiver} {sender : Sender}
  {target : Recipient} {sealedMs nowMs fromCounter : Nat}
  {channel key nonce randomness sealed : Bytes} {verified : Verified}

/-- Whatever is wrapped for it passes the recipient's checks. -/
theorem readGrant_wrapped (codes : primitives.CodesMessages) (hpke : primitives.IdealHpke)
    (signs : sender.identity.SignsFor primitives.toKeyPrimitives)
    (expects : receiver.Expects primitives sender target sealedMs nonce verified nowMs)
    (isTime : sealedMs < 2 ^ 64) (isCounter : fromCounter < 2 ^ 64) (isKey : key.length = 32)
    (isChannel : channel ≠ [] ∧ channel.length ≤ maxChannelBytes)
    (small : sealed.length ≤ maxSealedBytes)
    (made : wrapKey primitives sender target channel key fromCounter sealedMs nonce
      randomness = .ok sealed) :
    receiver.readGrant primitives.toSealPrimitives (sender.id primitives) sealed nowMs =
      .ok (verified, wrapBody primitives.toStreamPrimitives sender.identity target.principal
        channel key fromCounter sealedMs nonce) := by
  obtain ⟨unsealed, counted⟩ := unsealMessage_hpkeSeal codes hpke made small
    expects.principal expects.agreement
  have within := lt_of_le_of_lt (signedFields_body_le _ _ _) counted
  have decoded := codes.grantBodies (wrapBody primitives.toStreamPrimitives sender.identity
    target.principal channel key fromCounter sealedMs nonce) isTime isCounter within
  simp only [Receiver.readGrant, bind_eq_ok, ensure_eq_ok, require_eq_ok, pure_eq_ok_iff,
    exists_const]
  exact ⟨sender.length_id primitives, _, unsealed, _, codes.signedGrants _ counted, verified,
    expects.checkChain, expects.verify signs _ _, _, decoded, isKey,
    primitives.length_streamKeyId key, isChannel, rfl, rfl⟩

theorem openGrant_wrapped (codes : primitives.CodesMessages) (hpke : primitives.IdealHpke)
    (signs : sender.identity.SignsFor primitives.toKeyPrimitives)
    (expects : receiver.Expects primitives sender target sealedMs nonce verified nowMs)
    (isTime : sealedMs < 2 ^ 64) (isNonce : nonce.length = nonceBytes)
    (isCounter : fromCounter < 2 ^ 64) (isKey : key.length = 32)
    (isChannel : channel ≠ [] ∧ channel.length ≤ maxChannelBytes)
    (small : sealed.length ≤ maxSealedBytes)
    (made : wrapKey primitives sender target channel key fromCounter sealedMs nonce
      randomness = .ok sealed) :
    ∃ after, receiver.openGrant primitives.toSealPrimitives (sender.id primitives) sealed
        nowMs =
      .ok (after, .ok {
        publisher := sender.id primitives
        publisherKey := sender.identity.publicKey
        channel := channel
        keyId := primitives.streamKeyId key
        key := key
        fromCounter := fromCounter }) := by
  have read := readGrant_wrapped codes hpke signs expects isTime isCounter isKey isChannel
    small made
  obtain ⟨after, addressed⟩ := expects.checkAddressing isNonce
  have addressed : receiver.checkAddressing (sender.id primitives)
      (primitives.principalId sender.identity.publicKey) target.principal nonce sealedMs
        nowMs = .ok (after, .ok nonce) := addressed
  refine ⟨after, ?_⟩
  unfold Receiver.openGrant
  rw [read]
  simp only [wrapBody, addressed, expects.leafKey]
  rfl

end Grants

/-! ## Every message, at every recipient -/

section Messages

variable (primitives : HpkePrimitives) (sender : Sender) (target : Recipient) (sealedMs : Nat)
  (nonce randomness : Bytes)

/-- Bytes that the sender made with `seal_command` or `seal_result`. -/
def Sender.Sealed (sealed : Bytes) : Prop :=
  (∃ scope body drawn, sealCommand primitives sender target scope body sealedMs nonce
      randomness = .ok (sealed, drawn)) ∨
    ∃ answers body, sealResult primitives sender target answers body sealedMs nonce
      randomness = .ok sealed

/-- Bytes that the sender made with `wrap_key`. -/
def Sender.Wrapped (sealed : Bytes) : Prop :=
  ∃ channel key fromCounter, wrapKey primitives sender target channel key fromCounter sealedMs
    nonce randomness = .ok sealed

/-- A recipient opens whatever the sender makes for it, and finds what was put in. -/
structure Sender.RoundTrips (receiver : Receiver) (verified : Verified) (nowMs : Nat) :
    Prop where
  command : ∀ scope body sealed drawn, sealCommand primitives sender target scope body sealedMs
      nonce randomness = .ok (sealed, drawn) → sealed.length ≤ maxSealedBytes →
    scope ∈ verified.leaf.scopes →
      ∃ after, receiver.openCommand primitives.toSealPrimitives (sender.id primitives) sealed
          nowMs =
        .ok (after, .ok {
          sentBy := sender.id primitives
          scope := scope
          nonce := drawn
          timeMs := sealedMs
          body := body
          answers := none
          leaf := verified.leaf
          chain := sender.chain })
  notGranted : ∀ scope body sealed drawn, sealCommand primitives sender target scope body
      sealedMs nonce randomness = .ok (sealed, drawn) → sealed.length ≤ maxSealedBytes →
    scope ∉ verified.leaf.scopes → scope ≠ [] →
      ∃ after, receiver.openCommand primitives.toSealPrimitives (sender.id primitives) sealed
        nowMs = .ok (after, .error .scope)
  result : ∀ answers body sealed, answers.length = nonceBytes →
    sealResult primitives sender target answers body sealedMs nonce randomness = .ok sealed →
    sealed.length ≤ maxSealedBytes →
      ∃ after, receiver.openCommand primitives.toSealPrimitives (sender.id primitives) sealed
          nowMs =
        .ok (after, .ok {
          sentBy := sender.id primitives
          scope := []
          nonce := nonce
          timeMs := sealedMs
          body := body
          answers := some answers
          leaf := verified.leaf
          chain := sender.chain })
  grant : ∀ channel key fromCounter sealed, key.length = 32 → fromCounter < 2 ^ 64 →
    channel ≠ [] ∧ channel.length ≤ maxChannelBytes →
    wrapKey primitives sender target channel key fromCounter sealedMs nonce randomness =
      .ok sealed → sealed.length ≤ maxSealedBytes →
      ∃ after, receiver.openGrant primitives.toSealPrimitives (sender.id primitives) sealed
          nowMs =
        .ok (after, .ok {
          publisher := sender.id primitives
          publisherKey := sender.identity.publicKey
          channel := channel
          keyId := primitives.streamKeyId key
          key := key
          fromCounter := fromCounter })

/-- Who opened a message, and whom it takes the message to be from, is as the sender
meant. -/
def Sender.MeantFor (receiver : Receiver) (claimed : Bytes) : Prop :=
  receiver.principal = target.principal ∧
    primitives.agreementPublic receiver.agreement = target.agreementKey ∧
    claimed = sender.id primitives

/-- Nothing that the sender makes opens as a message of the other kind, and what opens does
so where it was meant to. -/
structure Sender.NoCrossUse : Prop where
  notGrant : ∀ sealed, sender.Sealed primitives target sealedMs nonce randomness sealed →
    ∀ receiver claimed nowMs after grant,
      Receiver.openGrant primitives.toSealPrimitives receiver claimed sealed nowMs ≠
        .ok (after, .ok grant)
  notCommand : ∀ sealed, sender.Wrapped primitives target sealedMs nonce randomness sealed →
    ∀ receiver claimed nowMs after opened,
      Receiver.openCommand primitives.toSealPrimitives receiver claimed sealed nowMs ≠
        .ok (after, .ok opened)
  sealed : ∀ sealed, sender.Sealed primitives target sealedMs nonce randomness sealed →
    ∀ receiver claimed nowMs after opened,
      Receiver.openCommand primitives.toSealPrimitives receiver claimed sealed nowMs =
        .ok (after, .ok opened) → sender.MeantFor primitives target receiver claimed
  wrapped : ∀ sealed, sender.Wrapped primitives target sealedMs nonce randomness sealed →
    ∀ receiver claimed nowMs after grant,
      Receiver.openGrant primitives.toSealPrimitives receiver claimed sealed nowMs =
        .ok (after, .ok grant) → sender.MeantFor primitives target receiver claimed

end Messages

section Recipients

variable {primitives : HpkePrimitives} {receiver : Receiver} {sender : Sender}
  {target : Recipient} {sealedMs nowMs : Nat} {nonce randomness claimed sealed : Bytes}

theorem unsealed_of_openCommand {primitives : SealPrimitives} {after : Receiver}
    {opened : Opened}
    (ok : receiver.openCommand primitives claimed sealed nowMs = .ok (after, .ok opened)) :
    claimed.length = 32 ∧ ∃ plaintext,
      receiver.unsealMessage primitives sealInfoLabel claimed sealed = .ok plaintext := by
  unfold Receiver.openCommand at ok
  split at ok
  · cases ok
  · next read =>
      simp only [Receiver.readCommand, bind_eq_ok, ensure_eq_ok, exists_const] at read
      obtain ⟨length, plaintext, unsealed, -⟩ := read
      exact ⟨length, plaintext, unsealed⟩

theorem unsealed_of_openGrant {primitives : SealPrimitives} {after : Receiver} {grant : Grant}
    (ok : receiver.openGrant primitives claimed sealed nowMs = .ok (after, .ok grant)) :
    claimed.length = 32 ∧ ∃ plaintext,
      receiver.unsealMessage primitives grantInfoLabel claimed sealed = .ok plaintext := by
  unfold Receiver.openGrant at ok
  split at ok
  · cases ok
  · next read =>
      simp only [Receiver.readGrant, bind_eq_ok, ensure_eq_ok, exists_const] at read
      obtain ⟨length, plaintext, unsealed, -⟩ := read
      exact ⟨length, plaintext, unsealed⟩

theorem Sender.Sealed.hpkeSeal
    (isSealed : sender.Sealed primitives target sealedMs nonce randomness sealed) :
    ∃ plaintext, WindowMlHub.hpkeSeal primitives sealInfoLabel (sender.id primitives) target
      plaintext randomness = .ok sealed := by
  rcases isSealed with ⟨scope, body, drawn, made⟩ | ⟨answers, body, made⟩
  · obtain ⟨-, signed, -, -, -, encrypted⟩ := sealMessage_eq_ok made
    exact ⟨_, encrypted⟩
  · obtain ⟨drawn, made⟩ := sealResult_eq_ok made
    obtain ⟨-, signed, -, -, -, encrypted⟩ := sealMessage_eq_ok made
    exact ⟨_, encrypted⟩

theorem Sender.noCrossUse (codes : primitives.CodesMessages) (hpke : primitives.IdealHpke) :
    sender.NoCrossUse primitives target sealedMs nonce randomness where
  notGrant := by
    intro sealed isSealed receiver claimed nowMs after grant ok
    obtain ⟨plaintext, encrypted⟩ := isSealed.hpkeSeal
    obtain ⟨-, opened, unsealed⟩ := unsealed_of_openGrant ok
    obtain ⟨-, sameInfo⟩ := of_unsealMessage_hpkeSeal codes hpke encrypted unsealed
    exact sealInfo_labels _ _ _ _ sameInfo.symm
  notCommand := by
    rintro sealed ⟨channel, key, fromCounter, made⟩ receiver claimed nowMs after found ok
    obtain ⟨-, opened, unsealed⟩ := unsealed_of_openCommand ok
    obtain ⟨-, sameInfo⟩ := of_unsealMessage_hpkeSeal codes hpke made unsealed
    exact sealInfo_labels _ _ _ _ sameInfo
  sealed := by
    intro sealed isSealed receiver claimed nowMs after found ok
    obtain ⟨plaintext, encrypted⟩ := isSealed.hpkeSeal
    obtain ⟨length, opened, unsealed⟩ := unsealed_of_openCommand ok
    obtain ⟨agreement, sameInfo⟩ := of_unsealMessage_hpkeSeal codes hpke encrypted unsealed
    obtain ⟨isSender, isTarget⟩ :=
      sealInfo_inj (length.trans (sender.length_id primitives).symm) sameInfo
    exact ⟨isTarget, agreement, isSender⟩
  wrapped := by
    rintro sealed ⟨channel, key, fromCounter, made⟩ receiver claimed nowMs after grant ok
    obtain ⟨length, opened, unsealed⟩ := unsealed_of_openGrant ok
    obtain ⟨agreement, sameInfo⟩ := of_unsealMessage_hpkeSeal codes hpke made unsealed
    obtain ⟨isSender, isTarget⟩ :=
      sealInfo_inj (length.trans (sender.length_id primitives).symm) sameInfo
    exact ⟨isTarget, agreement, isSender⟩

theorem Receiver.Expects.roundTrips {verified : Verified} (codes : primitives.CodesMessages)
    (hpke : primitives.IdealHpke) (signs : sender.identity.SignsFor primitives.toKeyPrimitives)
    (expects : receiver.Expects primitives sender target sealedMs nonce verified nowMs)
    (isTime : sealedMs < 2 ^ 64) (isNonce : nonce.length = nonceBytes) :
    sender.RoundTrips primitives target sealedMs nonce randomness receiver verified nowMs where
  command := by
    intro scope body sealed drawn made small granted
    have isScoped : scope ≠ [] := by
      rintro rfl
      exact (leaf_of_verifyChain expects.chain).2 granted
    obtain ⟨after, opened⟩ := openCommand_sealed codes hpke signs expects isTime isNonce small
      made
    obtain ⟨rfl, -⟩ := sealMessage_eq_ok made
    rw [readAnswers_command rfl isScoped granted] at opened
    exact ⟨after, opened⟩
  notGranted := by
    intro scope body sealed drawn made small notGranted isScoped
    obtain ⟨after, opened⟩ := openCommand_sealed codes hpke signs expects isTime isNonce small
      made
    rw [readAnswers_notGranted rfl isScoped notGranted] at opened
    exact ⟨after, opened⟩
  result := by
    intro answers body sealed length made small
    obtain ⟨drawn, made⟩ := sealResult_eq_ok made
    obtain ⟨after, opened⟩ := openCommand_sealed codes hpke signs expects isTime isNonce small
      made
    rw [readAnswers_result length rfl] at opened
    exact ⟨after, opened⟩
  grant := by
    intro channel key fromCounter sealed isKey isCounter isChannel made small
    exact openGrant_wrapped codes hpke signs expects isTime isNonce isCounter isKey isChannel
      small made

end Recipients

/-- Whatever the sender makes for a recipient that expects it is opened there and says what
was put in, a command of a scope that its certificate does not grant is refused for the
scope, and nothing opens as the other kind, at another recipient or for another sender. -/
theorem sealed_round_trips (primitives : HpkePrimitives) (codes : primitives.CodesMessages)
    (hpke : primitives.IdealHpke) (sender : Sender)
    (signs : sender.identity.SignsFor primitives.toKeyPrimitives) (target : Recipient)
    (sealedMs : Nat) (isTime : sealedMs < 2 ^ 64) (nonce : Bytes)
    (isNonce : nonce.length = nonceBytes) (randomness : Bytes) :
    (∀ receiver verified nowMs,
        Receiver.Expects primitives receiver sender target sealedMs nonce verified nowMs →
          sender.RoundTrips primitives target sealedMs nonce randomness receiver verified
            nowMs) ∧
      sender.NoCrossUse primitives target sealedMs nonce randomness :=
  ⟨fun _ _ _ expects => expects.roundTrips codes hpke signs isTime isNonce,
    Sender.noCrossUse codes hpke⟩

/-- The decoders that merge fields, and encryption that names the key and the info in the
encapsulated key. -/
def roundTripPrimitives : HpkePrimitives where
  toStreamPrimitives := { restartPrimitives with
    decodeSealed := decodeSealedBytes
    decodeSignedCommand := decodeSignedCommandBytes
    decodeCommandBody := decodeCommandBodyBytes
    decodeSignedGrant := decodeSignedGrantBytes
    decodeGrantBody := decodeGrantBodyBytes
    singleShotOpen := fun secret enc info ciphertext =>
      if secret.length = 32 ∧ enc = secret ++ info then some (ciphertext.drop 16) else none }
  agreementPublic secret := secret
  singleShotSeal key info plaintext _ :=
    if key.length = 32 then some (key ++ info, List.replicate 16 0 ++ plaintext) else none

theorem roundTripPrimitives_codes : roundTripPrimitives.CodesMessages :=
  mergesMessages _ rfl rfl rfl rfl rfl

theorem roundTripPrimitives_hpke : roundTripPrimitives.IdealHpke where
  opens := by
    intro key info plaintext randomness enc ciphertext made
    simp only [roundTripPrimitives, Option.ite_none_right_eq_some, Option.some.injEq,
      Prod.mk.injEq] at made
    obtain ⟨length, rfl, rfl⟩ := made
    refine ⟨rfl, by rw [List.length_append, List.length_replicate, Nat.add_comm], ?_⟩
    rintro secret rfl
    exact if_pos ⟨length, rfl⟩
  only := by
    intro key info plaintext randomness enc ciphertext secret other opened made ok
    simp only [roundTripPrimitives, Option.ite_none_right_eq_some, Option.some.injEq,
      Prod.mk.injEq] at made ok
    obtain ⟨length, rfl, -⟩ := made
    obtain ⟨⟨sameLength, same⟩, -⟩ := ok
    obtain ⟨sameKey, sameInfo⟩ := List.append_inj same (length.trans sameLength.symm)
    exact ⟨sameKey.symm, sameInfo.symm⟩

/-- The device of the key 1, whose certificate grants one scope. -/
def onlooker : Sender where
  identity := identityOf 1
  chain := [(identityOf 0).certify ((specOf 1 [['v']] false []).body (identityOf 0))]

/-- The box of the key 2, whose agreement key is all threes. -/
def overlooked : Receiver :=
  .new roundTripPrimitives.toSealPrimitives (identityOf 2).publicKey (List.replicate 32 3)
    (identityOf 0).publicKey

/-- How a device addresses that box. -/
def atOverlooked : Recipient where
  principal := overlooked.principal
  agreementKey := overlooked.agreement

theorem identityOf_signsForRoundTrips (key : UInt8) :
    (identityOf key).SignsFor roundTripPrimitives.toKeyPrimitives := by
  intro message
  simp [roundTripPrimitives, restartPrimitives, identityOf]

theorem onlooker_chain :
    verifyChain roundTripPrimitives.toKeyPrimitives (identityOf 0).publicKey onlooker.chain
        1500 =
      .ok (verifiedBy roundTripPrimitives.toKeyPrimitives (identityOf 0).publicKey
        ((specOf 1 [['v']] false []).body (identityOf 0))) :=
  verifyChain_issued (mergesCertificates _ rfl) (identityOf_signsForRoundTrips 0) (by decide)
    (checkWindow_eq_ok.mpr (by simp [specOf, maxCertificateMs]))
    (by simp [CertificateBody.Overreaches, CertSpec.body, specOf, Role.toInt, Role.ofInt])
    ⟨by decide, by decide, by decide⟩ (by simp [specOf]) (by simp [specOf])

theorem overlooked_expects :
    overlooked.Expects roundTripPrimitives onlooker atOverlooked 1400 (List.replicate 16 9)
      (verifiedBy roundTripPrimitives.toKeyPrimitives (identityOf 0).publicKey
        ((specOf 1 [['v']] false []).body (identityOf 0))) 1500 where
  principal := rfl
  agreement := rfl
  chain := onlooker_chain
  leafKey := rfl
  timely := by decide
  window := .empty
  room := ⟨by simp [overlooked, Receiver.new, ReplayWindow.withCapacity, forgetDue],
    .inl rfl, by decide⟩

/-- A command of two bytes to the box. -/
theorem sealed_round_trips_onlooker :
    ∃ sealed after opened, sealCommand roundTripPrimitives onlooker atOverlooked ['v'] [7, 8]
        1400 (List.replicate 16 9) [] = .ok (sealed, List.replicate 16 9) ∧
      overlooked.openCommand roundTripPrimitives.toSealPrimitives
          (onlooker.id roundTripPrimitives) sealed 1500 = .ok (after, .ok opened) ∧
      opened.body = [7, 8] := by
  obtain ⟨roundTrips, -⟩ := sealed_round_trips roundTripPrimitives roundTripPrimitives_codes
    roundTripPrimitives_hpke onlooker
    (identityOf_signsForRoundTrips 1)
    atOverlooked 1400 (by decide) (List.replicate 16 9) rfl []
  obtain ⟨sealed, made, small⟩ : ∃ sealed, sealCommand roundTripPrimitives onlooker
      atOverlooked ['v'] [7, 8] 1400 (List.replicate 16 9) [] = .ok (sealed, List.replicate 16 9) ∧
        sealed.length ≤ maxSealedBytes := by
    refine ⟨_, rfl, ?_⟩
    decide +kernel
  obtain ⟨after, opened⟩ := (roundTrips overlooked _ 1500 overlooked_expects).command ['v']
    [7, 8] sealed _ made small (by decide)
  exact ⟨sealed, after, _, made, opened, rfl⟩

end WindowMlHub
