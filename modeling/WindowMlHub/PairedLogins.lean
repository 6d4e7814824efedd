import WindowMlHub.ConnectorFiles
import WindowMlHub.HelloAuthentication
import WindowMlHub.SealedRoundTrips

/-!
# Logging in with what a pairing gave

`pair.rs` of the connector and `pairing.rs` of the seals: an offer names the keys of a
connector, and what comes back is sealed to the agreement key of the offer.  The connector
opens it, and stores nothing that it could not log in with.

So what it stores is what a hub verifies later, for as long as the certificates last.
-/

namespace WindowMlHub

open CheckedConditions ProtobufFields TextFormats

/-- `PAIRING_INFO_LABEL`. -/
def pairingInfoLabel : Bytes :=
  asciiBytes "wmlhub/pairing-answer/v1\x00".toList

/-- `ROLE`: what a box connector asks to be. -/
def boxConnectorRole : Role := .boxConnector

/-- `PairingOffer`. -/
structure PairingOffer where
  identityKey : Bytes
  agreementKey : Bytes
  role : Int
  label : Text
  offeredAtMs : Nat
  deriving DecidableEq, Repr

/-- How the messages of a pairing are written and read. -/
structure PairingFormats extends FileFormats where
  encodeAnswer : Bytes → Bytes
  decodeAnswer : Bytes → Option Bytes

/-- The readers read back what was written, of a length that a machine can count. -/
structure PairingFormats.ReadsBack (formats : PairingFormats) : Prop where
  answers : ∀ sealed : Bytes, (formats.encodeAnswer sealed).length < 2 ^ 64 →
    formats.decodeAnswer (formats.encodeAnswer sealed) = some sealed
  paired : ∀ paired : PairedWith, (formats.encodePaired paired).length < 2 ^ 64 →
    formats.decodePaired (formats.encodePaired paired) = some paired

/-! ## The messages of a pairing -/

/-- One certificate of the chain that a pairing gives. -/
def pairedField (cert : Certificate) : Field :=
  ⟨1, .bytes cert.encode⟩

/-- The fields of `PairedWith`. -/
def PairedWith.fields (paired : PairedWith) : List Field :=
  paired.chain.map pairedField ++ bytesField 2 paired.accountRoot ++
    bytesField 3 paired.channelKey

/-- `encode_to_vec` of `PairedWith`. -/
def PairedWith.encode (paired : PairedWith) : Bytes :=
  writeFields varints paired.fields

/-- Take one more field of `PairedWith`. -/
def mergePaired (paired : PairedWith) : Field → Option PairedWith
  | ⟨1, .bytes content⟩ => do
      let fields ← readFields varints content
      let cert ← fields.foldlM mergeCertificate ⟨[], []⟩
      return { paired with chain := paired.chain ++ [cert] }
  | ⟨2, .bytes content⟩ => some { paired with accountRoot := content }
  | ⟨3, .bytes content⟩ => some { paired with channelKey := content }
  | ⟨tag, _⟩ => if tag ∈ [1, 2, 3] then none else some paired

/-- `PairedWith::decode`. -/
def decodePairedBytes (bytes : Bytes) : Option PairedWith := do
  let fields ← readFields varints bytes
  fields.foldlM mergePaired ⟨[], [], []⟩

/-- `encode_to_vec` of `PairingAnswer`. -/
def encodePairingAnswer (sealed : Bytes) : Bytes :=
  writeFields varints (bytesField 1 sealed)

/-- Take one more field of `PairingAnswer`. -/
def mergePairingAnswer (sealed : Bytes) : Field → Option Bytes
  | ⟨1, .bytes content⟩ => some content
  | ⟨tag, _⟩ => if tag = 1 then none else some sealed

/-- `PairingAnswer::decode`. -/
def decodePairingAnswerBytes (bytes : Bytes) : Option Bytes := do
  let fields ← readFields varints bytes
  fields.foldlM mergePairingAnswer []

theorem paired_merge (paired : PairedWith) (chain : List Certificate)
    (small : ∀ cert ∈ chain, cert.encode.length < 2 ^ 64) :
    (chain.map pairedField).foldlM mergePaired paired =
      some { paired with chain := paired.chain ++ chain } := by
  induction chain generalizing paired with
  | nil => simp
  | cons cert rest ih =>
      have read := Certificate.readFields_encode (small cert List.mem_cons_self)
      have first : mergePaired paired (pairedField cert) =
          some { paired with chain := paired.chain ++ [cert] } := by
        simp [mergePaired, pairedField, read, Certificate.fields_merge]
      rw [List.map_cons, List.foldlM_cons, first]
      simpa using ih { paired with chain := paired.chain ++ [cert] }
        fun other member => small other (List.mem_cons_of_mem _ member)

theorem PairedWith.decode_encode {paired : PairedWith}
    (small : paired.encode.length < 2 ^ 64) :
    decodePairedBytes paired.encode = some paired := by
  have fits := fits_of_length_lt small fun field member => by
    simp only [fields, List.mem_append, List.mem_map] at member
    rcases member with (⟨cert, -, rfl⟩ | second) | third
    · exact ⟨by simp [pairedField], by simp [pairedField]⟩
    · exact smallField_of_bytes (by decide) second
    · exact smallField_of_bytes (by decide) third
  have certificates : ∀ cert ∈ paired.chain, cert.encode.length < 2 ^ 64 := by
    intro cert inChain
    have member : pairedField cert ∈ paired.fields := by
      simp only [fields, List.mem_append, List.mem_map]
      exact .inl (.inl ⟨cert, inChain, rfl⟩)
    exact lt_of_le_of_lt (length_content_le member) small
  obtain ⟨chain, accountRoot, channelKey⟩ := paired
  have first := paired_merge ⟨[], [], []⟩ chain certificates
  have second : (bytesField 2 accountRoot).foldlM mergePaired ⟨chain, [], []⟩ =
      some ⟨chain, accountRoot, []⟩ :=
    foldlM_bytesField (by rintro rfl; rfl) rfl
  have third : (bytesField 3 channelKey).foldlM mergePaired ⟨chain, accountRoot, []⟩ =
      some ⟨chain, accountRoot, channelKey⟩ :=
    foldlM_bytesField (by rintro rfl; rfl) rfl
  rw [decodePairedBytes, PairedWith.encode, readFields_writeFields fits]
  exact foldlM_append_some (foldlM_append_some first second) third

theorem decode_encodePairingAnswer {sealed : Bytes}
    (small : (encodePairingAnswer sealed).length < 2 ^ 64) :
    decodePairingAnswerBytes (encodePairingAnswer sealed) = some sealed := by
  have fits := fits_of_length_lt small fun field member =>
    smallField_of_bytes (by decide) member
  rw [decodePairingAnswerBytes, encodePairingAnswer, readFields_writeFields fits]
  exact foldlM_bytesField (by rintro rfl; rfl) rfl

theorem PairingFormats.readsBack_of_fields (formats : PairingFormats)
    (encodePaired : formats.encodePaired = PairedWith.encode)
    (decodePaired : formats.decodePaired = decodePairedBytes)
    (encodeAnswer : formats.encodeAnswer = encodePairingAnswer)
    (decodeAnswer : formats.decodeAnswer = decodePairingAnswerBytes) : formats.ReadsBack where
  answers sealed small := by
    rw [encodeAnswer] at small ⊢
    rw [decodeAnswer]
    exact decode_encodePairingAnswer small
  paired paired small := by
    rw [encodePaired] at small ⊢
    rw [decodePaired]
    exact PairedWith.decode_encode small

/-- `Keys` of a connector: what it signs with, and the secret of its agreement key. -/
structure BoxKeys where
  identity : Identity
  agreement : Bytes

/-- `PairError`, where it concerns an offer or an answer. -/
inductive PairError
  | label (length : Nat)
  | malformed
  | sealed (error : OpenError)
  | chain (error : ChainError)
  | notMine
  | notMyAgreementKey
  | wrongRole (role : Role)
  deriving DecidableEq, Repr

section Exchange

variable (primitives : HpkePrimitives) (formats : PairingFormats)

/-- `hpke_seal_raw`. -/
def hpkeSealRaw (label key plaintext randomness : Bytes) : Except MessageSealError Bytes :=
  match primitives.singleShotSeal key label plaintext randomness with
  | none => .error .hpke
  | some (enc, ciphertext) => .ok (Sealed.encode ⟨enc, ciphertext⟩)

/-- `hpke_open_raw`. -/
def hpkeOpenRaw (label agreement sealed : Bytes) : Except OpenError Bytes := do
  ensure (sealed.length ≤ maxSealedBytes) .tooLarge
  let sealed ← require (primitives.decodeSealed sealed) .malformed
  ensure (primitives.isEncappedKey sealed.enc) .malformed
  require (primitives.singleShotOpen agreement sealed.enc label sealed.ciphertext) .decrypt

/-- `seal_pairing_answer`. -/
def sealPairingAnswer (offeredAgreementKey : Bytes) (paired : PairedWith)
    (randomness : Bytes) : Except MessageSealError Bytes :=
  hpkeSealRaw primitives pairingInfoLabel offeredAgreementKey (formats.encodePaired paired)
    randomness

/-- `open_pairing_answer`. -/
def openPairingAnswer (agreement sealed : Bytes) : Except OpenError PairedWith := do
  let plaintext ← hpkeOpenRaw primitives pairingInfoLabel agreement sealed
  let paired ← require (formats.decodePaired plaintext) .malformed
  ensure (paired.accountRoot.length = 32 ∧ paired.channelKey.length = 32) .malformed
  ensure (paired.chain ≠ [] ∧ paired.chain.length ≤ maxChain) .malformed
  return paired

namespace BoxKeys

/-- `Offer::new`, whose code is drawn. -/
def offer (keys : BoxKeys) (label : Text) (nowMs : Nat) : Except PairError PairingOffer := do
  ensure (utf8Length label ≤ maxLabelBytes) (.label (utf8Length label))
  return {
    identityKey := keys.identity.publicKey
    agreementKey := primitives.agreementPublic keys.agreement
    role := boxConnectorRole.toInt
    label
    offeredAtMs := nowMs }

/-- `check`: what a connector refuses to store. -/
def check (keys : BoxKeys) (paired : PairedWith) (nowMs : Nat) : Except PairError Unit := do
  ensure (paired.accountRoot.length = 32) .malformed
  let verified ← (verifyChain primitives.toKeyPrimitives paired.accountRoot paired.chain
    nowMs).mapError .chain
  ensure (verified.principal = primitives.principalId keys.identity.publicKey) .notMine
  ensure (verified.leaf.agreementKey = primitives.agreementPublic keys.agreement)
    .notMyAgreementKey
  ensure (Role.ofInt verified.leaf.role = boxConnectorRole)
    (.wrongRole (Role.ofInt verified.leaf.role))

/-- `answer`, once an answer has come. -/
def answer (keys : BoxKeys) (answer : Bytes) (nowMs : Nat) : Except PairError PairedWith := do
  let sealed ← require (formats.decodeAnswer answer) .malformed
  let paired ← (openPairingAnswer primitives formats keys.agreement sealed).mapError .sealed
  keys.check primitives paired nowMs
  return paired

/-- What a connector that runs connects with. -/
def login (keys : BoxKeys) (hubName : String) (paired : PairedWith) : Config where
  hubName
  identity := keys.identity
  agreement := keys.agreement
  chain := paired.chain
  accountRoot := paired.accountRoot
  role := boxConnectorRole
  invite := []

end BoxKeys

end Exchange

/-! ## The time of a chain -/

/-- Every certificate of a chain is current. -/
def CurrentAt (primitives : KeyPrimitives) (chain : List Certificate) (nowMs : Nat) : Prop :=
  ∀ cert ∈ chain, ∀ body, primitives.decodeCertificate cert.body = some body →
    body.notBeforeMs ≤ nowMs ∧ nowMs ≤ body.notAfterMs

section Times

variable {primitives : KeyPrimitives} {root : Bytes} {nowMs laterMs : Nat}
  {parent : Option CertificateBody} {cert : Certificate} {body : CertificateBody}
  {chain : List Certificate} {verified : Verified}

theorem LinkRules.later (rules : LinkRules primitives root nowMs parent cert body)
    (current : body.notBeforeMs ≤ laterMs ∧ laterMs ≤ body.notAfterMs) :
    LinkRules primitives root laterMs parent cert body :=
  { rules with current }

/-- A chain that verified once verifies exactly while its certificates are current. -/
theorem verifyChain_later_iff
    (accepted : verifyChain primitives root chain nowMs = .ok verified) :
    verifyChain primitives root chain laterMs = .ok verified ↔
      CurrentAt primitives chain laterMs := by
  rcases chain_shape accepted with ⟨cert, rfl⟩ | ⟨cert, issuer, rfl⟩
  · obtain ⟨body, decoded, rules, rfl⟩ := verifyChain_one_iff.mp accepted
    have isBody := (decodeBody_eq_ok_iff.mp decoded).2.1
    constructor
    · intro again
      obtain ⟨other, decodedOther, rulesOther, -⟩ := verifyChain_one_iff.mp again
      obtain rfl := Except.ok.inj (decoded.symm.trans decodedOther)
      intro one member found decodes
      obtain rfl := List.mem_singleton.mp member
      obtain rfl := Option.some.inj (isBody.symm.trans decodes)
      exact rulesOther.current
    · intro current
      exact verifyChain_one_iff.mpr
        ⟨body, decoded, rules.later (current cert (by simp) body isBody), rfl⟩
  · obtain ⟨body, delegate, decoded, issued, rules, others, rfl⟩ :=
      verifyChain_two_iff.mp accepted
    have isBody := (decodeBody_eq_ok_iff.mp decoded).2.1
    have isDelegate := (decodeBody_eq_ok_iff.mp issued).2.1
    constructor
    · intro again
      obtain ⟨one, two, decodedOne, decodedTwo, rulesOne, rulesTwo, -⟩ :=
        verifyChain_two_iff.mp again
      obtain rfl := Except.ok.inj (decoded.symm.trans decodedOne)
      obtain rfl := Except.ok.inj (issued.symm.trans decodedTwo)
      intro any member found decodes
      rcases List.mem_pair.mp member with rfl | rfl
      · obtain rfl := Option.some.inj (isBody.symm.trans decodes)
        exact rulesOne.current
      · obtain rfl := Option.some.inj (isDelegate.symm.trans decodes)
        exact rulesTwo.current
    · intro current
      exact verifyChain_two_iff.mpr ⟨body, delegate, decoded, issued,
        rules.later (current cert (by simp) body isBody),
        others.later (current issuer (by simp) delegate isDelegate), rfl⟩

end Times

/-! ## What is stored -/

section Storing

variable {primitives : HpkePrimitives} {formats : PairingFormats} {keys : BoxKeys}
  {paired : PairedWith} {nowMs : Nat}

/-- The chain of a pairing verifies for these keys, as a box connector's. -/
structure BoxKeys.Certified (primitives : HpkePrimitives) (keys : BoxKeys)
    (paired : PairedWith) (nowMs : Nat) (verified : Verified) : Prop where
  chain : verifyChain primitives.toKeyPrimitives paired.accountRoot paired.chain nowMs =
    .ok verified
  principal : verified.principal = primitives.principalId keys.identity.publicKey
  agreementKey : verified.leaf.agreementKey = primitives.agreementPublic keys.agreement
  role : Role.ofInt verified.leaf.role = .boxConnector

theorem check_eq_ok : keys.check primitives paired nowMs = .ok () ↔
    paired.accountRoot.length = 32 ∧
      ∃ verified, keys.Certified primitives paired nowMs verified := by
  simp only [BoxKeys.check, bind_eq_ok, ensure_eq_ok, exists_const, mapError_eq_ok]
  constructor
  · rintro ⟨root, verified, chain, principal, agreementKey, role⟩
    exact ⟨root, verified, chain, principal, agreementKey, role⟩
  · rintro ⟨root, verified, chain, principal, agreementKey, role⟩
    exact ⟨root, verified, chain, principal, agreementKey, role⟩

theorem answer_eq_ok {bytes : Bytes} :
    keys.answer primitives formats bytes nowMs = .ok paired ↔
      ∃ sealed, formats.decodeAnswer bytes = some sealed ∧
        openPairingAnswer primitives formats keys.agreement sealed = .ok paired ∧
        keys.check primitives paired nowMs = .ok () := by
  simp only [BoxKeys.answer, bind_eq_ok, require_eq_ok, mapError_eq_ok, pure_eq_ok_iff]
  constructor
  · rintro ⟨sealed, decoded, other, opened, _, checked, rfl⟩
    exact ⟨sealed, decoded, opened, checked⟩
  · rintro ⟨sealed, decoded, opened, checked⟩
    exact ⟨sealed, decoded, paired, opened, (), checked, rfl⟩

theorem hpkeSealRaw_eq_ok {label key plaintext randomness sealed : Bytes}
    (made : hpkeSealRaw primitives label key plaintext randomness = .ok sealed) :
    ∃ enc ciphertext,
      primitives.singleShotSeal key label plaintext randomness = some (enc, ciphertext) ∧
        sealed = Sealed.encode ⟨enc, ciphertext⟩ := by
  unfold hpkeSealRaw at made
  split at made
  · cases made
  · next enc ciphertext found => exact ⟨enc, ciphertext, found, (Except.ok.inj made).symm⟩

/-- What was sealed opens with the secret of the key that it was sealed to, and with no
other. -/
theorem hpkeOpenRaw_iff (codes : primitives.CodesMessages) (hpke : primitives.IdealHpke)
    {label key plaintext randomness sealed agreement opened : Bytes}
    (made : hpkeSealRaw primitives label key plaintext randomness = .ok sealed)
    (small : sealed.length ≤ maxSealedBytes) :
    hpkeOpenRaw primitives label agreement sealed = .ok opened ↔
      primitives.agreementPublic agreement = key ∧ opened = plaintext := by
  obtain ⟨enc, ciphertext, isSealed, rfl⟩ := hpkeSealRaw_eq_ok made
  obtain ⟨encapped, -, opens⟩ := hpke.opens isSealed
  have counted : (Sealed.encode ⟨enc, ciphertext⟩).length < 2 ^ 64 :=
    lt_of_le_of_lt small (by decide)
  have decodes := codes.seals _ counted
  simp only [hpkeOpenRaw, bind_eq_ok, ensure_eq_ok, require_eq_ok, exists_const, decodes,
    Option.some_inj, exists_eq_left']
  constructor
  · rintro ⟨-, -, isOpened⟩
    obtain ⟨isKey, -⟩ := hpke.only isSealed isOpened
    exact ⟨isKey, Option.some.inj (isOpened.symm.trans (opens agreement isKey))⟩
  · rintro ⟨isKey, rfl⟩
    exact ⟨small, encapped, opens agreement isKey⟩

theorem openPairingAnswer_eq_ok {agreement sealed : Bytes} :
    openPairingAnswer primitives formats agreement sealed = .ok paired ↔
      ∃ plaintext, hpkeOpenRaw primitives pairingInfoLabel agreement sealed = .ok plaintext ∧
        formats.decodePaired plaintext = some paired ∧
        (paired.accountRoot.length = 32 ∧ paired.channelKey.length = 32) ∧
        paired.chain ≠ [] ∧ paired.chain.length ≤ maxChain := by
  simp only [openPairingAnswer, bind_eq_ok, require_eq_ok, ensure_eq_ok, pure_eq_ok_iff,
    exists_const]
  constructor
  · rintro ⟨plaintext, opened, other, decoded, keys, chain, rfl⟩
    exact ⟨plaintext, opened, decoded, keys, chain⟩
  · rintro ⟨plaintext, opened, decoded, keys, chain⟩
    exact ⟨plaintext, opened, paired, decoded, keys, chain, rfl⟩

end Storing

theorem eq_of_ofInt_boxConnector {number : Int}
    (is : Role.ofInt number = .boxConnector) : number = Role.boxConnector.toInt := by
  unfold Role.ofInt at is
  split at is <;> first | rfl | cases is

/-- A connector takes an answer exactly when it was sealed to its own agreement key, and
what it says is an account's: two keys, and a chain that verifies for the keys of the
connector, as a box connector's. -/
theorem pairing_answer_iff (primitives : HpkePrimitives) (codes : primitives.CodesMessages)
    (hpke : primitives.IdealHpke) (formats : PairingFormats) (reads : formats.ReadsBack)
    (offeredAgreementKey : Bytes) (given : PairedWith) (randomness sealed : Bytes)
    (made : sealPairingAnswer primitives formats offeredAgreementKey given randomness =
      .ok sealed) (small : sealed.length ≤ maxSealedBytes)
    (counted : (formats.encodeAnswer sealed).length < 2 ^ 64) (keys : BoxKeys) (nowMs : Nat)
    (paired : PairedWith) :
    keys.answer primitives formats (formats.encodeAnswer sealed) nowMs = .ok paired ↔
      primitives.agreementPublic keys.agreement = offeredAgreementKey ∧ paired = given ∧
        (given.accountRoot.length = 32 ∧ given.channelKey.length = 32) ∧
        ∃ verified, keys.Certified primitives given nowMs verified := by
  have readsPaired : formats.decodePaired (formats.encodePaired given) = some given := by
    obtain ⟨enc, ciphertext, isSealed, rfl⟩ := hpkeSealRaw_eq_ok made
    have inside := Sealed.ciphertext_le ⟨enc, ciphertext⟩
    have length := (hpke.opens isSealed).2.1
    unfold maxSealedBytes at small
    dsimp only at inside
    exact reads.paired given (by omega)
  simp only [answer_eq_ok, reads.answers sealed counted, Option.some_inj, exists_eq_left',
    openPairingAnswer_eq_ok, hpkeOpenRaw_iff codes hpke made small, check_eq_ok]
  constructor
  · rintro ⟨⟨_, ⟨isKey, rfl⟩, decoded, lengths, -⟩, -, certified⟩
    obtain rfl := Option.some.inj (readsPaired.symm.trans decoded)
    exact ⟨isKey, rfl, lengths, certified⟩
  · rintro ⟨isKey, rfl, lengths, verified, certified⟩
    have shape := chain_shape certified.chain
    refine ⟨⟨_, ⟨isKey, rfl⟩, readsPaired, lengths, ?_, ?_⟩, lengths.1, verified, certified⟩
    · rcases shape with ⟨cert, is⟩ | ⟨cert, issuer, is⟩ <;> simp [is]
    · rcases shape with ⟨cert, is⟩ | ⟨cert, issuer, is⟩ <;> simp [is, maxChain]

/-- The formats of a pairing, with lists as they are nowhere written. -/
def writtenFormats : PairingFormats where
  encodeList _ := []
  decodeList _ := none
  encodePaired := PairedWith.encode
  decodePaired := decodePairedBytes
  encodeAnswer := encodePairingAnswer
  decodeAnswer := decodePairingAnswerBytes

/-- A connector of the key 1. -/
def boxKeys : BoxKeys where
  identity := identityOf 1
  agreement := List.replicate 32 1

/-- What the root certifies for that connector. -/
def boxSpec : CertSpec :=
  { specOf 1 [] false ['b'] with role := .boxConnector }

/-- What a pairing gives that connector. -/
def boxPaired : PairedWith where
  chain := [(identityOf 0).certify (boxSpec.body (identityOf 0))]
  accountRoot := (identityOf 0).publicKey
  channelKey := List.replicate 32 7

theorem boxKeys_certified : boxKeys.Certified roundTripPrimitives boxPaired 1500
    (verifiedBy roundTripPrimitives.toKeyPrimitives (identityOf 0).publicKey
      (boxSpec.body (identityOf 0))) where
  chain :=
    verifyChain_issued (mergesCertificates _ rfl) (identityOf_signsForRoundTrips 0) (by decide)
      (checkWindow_eq_ok.mpr (by simp [boxSpec, specOf, maxCertificateMs]))
      (by simp [CertificateBody.Overreaches, CertSpec.body, boxSpec, specOf, Role.toInt,
        Role.ofInt])
      ⟨by decide, by decide, by decide⟩ (by simp [boxSpec, specOf]) (by simp [boxSpec, specOf])
  principal := rfl
  agreementKey := rfl
  role := rfl

theorem pairing_answer_iff_box :
    ∃ sealed, sealPairingAnswer roundTripPrimitives writtenFormats (List.replicate 32 1)
        boxPaired [] = .ok sealed ∧
      boxKeys.answer roundTripPrimitives writtenFormats
        (writtenFormats.encodeAnswer sealed) 1500 = .ok boxPaired := by
  obtain ⟨sealed, made, small, counted⟩ : ∃ sealed, sealPairingAnswer roundTripPrimitives
      writtenFormats (List.replicate 32 1) boxPaired [] = .ok sealed ∧
        sealed.length ≤ maxSealedBytes ∧
        (writtenFormats.encodeAnswer sealed).length < 2 ^ 64 := by
    refine ⟨_, rfl, ?_⟩
    decide +kernel
  refine ⟨sealed, made, ?_⟩
  exact (pairing_answer_iff roundTripPrimitives roundTripPrimitives_codes
    roundTripPrimitives_hpke writtenFormats
    (writtenFormats.readsBack_of_fields rfl rfl rfl rfl) _ _ _ sealed made small counted
    boxKeys 1500 boxPaired).mpr ⟨rfl, rfl, ⟨rfl, rfl⟩, _, boxKeys_certified⟩

/-- A connector that stored what a pairing gave it answers the challenge of its hub with a
hello that verifies there, exactly while its certificates are current. -/
theorem paired_login_iff (primitives : HpkePrimitives)
    (collisionFree : ∀ one other, one.length = 32 → other.length = 32 →
      primitives.digest one = primitives.digest other → one = other)
    (formats : PairingFormats) (keys : BoxKeys)
    (signs : keys.identity.SignsFor primitives.toKeyPrimitives) (bytes : Bytes)
    (nowMs : Nat) (paired : PairedWith)
    (accepted : keys.answer primitives formats bytes nowMs = .ok paired)
    (challenge : Challenge) (laterMs : Nat) :
    (∃ hello verified,
        (keys.login challenge.hub paired).answer primitives.toSealPrimitives challenge =
          some hello ∧
        verifyKeys primitives.toKeyPrimitives challenge.hub hello challenge.nonce laterMs =
          .ok verified) ↔
      CurrentAt primitives.toKeyPrimitives paired.chain laterMs := by
  obtain ⟨sealed, -, -, checked⟩ := answer_eq_ok.mp accepted
  obtain ⟨root, verified, chain, principal, -, role⟩ := check_eq_ok.mp checked
  obtain ⟨account, names, wide⟩ := names_of_verifyChain chain
  have leafKey : verified.leafKey = keys.identity.publicKey :=
    collisionFree _ _ wide keys.identity.publicKey_length (names.symm.trans principal)
  have answers : (keys.login challenge.hub paired).answer primitives.toSealPrimitives
      challenge = some ((keys.login challenge.hub paired).hello primitives.toSealPrimitives
        challenge) :=
    if_pos rfl
  rw [← verifyChain_later_iff chain]
  constructor
  · rintro ⟨hello, other, answered, verifies⟩
    obtain rfl := Option.some.inj (answers.symm.trans answered)
    obtain ⟨-, again, -, -⟩ := verifyKeys_eq_ok.mp verifies
    have before := (verifyChain_later_iff again).mpr ((verifyChain_later_iff chain).mp chain)
    obtain rfl := Except.ok.inj (chain.symm.trans before)
    exact again
  · intro again
    refine ⟨_, verified, answers,
      verifyKeys_eq_ok.mpr ⟨root, again, ⟨principal.symm, ?_⟩, ?_⟩⟩
    · exact (eq_of_ofInt_boxConnector role).symm
    · rw [leafKey, account]
      exact signs _

/-- What the root leaves for that connector. -/
def boxAnswer : Bytes :=
  encodePairingAnswer (Sealed.encode
    ⟨List.replicate 32 1 ++ pairingInfoLabel, List.replicate 16 0 ++ boxPaired.encode⟩)

theorem boxAnswer_opens :
    boxKeys.answer roundTripPrimitives writtenFormats boxAnswer 1500 = .ok boxPaired := by
  refine answer_eq_ok.mpr ⟨_, decode_encodePairingAnswer (by decide +kernel), ?_,
    check_eq_ok.mpr ⟨rfl, _, boxKeys_certified⟩⟩
  exact openPairingAnswer_eq_ok.mpr ⟨boxPaired.encode, by decide +kernel,
    PairedWith.decode_encode (by decide +kernel), ⟨rfl, rfl⟩, by decide, by decide⟩

theorem digest_roundTripPrimitives {one other : Bytes} (length : one.length = 32)
    (otherLength : other.length = 32)
    (same : roundTripPrimitives.digest one = roundTripPrimitives.digest other) :
    one = other := by
  have whole (bytes : Bytes) (length : bytes.length = 32) :
      roundTripPrimitives.digest bytes = bytes.reverse :=
    List.take_left' (by simp [length])
  rw [whole one length, whole other otherLength] at same
  exact List.reverse_injective same

/-- A challenge to that connector. -/
def boxChallenge : Challenge where
  nonce := List.replicate 32 5
  hub := "hub"
  serverTimeMs := 1500

theorem decode_boxPaired (body : CertificateBody)
    (decodes : roundTripPrimitives.decodeCertificate
      ((identityOf 0).certify (boxSpec.body (identityOf 0))).body = some body) :
    body = boxSpec.body (identityOf 0) :=
  Option.some.inj (decodes.symm.trans (by decide +kernel))

/-- The connector logs in until its certificate lapses, and not after. -/
theorem paired_login_iff_box :
    (∃ hello verified,
        (boxKeys.login "hub" boxPaired).answer roundTripPrimitives.toSealPrimitives
          boxChallenge = some hello ∧
        verifyKeys roundTripPrimitives.toKeyPrimitives "hub" hello boxChallenge.nonce 2000 =
          .ok verified) ∧
      ¬ ∃ hello verified,
        (boxKeys.login "hub" boxPaired).answer roundTripPrimitives.toSealPrimitives
          boxChallenge = some hello ∧
        verifyKeys roundTripPrimitives.toKeyPrimitives "hub" hello boxChallenge.nonce 2001 =
          .ok verified := by
  have logs := paired_login_iff roundTripPrimitives
    (fun _ _ => digest_roundTripPrimitives) writtenFormats boxKeys
    (identityOf_signsForRoundTrips 1) boxAnswer 1500 boxPaired boxAnswer_opens boxChallenge
  refine ⟨(logs 2000).mpr fun cert member body decodes => ?_, fun late => ?_⟩
  · obtain rfl := List.mem_singleton.mp member
    obtain rfl := decode_boxPaired body decodes
    decide
  · have lapsed := (logs 2001).mp late _ List.mem_cons_self (boxSpec.body (identityOf 0))
      (by decide +kernel)
    exact absurd lapsed (by decide)

end WindowMlHub
