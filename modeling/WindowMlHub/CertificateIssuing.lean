import WindowMlHub.CertificateEncoding

/-!
# Issuing and renewing certificates

The two ways to a new certificate: `issue` makes one from a specification, and `renew`
repeats one with a later window and carries it along.

What is renewed verifies, whatever its size and its window were, in front of the
certificate of a delegate who may pair.  What is issued verifies if its scopes and its
label keep the limits of the decoder, which the issuer does not ask about.
-/

namespace WindowMlHub

open CheckedConditions ProtobufFields TextFormats

/-- `Identity`: a public key, and what signs under it. -/
structure Identity where
  publicKey : Bytes
  sign : Bytes → Bytes
  publicKey_length : publicKey.length = 32

/-- What a certificate grants its subject. -/
structure CertSpec where
  subject : Bytes
  agreementKey : Bytes
  role : Role
  scopes : List Text
  mayPair : Bool
  mayRevoke : Bool
  notBeforeMs : UInt64
  notAfterMs : UInt64
  label : Text
  subject_length : subject.length = 32
  agreementKey_length : agreementKey.length = 32

/-- What `issue` and `renew` ask of a window. -/
def checkWindow (notBeforeMs notAfterMs : UInt64) : Except ChainError Unit := do
  ensure (notBeforeMs ≠ 0 ∧ notAfterMs ≠ 0) .unbounded
  ensure (notBeforeMs < notAfterMs ∧ notAfterMs.toNat - notBeforeMs.toNat ≤ maxCertificateMs)
    .tooLong

/-- The body that `sign_certificate` encodes. -/
def CertSpec.body (spec : CertSpec) (issuer : Identity) : CertificateBody where
  subject := spec.subject
  agreementKey := spec.agreementKey
  issuer := issuer.publicKey
  role := spec.role.toInt
  scopes := spec.scopes
  mayPair := spec.mayPair
  mayRevoke := spec.mayRevoke
  notBeforeMs := spec.notBeforeMs.toNat
  notAfterMs := spec.notAfterMs.toNat
  label := spec.label
  renews := none

/-- A body encoded, and signed with the label of certificates. -/
def Identity.certify (issuer : Identity) (body : CertificateBody) : Certificate :=
  ⟨body.encode, issuer.sign (certLabel ++ body.encode)⟩

/-- `sign_certificate`. -/
def signCertificate (issuer : Identity) (spec : CertSpec) : Certificate :=
  issuer.certify (spec.body issuer)

/-- `issue`. -/
def issue (issuer : Identity) (spec : CertSpec) : Except ChainError Certificate := do
  checkWindow spec.notBeforeMs spec.notAfterMs
  ensure (¬ (spec.role = .boxConnector ∧ (spec.mayPair ∨ spec.mayRevoke ∨
    ∃ name ∈ spec.scopes, name ∈ boxConnectorForbids))) .roleNotPermitted
  return signCertificate issuer spec

/-- The body that `renew` encodes: the one before, with a window, an issuer and a
predecessor of its own. -/
def renewalBody (issuer : Identity) (previous : Certificate) (before : CertificateBody)
    (notBeforeMs notAfterMs : UInt64) : CertificateBody :=
  { before with
    issuer := issuer.publicKey
    notBeforeMs := notBeforeMs.toNat
    notAfterMs := notAfterMs.toNat
    renews := some previous }

/-- `renew`. -/
def renew (primitives : KeyPrimitives) (issuer : Identity) (previous : Certificate)
    (notBeforeMs notAfterMs : UInt64) : Except ChainError Certificate := do
  let before ← decodeBody primitives previous.body
  ensure (before.renews = none) .badRenewal
  checkWindow notBeforeMs notAfterMs
  return issuer.certify (renewalBody issuer previous before notBeforeMs notAfterMs)

/-- Signatures made by this key verify under it. -/
def Identity.SignsFor (identity : Identity) (primitives : KeyPrimitives) : Prop :=
  ∀ message, primitives.verifyStrict identity.publicKey message (identity.sign message) = true

/-- What verifies is a signature of 64 bytes. -/
def KeyPrimitives.ShortSignatures (primitives : KeyPrimitives) : Prop :=
  ∀ key message signature, primitives.verifyStrict key message signature = true →
    signature.length = 64

section Issuing

variable {primitives : KeyPrimitives} {root issuer : Identity} {spec : CertSpec}
  {cert : Certificate}

theorem checkWindow_eq_ok {notBeforeMs notAfterMs : UInt64} :
    checkWindow notBeforeMs notAfterMs = .ok () ↔
      (notBeforeMs.toNat ≠ 0 ∧ notAfterMs.toNat ≠ 0) ∧
        notBeforeMs.toNat < notAfterMs.toNat ∧
        notAfterMs.toNat - notBeforeMs.toNat ≤ maxCertificateMs := by
  simp only [checkWindow, bind_eq_ok, ensure_eq_ok, exists_const, UInt64.lt_iff_toNat_lt,
    ne_eq, ← UInt64.toNat_inj, UInt64.toNat_zero]

theorem issue_eq_ok (issued : issue issuer spec = .ok cert) :
    cert = issuer.certify (spec.body issuer) ∧
      checkWindow spec.notBeforeMs spec.notAfterMs = .ok () ∧
      ¬ (spec.body issuer).Overreaches := by
  simp only [issue, bind_eq_ok, ensure_eq_ok, exists_const, pure_eq_ok_iff] at issued
  obtain ⟨⟨⟩, window, permitted, rfl⟩ := issued
  refine ⟨rfl, window, ?_⟩
  rwa [CertificateBody.Overreaches, CertSpec.body, Role.ofInt_toInt]

theorem Identity.SignsFor.genuine (signs : issuer.SignsFor primitives)
    (body : CertificateBody) :
    primitives.verify issuer.publicKey certLabel (issuer.certify body).body
      (issuer.certify body).signature = true :=
  signs _

theorem CertSpec.typed (spec : CertSpec) (issuer : Identity) : (spec.body issuer).Typed := by
  have role (role : Role) : -2 ^ 31 ≤ role.toInt ∧ role.toInt < 2 ^ 31 := by
    cases role <;> decide
  exact ⟨(role spec.role).1, (role spec.role).2, spec.notBeforeMs.toNat_lt,
    spec.notAfterMs.toNat_lt⟩

theorem CertSpec.keyed (spec : CertSpec) (issuer : Identity) : (spec.body issuer).Keyed :=
  ⟨spec.subject_length, spec.agreementKey_length, issuer.publicKey_length⟩

theorem decodeBody_encode (codes : primitives.CodesCertificates) {body : CertificateBody}
    (typed : body.Typed) (named : body.Named)
    (small : body.encode.length ≤ maxRenewingCertBytes)
    (size : body.renews ≠ none ∨ body.encode.length ≤ maxCertBytes) :
    decodeBody primitives body.encode = .ok body := by
  refine decodeBody_eq_ok_iff.mpr ⟨small, codes.inverts body typed ?_, size, named⟩
  unfold maxRenewingCertBytes maxCertBytes at small
  omega

/-- What a specification may name, which `issue` does not ask. -/
def CertSpec.WithinLimits (spec : CertSpec) : Prop :=
  spec.scopes.length ≤ maxScopes ∧ (∀ name ∈ spec.scopes, scopeNameOk name = true) ∧
    utf8Length spec.label ≤ maxLabelBytes

theorem CertSpec.named_iff (spec : CertSpec) (issuer : Identity) :
    (spec.body issuer).Named ↔ spec.WithinLimits :=
  ⟨fun named => ⟨named.scopes_length, List.all_eq_true.mp named.scopes_ok,
      named.label_length⟩,
    fun ⟨few, ok, short⟩ => ⟨few, List.all_eq_true.mpr ok, short⟩⟩

theorem decodeBody_issued (codes : primitives.CodesCertificates)
    (within : spec.WithinLimits) :
    decodeBody primitives (spec.body issuer).encode = .ok (spec.body issuer) := by
  have named := (spec.named_iff issuer).mpr within
  have size := CertificateBody.length_encode_le (spec.typed issuer) (spec.keyed issuer) named
  have fresh : (spec.body issuer).renews.toList.map renewsField = [] := rfl
  rw [fresh, writeFields_nil, List.length_nil] at size
  refine decodeBody_encode codes (spec.typed issuer) named ?_ (.inr ?_)
  · unfold maxRenewingCertBytes maxCertBytes
    omega
  · unfold maxCertBytes
    omega

theorem withinLimits_of_decodeBody (codes : primitives.CodesCertificates)
    {body : CertificateBody}
    (decoded : decodeBody primitives (spec.body issuer).encode = .ok body) :
    spec.WithinLimits := by
  obtain ⟨small, decodes, -, named⟩ := decodeBody_eq_ok_iff.mp decoded
  have counted : (spec.body issuer).encode.length < 2 ^ 64 := by
    unfold maxRenewingCertBytes maxCertBytes at small
    omega
  have inverts := codes.inverts _ (spec.typed issuer) counted
  obtain rfl := Option.some.inj (inverts.symm.trans decodes)
  exact (spec.named_iff issuer).mp named

/-- A certificate that the root issued keeps the rules of a chain of one. -/
theorem linkRules_issued (signs : root.SignsFor primitives)
    (notRoot : spec.subject ≠ root.publicKey)
    (window : checkWindow spec.notBeforeMs spec.notAfterMs = .ok ())
    (permitted : ¬ (spec.body root).Overreaches) {nowMs : Nat}
    (started : spec.notBeforeMs.toNat ≤ nowMs) (unexpired : nowMs ≤ spec.notAfterMs.toNat) :
    LinkRules primitives root.publicKey nowMs none (root.certify (spec.body root))
      (spec.body root) where
  keyed := spec.keyed root
  subject_ne_root := notRoot
  parent_keyed := by simp
  issuer_eq := rfl
  genuine := signs.genuine _
  bounded := (checkWindow_eq_ok.mp window).1
  window := (checkWindow_eq_ok.mp window).2
  current := ⟨started, unexpired⟩
  permitted := by
    rintro ⟨role, mayPair | forbidden⟩
    · exact permitted ⟨role, .inl mayPair⟩
    · exact permitted ⟨role, .inr (.inr forbidden)⟩
  renewal := by simp [CertSpec.body]
  delegated := by simp

theorem verifyChain_issued (codes : primitives.CodesCertificates)
    (signs : root.SignsFor primitives) (notRoot : spec.subject ≠ root.publicKey)
    (window : checkWindow spec.notBeforeMs spec.notAfterMs = .ok ())
    (permitted : ¬ (spec.body root).Overreaches) (within : spec.WithinLimits) {nowMs : Nat}
    (started : spec.notBeforeMs.toNat ≤ nowMs) (unexpired : nowMs ≤ spec.notAfterMs.toNat) :
    verifyChain primitives root.publicKey [root.certify (spec.body root)] nowMs =
      .ok (verifiedBy primitives root.publicKey (spec.body root)) :=
  verifyChain_one_iff.mpr ⟨_, decodeBody_issued codes within,
    linkRules_issued signs notRoot window permitted started unexpired, rfl⟩

end Issuing

/-- A certificate that the root issued verifies at every time of its window exactly when
its scopes and its label keep the limits of the decoder. -/
theorem issued_verifies_iff (primitives : KeyPrimitives)
    (codes : primitives.CodesCertificates) (root : Identity)
    (signs : root.SignsFor primitives) (spec : CertSpec)
    (notRoot : spec.subject ≠ root.publicKey) (cert : Certificate)
    (issued : issue root spec = .ok cert) :
    (∀ nowMs, spec.notBeforeMs.toNat ≤ nowMs → nowMs ≤ spec.notAfterMs.toNat →
        ∃ verified, verifyChain primitives root.publicKey [cert] nowMs = .ok verified) ↔
      spec.WithinLimits := by
  obtain ⟨rfl, window, permitted⟩ := issue_eq_ok issued
  constructor
  · intro verifies
    have nonempty := (checkWindow_eq_ok.mp window).2.1
    obtain ⟨verified, accepted⟩ := verifies spec.notBeforeMs.toNat le_rfl nonempty.le
    obtain ⟨body, decoded, -⟩ := verifyChain_one_iff.mp accepted
    exact withinLimits_of_decodeBody codes decoded
  · intro within nowMs started unexpired
    exact ⟨_, verifyChain_issued codes signs notRoot window permitted within started
      unexpired⟩

/-- The decoder that merges fields, and signatures that are the key twice. -/
def issuingPrimitives : KeyPrimitives where
  decodeCertificate := decodeCertificateBody
  verifyStrict key _ signature := decide (key.length = 32 ∧ signature = key ++ key)
  digest key := key

/-- The identity whose key is this byte over and over. -/
def identityOf (key : UInt8) : Identity where
  publicKey := List.replicate 32 key
  sign _ := List.replicate 32 key ++ List.replicate 32 key
  publicKey_length := List.length_replicate

/-- A certificate from 1000 to 2000 for the identity with this key. -/
def specOf (subject : UInt8) (scopes : List Text) (mayPair : Bool) (label : Text) :
    CertSpec where
  subject := List.replicate 32 subject
  agreementKey := List.replicate 32 subject
  role := .client
  scopes := scopes
  mayPair := mayPair
  mayRevoke := false
  notBeforeMs := 1000
  notAfterMs := 2000
  label := label
  subject_length := List.length_replicate
  agreementKey_length := List.length_replicate

theorem issuingPrimitives_codes : issuingPrimitives.CodesCertificates :=
  mergesCertificates issuingPrimitives rfl

theorem identityOf_signsFor (key : UInt8) : (identityOf key).SignsFor issuingPrimitives := by
  intro message
  simp [issuingPrimitives, identityOf]

theorem issuingPrimitives_short : issuingPrimitives.ShortSignatures := by
  intro key message signature verified
  obtain ⟨key32, rfl⟩ := of_decide_eq_true verified
  simp [key32]

theorem linkRules_specOf {subject : UInt8} (scopes : List Text) (mayPair : Bool)
    (label : Text) (notRoot : subject ≠ 0) :
    LinkRules issuingPrimitives (identityOf 0).publicKey 1500 none
      ((identityOf 0).certify ((specOf subject scopes mayPair label).body (identityOf 0)))
      ((specOf subject scopes mayPair label).body (identityOf 0)) := by
  refine linkRules_issued (identityOf_signsFor 0) ?_ ?_ ?_ ?_ ?_
  · simpa [specOf, identityOf] using notRoot
  · exact checkWindow_eq_ok.mpr (by simp [specOf, maxCertificateMs])
  · simp [CertificateBody.Overreaches, CertSpec.body, specOf, Role.toInt, Role.ofInt]
  · simp [specOf]
  · simp [specOf]

theorem verifyChain_specOf {subject : UInt8} {scopes : List Text} {mayPair : Bool}
    {label : Text} (notRoot : subject ≠ 0)
    (within : (specOf subject scopes mayPair label).WithinLimits) :
    verifyChain issuingPrimitives (identityOf 0).publicKey
        [(identityOf 0).certify ((specOf subject scopes mayPair label).body (identityOf 0))]
        1500 =
      .ok (verifiedBy issuingPrimitives (identityOf 0).publicKey
        ((specOf subject scopes mayPair label).body (identityOf 0))) :=
  verifyChain_one_iff.mpr ⟨_, decodeBody_issued issuingPrimitives_codes within,
    linkRules_specOf scopes mayPair label notRoot, rfl⟩

/-- A certificate for a scope with a capital letter is issued, and no verifier accepts
it. -/
theorem capital_scope_refused :
    ∃ cert, issue (identityOf 0) (specOf 1 [['V']] false []) = .ok cert ∧
      ∀ verified, verifyChain issuingPrimitives (identityOf 0).publicKey [cert] 1500 ≠
        .ok verified := by
  refine ⟨_, rfl, fun verified accepted => ?_⟩
  obtain ⟨body, decoded, -⟩ := verifyChain_one_iff.mp accepted
  have within := withinLimits_of_decodeBody issuingPrimitives_codes decoded
  have := within.2.1 ['V'] List.mem_cons_self
  revert this
  decide

/-- A certificate for a scope in small letters verifies as long as it lasts. -/
theorem issued_verifies_iff_viewer :
    (specOf 1 [['v']] false []).WithinLimits ∧ ∀ nowMs, 1000 ≤ nowMs → nowMs ≤ 2000 →
      ∃ verified, verifyChain issuingPrimitives (identityOf 0).publicKey
        [(identityOf 0).certify ((specOf 1 [['v']] false []).body (identityOf 0))] nowMs =
          .ok verified := by
  have within : (specOf 1 [['v']] false []).WithinLimits := ⟨by decide, by decide, by decide⟩
  exact ⟨within, (issued_verifies_iff issuingPrimitives issuingPrimitives_codes (identityOf 0)
    (identityOf_signsFor 0) (specOf 1 [['v']] false []) (by decide) _ rfl).mpr within⟩

/-! ## Renewals -/

section Renewing

variable {primitives : KeyPrimitives} {root : Bytes} {issuer : Identity}
  {previous : Certificate} {before : CertificateBody} {thenMs nowMs : Nat}
  {notBeforeMs notAfterMs : UInt64}

theorem verifyRenewal_renewalBody (decoded : decodeBody primitives previous.body = .ok before)
    (fresh : before.renews = none)
    (rules : LinkRules primitives root thenMs none previous before) :
    verifyRenewal primitives root (renewalBody issuer previous before notBeforeMs notAfterMs)
      previous = .ok () := by
  have genuine := rules.genuine
  rw [rules.issuer_eq] at genuine
  simp only [verifyRenewal, bind_eq_ok, ensure_eq_ok, exists_const, key32_eq_ok]
  exact ⟨before, decoded, fresh, _, ⟨rules.keyed.issuer_length, rfl⟩, rules.issuer_eq,
    genuine, rfl⟩

theorem renewalBody_typed (typed : before.Typed) :
    (renewalBody issuer previous before notBeforeMs notAfterMs).Typed :=
  ⟨typed.role_ge, typed.role_lt, notBeforeMs.toNat_lt, notAfterMs.toNat_lt⟩

theorem renewalBody_keyed (keyed : before.Keyed) :
    (renewalBody issuer previous before notBeforeMs notAfterMs).Keyed :=
  ⟨keyed.subject_length, keyed.agreementKey_length, issuer.publicKey_length⟩

theorem renewalBody_named (named : before.Named) :
    (renewalBody issuer previous before notBeforeMs notAfterMs).Named :=
  ⟨named.scopes_length, named.scopes_ok, named.label_length⟩

/-- A renewal of a certificate that verified fits the limit of renewals, and is decoded as
it was made. -/
theorem decodeBody_renewal (codes : primitives.CodesCertificates)
    (short : primitives.ShortSignatures)
    (decoded : decodeBody primitives previous.body = .ok before)
    (fresh : before.renews = none)
    (rules : LinkRules primitives root thenMs none previous before) :
    decodeBody primitives (renewalBody issuer previous before notBeforeMs notAfterMs).encode =
      .ok (renewalBody issuer previous before notBeforeMs notAfterMs) := by
  obtain ⟨-, decodes, size, named⟩ := decodeBody_eq_ok_iff.mp decoded
  have typed : (renewalBody issuer previous before notBeforeMs notAfterMs).Typed :=
    renewalBody_typed (codes.typed _ _ decodes)
  have named : (renewalBody issuer previous before notBeforeMs notAfterMs).Named :=
    renewalBody_named named
  have small : previous.body.length ≤ maxCertBytes := by
    rcases size with renewal | small
    · exact absurd fresh renewal
    · exact small
  have carried := length_renewsField_le small (short _ _ _ rules.genuine)
  have length := CertificateBody.length_encode_le typed (renewalBody_keyed rules.keyed) named
  have alone : (renewalBody issuer previous before notBeforeMs notAfterMs).renews.toList.map
      renewsField = [renewsField previous] := rfl
  rw [alone, writeFields_cons, writeFields_nil, List.append_nil] at length
  refine decodeBody_encode codes typed named ?_ (.inl (by simp [renewalBody]))
  unfold maxRenewingCertBytes maxCertBytes
  omega

/-- A renewal keeps the rules of a chain of two in front of the delegate who made it. -/
theorem linkRules_renewal {delegate : CertificateBody} {cert : Certificate}
    (signs : issuer.SignsFor primitives) (isDelegate : issuer.publicKey = delegate.subject)
    (mayPair : delegate.mayPair = true) (notRevoker : before.mayRevoke = false)
    (decoded : decodeBody primitives previous.body = .ok before)
    (fresh : before.renews = none)
    (rules : LinkRules primitives root thenMs none previous before)
    (rulesOfDelegate : LinkRules primitives root nowMs none cert delegate)
    (window : checkWindow notBeforeMs notAfterMs = .ok ())
    (started : notBeforeMs.toNat ≤ nowMs) (unexpired : nowMs ≤ notAfterMs.toNat)
    (outlived : notAfterMs.toNat ≤ delegate.notAfterMs) :
    LinkRules primitives root nowMs (some delegate)
      (issuer.certify (renewalBody issuer previous before notBeforeMs notAfterMs))
      (renewalBody issuer previous before notBeforeMs notAfterMs) where
  keyed := renewalBody_keyed rules.keyed
  subject_ne_root := rules.subject_ne_root
  parent_keyed := by
    rintro _ ⟨⟩
    exact rulesOfDelegate.keyed.subject_length
  issuer_eq := isDelegate
  genuine := signs.genuine _
  bounded := (checkWindow_eq_ok.mp window).1
  window := (checkWindow_eq_ok.mp window).2
  current := ⟨started, unexpired⟩
  permitted := rules.permitted
  renewal := by
    rintro _ ⟨⟩
    exact verifyRenewal_renewalBody decoded fresh rules
  delegated := by
    rintro _ ⟨⟩
    simp [verifyDelegation, bind_eq_ok, renewalBody, mayPair, notRevoker, outlived]

end Renewing

/-- Whatever the root certified, of whatever size and window, a delegate who may pair can
renew within its own window, unless it may revoke or is a renewal itself; and the renewal
verifies in front of the delegate's certificate, on the same terms. -/
theorem renewal_verifies (primitives : KeyPrimitives)
    (codes : primitives.CodesCertificates) (short : primitives.ShortSignatures)
    (root : Bytes) (issuer : Identity) (signs : issuer.SignsFor primitives)
    (previous delegate : Certificate) (thenMs nowMs : Nat) (before delegation : Verified)
    (verified : verifyChain primitives root [previous] thenMs = .ok before)
    (notRevoker : before.leaf.mayRevoke = false) (fresh : before.leaf.renews = none)
    (delegated : verifyChain primitives root [delegate] nowMs = .ok delegation)
    (mayPair : delegation.leaf.mayPair = true)
    (isDelegate : issuer.publicKey = delegation.leaf.subject)
    (notBeforeMs notAfterMs : UInt64) (positive : 0 < notBeforeMs)
    (started : notBeforeMs.toNat ≤ nowMs) (unexpired : nowMs ≤ notAfterMs.toNat)
    (ordered : notBeforeMs < notAfterMs)
    (bounded : notAfterMs.toNat - notBeforeMs.toNat ≤ maxCertificateMs)
    (outlived : notAfterMs.toNat ≤ delegation.leaf.notAfterMs) :
    ∃ renewed after, renew primitives issuer previous notBeforeMs notAfterMs = .ok renewed ∧
      verifyChain primitives root [renewed, delegate] nowMs = .ok after ∧
      after.leaf.SameTerms before.leaf := by
  obtain ⟨body, decoded, rules, rfl⟩ := verifyChain_one_iff.mp verified
  obtain ⟨issuerBody, issued, rulesOfIssuer, rfl⟩ := verifyChain_one_iff.mp delegated
  have isLater : notBeforeMs.toNat < notAfterMs.toNat := UInt64.lt_iff_toNat_lt.mp ordered
  have isPositive : 0 < notBeforeMs.toNat := UInt64.lt_iff_toNat_lt.mp positive
  have window : checkWindow notBeforeMs notAfterMs = .ok () :=
    checkWindow_eq_ok.mpr ⟨⟨by omega, by omega⟩, isLater, bounded⟩
  refine ⟨issuer.certify (renewalBody issuer previous body notBeforeMs notAfterMs), _, ?_,
    verifyChain_two_iff.mpr ⟨renewalBody issuer previous body notBeforeMs notAfterMs,
      issuerBody, decodeBody_renewal codes short decoded fresh rules, issued,
      linkRules_renewal signs isDelegate mayPair notRevoker decoded fresh rules
        rulesOfIssuer window started unexpired outlived, rulesOfIssuer, rfl⟩, ?_⟩
  · simp only [renew, bind_eq_ok, ensure_eq_ok, exists_const, pure_eq_ok_iff]
    exact ⟨body, decoded, fresh, (), window, rfl⟩
  · exact ⟨rfl, rfl, rfl, rfl, rfl, rfl, rfl⟩

/-- A scope that only the root may grant, renewed by a device that may pair. -/
theorem renewal_verifies_approver :
    ∃ renewed after, renew issuingPrimitives (identityOf 2)
        ((identityOf 0).certify ((specOf 1 [['a']] false []).body (identityOf 0)))
        1400 1900 = .ok renewed ∧
      verifyChain issuingPrimitives (identityOf 0).publicKey
        [renewed, (identityOf 0).certify ((specOf 2 [] true []).body (identityOf 0))] 1500 =
          .ok after ∧
      after.leaf.SameTerms ((specOf 1 [['a']] false []).body (identityOf 0)) := by
  exact renewal_verifies issuingPrimitives issuingPrimitives_codes issuingPrimitives_short
    (identityOf 0).publicKey (identityOf 2) (identityOf_signsFor 2) _ _ 1500 1500 _ _
    (verifyChain_specOf (by decide) ⟨by decide, by decide, by decide⟩) rfl rfl
    (verifyChain_specOf (by decide) ⟨by decide, by decide, by decide⟩) rfl rfl 1400 1900
    (by decide) (by decide) (by decide) (by decide) (by decide) (by decide)

end WindowMlHub
