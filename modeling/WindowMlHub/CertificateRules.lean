import WindowMlHub.CertificateChains

/-!
# The rules of a verified chain

Exactly what `verify_chain` accepts: a chain of one certificate, which the root issued, or
of two, the second of which the root issued and the first its subject.  Each is decoded
within bounds, current, and of a role that may hold its powers.

One power of a box connector the verifier leaves to the issuer: `issue` refuses it
`may_revoke`, and `verify_chain` accepts it in a certificate of the root's own.
-/

namespace WindowMlHub

open CheckedConditions TextFormats

/-- Its keys have the length of keys. -/
structure CertificateBody.Keyed (body : CertificateBody) : Prop where
  subject_length : body.subject.length = 32
  agreementKey_length : body.agreementKey.length = 32
  issuer_length : body.issuer.length = 32

/-- What `decode_body` lets a body name. -/
structure CertificateBody.Named (body : CertificateBody) : Prop where
  scopes_length : body.scopes.length ≤ maxScopes
  scopes_ok : body.scopes.all scopeNameOk = true
  label_length : utf8Length body.label ≤ maxLabelBytes

section Rules

variable {primitives : KeyPrimitives} {root : Bytes} {nowMs : Nat}
  {parent : Option CertificateBody} {cert : Certificate} {body : CertificateBody}

theorem decodeBody_eq_ok_iff {bytes : Bytes} :
    decodeBody primitives bytes = .ok body ↔
      bytes.length ≤ maxRenewingCertBytes ∧ primitives.decodeCertificate bytes = some body ∧
        (body.renews ≠ none ∨ bytes.length ≤ maxCertBytes) ∧ body.Named := by
  simp only [decodeBody, bind_eq_ok, require_eq_ok, ensure_eq_ok, pure_eq_ok_iff,
    exists_const]
  constructor
  · rintro ⟨small, found, decodes, size, ⟨few, ok, short⟩, rfl⟩
    exact ⟨small, decodes, size, few, ok, short⟩
  · rintro ⟨small, decodes, size, few, ok, short⟩
    exact ⟨small, body, decodes, size, ⟨few, ok, short⟩, rfl⟩

/-- What one pass of the loop of `verify_chain` checks. -/
structure LinkRules (primitives : KeyPrimitives) (root : Bytes) (nowMs : Nat)
    (parent : Option CertificateBody) (cert : Certificate) (body : CertificateBody) :
    Prop where
  keyed : body.Keyed
  subject_ne_root : body.subject ≠ root
  parent_keyed : ∀ delegate ∈ parent, delegate.subject.length = 32
  issuer_eq : body.issuer = issuingKey root parent
  genuine : primitives.verify body.issuer certLabel cert.body cert.signature = true
  bounded : body.notBeforeMs ≠ 0 ∧ body.notAfterMs ≠ 0
  window : body.notBeforeMs < body.notAfterMs ∧
    body.notAfterMs - body.notBeforeMs ≤ maxCertificateMs
  current : body.notBeforeMs ≤ nowMs ∧ nowMs ≤ body.notAfterMs
  permitted : ¬ (Role.ofInt body.role = .boxConnector ∧
    (body.mayPair = true ∨ ∃ name ∈ body.scopes, name ∈ boxConnectorForbids))
  renewal : ∀ previous ∈ body.renews, verifyRenewal primitives root body previous = .ok ()
  delegated : ∀ delegate ∈ parent,
    verifyDelegation delegate body body.renews.isSome = .ok ()

theorem expectedIssuer_eq_ok_iff {key : Bytes} :
    expectedIssuer root parent = .ok key ↔
      (∀ delegate ∈ parent, delegate.subject.length = 32) ∧
        issuingKey root parent = key := by
  cases parent with
  | none => simp [expectedIssuer, issuingKey]
  | some delegate => simp [expectedIssuer, issuingKey, key32_eq_ok]

theorem verifyRenews_eq_ok_iff {renewed : Bool} :
    verifyRenews primitives root body = .ok renewed ↔
      (∀ previous ∈ body.renews, verifyRenewal primitives root body previous = .ok ()) ∧
        body.renews.isSome = renewed := by
  unfold verifyRenews
  cases body.renews with
  | none => simp
  | some previous =>
      simp only [bind_eq_ok, pure_eq_ok_iff, Option.mem_some_iff, forall_eq',
        Option.isSome_some]
      constructor
      · rintro ⟨_, went, same⟩
        exact ⟨went, same⟩
      · rintro ⟨went, same⟩
        exact ⟨_, went, same⟩

/-- One pass of the loop accepts what keeps its rules, and nothing else. -/
theorem verifyLink_eq_ok_iff :
    verifyLink primitives root nowMs parent cert body = .ok () ↔
      LinkRules primitives root nowMs parent cert body := by
  simp only [verifyLink, bind_eq_ok, ensure_eq_ok, key32_eq_ok, exists_const,
    expectedIssuer_eq_ok_iff, verifyRenews_eq_ok_iff]
  constructor
  · rintro ⟨_, ⟨subject32, rfl⟩, _, ⟨issuer32, rfl⟩, _, ⟨agreement32, rfl⟩, notRoot, _,
      ⟨parent32, rfl⟩, issuer, genuine, bounded, window, current, permitted, _,
      ⟨renewal, rfl⟩, delegated⟩
    refine ⟨⟨subject32, agreement32, issuer32⟩, notRoot, parent32, issuer, genuine, bounded,
      window, current, permitted, renewal, ?_⟩
    rintro delegate rfl
    exact delegated
  · intro rules
    refine ⟨_, ⟨rules.keyed.subject_length, rfl⟩, _, ⟨rules.keyed.issuer_length, rfl⟩,
      _, ⟨rules.keyed.agreementKey_length, rfl⟩, rules.subject_ne_root, _,
      ⟨rules.parent_keyed, rfl⟩, rules.issuer_eq, rules.genuine, rules.bounded,
      rules.window, rules.current, rules.permitted, _, ⟨rules.renewal, rfl⟩, ?_⟩
    cases parent with
    | none => rfl
    | some delegate => exact rules.delegated delegate rfl

theorem verifyLinks_cons_eq_ok_iff {rest : List (Certificate × CertificateBody)} :
    verifyLinks primitives root nowMs ((cert, body) :: rest) = .ok () ↔
      LinkRules primitives root nowMs (rest.head?.map Prod.snd) cert body ∧
        verifyLinks primitives root nowMs rest = .ok () := by
  rw [verifyLinks, bind_eq_ok, ← verifyLink_eq_ok_iff]
  constructor
  · rintro ⟨_, link, links⟩
    exact ⟨link, links⟩
  · rintro ⟨link, links⟩
    exact ⟨_, link, links⟩

/-- What a chain that verified says of its leaf. -/
def verifiedBy (primitives : KeyPrimitives) (root : Bytes) (leaf : CertificateBody) :
    Verified where
  account := primitives.accountId root
  principal := primitives.principalId leaf.subject
  leafKey := leaf.subject
  leaf := leaf

theorem verifyChain_one_iff {verified : Verified} :
    verifyChain primitives root [cert] nowMs = .ok verified ↔
      ∃ body, decodeBody primitives cert.body = .ok body ∧
        LinkRules primitives root nowMs none cert body ∧
        verifiedBy primitives root body = verified := by
  simp only [verifyChain, bind_eq_ok, ensure_eq_ok, exists_const, mapM_eq_ok,
    require_eq_ok, key32_eq_ok, pure_eq_ok_iff]
  constructor
  · rintro ⟨-, _, decoded, ⟨⟩, links, leaf, head, _, ⟨-, rfl⟩, rfl⟩
    obtain _ | ⟨decoded, _ | _⟩ := decoded
    cases head
    exact ⟨_, decoded, (verifyLinks_cons_eq_ok_iff.mp links).1, rfl⟩
  · rintro ⟨body, decoded, rules, rfl⟩
    exact ⟨⟨by simp, by simp [maxChain]⟩, [body], .cons decoded .nil, (),
      verifyLinks_cons_eq_ok_iff.mpr ⟨rules, rfl⟩, body, rfl, _,
      ⟨rules.keyed.subject_length, rfl⟩, rfl⟩

/-- A chain of two certificates. -/
theorem verifyChain_two_iff {issuer : Certificate} {verified : Verified} :
    verifyChain primitives root [cert, issuer] nowMs = .ok verified ↔
      ∃ body delegate, decodeBody primitives cert.body = .ok body ∧
        decodeBody primitives issuer.body = .ok delegate ∧
        LinkRules primitives root nowMs (some delegate) cert body ∧
        LinkRules primitives root nowMs none issuer delegate ∧
        verifiedBy primitives root body = verified := by
  simp only [verifyChain, bind_eq_ok, ensure_eq_ok, exists_const, mapM_eq_ok,
    require_eq_ok, key32_eq_ok, pure_eq_ok_iff]
  constructor
  · rintro ⟨-, _, decoded, ⟨⟩, links, leaf, head, _, ⟨-, rfl⟩, rfl⟩
    obtain _ | ⟨decoded, _ | ⟨issued, _ | _⟩⟩ := decoded
    cases head
    obtain ⟨rules, others⟩ := verifyLinks_cons_eq_ok_iff.mp links
    exact ⟨_, _, decoded, issued, rules, (verifyLinks_cons_eq_ok_iff.mp others).1, rfl⟩
  · rintro ⟨body, delegate, decoded, issued, rules, others, rfl⟩
    exact ⟨⟨by simp, by simp [maxChain]⟩, [body, delegate], .cons decoded (.cons issued .nil),
      (), verifyLinks_cons_eq_ok_iff.mpr
        ⟨rules, verifyLinks_cons_eq_ok_iff.mpr ⟨others, rfl⟩⟩, body, rfl, _,
      ⟨rules.keyed.subject_length, rfl⟩, rfl⟩

theorem chain_shape {chain : List Certificate} {verified : Verified}
    (accepted : verifyChain primitives root chain nowMs = .ok verified) :
    (∃ cert, chain = [cert]) ∨ ∃ cert issuer, chain = [cert, issuer] := by
  simp only [verifyChain, bind_eq_ok, ensure_eq_ok, exists_const] at accepted
  obtain ⟨⟨nonempty, short⟩, -⟩ := accepted
  rcases chain with _ | ⟨cert, _ | ⟨issuer, _ | ⟨third, rest⟩⟩⟩
  · exact absurd rfl nonempty
  · exact .inl ⟨cert, rfl⟩
  · exact .inr ⟨cert, issuer, rfl⟩
  · simp [maxChain] at short

/-! ## Box connectors -/

/-- The body is a box connector's, with a power that `issue` refuses to this role. -/
def CertificateBody.Overreaches (body : CertificateBody) : Prop :=
  Role.ofInt body.role = .boxConnector ∧
    (body.mayPair = true ∨ body.mayRevoke = true ∨
      ∃ name ∈ body.scopes, name ∈ boxConnectorForbids)

instance (body : CertificateBody) : Decidable body.Overreaches :=
  inferInstanceAs (Decidable (_ ∧ _))

theorem LinkRules.overreaches_iff (rules : LinkRules primitives root nowMs parent cert body) :
    body.Overreaches ↔ Role.ofInt body.role = .boxConnector ∧ body.mayRevoke = true := by
  constructor
  · rintro ⟨role, mayPair | mayRevoke | forbidden⟩
    · exact (rules.permitted ⟨role, .inl mayPair⟩).elim
    · exact ⟨role, mayRevoke⟩
    · exact (rules.permitted ⟨role, .inr forbidden⟩).elim
  · rintro ⟨role, mayRevoke⟩
    exact ⟨role, .inr (.inl mayRevoke)⟩

theorem LinkRules.delegation {delegate : CertificateBody}
    (rules : LinkRules primitives root nowMs (some delegate) cert body) :
    delegate.mayPair = true ∧ body.notAfterMs ≤ delegate.notAfterMs ∧
      body.mayRevoke = false := by
  have delegated := rules.delegated delegate rfl
  simp only [verifyDelegation, bind_eq_ok, ensure_eq_ok, exists_const] at delegated
  obtain ⟨mayPair, outlives, notRevoker, -⟩ := delegated
  exact ⟨mayPair, outlives, by simpa using notRevoker⟩

end Rules

/-- In a chain that verifies no box connector has a power that `issue` refuses to it, but
in a chain of one certificate, in which the verifier does not ask whether it may revoke. -/
theorem box_connector_powers_iff (primitives : KeyPrimitives) (root : Bytes)
    (chain : List Certificate) (nowMs : Nat) (verified : Verified)
    (accepted : verifyChain primitives root chain nowMs = .ok verified) :
    (∀ cert ∈ chain, ∀ body, primitives.decodeCertificate cert.body = some body →
        ¬ body.Overreaches) ↔
      ¬ ∃ cert body, chain = [cert] ∧ primitives.decodeCertificate cert.body = some body ∧
        Role.ofInt body.role = .boxConnector ∧ body.mayRevoke = true := by
  constructor
  · rintro powerless ⟨cert, body, rfl, decodes, role, mayRevoke⟩
    exact powerless cert List.mem_cons_self body decodes ⟨role, .inr (.inl mayRevoke)⟩
  · intro alone
    rcases chain_shape accepted with ⟨cert, rfl⟩ | ⟨cert, issuer, rfl⟩
    · obtain ⟨body, decoded, rules, -⟩ := verifyChain_one_iff.mp accepted
      have decodes := decodeBody_eq_ok decoded
      intro found member other decodesOther overreaches
      obtain rfl := List.mem_singleton.mp member
      obtain rfl := Option.some.inj (decodes.symm.trans decodesOther)
      exact alone ⟨found, body, rfl, decodes, rules.overreaches_iff.mp overreaches⟩
    · obtain ⟨body, delegate, decoded, issued, rules, rulesOfIssuer, -⟩ :=
        verifyChain_two_iff.mp accepted
      obtain ⟨mayPair, -, notRevoker⟩ := rules.delegation
      intro found member other decodesOther overreaches
      rcases List.mem_cons.mp member with rfl | among
      · obtain rfl :=
          Option.some.inj ((decodeBody_eq_ok decoded).symm.trans decodesOther)
        have := (rules.overreaches_iff.mp overreaches).2
        rw [notRevoker] at this
        cases this
      · obtain rfl := List.mem_singleton.mp among
        obtain rfl :=
          Option.some.inj ((decodeBody_eq_ok issued).symm.trans decodesOther)
        exact rulesOfIssuer.permitted ⟨overreaches.1, .inl mayPair⟩

/-- A certificate of the root, whose key is all zeros, for a box connector that may
revoke. -/
def revokingConnector : CertificateBody where
  subject := List.replicate 32 1
  agreementKey := List.replicate 32 1
  issuer := List.replicate 32 0
  role := Role.boxConnector.toInt
  scopes := []
  mayPair := false
  mayRevoke := true
  notBeforeMs := 1000
  notAfterMs := 2000
  label := []
  renews := none

/-- Every certificate is that one, and signatures are the key. -/
def connectorPrimitives : KeyPrimitives where
  decodeCertificate _ := some revokingConnector
  verifyStrict key _ signature := decide (signature = key)
  digest key := key

/-- The verifier accepts a box connector that may revoke. -/
theorem revoking_connector_accepted :
    ∃ chain verified, verifyChain connectorPrimitives (List.replicate 32 0) chain 1500 =
        .ok verified ∧
      ∃ cert ∈ chain, ∃ body, connectorPrimitives.decodeCertificate cert.body = some body ∧
        body.Overreaches := by
  refine ⟨[⟨[], List.replicate 32 0⟩], verifiedBy connectorPrimitives
    (List.replicate 32 0) revokingConnector, ?_, _, List.mem_cons_self, _, rfl, ?_⟩
  · decide +kernel
  · decide

/-- In a chain of two that verifies no box connector has such a power. -/
theorem box_connector_powers_iff_phone :
    let chain : List Certificate :=
      [⟨[3], List.replicate 32 1⟩, ⟨[1], List.replicate 32 0⟩]
    ∃ verified, verifyChain renewalPrimitives (List.replicate 32 0) chain 1500 = .ok verified ∧
      ∀ cert ∈ chain, ∀ body, renewalPrimitives.decodeCertificate cert.body = some body →
        ¬ body.Overreaches := by
  intro chain
  have accepted : verifyChain renewalPrimitives (List.replicate 32 0) chain 1500 =
      .ok ⟨List.replicate 32 0, List.replicate 32 2, List.replicate 32 2,
        bodyOf 2 1 ["approve".toList] false (some ⟨[2], List.replicate 32 0⟩)⟩ := by
    decide +kernel
  refine ⟨_, accepted, (box_connector_powers_iff renewalPrimitives (List.replicate 32 0) chain
    1500 _ accepted).mpr ?_⟩
  rintro ⟨cert, body, single, -⟩
  simp [chain] at single

end WindowMlHub
