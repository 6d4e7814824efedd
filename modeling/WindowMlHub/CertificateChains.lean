import WindowMlHub.CheckedConditions
import WindowMlHub.TextFormats
import WindowMlHub.WireFrames

/-!
# Certificate chains

A certificate binds a subject's keys to what the subject may do, for a while.  It is
issued by the account root, or by one delegate that the root allowed to pair.  A
delegate grants only what it holds itself, and never the powers that a person decides
at the root; what it may do beyond that is to renew a certificate of the root's,
unchanged but for its window.

Decoding, signatures and hashing come from libraries and are parameters.
-/

namespace WindowMlHub

open TextFormats CheckedConditions

/-- `CertificateBody`, as it is decoded. -/
structure CertificateBody where
  subject : Bytes
  agreementKey : Bytes
  issuer : Bytes
  role : Int
  scopes : List Text
  mayPair : Bool
  mayRevoke : Bool
  notBeforeMs : Nat
  notAfterMs : Nat
  label : Text
  renews : Option Certificate
  deriving DecidableEq, Repr

/-- What the keys of a principal are used with: the decoder of certificate bodies, the
signature scheme (the key, what was signed, the signature) and the hash. -/
structure KeyPrimitives where
  decodeCertificate : Bytes → Option CertificateBody
  verifyStrict : Bytes → Bytes → Bytes → Bool
  digest : Bytes → Bytes

/-- `MAX_CHAIN`. -/
def maxChain : Nat := 2

/-- `MAX_CERTIFICATE_MS`: ninety days. -/
def maxCertificateMs : Nat := 90 * 24 * 60 * 60 * 1000

/-- `MAX_CERT_BYTES`. -/
def maxCertBytes : Nat := 1024

/-- `MAX_RENEWING_CERT_BYTES`. -/
def maxRenewingCertBytes : Nat := 2 * maxCertBytes + 128

/-- `MAX_SCOPES`. -/
def maxScopes : Nat := 16

/-- `MAX_SCOPE_BYTES`. -/
def maxScopeBytes : Nat := 32

/-- `MAX_LABEL_BYTES`. -/
def maxLabelBytes : Nat := 64

/-- `BOX_CONNECTOR_FORBIDS`. -/
def boxConnectorForbids : List Text :=
  ["approve".toList, "control".toList]

/-- `NEVER_DELEGABLE`: the scopes only the account root may grant. -/
def neverDelegable : List Text :=
  ["approve".toList, "control".toList, "admin".toList, "install".toList]

/-- `CERT_LABEL`. -/
def certLabel : Bytes :=
  asciiBytes "wmlhub/cert/v1\x00".toList

/-- Why a chain was refused. -/
inductive ChainError
  | length
  | malformed
  | signature
  | issuer
  | notDelegated
  | expired
  | outlivesIssuer
  | scopeWidened
  | rootAsSubject
  | unbounded
  | tooLong
  | roleNotPermitted
  | notDelegable
  | badRenewal
  deriving DecidableEq, Repr

/-- A chain that verified. -/
structure Verified where
  account : Bytes
  principal : Bytes
  leafKey : Bytes
  leaf : CertificateBody
  deriving DecidableEq, Repr

/-- A character a scope's name may have. -/
def isScopeChar (c : Char) : Bool :=
  decide ('a' ≤ c ∧ c ≤ 'z') || c.isDigit || c == '.' || c == '_' || c == '-'

/-- A scope's name has up to so many bytes, all of them plain. -/
def scopeNameOk (name : Text) : Bool :=
  decide (1 ≤ utf8Length name ∧ utf8Length name ≤ maxScopeBytes) &&
    name.all isScopeChar

/-- `key32`. -/
def key32 (bytes : Bytes) : Except ChainError Bytes :=
  if bytes.length = 32 then .ok bytes else .error .malformed

/-- The root's name for an account. -/
def KeyPrimitives.accountId (primitives : KeyPrimitives) (root : Bytes) : Bytes :=
  primitives.digest root

/-- `principal_id`. -/
def KeyPrimitives.principalId (primitives : KeyPrimitives) (key : Bytes) : Bytes :=
  primitives.digest key

/-- `verify`: every signature is over a label followed by the message. -/
def KeyPrimitives.verify (primitives : KeyPrimitives)
    (key label message signature : Bytes) : Bool :=
  primitives.verifyStrict key (label ++ message) signature

section Verifying

variable (primitives : KeyPrimitives)

/-- `decode_body`: decode a certificate body, refusing anything over its bounds. -/
def decodeBody (bytes : Bytes) : Except ChainError CertificateBody := do
  ensure (bytes.length ≤ maxRenewingCertBytes) .malformed
  let body ← require (primitives.decodeCertificate bytes) .malformed
  ensure (body.renews ≠ none ∨ bytes.length ≤ maxCertBytes) .malformed
  ensure (body.scopes.length ≤ maxScopes ∧ body.scopes.all scopeNameOk ∧
    utf8Length body.label ≤ maxLabelBytes) .malformed
  return body

/-- `verify_renewal`: check a certificate that claims to renew `previous`. -/
def verifyRenewal (root : Bytes) (body : CertificateBody) (previous : Certificate) :
    Except ChainError Unit := do
  let before ← decodeBody primitives previous.body
  ensure (before.renews = none) .badRenewal
  let issuer ← key32 before.issuer
  ensure (issuer = root) .badRenewal
  ensure (primitives.verify root certLabel previous.body previous.signature)
    .badRenewal
  let expected := { before with
    issuer := body.issuer
    notBeforeMs := body.notBeforeMs
    notAfterMs := body.notAfterMs
    renews := body.renews }
  ensure (expected = body) .badRenewal

/-- The key that has to have issued a certificate, given the body of the next. -/
def expectedIssuer (root : Bytes) (parent : Option CertificateBody) :
    Except ChainError Bytes :=
  match parent with
  | some parent => key32 parent.subject
  | none => .ok root

/-- Whether a body is that of a renewal, which is verified. -/
def verifyRenews (root : Bytes) (body : CertificateBody) :
    Except ChainError Bool :=
  match body.renews with
  | none => .ok false
  | some previous => do
      verifyRenewal primitives root body previous
      return true

instance decidableMemTexts (name : Text) (names : List Text) : Decidable (name ∈ names) :=
  List.instDecidableMemOfLawfulBEq name names

/-- What a delegate's certificate bounds in the ones it issues. -/
def verifyDelegation (parent body : CertificateBody) (renewed : Bool) :
    Except ChainError Unit := do
  ensure parent.mayPair .notDelegated
  ensure (body.notAfterMs ≤ parent.notAfterMs) .outlivesIssuer
  ensure (!body.mayRevoke) .notDelegable
  if renewed then
    return ()
  else
    ensure (∀ name ∈ body.scopes, name ∈ parent.scopes) .scopeWidened
    ensure (∀ name ∈ body.scopes, name ∉ neverDelegable) .notDelegable

/-- One pass of the loop of `verify_chain`. -/
def verifyLink (root : Bytes) (nowMs : Nat) (parent : Option CertificateBody)
    (cert : Certificate) (body : CertificateBody) : Except ChainError Unit := do
  let subject ← key32 body.subject
  let issuer ← key32 body.issuer
  let _ ← key32 body.agreementKey
  ensure (subject ≠ root) .rootAsSubject
  let expected ← expectedIssuer root parent
  ensure (issuer = expected) .issuer
  ensure (primitives.verify issuer certLabel cert.body cert.signature) .signature
  ensure (body.notBeforeMs ≠ 0 ∧ body.notAfterMs ≠ 0) .unbounded
  ensure (body.notBeforeMs < body.notAfterMs ∧
    body.notAfterMs - body.notBeforeMs ≤ maxCertificateMs) .tooLong
  ensure (body.notBeforeMs ≤ nowMs ∧ nowMs ≤ body.notAfterMs) .expired
  ensure (¬ (Role.ofInt body.role = .boxConnector ∧
    (body.mayPair ∨ ∃ name ∈ body.scopes, name ∈ boxConnectorForbids)))
    .roleNotPermitted
  let renewed ← verifyRenews primitives root body
  match parent with
  | none => return ()
  | some parent => verifyDelegation parent body renewed

/-- The loop of `verify_chain`: each certificate against the next. -/
def verifyLinks (root : Bytes) (nowMs : Nat) :
    List (Certificate × CertificateBody) → Except ChainError Unit
  | [] => .ok ()
  | (cert, body) :: rest => do
      verifyLink primitives root nowMs (rest.head?.map Prod.snd) cert body
      verifyLinks root nowMs rest

/-- `verify_chain`: verify a chain, leaf first, up to the root. -/
def verifyChain (root : Bytes) (chain : List Certificate) (nowMs : Nat) :
    Except ChainError Verified := do
  ensure (chain ≠ [] ∧ chain.length ≤ maxChain) .length
  let bodies ← chain.mapM fun cert => decodeBody primitives cert.body
  verifyLinks primitives root nowMs (chain.zip bodies)
  -- the chain is not empty, so there is a leaf
  let leaf ← require bodies.head? .length
  let leafKey ← key32 leaf.subject
  return {
    account := primitives.accountId root
    principal := primitives.principalId leafKey
    leafKey := leafKey
    leaf := leaf }

end Verifying

/-! ## What a verified chain says -/

/-- Which messages the holders of keys signed: the key, the label, the message.  It
grows as certificates are issued and renewed, by anybody and in any order. -/
abbrev Signings := Bytes → Bytes → Bytes → Prop

/-- An ideal signature scheme: what verifies under a key was signed by its holder. -/
def KeyPrimitives.Unforgeable (primitives : KeyPrimitives) (signed : Signings) : Prop :=
  ∀ key label message signature,
    primitives.verify key label message signature = true → signed key label message

/-- The key that issues a certificate with this parent. -/
def issuingKey (root : Bytes) (parent : Option CertificateBody) : Bytes :=
  match parent with
  | some parent => parent.subject
  | none => root

/-- The root signed a certificate of this subject with this property. -/
def RootCertified (primitives : KeyPrimitives) (signed : Signings)
    (root subject : Bytes) (property : CertificateBody → Prop) : Prop :=
  ∃ bytes body, signed root certLabel bytes ∧
    primitives.decodeCertificate bytes = some body ∧ body.subject = subject ∧
    property body

/-- The same terms, whoever issued them and for whenever. -/
structure CertificateBody.SameTerms (left right : CertificateBody) : Prop where
  subject : left.subject = right.subject
  agreementKey : left.agreementKey = right.agreementKey
  role : left.role = right.role
  scopes : left.scopes = right.scopes
  mayPair : left.mayPair = right.mayPair
  mayRevoke : left.mayRevoke = right.mayRevoke
  label : left.label = right.label

/-- What holds of each certificate of a verified chain, given the body of the next. -/
structure LinkSound (primitives : KeyPrimitives) (signed : Signings) (root : Bytes)
    (nowMs : Nat) (parent : Option CertificateBody) (cert : Certificate)
    (body : CertificateBody) : Prop where
  decodes : primitives.decodeCertificate cert.body = some body
  issued : signed (issuingKey root parent) certLabel cert.body
  subject_ne_root : body.subject ≠ root
  window_pos : body.notBeforeMs < body.notAfterMs
  window_le : body.notAfterMs - body.notBeforeMs ≤ maxCertificateMs
  started : body.notBeforeMs ≤ nowMs
  unexpired : nowMs ≤ body.notAfterMs
  parent_mayPair : ∀ delegate ∈ parent, delegate.mayPair = true
  parent_outlives : ∀ delegate ∈ parent, body.notAfterMs ≤ delegate.notAfterMs
  not_mayRevoke : ∀ delegate ∈ parent, body.mayRevoke = false
  attenuates : ∀ delegate ∈ parent, ∀ name ∈ body.scopes,
    RootCertified primitives signed root body.subject body.SameTerms ∨
      name ∈ delegate.scopes ∧ name ∉ neverDelegable

theorem key32_eq_ok {bytes key : Bytes} :
    key32 bytes = .ok key ↔ bytes.length = 32 ∧ bytes = key := by
  unfold key32
  split <;> simp [*]

theorem expectedIssuer_eq_ok {root key : Bytes} {parent : Option CertificateBody}
    (expected : expectedIssuer root parent = .ok key) :
    key = issuingKey root parent := by
  cases parent with
  | none => exact (Except.ok.inj expected).symm
  | some parent => exact (key32_eq_ok.mp expected).2.symm

section Sound

variable {primitives : KeyPrimitives} {signed : Signings}

theorem decodeBody_eq_ok {bytes : Bytes} {body : CertificateBody}
    (decoded : decodeBody primitives bytes = .ok body) :
    primitives.decodeCertificate bytes = some body := by
  simp only [decodeBody, bind_eq_ok, require_eq_ok, ensure_eq_ok, pure_eq_ok_iff,
    exists_const] at decoded
  obtain ⟨-, found, decodes, -, -, rfl⟩ := decoded
  exact decodes

theorem verifyRenewal_eq_ok (unforgeable : primitives.Unforgeable signed)
    {root : Bytes} {body : CertificateBody} {previous : Certificate}
    (verified : verifyRenewal primitives root body previous = .ok ()) :
    RootCertified primitives signed root body.subject body.SameTerms := by
  simp only [verifyRenewal, bind_eq_ok, ensure_eq_ok, exists_const] at verified
  obtain ⟨before, decoded, -, issuer, -, -, genuine, same⟩ := verified
  refine ⟨previous.body, before, unforgeable _ _ _ _ genuine, decodeBody_eq_ok decoded,
    ?_, ?_⟩
  · rw [← same]
  · rw [← same]
    exact ⟨rfl, rfl, rfl, rfl, rfl, rfl, rfl⟩

theorem verifyRenews_eq_ok (unforgeable : primitives.Unforgeable signed)
    {root : Bytes} {body : CertificateBody}
    (verified : verifyRenews primitives root body = .ok true) :
    RootCertified primitives signed root body.subject body.SameTerms := by
  unfold verifyRenews at verified
  split at verified
  · cases verified
  · obtain ⟨⟨⟩, renewal, -⟩ := bind_eq_ok.mp verified
    exact verifyRenewal_eq_ok unforgeable renewal

/-- What one pass of the loop establishes. -/
theorem verifyLink_sound (unforgeable : primitives.Unforgeable signed)
    {root : Bytes} {nowMs : Nat} {parent : Option CertificateBody}
    {cert : Certificate} {body : CertificateBody}
    (decoded : decodeBody primitives cert.body = .ok body)
    (verified : verifyLink primitives root nowMs parent cert body = .ok ()) :
    LinkSound primitives signed root nowMs parent cert body := by
  simp only [verifyLink, bind_eq_ok, ensure_eq_ok, key32_eq_ok, exists_const] at verified
  obtain ⟨_, ⟨-, rfl⟩, _, ⟨-, rfl⟩, -, -, notRoot, key, expected, issued, genuine, -,
    ⟨positive, short⟩, ⟨started, unexpired⟩, -, renewed, renews, rest⟩ := verified
  obtain rfl := expectedIssuer_eq_ok expected
  have signedBy : signed (issuingKey root parent) certLabel cert.body := by
    rw [← issued]
    exact unforgeable _ _ _ _ genuine
  refine ⟨decodeBody_eq_ok decoded, signedBy, notRoot, positive, short, started,
    unexpired, ?_, ?_, ?_, ?_⟩
  all_goals
    rintro delegate rfl
    simp only [verifyDelegation, bind_eq_ok, ensure_eq_ok, exists_const] at rest
    obtain ⟨mayPair, outlives, notRevoker, scopes⟩ := rest
  · exact mayPair
  · exact outlives
  · simpa using notRevoker
  · intro name member
    cases renewed with
    | true => exact .inl (verifyRenews_eq_ok unforgeable renews)
    | false =>
        simp only [Bool.false_eq_true, if_false, bind_eq_ok, ensure_eq_ok,
          exists_const] at scopes
        exact .inr ⟨scopes.1 name member, scopes.2 name member⟩

/-- What the loop establishes: every certificate against the next. -/
theorem verifyLinks_sound (unforgeable : primitives.Unforgeable signed)
    {root : Bytes} {nowMs : Nat} {chain : List Certificate}
    {bodies : List CertificateBody}
    (decoded : List.Forall₂ (fun cert body =>
      decodeBody primitives cert.body = .ok body) chain bodies)
    (verified : verifyLinks primitives root nowMs (chain.zip bodies) = .ok ()) :
    ∀ (index : Nat) (cert : Certificate) (body : CertificateBody),
      chain[index]? = some cert → bodies[index]? = some body →
        LinkSound primitives signed root nowMs bodies[index + 1]? cert body := by
  induction decoded with
  | nil =>
      intro index cert body found
      cases found
  | @cons first firstBody rest restBodies firstDecoded related ih =>
      rw [List.zip_cons_cons, verifyLinks, bind_eq_ok] at verified
      obtain ⟨⟨⟩, link, links⟩ := verified
      have next : (rest.zip restBodies).head?.map Prod.snd = restBodies[0]? := by
        cases related <;> rfl
      intro index cert body certFound bodyFound
      cases index with
      | zero =>
          obtain rfl := Option.some.inj certFound
          obtain rfl := Option.some.inj bodyFound
          rw [next] at link
          exact verifyLink_sound unforgeable firstDecoded link
      | succ index => exact ih links index cert body certFound bodyFound

/-- A chain that verified, with the bodies of its certificates. -/
structure ChainSound (primitives : KeyPrimitives) (signed : Signings) (root : Bytes)
    (nowMs : Nat) (chain : List Certificate) (bodies : List CertificateBody)
    (verified : Verified) : Prop where
  length_eq : bodies.length = chain.length
  chain_ne_nil : chain ≠ []
  chain_length_le : chain.length ≤ maxChain
  link : ∀ (index : Nat) (cert : Certificate) (body : CertificateBody),
    chain[index]? = some cert → bodies[index]? = some body →
      LinkSound primitives signed root nowMs bodies[index + 1]? cert body
  leaf : bodies[0]? = some verified.leaf
  leafKey : verified.leafKey = verified.leaf.subject
  principal : verified.principal = primitives.principalId verified.leafKey

theorem verifyChain_sound (unforgeable : primitives.Unforgeable signed)
    {root : Bytes} {chain : List Certificate} {nowMs : Nat} {verified : Verified}
    (accepted : verifyChain primitives root chain nowMs = .ok verified) :
    ∃ bodies, ChainSound primitives signed root nowMs chain bodies verified := by
  simp only [verifyChain, bind_eq_ok, ensure_eq_ok, exists_const, mapM_eq_ok,
    require_eq_ok, key32_eq_ok, pure_eq_ok_iff] at accepted
  obtain ⟨⟨nonempty, short⟩, bodies, decoded, ⟨⟩, links, leaf, head, _, ⟨-, rfl⟩, rfl⟩ :=
    accepted
  refine ⟨bodies, decoded.length_eq.symm, nonempty, short,
    verifyLinks_sound unforgeable decoded links, ?_, rfl, rfl⟩
  rw [← head, List.head?_eq_getElem?]

namespace ChainSound

variable {root : Bytes} {nowMs : Nat} {chain : List Certificate}
  {bodies : List CertificateBody} {verified : Verified}

theorem leaf_link
    (sound : ChainSound primitives signed root nowMs chain bodies verified) :
    ∃ cert, chain.head? = some cert ∧
      LinkSound primitives signed root nowMs bodies[1]? cert verified.leaf := by
  obtain ⟨cert, rest, rfl⟩ := List.exists_cons_of_ne_nil sound.chain_ne_nil
  exact ⟨cert, rfl, sound.link 0 cert verified.leaf rfl sound.leaf⟩

theorem length_eq_one_of_mayRevoke
    (sound : ChainSound primitives signed root nowMs chain bodies verified)
    (mayRevoke : verified.leaf.mayRevoke = true) : chain.length = 1 := by
  obtain ⟨cert, -, link⟩ := sound.leaf_link
  have alone : bodies[1]? = none := by
    cases next : bodies[1]? with
    | none => rfl
    | some delegate =>
        have refused := link.not_mayRevoke delegate next
        rw [mayRevoke] at refused
        cases refused
  have short : bodies.length ≤ 1 := List.getElem?_eq_none_iff.mp alone
  have positive : 0 < chain.length := List.length_pos_iff.mpr sound.chain_ne_nil
  have := sound.length_eq
  omega

/-- Where each scope of the leaf comes from. -/
theorem scope_origin
    (sound : ChainSound primitives signed root nowMs chain bodies verified)
    {name : Text} (member : name ∈ verified.leaf.scopes) :
    (∃ cert, chain.head? = some cert ∧ signed root certLabel cert.body) ∨
      RootCertified primitives signed root verified.leaf.subject
        verified.leaf.SameTerms ∨
      ∃ delegate, bodies[1]? = some delegate ∧ name ∈ delegate.scopes ∧
        name ∉ neverDelegable := by
  obtain ⟨cert, head, link⟩ := sound.leaf_link
  cases next : bodies[1]? with
  | none =>
      rw [next] at link
      exact .inl ⟨cert, head, link.issued⟩
  | some delegate =>
      right
      rcases link.attenuates delegate next name member with renewed | held
      · exact .inl renewed
      · exact .inr ⟨delegate, rfl, held⟩

theorem neverDelegable_certified
    (sound : ChainSound primitives signed root nowMs chain bodies verified)
    {name : Text} (member : name ∈ verified.leaf.scopes)
    (reserved : name ∈ neverDelegable) :
    RootCertified primitives signed root verified.leafKey
      fun body => name ∈ body.scopes := by
  rw [sound.leafKey]
  obtain ⟨cert, head, link⟩ := sound.leaf_link
  rcases sound.scope_origin member with ⟨leafCert, leafHead, issued⟩ |
    ⟨bytes, body, issued, decodes, same, terms⟩ | ⟨delegate, -, -, delegable⟩
  · obtain rfl := Option.some.inj (head.symm.trans leafHead)
    exact ⟨cert.body, verified.leaf, issued, link.decodes, rfl, member⟩
  · rw [terms.scopes] at member
    exact ⟨bytes, body, issued, decodes, same, member⟩
  · exact absurd reserved delegable

theorem mayRevoke_certified
    (sound : ChainSound primitives signed root nowMs chain bodies verified)
    (mayRevoke : verified.leaf.mayRevoke = true) :
    RootCertified primitives signed root verified.leafKey
      fun body => body.mayRevoke = true := by
  rw [sound.leafKey]
  obtain ⟨cert, head, link⟩ := sound.leaf_link
  have alone : bodies[1]? = none := by
    apply List.getElem?_eq_none
    rw [sound.length_eq, sound.length_eq_one_of_mayRevoke mayRevoke]
  rw [alone] at link
  exact ⟨cert.body, verified.leaf, link.issued, link.decodes, rfl, mayRevoke⟩

end ChainSound

/-- No privilege escalation through certificate chains, whatever anybody signed. -/
theorem chain_no_escalation (unforgeable : primitives.Unforgeable signed)
    (root : Bytes) (chain : List Certificate) (nowMs : Nat) (verified : Verified)
    (accepted : verifyChain primitives root chain nowMs = .ok verified) :
    ∃ bodies, ChainSound primitives signed root nowMs chain bodies verified ∧
      (verified.leaf.mayRevoke = true → chain.length = 1) ∧
      (∀ name ∈ verified.leaf.scopes,
        (∃ cert, chain.head? = some cert ∧ signed root certLabel cert.body) ∨
          RootCertified primitives signed root verified.leaf.subject
            verified.leaf.SameTerms ∨
          ∃ delegate, bodies[1]? = some delegate ∧ name ∈ delegate.scopes ∧
            name ∉ neverDelegable) ∧
      (∀ name ∈ verified.leaf.scopes, name ∈ neverDelegable →
        RootCertified primitives signed root verified.leafKey
          fun body => name ∈ body.scopes) ∧
      (verified.leaf.mayRevoke = true →
        RootCertified primitives signed root verified.leafKey
          fun body => body.mayRevoke = true) := by
  obtain ⟨bodies, sound⟩ := verifyChain_sound unforgeable accepted
  refine ⟨bodies, sound, sound.length_eq_one_of_mayRevoke, ?_, ?_, ?_⟩
  · intro name member
    exact sound.scope_origin member
  · intro name member reserved
    exact sound.neverDelegable_certified member reserved
  · exact sound.mayRevoke_certified

end Sound

/-! ## An approver renewed by a delegate -/

/-- The body of a certificate from 1000 to 2000 for the key whose every byte is
`subject`. -/
def bodyOf (subject issuer : UInt8) (scopes : List Text) (mayPair : Bool)
    (renews : Option Certificate) : CertificateBody where
  subject := List.replicate 32 subject
  agreementKey := List.replicate 32 subject
  issuer := List.replicate 32 issuer
  role := Role.client.toInt
  scopes := scopes
  mayPair := mayPair
  mayRevoke := false
  notBeforeMs := 1000
  notAfterMs := 2000
  label := "phone".toList
  renews := renews

/-- The root's key is all zeros and a delegate's all ones.  The root certified the
delegate and an approver, and the delegate renewed the approver. -/
def renewalSignings : List (Bytes × Bytes) :=
  [(List.replicate 32 0, [1]), (List.replicate 32 0, [2]), (List.replicate 32 1, [3])]

/-- Certificates that are known by one byte, and signatures that are the key. -/
def renewalPrimitives : KeyPrimitives where
  decodeCertificate
    | [1] => some (bodyOf 1 0 ["view".toList] true none)
    | [2] => some (bodyOf 2 0 ["approve".toList] false none)
    | [3] => some (bodyOf 2 1 ["approve".toList] false
        (some ⟨[2], List.replicate 32 0⟩))
    | _ => none
  verifyStrict key message signature :=
    decide (signature = key) && renewalSignings.any fun (signer, body) =>
      decide (signer = key ∧ certLabel ++ body = message)
  digest key := key

theorem renewal_unforgeable : renewalPrimitives.Unforgeable
    fun key label message =>
      ∃ body, (key, body) ∈ renewalSignings ∧ certLabel ++ body = label ++ message := by
  intro key label message signature verified
  simp only [KeyPrimitives.verify, renewalPrimitives, Bool.and_eq_true,
    List.any_eq_true, decide_eq_true_eq] at verified
  obtain ⟨-, ⟨signer, body⟩, member, rfl, same⟩ := verified
  exact ⟨body, member, same⟩

theorem chain_no_escalation_renewal :
    RootCertified renewalPrimitives (fun key label message =>
        ∃ body, (key, body) ∈ renewalSignings ∧ certLabel ++ body = label ++ message)
      (List.replicate 32 0) (List.replicate 32 2)
      fun body => "approve".toList ∈ body.scopes := by
  have accepted : verifyChain renewalPrimitives (List.replicate 32 0)
      [⟨[3], List.replicate 32 1⟩, ⟨[1], List.replicate 32 0⟩] 1500 =
        .ok ⟨List.replicate 32 0, List.replicate 32 2, List.replicate 32 2,
          bodyOf 2 1 ["approve".toList] false (some ⟨[2], List.replicate 32 0⟩)⟩ := by
    decide +kernel
  obtain ⟨bodies, -, -, -, certified, -⟩ :=
    chain_no_escalation renewal_unforgeable _ _ _ _ accepted
  exact certified _ (by decide) (by decide)

end WindowMlHub
