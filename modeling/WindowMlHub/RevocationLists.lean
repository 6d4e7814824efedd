import WindowMlHub.CertificateChains

/-!
# Revocation lists

What an account has revoked, signed by the one principal that may say so, and what a
connector makes of it.  A list verifies against the account's root and against the list
held so far: it is newer, and its signer is not revoked by the older one.  A connector
applies what verifies, follows the revokers it has seen, and grants its key to nobody
that the list it holds revokes.
-/

namespace WindowMlHub

open TextFormats CheckedConditions

/-- `[u8; 32]`. -/
abbrev Bytes32 : Type := {bytes : Bytes // bytes.length = 32}

/-- `try_from`: these bytes, if there are 32. -/
def Bytes32.ofBytes? (bytes : Bytes) : Option Bytes32 :=
  if wide : bytes.length = 32 then some ⟨bytes, wide⟩ else none

/-- `RevocationBody`, as it is decoded. -/
structure RevocationBody where
  account : Bytes
  version : UInt64
  principals : List Bytes
  certificates : List Bytes
  deriving DecidableEq, Repr

/-- `RevocationList`. -/
structure RevocationList where
  body : Bytes
  signature : Bytes
  chain : List Certificate
  deriving DecidableEq, Repr

/-- The primitives of keys, with the decoder of lists, and a hash of 32 bytes. -/
structure RevocationPrimitives extends KeyPrimitives where
  decodeRevocation : Bytes → Option RevocationBody
  digest_length : ∀ bytes, (digest bytes).length = 32

/-- `REVOCATION_LABEL`. -/
def revocationLabel : Bytes :=
  asciiBytes "wmlhub/revocation/v1\x00".toList

/-- `MAX_REVOKED`. -/
def maxRevoked : Nat := 256

/-- `MAX_REVOCATION_BYTES`. -/
def maxRevocationBytes : Nat := 16 * 1024

/-- `MAX_FUTURE_MS`: a minute. -/
def maxFutureMs : Nat := 60000

/-- Why a list was refused. -/
inductive RevocationError
  | malformed
  | wrongAccount
  | chain (error : ChainError)
  | notRevoker
  | signerRevoked
  | signature
  | fromTheFuture
  | stale
  deriving DecidableEq, Repr

/-- A list that verified. -/
structure Revoked where
  version : UInt64
  signer : Bytes32
  principals : Finset Bytes32
  certificates : Finset Bytes32
  deriving DecidableEq

section Verifying

variable (primitives : RevocationPrimitives)

/-- The hash, as 32 bytes. -/
def RevocationPrimitives.digest32 (bytes : Bytes) : Bytes32 :=
  ⟨primitives.digest bytes, primitives.digest_length bytes⟩

/-- `certificate_hash`: what a certificate is revoked by. -/
def certificateHash (cert : Certificate) : Bytes32 :=
  primitives.digest32 cert.body

namespace Revoked

/-- Whether one certificate of a chain is revoked.  One that does not decode is. -/
def revokesCertificate (revoked : Revoked) (cert : Certificate) : Bool :=
  match primitives.decodeCertificate cert.body with
  | none => true
  | some body =>
      match Bytes32.ofBytes? body.subject with
      | none => true
      | some subject =>
          decide (primitives.digest32 subject.val ∈ revoked.principals) ||
            decide (certificateHash primitives cert ∈ revoked.certificates) ||
            body.renews.any fun previous =>
              decide (certificateHash primitives previous ∈ revoked.certificates)

/-- `revokes`: whether the list revokes anything in the chain. -/
def revokes (revoked : Revoked) (chain : List Certificate) : Bool :=
  chain.any (revoked.revokesCertificate primitives)

/-- `len`. -/
def len (revoked : Revoked) : Nat :=
  revoked.principals.card + revoked.certificates.card

/-- `adds_to`: whether the list revokes anything that the older one did not. -/
def addsTo (revoked : Revoked) (older : Option Revoked) : Bool :=
  match older with
  | none => decide (revoked.len ≠ 0)
  | some older =>
      decide (¬ revoked.principals ⊆ older.principals) ||
        decide (¬ revoked.certificates ⊆ older.certificates)

end Revoked

/-- An entry of a list. -/
def revocationEntry (bytes : Bytes) : Except RevocationError Bytes32 :=
  require (Bytes32.ofBytes? bytes) .malformed

/-- `verify_revocations`: verify a list for the account with this root, against the list
that is held already. -/
def verifyRevocations (root : Bytes) (list : RevocationList) (nowMs : UInt64)
    (held : Option Revoked) : Except RevocationError Revoked := do
  ensure (list.body.length ≤ maxRevocationBytes) .malformed
  let body ← require (primitives.decodeRevocation list.body) .malformed
  ensure (body.principals.length + body.certificates.length ≤ maxRevoked) .malformed
  let principals ← body.principals.mapM revocationEntry
  let certificates ← body.certificates.mapM revocationEntry
  ensure (body.account = primitives.accountId root) .wrongAccount
  ensure (body.version.toNat ≤ saturatingAdd nowMs.toNat maxFutureMs) .fromTheFuture
  ensure (∀ older ∈ held, older.version < body.version) .stale
  let verified ←
    (verifyChain primitives.toKeyPrimitives root list.chain nowMs.toNat).mapError .chain
  ensure verified.leaf.mayRevoke .notRevoker
  ensure (∀ older ∈ held, ¬ older.revokes primitives list.chain) .signerRevoked
  ensure (primitives.verify verified.leafKey revocationLabel list.body list.signature)
    .signature
  return {
    version := body.version
    -- the principal of the chain is the hash of its leaf's key
    signer := primitives.digest32 verified.leafKey
    principals := principals.toFinset
    certificates := certificates.toFinset }

end Verifying

/-! ## What a connector knows -/

/-- `FRESHNESS_FLOOR_MS`: a week. -/
def freshnessFloorMs : Nat := 7 * 24 * 60 * 60 * 1000

/-- Why a device may not be granted the key now. -/
inductive NotNow
  | revoked
  | stale (sinceMs : UInt64)
  deriving DecidableEq

/-- This connector's view of the account's revocations. -/
structure Revocations where
  root : Bytes
  held : Option Revoked := none
  /-- principals seen holding `may_revoke` -/
  revokers : Finset Bytes32 := ∅
  /-- when the floor armed -/
  armedAt : Option UInt64 := none
  deriving DecidableEq

namespace Revocations

/-- `saw_revoker`: whether the principal is new, or the floor was not armed yet. -/
def sawRevoker (revocations : Revocations) (principal : Bytes32) (nowMs : UInt64) :
    Revocations × Bool :=
  ({ revocations with
      revokers := insert principal revocations.revokers
      armedAt := some (revocations.armedAt.getD nowMs) },
    decide (principal ∉ revocations.revokers) || revocations.armedAt.isNone)

variable (primitives : RevocationPrimitives)

/-- `apply`: the view once a list is applied, and whether the key has to be rotated. -/
def apply (revocations : Revocations) (list : RevocationList) (nowMs : UInt64) :
    Except RevocationError (Revocations × Bool) := do
  let revoked ← verifyRevocations primitives revocations.root list nowMs revocations.held
  return ({ revocations with
      held := some revoked
      revokers := insert revoked.signer revocations.revokers
      armedAt := some (revocations.armedAt.getD nowMs) },
    revoked.addsTo revocations.held)

/-- `may_grant`: why the principal of this chain may not be granted the key now. -/
def mayGrant (revocations : Revocations) (chain : List Certificate) (nowMs : UInt64) :
    Except NotNow Unit :=
  if revocations.held.any fun held => held.revokes primitives chain then
    .error .revoked
  else
    match revocations.armedAt with
    | none => .ok ()
    | some armedAt =>
        let freshSince := (revocations.held.map (·.version)).getD armedAt
        if nowMs.toNat - freshSince.toNat > freshnessFloorMs then
          .error (.stale freshSince)
        else
          .ok ()

end Revocations

/-! ## When a chain verifies -/

/-- Every certificate of the chain is valid at this time. -/
def ChainInWindow (primitives : KeyPrimitives) (chain : List Certificate) (timeMs : Nat) :
    Prop :=
  ∀ cert ∈ chain, ∀ body, decodeBody primitives cert.body = .ok body →
    body.notBeforeMs ≤ timeMs ∧ timeMs ≤ body.notAfterMs

section Windows

variable {primitives : KeyPrimitives} {root : Bytes} {nowMs : Nat}

theorem verifyLink_at {parent : Option CertificateBody} {cert : Certificate}
    {body : CertificateBody}
    (verified : verifyLink primitives root nowMs parent cert body = .ok ()) (timeMs : Nat) :
    verifyLink primitives root timeMs parent cert body = .ok () ↔
      body.notBeforeMs ≤ timeMs ∧ timeMs ≤ body.notAfterMs := by
  simp only [verifyLink, bind_eq_ok, ensure_eq_ok, exists_const] at verified ⊢
  obtain ⟨subject, isSubject, issuer, isIssuer, agreement, isAgreement, notRoot, key,
    expected, issued, genuine, bounded, short, -, permitted, rest⟩ := verified
  constructor
  · rintro ⟨-, -, -, -, -, -, -, -, -, -, -, -, -, window, -⟩
    exact window
  · intro window
    exact ⟨subject, isSubject, issuer, isIssuer, agreement, isAgreement, notRoot, key,
      expected, issued, genuine, bounded, short, window, permitted, rest⟩

theorem verifyLinks_at {links : List (Certificate × CertificateBody)}
    (verified : verifyLinks primitives root nowMs links = .ok ()) (timeMs : Nat) :
    verifyLinks primitives root timeMs links = .ok () ↔
      ∀ link ∈ links, link.2.notBeforeMs ≤ timeMs ∧ timeMs ≤ link.2.notAfterMs := by
  induction links with
  | nil => simp [verifyLinks]
  | cons link rest ih =>
      obtain ⟨cert, body⟩ := link
      simp only [verifyLinks, bind_eq_ok, Unique.exists_iff] at verified ⊢
      obtain ⟨first, later⟩ := verified
      rw [List.forall_mem_cons, ← ih later]
      exact and_congr_left fun _ => verifyLink_at first timeMs

/-- The windows of the bodies that a chain decodes to. -/
theorem chainInWindow_iff {chain : List Certificate} {bodies : List CertificateBody}
    (decoded : List.Forall₂ (fun cert body =>
      decodeBody primitives cert.body = .ok body) chain bodies) (timeMs : Nat) :
    (∀ link ∈ chain.zip bodies, link.2.notBeforeMs ≤ timeMs ∧ timeMs ≤ link.2.notAfterMs) ↔
      ChainInWindow primitives chain timeMs := by
  induction decoded with
  | nil => simp [ChainInWindow]
  | @cons cert body rest restBodies bodyDecoded related ih =>
      have first : (∀ other, decodeBody primitives cert.body = .ok other →
          other.notBeforeMs ≤ timeMs ∧ timeMs ≤ other.notAfterMs) ↔
            body.notBeforeMs ≤ timeMs ∧ timeMs ≤ body.notAfterMs := by
        constructor
        · exact fun all => all body bodyDecoded
        · intro window other otherDecoded
          obtain rfl := Except.ok.inj (bodyDecoded.symm.trans otherDecoded)
          exact window
      rw [List.zip_cons_cons, List.forall_mem_cons, ih, ChainInWindow, ChainInWindow,
        List.forall_mem_cons, first]

/-- A chain that verifies verifies at another time exactly if all of its certificates
are valid then, and it says the same. -/
theorem verifyChain_at {chain : List Certificate} {verified other : Verified}
    (accepted : verifyChain primitives root chain nowMs = .ok verified) (timeMs : Nat) :
    verifyChain primitives root chain timeMs = .ok other ↔
      other = verified ∧ ChainInWindow primitives chain timeMs := by
  simp only [verifyChain, bind_eq_ok, ensure_eq_ok, mapM_eq_ok, pure_eq_ok_iff, Unique.exists_iff]
    at accepted ⊢
  obtain ⟨shape, bodies, decoded, links, result⟩ := accepted
  have windows : verifyLinks primitives root timeMs (chain.zip bodies) = .ok () ↔
      ChainInWindow primitives chain timeMs := by
    rw [verifyLinks_at links timeMs]
    exact chainInWindow_iff decoded timeMs
  constructor
  · rintro ⟨-, again, decodedAgain, linksAgain, resultAgain⟩
    obtain rfl : again = bodies := by
      have first := mapM_eq_ok.mpr decodedAgain
      rw [mapM_eq_ok.mpr decoded] at first
      exact (Except.ok.inj first).symm
    refine ⟨?_, windows.mp linksAgain⟩
    obtain ⟨leaf, isLeaf, key, isKey, rfl⟩ := result
    obtain ⟨leafAgain, isLeafAgain, keyAgain, isKeyAgain, rfl⟩ := resultAgain
    obtain rfl := Except.ok.inj (isLeaf.symm.trans isLeafAgain)
    obtain rfl := Except.ok.inj (isKey.symm.trans isKeyAgain)
    rfl
  · rintro ⟨rfl, window⟩
    exact ⟨shape, bodies, decoded, windows.mpr window, result⟩

end Windows

section Again

variable {primitives : RevocationPrimitives} {root : Bytes} {list : RevocationList}
  {nowMs : UInt64} {held : Option Revoked} {revoked other : Revoked}

theorem version_eq (accepted : verifyRevocations primitives root list nowMs held = .ok revoked)
    {body : RevocationBody} (decodes : primitives.decodeRevocation list.body = some body) :
    revoked.version = body.version := by
  simp only [verifyRevocations, bind_eq_ok, require_eq_ok, pure_eq_ok_iff] at accepted
  obtain ⟨-, -, found, decoded, -, -, -, -, -, -, -, -, -, -, -, -, -, -, -, -, -, -, -, -,
    -, rfl⟩ := accepted
  obtain rfl := Option.some.inj (decoded.symm.trans decodes)
  rfl

theorem version_le_saturatingAdd (version : UInt64) :
    version.toNat ≤ saturatingAdd version.toNat maxFutureMs := by
  have := version.toNat_lt
  unfold saturatingAdd
  omega

/-- A list that verified once verifies as of its version, with nothing held, exactly if
its signer's chain was valid at the version too. -/
theorem verifyRevocations_again
    (accepted : verifyRevocations primitives root list nowMs held = .ok revoked) :
    verifyRevocations primitives root list revoked.version none = .ok other ↔
      other = revoked ∧
        ChainInWindow primitives.toKeyPrimitives list.chain revoked.version.toNat := by
  simp only [verifyRevocations, bind_eq_ok, ensure_eq_ok, require_eq_ok, mapError_eq_ok,
    pure_eq_ok_iff, Unique.exists_iff] at accepted ⊢
  obtain ⟨small, body, decoded, few, principals, arePrincipals, certificates,
    areCertificates, account, -, -, verified, chain, mayRevoke, -, signed, rfl⟩ := accepted
  constructor
  · rintro ⟨-, again, decodedAgain, -, principalsAgain, arePrincipalsAgain,
      certificatesAgain, areCertificatesAgain, -, -, -, verifiedAgain, chainAgain, -, -, -,
      rfl⟩
    obtain rfl := Option.some.inj (decoded.symm.trans decodedAgain)
    obtain rfl := Except.ok.inj (arePrincipals.symm.trans arePrincipalsAgain)
    obtain rfl := Except.ok.inj (areCertificates.symm.trans areCertificatesAgain)
    obtain ⟨rfl, window⟩ := (verifyChain_at chain _).mp chainAgain
    exact ⟨rfl, window⟩
  · rintro ⟨rfl, window⟩
    exact ⟨small, body, decoded, few, principals, arePrincipals, certificates,
      areCertificates, account, version_le_saturatingAdd _, by simp, verified,
      (verifyChain_at chain _).mpr ⟨rfl, window⟩, mayRevoke, by simp, signed, rfl⟩

end Again

end WindowMlHub
