import WindowMlHub.CertificateIssuing
import WindowMlHub.RelayHub

/-!
# Chains that presence carries

What a device seals to another it reads off the other's chain, which the hub passes along
in presence, if it is not too long.  Two certificates at their own limit fit.  A renewal
may have more than twice their limit, and then the chain that was verified is not passed
along.
-/

namespace WindowMlHub

open CheckedConditions TextFormats

/-- How much of a chain presence counts. -/
def chainBytes (chain : List Certificate) : Nat :=
  (chain.map fun certificate =>
    certificate.body.length + certificate.signature.length).sum

section Presenting

variable {primitives : KeyPrimitives} {root : Bytes} {chain : List Certificate}
  {nowMs : Nat} {verified : Verified}

theorem presentable_of_le (short : chain.length ≤ 2)
    (small : chainBytes chain ≤ maxPresenceChainBytes) : presentable chain = chain := by
  have fits : ¬ (chain.length > 2 ∨ chainBytes chain > maxPresenceChainBytes) := by omega
  exact if_neg fits

theorem presentable_of_lt (large : maxPresenceChainBytes < chainBytes chain) :
    presentable chain = [] :=
  if_pos (.inr large)

theorem links_of_verified (accepted : verifyChain primitives root chain nowMs = .ok verified) :
    chain.length ≤ 2 ∧ chain ≠ [] ∧ ∀ cert ∈ chain, ∃ parent body,
      decodeBody primitives cert.body = .ok body ∧
        LinkRules primitives root nowMs parent cert body := by
  rcases chain_shape accepted with ⟨cert, rfl⟩ | ⟨cert, issuer, rfl⟩
  · obtain ⟨body, decoded, rules, -⟩ := verifyChain_one_iff.mp accepted
    refine ⟨by simp, by simp, fun found member => ?_⟩
    rw [List.mem_singleton.mp member]
    exact ⟨none, body, decoded, rules⟩
  · obtain ⟨body, delegate, decoded, issued, rules, rulesOfIssuer, -⟩ :=
      verifyChain_two_iff.mp accepted
    refine ⟨by simp, by simp, fun found member => ?_⟩
    rcases List.mem_cons.mp member with rfl | among
    · exact ⟨some delegate, body, decoded, rules⟩
    · rw [List.mem_singleton.mp among]
      exact ⟨none, delegate, issued, rulesOfIssuer⟩

theorem length_of_link (short : primitives.ShortSignatures) {cert : Certificate}
    {parent : Option CertificateBody} {body : CertificateBody}
    (decoded : decodeBody primitives cert.body = .ok body) (fresh : body.renews = none)
    (rules : LinkRules primitives root nowMs parent cert body) :
    cert.body.length + cert.signature.length ≤ maxCertBytes + 64 := by
  obtain ⟨-, -, size, -⟩ := decodeBody_eq_ok_iff.mp decoded
  have signature := short _ _ _ rules.genuine
  rcases size with renewal | small
  · exact absurd fresh renewal
  · omega

end Presenting

/-- A chain that verified is passed along exactly when its bodies and signatures come to
no more than presence carries; and they do if none of its certificates is a renewal. -/
theorem verified_presented_iff (primitives : KeyPrimitives)
    (short : primitives.ShortSignatures) (root : Bytes) (chain : List Certificate)
    (nowMs : Nat) (verified : Verified)
    (accepted : verifyChain primitives root chain nowMs = .ok verified) :
    (presentable chain = chain ↔ chainBytes chain ≤ maxPresenceChainBytes) ∧
      ((∀ cert ∈ chain, ∀ body, primitives.decodeCertificate cert.body = some body →
        body.renews = none) → presentable chain = chain) := by
  obtain ⟨few, nonempty, links⟩ := links_of_verified accepted
  constructor
  · constructor
    · intro presented
      by_contra large
      rw [presentable_of_lt (Nat.lt_of_not_le large)] at presented
      exact nonempty presented.symm
    · exact presentable_of_le few
  · intro fresh
    refine presentable_of_le few ?_
    have each : ∀ size ∈ chain.map fun certificate =>
        certificate.body.length + certificate.signature.length, size ≤ maxCertBytes + 64 := by
      intro size member
      obtain ⟨cert, among, rfl⟩ := List.mem_map.mp member
      obtain ⟨parent, body, decoded, rules⟩ := links cert among
      exact length_of_link short decoded (fresh cert among body (decodeBody_eq_ok decoded))
        rules
    have sum := List.sum_le_card_nsmul _ _ each
    rw [List.length_map, smul_eq_mul] at sum
    refine sum.trans ?_
    unfold maxCertBytes maxPresenceChainBytes
    omega

/-! ## A long renewal -/

/-- As many scopes as a certificate may have, each as long as it may be, and the longest
label. -/
def longSpec (subject : UInt8) : CertSpec :=
  specOf subject (List.replicate 16 (List.replicate 32 'a')) true (List.replicate 64 'x')

/-- The certificate of the root's for it. -/
def longCertificate (subject : UInt8) : Certificate :=
  (identityOf 0).certify ((longSpec subject).body (identityOf 0))

theorem longSpec_withinLimits (subject : UInt8) : (longSpec subject).WithinLimits := by
  have scope : scopeNameOk (List.replicate 32 'a') = true := by decide
  refine ⟨by simp [longSpec, specOf, maxScopes], fun name member => ?_, ?_⟩
  · rw [List.eq_of_mem_replicate member]
    exact scope
  · change utf8Length (List.replicate 64 'x') ≤ 64
    decide

theorem le_length_encode_long (body : CertificateBody)
    (subject : body.subject.length = 32) (agreementKey : body.agreementKey.length = 32)
    (issuer : body.issuer.length = 32)
    (scopes : body.scopes = List.replicate 16 (List.replicate 32 'a'))
    (label : body.label = List.replicate 64 'x') :
    672 + (body.renews.toList.map fun renewed =>
      renewed.body.length + renewed.signature.length).sum ≤ body.encode.length := by
  have size := body.le_length_encode
  have scope : utf8Length (List.replicate 32 'a') = 32 := by decide
  have labelled : utf8Length (List.replicate 64 'x') = 64 := by decide
  rw [subject, agreementKey, issuer, label, scopes, List.map_replicate, scope, labelled,
    List.sum_replicate, smul_eq_mul] at size
  omega

theorem le_length_longCertificate (subject : UInt8) :
    672 ≤ (longCertificate subject).body.length :=
  le_length_encode_long ((longSpec subject).body (identityOf 0))
    List.length_replicate List.length_replicate List.length_replicate rfl rfl

/-- What renews the first device's certificate, from the second device. -/
def longRenewal : CertificateBody :=
  renewalBody (identityOf 2) (longCertificate 1) ((longSpec 1).body (identityOf 0)) 1400 1900

theorem le_length_longRenewal : 672 + (672 + 64) ≤ longRenewal.encode.length := by
  have whole := le_length_encode_long longRenewal List.length_replicate
    List.length_replicate List.length_replicate rfl rfl
  have carried : longRenewal.renews = some (longCertificate 1) := rfl
  have signature : (longCertificate 1).signature.length = 64 := rfl
  have previous := le_length_longCertificate 1
  rw [carried, Option.toList_some, List.map_singleton, List.sum_singleton, signature]
    at whole
  omega

/-- A device's certificate with all that it may have, renewed by another such device: the
chain verifies, and presence drops it. -/
theorem long_renewal_dropped :
    ∃ renewed verified,
      renew issuingPrimitives (identityOf 2) (longCertificate 1) 1400 1900 = .ok renewed ∧
      verifyChain issuingPrimitives (identityOf 0).publicKey [renewed, longCertificate 2]
        1500 = .ok verified ∧
      presentable [renewed, longCertificate 2] = [] := by
  have decoded : decodeBody issuingPrimitives (longCertificate 1).body =
      .ok ((longSpec 1).body (identityOf 0)) :=
    decodeBody_issued issuingPrimitives_codes (longSpec_withinLimits 1)
  have issued : decodeBody issuingPrimitives (longCertificate 2).body =
      .ok ((longSpec 2).body (identityOf 0)) :=
    decodeBody_issued issuingPrimitives_codes (longSpec_withinLimits 2)
  have rules : LinkRules issuingPrimitives (identityOf 0).publicKey 1500 none
      (longCertificate 1) ((longSpec 1).body (identityOf 0)) :=
    linkRules_specOf _ _ _ (by decide)
  have rulesOfIssuer : LinkRules issuingPrimitives (identityOf 0).publicKey 1500 none
      (longCertificate 2) ((longSpec 2).body (identityOf 0)) :=
    linkRules_specOf _ _ _ (by decide)
  have window : checkWindow 1400 1900 = .ok () := by decide
  have renewedRules : LinkRules issuingPrimitives (identityOf 0).publicKey 1500
      (some ((longSpec 2).body (identityOf 0))) ((identityOf 2).certify longRenewal)
      longRenewal :=
    linkRules_renewal (identityOf_signsFor 2) rfl rfl rfl decoded rfl rules rulesOfIssuer
      window (by decide) (by decide) (by decide)
  have decodedRenewal : decodeBody issuingPrimitives longRenewal.encode = .ok longRenewal :=
    decodeBody_renewal issuingPrimitives_codes issuingPrimitives_short decoded rfl rules
  have accepted : verifyChain issuingPrimitives (identityOf 0).publicKey
      [(identityOf 2).certify longRenewal, longCertificate 2] 1500 =
        .ok (verifiedBy issuingPrimitives (identityOf 0).publicKey longRenewal) :=
    verifyChain_two_iff.mpr ⟨longRenewal, (longSpec 2).body (identityOf 0), decodedRenewal,
      issued, renewedRules, rulesOfIssuer, rfl⟩
  have large : maxPresenceChainBytes <
      chainBytes [(identityOf 2).certify longRenewal, longCertificate 2] := by
    have second := le_length_longCertificate 2
    have first := le_length_longRenewal
    have signature : (longCertificate 2).signature.length = 64 := rfl
    have signed : ((identityOf 2).certify longRenewal).signature.length = 64 := rfl
    have body : ((identityOf 2).certify longRenewal).body = longRenewal.encode := rfl
    simp only [chainBytes, maxPresenceChainBytes, List.map_cons, List.map_nil, List.sum_cons,
      List.sum_nil, signature, signed, body]
    omega
  refine ⟨(identityOf 2).certify longRenewal, _, ?_, accepted, presentable_of_lt large⟩
  simp only [renew, bind_eq_ok, ensure_eq_ok, exists_const, pure_eq_ok_iff]
  exact ⟨_, decoded, rfl, (), window, rfl⟩

/-- The longest certificate that is not a renewal is presented. -/
theorem verified_presented_iff_approver :
    presentable [longCertificate 1] = [longCertificate 1] ∧
      chainBytes [longCertificate 1] ≤ maxPresenceChainBytes := by
  obtain ⟨presented, unrenewed⟩ := verified_presented_iff issuingPrimitives
    issuingPrimitives_short (identityOf 0).publicKey [longCertificate 1] 1500 _
    (verifyChain_specOf (by decide) (longSpec_withinLimits 1))
  have isPresented := unrenewed fun cert member body decodes => by
    obtain rfl := List.mem_singleton.mp member
    have issued : decodeBody issuingPrimitives (longCertificate 1).body =
        .ok ((longSpec 1).body (identityOf 0)) :=
      decodeBody_issued issuingPrimitives_codes (longSpec_withinLimits 1)
    obtain rfl := Option.some.inj ((decodeBody_eq_ok issued).symm.trans decodes)
    rfl
  exact ⟨isPresented, presented.mp isPresented⟩

end WindowMlHub
