import WindowMlHub.AccountRegistry

/-!
# Which principal signs an account's revocations

The hub records one signer for each account: the first principal that presents a
grant to revoke holds the record while that grant lives, and every other principal
is refused as a second signer.  The record is a small file of the state directory,
read and replaced under a lock.

A principal may hold several grants.  The record keeps the one that starts last, so
it can run out while another grant of the holder is still valid.
-/

namespace WindowMlHub

open FileSystems TextFormats

/-- What a hello that may revoke is, judged against the account's record. -/
inductive Registry.Revoker
  | held
  | second (holder : Text) (sinceMs : Nat)
  deriving DecidableEq, Repr

/-- The signer an account has on record. -/
structure Signer where
  principal : Text
  sinceMs : Nat
  untilMs : Nat
  certificate : Bytes
  deriving DecidableEq, Repr

/-! ## The record -/

/-- What has been read of a record. -/
structure SignerFields where
  principal : Option Text := none
  sinceMs : Option Nat := none
  untilMs : Option Nat := none
  certificate : Option Bytes := none

namespace SignerFields

/-- One more line of the record. -/
def readLine (fields : SignerFields) (line : Text) : SignerFields :=
  match splitOnce '=' line with
  | none => fields
  | some (key, value) =>
      if key = "principal".toList ∧ isHex value 64 then
        { fields with principal := some value }
      else if key = "since_ms".toList then
        { fields with sinceMs := parseUnsigned maxU64 (trim value) }
      else if key = "until_ms".toList then
        { fields with untilMs := parseUnsigned maxU64 (trim value) }
      else if key = "certificate".toList then
        { fields with certificate := unhex value }
      else
        fields

/-- The signer, when every field was read. -/
def signer (fields : SignerFields) : Option Signer := do
  return {
    principal := ← fields.principal
    sinceMs := ← fields.sinceMs
    untilMs := ← fields.untilMs
    certificate := ← fields.certificate }

end SignerFields

/-- `read_revoker`, on what the file holds. -/
def readRevoker (text : Text) : Option Signer :=
  ((lines text).foldl SignerFields.readLine {}).signer

/-- The lines that `write_revoker` writes. -/
def revokerLines (signer : Signer) : List Text :=
  ["principal=".toList ++ signer.principal,
    "since_ms=".toList ++ decimal signer.sinceMs,
    "until_ms=".toList ++ decimal signer.untilMs,
    "certificate=".toList ++ hex signer.certificate]

/-- The text that `write_revoker` writes. -/
def revokerText (signer : Signer) : Text :=
  (revokerLines signer).flatMap fun line => line ++ ['\n']

/-! ## Claiming -/

/-- The record on file, as it is read: a file that is absent or not a record counts
as none. -/
def recordedSigner (record : Option Text) : Option Signer :=
  record.bind readRevoker

/-- `write_revoker`: the record is replaced in one step or, when storage fails, stays
as it was. -/
def replaceRevoker (record : Option Text) (signer : Signer)
    (stored : Except FileSystems.IoError Unit) :
    Option Text × Except Refusal Registry.Revoker :=
  match stored with
  | .ok _ => (some (revokerText signer), .ok .held)
  | .error error => (record, .error (storage error))

/-- `claim_revoker`. -/
def claimRevoker (record : Option Text) (signer : Signer) (nowMs : Nat)
    (stored : Except FileSystems.IoError Unit) :
    Option Text × Except Refusal Registry.Revoker :=
  match (recordedSigner record).filter fun held => decide (held.untilMs > nowMs) with
  | some held =>
      if held.principal = signer.principal then
        if signer.sinceMs > held.sinceMs then
          replaceRevoker record signer stored
        else
          (record, .ok .held)
      else
        (record, .ok (.second held.principal held.sinceMs))
  | none => replaceRevoker record signer stored

/-- A verified grant to revoke: the principal, the window of the certificate and its
encoding. -/
structure RevokeGrant where
  principal : Bytes
  notBeforeMs : Nat
  notAfterMs : Nat
  certificate : Bytes
  principal_length : principal.length = 32
  notBeforeMs_le : notBeforeMs ≤ maxU64
  notAfterMs_le : notAfterMs ≤ maxU64
  certificate_ne_nil : certificate ≠ []

/-- The signer that `revoker` of the hub presents for a grant. -/
def RevokeGrant.signer (grant : RevokeGrant) : Signer where
  principal := hex grant.principal
  sinceMs := grant.notBeforeMs
  untilMs := grant.notAfterMs
  certificate := grant.certificate

/-! ## A record is read back -/

theorem readLine_append (fields : SignerFields) (key value : Text)
    (plain : '=' ∉ key) :
    fields.readLine (key ++ '=' :: value) =
      if key = "principal".toList ∧ isHex value 64 then
        { fields with principal := some value }
      else if key = "since_ms".toList then
        { fields with sinceMs := parseUnsigned maxU64 (trim value) }
      else if key = "until_ms".toList then
        { fields with untilMs := parseUnsigned maxU64 (trim value) }
      else if key = "certificate".toList then
        { fields with certificate := unhex value }
      else
        fields := by
  rw [SignerFields.readLine, splitOnce_append plain]

theorem readLine_principal (fields : SignerFields) {value : Text}
    (isPrincipal : isHex value 64 = true) :
    fields.readLine ("principal=".toList ++ value) =
      { fields with principal := some value } :=
  (readLine_append fields "principal".toList value (by decide)).trans
    (if_pos ⟨rfl, isPrincipal⟩)

theorem readLine_since {n : Nat} (fields : SignerFields) (bounded : n ≤ maxU64) :
    fields.readLine ("since_ms=".toList ++ decimal n) =
      { fields with sinceMs := some n } := by
  have read := readLine_append fields "since_ms".toList (decimal n) (by decide)
  rw [trim_decimal, parseUnsigned_decimal bounded] at read
  exact read

theorem readLine_until {n : Nat} (fields : SignerFields) (bounded : n ≤ maxU64) :
    fields.readLine ("until_ms=".toList ++ decimal n) =
      { fields with untilMs := some n } := by
  have read := readLine_append fields "until_ms".toList (decimal n) (by decide)
  rw [trim_decimal, parseUnsigned_decimal bounded] at read
  exact read

theorem readLine_certificate {bytes : Bytes} (fields : SignerFields)
    (nonempty : bytes ≠ []) :
    fields.readLine ("certificate=".toList ++ hex bytes) =
      { fields with certificate := some bytes } := by
  have read := readLine_append fields "certificate".toList (hex bytes) (by decide)
  rw [unhex_hex nonempty] at read
  exact read

/-- A signer as the hub records one: its principal is 64 digits, its times are unsigned
numbers of 64 bits and it has a certificate. -/
structure Signer.Recordable (signer : Signer) : Prop where
  principal : isHex signer.principal 64 = true
  sinceMs : signer.sinceMs ≤ maxU64
  untilMs : signer.untilMs ≤ maxU64
  certificate : signer.certificate ≠ []

namespace Signer

variable {signer : Signer}

theorem Recordable.solid (recordable : signer.Recordable) :
    ∀ line ∈ revokerLines signer, '\n' ∉ line ∧ '\r' ∉ line := by
  have plain {text : Text} (every : ∀ c ∈ text, Solid c) : '\n' ∉ text ∧ '\r' ∉ text :=
    ⟨fun member => absurd (every _ member) (by unfold Solid; decide),
      fun member => absurd (every _ member) (by unfold Solid; decide)⟩
  have decimals (n : Nat) := plain fun c (member : c ∈ decimal n) =>
    solid_of_isDigit (isDigit_of_mem_decimal member)
  have digits : '\n' ∉ signer.principal ∧ '\r' ∉ signer.principal := by
    have every := recordable.principal
    simp only [isHex, Bool.and_eq_true, List.all_eq_true] at every
    exact ⟨fun member => absurd (every.2 _ member) (by decide),
      fun member => absurd (every.2 _ member) (by decide)⟩
  have bytes : '\n' ∉ hex signer.certificate ∧ '\r' ∉ hex signer.certificate := by
    refine plain (forall_mem_hex _ ?_)
    unfold Solid
    decide
  intro line member
  simp only [revokerLines, List.mem_cons, List.not_mem_nil, or_false] at member
  rcases member with rfl | rfl | rfl | rfl
  · simpa using digits
  · simpa using decimals signer.sinceMs
  · simpa using decimals signer.untilMs
  · simpa using bytes

/-- The lines before that of the certificate. -/
def namingLines (signer : Signer) : List Text :=
  ["principal=".toList ++ signer.principal, "since_ms=".toList ++ decimal signer.sinceMs,
    "until_ms=".toList ++ decimal signer.untilMs]

theorem revokerLines_eq (signer : Signer) : revokerLines signer =
    signer.namingLines ++ ["certificate=".toList ++ hex signer.certificate] :=
  rfl

theorem Recordable.foldl_namingLines (recordable : signer.Recordable) :
    signer.namingLines.foldl SignerFields.readLine {} =
      ⟨some signer.principal, some signer.sinceMs, some signer.untilMs, none⟩ := by
  simp only [namingLines, List.foldl_cons, List.foldl_nil,
    readLine_principal _ recordable.principal, readLine_since _ recordable.sinceMs,
    readLine_until _ recordable.untilMs]

theorem Recordable.readRevoker_revokerText (recordable : signer.Recordable) :
    readRevoker (revokerText signer) = some signer := by
  rw [readRevoker, revokerText, lines_flatMap recordable.solid, revokerLines_eq,
    List.foldl_append, recordable.foldl_namingLines, List.foldl_cons, List.foldl_nil,
    readLine_certificate _ recordable.certificate]
  rfl

end Signer

theorem RevokeGrant.recordable (grant : RevokeGrant) : grant.signer.Recordable where
  principal := by
    have written := isHex_hex grant.principal
    rwa [grant.principal_length] at written
  sinceMs := grant.notBeforeMs_le
  untilMs := grant.notAfterMs_le
  certificate := grant.certificate_ne_nil

theorem readRevoker_revokerText (grant : RevokeGrant) :
    readRevoker (revokerText grant.signer) = some grant.signer :=
  grant.recordable.readRevoker_revokerText

/-! ## Runs of claims -/

/-- A claim: the grant that a hello presented, and when. -/
structure RevokerClaim where
  grant : RevokeGrant
  nowMs : Nat

/-- A claim as it was decided: the record before it, and the answer. -/
structure RevokerStep where
  before : Option Text
  claim : RevokerClaim
  answer : Except Refusal Registry.Revoker

/-- The claims on one account one after another, with storage that does not fail. -/
def runClaims (record : Option Text) : List RevokerClaim → List RevokerStep
  | [] => []
  | claim :: rest =>
      let decided := claimRevoker record claim.grant.signer claim.nowMs (.ok ())
      ⟨record, claim, decided.2⟩ :: runClaims decided.1 rest

/-- The claim is made while its grant is valid. -/
def RevokerClaim.InWindow (claim : RevokerClaim) : Prop :=
  claim.grant.notBeforeMs ≤ claim.nowMs ∧ claim.nowMs ≤ claim.grant.notAfterMs

/-- A claim that cannot shorten what a recorded grant protects.  Another principal
does not arrive in its last millisecond; and while it lives, its holder presents a
grant that starts later only when that lasts as long, and one that does not only when
that lasts no longer. -/
structure RevokerClaim.Respects (claim : RevokerClaim) (held : Signer) : Prop where
  other : held.principal ≠ claim.grant.signer.principal →
    held.untilMs ≠ claim.nowMs
  newer : held.principal = claim.grant.signer.principal →
    claim.nowMs < held.untilMs → held.sinceMs < claim.grant.notBeforeMs →
      held.untilMs ≤ claim.grant.notAfterMs
  older : held.principal = claim.grant.signer.principal →
    claim.nowMs < held.untilMs → claim.grant.notBeforeMs ≤ held.sinceMs →
      claim.grant.notAfterMs ≤ held.untilMs

/-- The claim respects the record it finds. -/
def RevokerClaim.Keeps (claim : RevokerClaim) (record : Option Text) : Prop :=
  ∀ held, recordedSigner record = some held → claim.Respects held

/-- The record names this principal at least until then. -/
def Protects (record : Option Text) (principal : Text) (untilMs : Nat) : Prop :=
  ∃ held, recordedSigner record = some held ∧ held.principal = principal ∧
    untilMs ≤ held.untilMs

theorem protects_revokerText (grant : RevokeGrant) :
    Protects (some (revokerText grant.signer)) grant.signer.principal
      grant.notAfterMs :=
  ⟨grant.signer, readRevoker_revokerText grant, rfl, le_rfl⟩

/-- What a claim can do: it is written when nobody's grant is on record or its
principal's grant started earlier, and otherwise leaves the record alone. -/
theorem claimRevoker_cases (record : Option Text) (signer : Signer) (nowMs : Nat) :
    ((∀ held, recordedSigner record = some held → held.untilMs ≤ nowMs) ∧
      claimRevoker record signer nowMs (.ok ()) =
        (some (revokerText signer), .ok .held)) ∨
    ∃ held, recordedSigner record = some held ∧ nowMs < held.untilMs ∧
      ((held.principal = signer.principal ∧ held.sinceMs < signer.sinceMs ∧
          claimRevoker record signer nowMs (.ok ()) =
            (some (revokerText signer), .ok .held)) ∨
        (held.principal = signer.principal ∧ signer.sinceMs ≤ held.sinceMs ∧
          claimRevoker record signer nowMs (.ok ()) = (record, .ok .held)) ∨
        (held.principal ≠ signer.principal ∧
          claimRevoker record signer nowMs (.ok ()) =
            (record, .ok (.second held.principal held.sinceMs)))) := by
  unfold claimRevoker
  cases recorded : recordedSigner record with
  | none =>
      left
      simp [replaceRevoker]
  | some held =>
      by_cases lives : nowMs < held.untilMs
      · right
        refine ⟨held, rfl, lives, ?_⟩
        by_cases same : held.principal = signer.principal
        · by_cases newer : held.sinceMs < signer.sinceMs
          · left
            simp [Option.filter, lives, same, newer, replaceRevoker]
          · right
            left
            have older : signer.sinceMs ≤ held.sinceMs := Nat.le_of_not_lt newer
            simp [Option.filter, lives, same, older]
        · right
          right
          simp [Option.filter, lives, same]
      · left
        have spent : held.untilMs ≤ nowMs := Nat.le_of_not_lt lives
        simp [Option.filter, spent, lives, replaceRevoker]

section Claims

variable {record : Option Text} {claim : RevokerClaim}

theorem protects_of_held
    (keeps : claim.Keeps record)
    (answered : (claimRevoker record claim.grant.signer claim.nowMs (.ok ())).2 =
      .ok .held) :
    Protects (claimRevoker record claim.grant.signer claim.nowMs (.ok ())).1
      claim.grant.signer.principal claim.grant.notAfterMs := by
  obtain ⟨-, decided⟩ | ⟨held, recorded, lives, same⟩ :=
    claimRevoker_cases record claim.grant.signer claim.nowMs
  · rw [decided]
    exact protects_revokerText claim.grant
  · obtain ⟨-, -, decided⟩ | ⟨same, older, decided⟩ | ⟨-, decided⟩ := same
    · rw [decided]
      exact protects_revokerText claim.grant
    · rw [decided]
      exact ⟨held, recorded, same, (keeps held recorded).older same lives older⟩
    · rw [decided] at answered
      cases answered

/-- A claim keeps what the record protects, as long as that is still valid. -/
theorem Protects.kept {principal : Text} {untilMs : Nat}
    (protects : Protects record principal untilMs)
    (keeps : claim.Keeps record) (inWindow : claim.InWindow) (valid : claim.nowMs ≤ untilMs) :
    Protects (claimRevoker record claim.grant.signer claim.nowMs (.ok ())).1
      principal untilMs := by
  obtain ⟨held, recorded, isHolder, lasts⟩ := protects
  obtain ⟨spent, decided⟩ | ⟨other, otherRecorded, lives, outcome⟩ :=
    claimRevoker_cases record claim.grant.signer claim.nowMs
  · -- the record runs out this very millisecond, so the claim is its holder's own
    have endsNow : held.untilMs = claim.nowMs := by
      have := spent held recorded
      omega
    have same : held.principal = claim.grant.signer.principal := by
      by_contra differs
      exact (keeps held recorded).other differs endsNow
    rw [decided]
    refine ⟨claim.grant.signer, readRevoker_revokerText claim.grant,
      same.symm.trans isHolder, ?_⟩
    exact (lasts.trans endsNow.le).trans inWindow.2
  · obtain rfl : held = other := Option.some.inj (recorded.symm.trans otherRecorded)
    obtain ⟨same, newer, decided⟩ | ⟨-, -, decided⟩ | ⟨-, decided⟩ := outcome
    · have longer := (keeps held recorded).newer same lives newer
      rw [decided]
      exact ⟨claim.grant.signer, readRevoker_revokerText claim.grant,
        same.symm.trans isHolder, lasts.trans longer⟩
    · rw [decided]
      exact ⟨held, recorded, isHolder, lasts⟩
    · rw [decided]
      exact ⟨held, recorded, isHolder, lasts⟩

/-- While the record protects a principal, another one is refused. -/
theorem Protects.refuses {principal : Text} {untilMs : Nat}
    (protects : Protects record principal untilMs)
    (keeps : claim.Keeps record)
    (valid : claim.nowMs ≤ untilMs)
    (differs : claim.grant.signer.principal ≠ principal) :
    ∃ holder sinceMs,
      (claimRevoker record claim.grant.signer claim.nowMs (.ok ())).2 =
        .ok (.second holder sinceMs) := by
  obtain ⟨held, recorded, rfl, lasts⟩ := protects
  obtain ⟨spent, decided⟩ | ⟨other, otherRecorded, lives, outcome⟩ :=
    claimRevoker_cases record claim.grant.signer claim.nowMs
  · have endsNow : held.untilMs = claim.nowMs := by
      have := spent held recorded
      omega
    exact absurd endsNow ((keeps held recorded).other differs.symm)
  · obtain rfl : held = other := Option.some.inj (recorded.symm.trans otherRecorded)
    obtain ⟨same, -⟩ | ⟨same, -⟩ | ⟨-, decided⟩ := outcome
    · exact absurd same.symm differs
    · exact absurd same.symm differs
    · exact ⟨held.principal, held.sinceMs, by rw [decided]⟩

end Claims

theorem claim_mem_of_mem_runClaims {record : Option Text}
    {claims : List RevokerClaim} {step : RevokerStep}
    (member : step ∈ runClaims record claims) : step.claim ∈ claims := by
  induction claims generalizing record with
  | nil => cases member
  | cons claim rest ih =>
      rcases List.mem_cons.mp member with rfl | later
      · exact List.mem_cons_self
      · exact List.mem_cons_of_mem _ (ih later)

/-- While the record protects a principal, a run refuses every other one. -/
theorem Protects.run {record : Option Text} {claims : List RevokerClaim}
    {principal : Text} {untilMs : Nat} (protects : Protects record principal untilMs)
    (ordered : claims.Pairwise fun first second => first.nowMs ≤ second.nowMs)
    (inWindow : ∀ claim ∈ claims, claim.InWindow)
    (keeps : ∀ step ∈ runClaims record claims, step.claim.Keeps step.before) :
    ∀ step ∈ runClaims record claims, step.claim.nowMs ≤ untilMs →
      step.claim.grant.signer.principal ≠ principal →
        ∃ holder sinceMs, step.answer = .ok (.second holder sinceMs) := by
  induction claims generalizing record with
  | nil => simp [runClaims]
  | cons claim rest ih =>
      intro step member valid differs
      have keepsNow : claim.Keeps record := keeps _ List.mem_cons_self
      rcases List.mem_cons.mp member with rfl | later
      · exact protects.refuses keepsNow valid differs
      · -- the claims before this one are made while the grant is valid too
        have before : claim.nowMs ≤ step.claim.nowMs :=
          List.rel_of_pairwise_cons ordered (claim_mem_of_mem_runClaims later)
        have kept := protects.kept keepsNow (inWindow claim List.mem_cons_self)
          (before.trans valid)
        exact ih kept ordered.of_cons
          (fun other otherMember => inWindow other (List.mem_cons_of_mem _ otherMember))
          (fun other otherMember => keeps other (List.mem_cons_of_mem _ otherMember))
          step later valid differs

/-- After a claim that was answered as held, a run refuses every other principal while
that claim's grant is valid. -/
theorem runClaims_pairwise {record : Option Text} {claims : List RevokerClaim}
    (ordered : claims.Pairwise fun first second => first.nowMs ≤ second.nowMs)
    (inWindow : ∀ claim ∈ claims, claim.InWindow)
    (keeps : ∀ step ∈ runClaims record claims, step.claim.Keeps step.before) :
    (runClaims record claims).Pairwise fun first second =>
      first.answer = .ok .held →
      second.claim.nowMs ≤ first.claim.grant.notAfterMs →
      second.claim.grant.signer.principal ≠ first.claim.grant.signer.principal →
        ∃ holder sinceMs, second.answer = .ok (.second holder sinceMs) := by
  induction claims generalizing record with
  | nil => exact List.Pairwise.nil
  | cons claim rest ih =>
      have keepsRest := fun other otherMember =>
        keeps other (List.mem_cons_of_mem _ otherMember)
      have inWindowRest := fun other otherMember =>
        inWindow other (List.mem_cons_of_mem _ otherMember)
      refine List.pairwise_cons.mpr ⟨?_, ih ordered.of_cons inWindowRest keepsRest⟩
      intro second member answered valid differs
      have protects := protects_of_held (keeps _ List.mem_cons_self) answered
      exact protects.run ordered.of_cons inWindowRest keepsRest second member valid
        differs

theorem answer_of_mem_runClaims {record : Option Text} {claims : List RevokerClaim}
    {step : RevokerStep} (member : step ∈ runClaims record claims) :
    step.answer = .ok .held ∨
      ∃ holder sinceMs, step.answer = .ok (.second holder sinceMs) := by
  induction claims generalizing record with
  | nil => cases member
  | cons claim rest ih =>
      rcases List.mem_cons.mp member with rfl | later
      · obtain ⟨-, decided⟩ | ⟨held, -, -, outcome⟩ :=
          claimRevoker_cases record claim.grant.signer claim.nowMs
        · exact .inl (by rw [decided])
        · obtain ⟨-, -, decided⟩ | ⟨-, -, decided⟩ | ⟨-, decided⟩ := outcome
          · exact .inl (by rw [decided])
          · exact .inl (by rw [decided])
          · exact .inr ⟨held.principal, held.sinceMs, by rw [decided]⟩
      · exact ih later

/-- One revocation signer at a time.  In a run of claims none of which shortens what
the record protects, a principal that was answered as held keeps every other one out
until its own grant has run out. -/
theorem one_revocation_signer (record : Option Text) (claims : List RevokerClaim)
    (ordered : claims.Pairwise fun first second => first.nowMs ≤ second.nowMs)
    (inWindow : ∀ claim ∈ claims, claim.InWindow)
    (keeps : ∀ step ∈ runClaims record claims, step.claim.Keeps step.before)
    (i j : Nat) (first second : RevokerStep)
    (firstStep : (runClaims record claims)[i]? = some first)
    (secondStep : (runClaims record claims)[j]? = some second)
    (answered : first.answer = .ok .held)
    (differs : second.claim.grant.principal ≠ first.claim.grant.principal)
    (after : first.claim.nowMs ≤ second.claim.nowMs)
    (valid : second.claim.nowMs ≤ first.claim.grant.notAfterMs) :
    ∃ holder sinceMs, second.answer = .ok (.second holder sinceMs) := by
  have signersDiffer : second.claim.grant.signer.principal ≠
      first.claim.grant.signer.principal :=
    fun same => differs (hex_injective same)
  have pairwise := List.pairwise_iff_getElem.mp
    (runClaims_pairwise ordered inWindow keeps)
  obtain ⟨iBound, firstGet⟩ := List.getElem?_eq_some_iff.mp firstStep
  obtain ⟨jBound, secondGet⟩ := List.getElem?_eq_some_iff.mp secondStep
  rcases lt_trichotomy i j with before | same | later
  · have refused := pairwise i j iBound jBound before
    rw [firstGet, secondGet] at refused
    exact refused answered valid signersDiffer
  · subst same
    rw [← firstGet, ← secondGet] at differs
    exact absurd rfl differs
  · -- a claim decided earlier in the same millisecond: had it been answered as held,
    -- it would have kept the first principal out
    rcases answer_of_mem_runClaims (List.mem_of_getElem? secondStep) with held | refused
    · have window := inWindow _
        (claim_mem_of_mem_runClaims (List.mem_of_getElem? secondStep))
      have refused := pairwise j i jBound iBound later
      rw [firstGet, secondGet] at refused
      obtain ⟨holder, sinceMs, answer⟩ :=
        refused held (after.trans window.2) signersDiffer.symm
      rw [answered] at answer
      cases answer
    · exact refused

theorem length_key_of_one_byte (byte : UInt8) : (List.replicate 32 byte).length = 32 :=
  List.length_replicate

theorem one_byte_ne_nil (byte : UInt8) : [byte] ≠ [] :=
  List.cons_ne_nil byte []

/-- A claim by the principal whose every byte is `name`. -/
def claimOf (name : UInt8) (notBeforeMs notAfterMs nowMs : Nat)
    (notBefore_le : notBeforeMs ≤ maxU64 := by decide)
    (notAfter_le : notAfterMs ≤ maxU64 := by decide) : RevokerClaim where
  grant := ⟨List.replicate 32 name, notBeforeMs, notAfterMs, [7],
    length_key_of_one_byte name, notBefore_le, notAfter_le, one_byte_ne_nil 7⟩
  nowMs := nowMs

theorem one_revocation_signer_second :
    ∃ holder sinceMs,
      (claimRevoker (some (revokerText (claimOf 1 0 100 10).grant.signer))
        (claimOf 2 0 200 60).grant.signer 60 (.ok ())).2 =
          .ok (.second holder sinceMs) := by
  refine one_revocation_signer none [claimOf 1 0 100 10, claimOf 2 0 200 60]
    (by decide) (by unfold RevokerClaim.InWindow; decide) ?_ 0 1 _ _ rfl rfl rfl
    (by decide) (by decide) (by decide)
  intro step member
  rcases List.mem_cons.mp member with rfl | member
  · intro held recorded
    cases recorded
  · obtain rfl := List.mem_singleton.mp member
    intro held recorded
    obtain rfl : (claimOf 1 0 100 10).grant.signer = held :=
      Option.some.inj ((readRevoker_revokerText _).symm.trans recorded)
    exact ⟨fun _ => by decide, fun same => absurd same (by decide),
      fun same => absurd same (by decide)⟩

/-- A holder that presents a later but shorter grant frees the record while its first
grant is valid: at 60 another principal is answered as held, though the grant the
holder was answered for at 10 is valid until 100. -/
theorem two_revocation_signers :
    let claims := [claimOf 1 0 100 10, claimOf 1 15 50 20, claimOf 2 0 200 60]
    claims.Pairwise (fun first second => first.nowMs ≤ second.nowMs) ∧
      (∀ claim ∈ claims, claim.InWindow) ∧
      (runClaims none claims).map (·.answer) = [.ok .held, .ok .held, .ok .held] := by
  refine ⟨?_, ?_, ?_⟩
  · decide
  · unfold RevokerClaim.InWindow
    decide
  · decide +kernel

end WindowMlHub
