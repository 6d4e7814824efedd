import WindowMlHub.CertificateRules
import WindowMlHub.DelimitedFrames
import WindowMlHub.LineProtocols
import WindowMlHub.ProtobufFields

/-!
# Certificates on the wire

How the generated encoder writes a certificate body, from `identity.proto`: its fields in
the order of their numbers, those that have their default left out, so that the length of
a body follows from what it says.  A renewal has a whole certificate among its fields.

What the keys are used with has a decoder of its own; `CodesCertificates` is what an
issuer relies on, that it reads back what was encoded.  The decoder that merges one field
after another does so (`mergesCertificates`).
-/

namespace WindowMlHub

open ProtobufFields TextFormats

/-- The varints of the wire format. -/
def varints : NumberCoding where
  bound := 2 ^ 64
  write := writeVarint
  read bytes :=
    match readVarint bytes with
    | .ok (some (value, head)) => some (value, bytes.drop head)
    | _ => none
  read_write := by
    intro number fits rest
    simp [readVarint_writeVarint rest fits]
  read_nil := rfl
  read_lt := by
    intro bytes number rest found
    split at found
    · next value head isRead =>
        cases found
        exact readVarint_lt isRead
    · cases found

theorem length_writeVarint_le {value : Nat} (width : Nat) (fits : value < 128 ^ (width + 1)) :
    (writeVarint value).length ≤ width + 1 := by
  induction width generalizing value with
  | zero => rw [writeVarint_small (by simpa using fits)]; rfl
  | succ width ih =>
      rw [writeVarint]
      split
      · simp
      · have fewer : value >>> 7 < 128 ^ (width + 1) := by
          rw [Nat.shiftRight_eq_div_pow]
          exact Nat.div_lt_of_lt_mul (by rw [pow_succ] at fits; omega)
        simpa using ih fewer

/-! ## Encoding -/

/-- How an enumeration is written: a negative number as its two's complement. -/
def enumNumber (value : Int) : Nat :=
  (value % 2 ^ 64).toNat

/-- How an enumeration is read: the low bits, as a signed number. -/
def enumValue (number : Nat) : Int :=
  Int.bmod number (2 ^ 32)

/-- The fields of `Certificate`. -/
def Certificate.fields (cert : Certificate) : List Field :=
  bytesField 1 cert.body ++ bytesField 2 cert.signature

/-- `encode_to_vec` of a certificate. -/
def Certificate.encode (cert : Certificate) : Bytes :=
  writeFields varints cert.fields

/-- The field of one scope: those of a repeated field are written whatever they say. -/
def scopeField (name : Text) : Field :=
  ⟨10, .bytes (utf8Bytes name)⟩

/-- The field of the certificate that is renewed. -/
def renewsField (renewed : Certificate) : Field :=
  ⟨12, .bytes renewed.encode⟩

/-- The fields of `CertificateBody`. -/
def CertificateBody.fields (body : CertificateBody) : List Field :=
  bytesField 1 body.subject ++ bytesField 2 body.agreementKey ++ bytesField 3 body.issuer ++
    numberField 4 (enumNumber body.role) ++ numberField 6 body.mayPair.toNat ++
    numberField 7 body.notBeforeMs ++ numberField 8 body.notAfterMs ++
    bytesField 9 (utf8Bytes body.label) ++ body.scopes.map scopeField ++
    numberField 11 body.mayRevoke.toNat ++ body.renews.toList.map renewsField

/-- `encode_to_vec` of a certificate body. -/
def CertificateBody.encode (body : CertificateBody) : Bytes :=
  writeFields varints body.fields

/-- What the types of the fields can hold. -/
structure CertificateBody.Typed (body : CertificateBody) : Prop where
  role_ge : -2 ^ 31 ≤ body.role
  role_lt : body.role < 2 ^ 31
  notBeforeMs_lt : body.notBeforeMs < 2 ^ 64
  notAfterMs_lt : body.notAfterMs < 2 ^ 64

/-- The decoder reads back what was encoded, of a length that a machine can count, and
what it reads is of the fields' types. -/
structure KeyPrimitives.CodesCertificates (primitives : KeyPrimitives) : Prop where
  inverts : ∀ body : CertificateBody, body.Typed → body.encode.length < 2 ^ 64 →
    primitives.decodeCertificate body.encode = some body
  typed : ∀ bytes body, primitives.decodeCertificate bytes = some body → body.Typed

/-! ## How long -/

theorem length_utf8Bytes (text : Text) : (utf8Bytes text).length = utf8Length text := by
  rw [utf8Bytes_eq_flatMap, utf8Length, List.length_flatMap]
  congr 1
  exact List.map_congr_left fun c _ => String.length_utf8EncodeChar c

section Lengths

theorem length_key_le {key : Nat} (small : key < 128) : (varints.write key).length ≤ 1 :=
  length_writeVarint_le 0 small

theorem length_bytesField_of_lt (tag width : Nat) (content : Bytes) (small : tag < 15)
    (short : content.length < 128 ^ (width + 1)) :
    (writeFields varints (bytesField tag content)).length ≤ width + 2 + content.length := by
  have := length_bytesField_le content (length_key_le (by omega : 8 * tag + 2 < 128))
    (length_writeVarint_le width short)
  omega

theorem length_numberField_of_lt (tag width number : Nat) (small : tag < 15)
    (fits : number < 128 ^ (width + 1)) :
    (writeFields varints (numberField tag number)).length ≤ width + 2 := by
  have := length_numberField_le number (length_key_le (by omega : 8 * tag < 128))
    (length_writeVarint_le width fits)
  omega

theorem enumNumber_lt (value : Int) : enumNumber value < 2 ^ 64 := by
  unfold enumNumber
  omega

theorem length_short_le (tag : Nat) (content : Bytes) (small : tag < 15)
    (short : content.length ≤ 64) :
    (writeFields varints (bytesField tag content)).length ≤ 2 + content.length :=
  length_bytesField_of_lt tag 0 content small (by omega)

theorem length_number_le (tag : Nat) {number : Nat} (small : tag < 15)
    (fits : number < 2 ^ 64) :
    (writeFields varints (numberField tag number)).length ≤ 11 :=
  length_numberField_of_lt tag 9 number small (by omega)

theorem length_bool_le (tag : Nat) (value : Bool) (small : tag < 15) :
    (writeFields varints (numberField tag value.toNat)).length ≤ 2 :=
  length_numberField_of_lt tag 0 value.toNat small (by cases value <;> decide)

theorem length_scopeField_le {name : Text} (ok : scopeNameOk name = true) :
    ((scopeField name).write varints).length ≤ 34 := by
  rw [scopeNameOk, Bool.and_eq_true, decide_eq_true_eq, ← length_utf8Bytes] at ok
  obtain ⟨⟨-, short⟩, -⟩ := ok
  unfold maxScopeBytes at short
  have key : (writeVarint (8 * 10 + 2)).length ≤ 1 := length_writeVarint_le 0 (by decide)
  have counted : (writeVarint (utf8Bytes name).length).length ≤ 1 :=
    length_writeVarint_le 0 (by omega)
  simp only [scopeField, Field.write, varints, List.length_append]
  omega

theorem length_renewsField_le {cert : Certificate} (small : cert.body.length ≤ maxCertBytes)
    (signed : cert.signature.length = 64) :
    ((renewsField cert).write varints).length ≤ 1096 := by
  unfold maxCertBytes at small
  have body := length_bytesField_of_lt 1 1 cert.body (by decide) (by omega)
  have signature := length_short_le 2 cert.signature (by decide) (by omega)
  have whole : cert.encode.length ≤ 1093 := by
    rw [Certificate.encode, Certificate.fields, writeFields_append, List.length_append]
    omega
  have key : (writeVarint (8 * 12 + 2)).length ≤ 1 := length_writeVarint_le 0 (by decide)
  have counted : (writeVarint cert.encode.length).length ≤ 2 :=
    length_writeVarint_le 1 (by omega)
  simp only [renewsField, Field.write, varints, List.length_append]
  omega

/-- A body that is within its bounds is well below the limit of a certificate, but for
the certificate that it renews. -/
theorem CertificateBody.length_encode_le {body : CertificateBody} (typed : body.Typed)
    (keyed : body.Keyed) (named : body.Named) :
    body.encode.length ≤
      749 + (writeFields varints (body.renews.toList.map renewsField)).length := by
  obtain ⟨subject32, agreement32, issuer32⟩ := keyed
  obtain ⟨few, ok, label⟩ := named
  unfold maxScopes at few
  rw [← length_utf8Bytes] at label
  unfold maxLabelBytes at label
  have subject := length_short_le 1 body.subject (by decide) (by omega)
  have agreement := length_short_le 2 body.agreementKey (by decide) (by omega)
  have issuer := length_short_le 3 body.issuer (by decide) (by omega)
  have role := length_number_le 4 (by decide) (enumNumber_lt body.role)
  have mayPair := length_bool_le 6 body.mayPair (by decide)
  have notBefore := length_number_le 7 (by decide) typed.notBeforeMs_lt
  have notAfter := length_number_le 8 (by decide) typed.notAfterMs_lt
  have labelled := length_short_le 9 (utf8Bytes body.label) (by decide) label
  have mayRevoke := length_bool_le 11 body.mayRevoke (by decide)
  have scopes := length_writeFields_map_le scopeField body.scopes
    fun name member => length_scopeField_le (List.all_eq_true.mp ok name member)
  simp only [CertificateBody.encode, CertificateBody.fields, writeFields_append,
    List.length_append]
  omega

/-- A body is no shorter than the bytes that it holds. -/
theorem CertificateBody.le_length_encode (body : CertificateBody) :
    body.subject.length + body.agreementKey.length + body.issuer.length +
        utf8Length body.label + (body.scopes.map utf8Length).sum +
        (body.renews.toList.map fun renewed =>
          renewed.body.length + renewed.signature.length).sum ≤ body.encode.length := by
  have subject := length_le_bytesField varints 1 body.subject
  have agreement := length_le_bytesField varints 2 body.agreementKey
  have issuer := length_le_bytesField varints 3 body.issuer
  have label := length_le_bytesField varints 9 (utf8Bytes body.label)
  rw [length_utf8Bytes] at label
  have scopes : (body.scopes.map utf8Length).sum ≤
      (writeFields varints (body.scopes.map scopeField)).length := by
    induction body.scopes with
    | nil => simp
    | cons name names ih =>
        have := length_utf8Bytes name
        simp only [List.map_cons, List.sum_cons, writeFields_cons, List.length_append,
          scopeField, Field.write]
        omega
  have renews : (body.renews.toList.map fun renewed =>
      renewed.body.length + renewed.signature.length).sum ≤
      (writeFields varints (body.renews.toList.map renewsField)).length := by
    cases body.renews with
    | none => simp
    | some renewed =>
        have first := length_le_bytesField varints 1 renewed.body
        have second := length_le_bytesField varints 2 renewed.signature
        simp only [Option.toList_some, List.map_singleton, List.sum_singleton,
          writeFields_cons, List.length_append, renewsField, Field.write, Certificate.encode,
          Certificate.fields, writeFields_append]
        omega
  simp only [CertificateBody.encode, CertificateBody.fields, writeFields_append,
    List.length_append]
  omega

end Lengths

/-! ## Decoding -/

/-- Take one more field of `Certificate`: those it does not know are passed over, and a
field it knows has to be of its kind. -/
def mergeCertificate (cert : Certificate) : Field → Option Certificate
  | ⟨1, .bytes content⟩ => some { cert with body := content }
  | ⟨2, .bytes content⟩ => some { cert with signature := content }
  | ⟨tag, _⟩ => if tag ∈ [1, 2] then none else some cert

/-- Take one more field of `CertificateBody`. -/
def mergeCertificateBody (body : CertificateBody) : Field → Option CertificateBody
  | ⟨1, .bytes content⟩ => some { body with subject := content }
  | ⟨2, .bytes content⟩ => some { body with agreementKey := content }
  | ⟨3, .bytes content⟩ => some { body with issuer := content }
  | ⟨4, .number number⟩ => some { body with role := enumValue number }
  | ⟨6, .number number⟩ => some { body with mayPair := decide (number ≠ 0) }
  | ⟨7, .number number⟩ => some { body with notBeforeMs := number }
  | ⟨8, .number number⟩ => some { body with notAfterMs := number }
  | ⟨9, .bytes content⟩ => do
      let label ← fromUtf8 content
      return { body with label }
  | ⟨10, .bytes content⟩ => do
      let name ← fromUtf8 content
      return { body with scopes := body.scopes ++ [name] }
  | ⟨11, .number number⟩ => some { body with mayRevoke := decide (number ≠ 0) }
  | ⟨12, .bytes content⟩ => do
      let fields ← readFields varints content
      -- a message that comes twice is merged with what came before
      let renewed ← fields.foldlM mergeCertificate (body.renews.getD ⟨[], []⟩)
      return { body with renews := some renewed }
  | ⟨tag, _⟩ => if tag ∈ [1, 2, 3, 4, 6, 7, 8, 9, 10, 11, 12] then none else some body

/-- A body with every field at its default. -/
def CertificateBody.empty : CertificateBody :=
  ⟨[], [], [], 0, [], false, false, 0, 0, [], none⟩

/-- `CertificateBody::decode`. -/
def decodeCertificateBody (bytes : Bytes) : Option CertificateBody := do
  let fields ← readFields varints bytes
  fields.foldlM mergeCertificateBody .empty

theorem enumValue_enumNumber {value : Int} (least : -2 ^ 31 ≤ value) (most : value < 2 ^ 31) :
    enumValue (enumNumber value) = value := by
  unfold enumValue enumNumber
  rw [Int.toNat_of_nonneg (Int.emod_nonneg _ (by decide)), Int.bmod_def]
  omega

theorem enumValue_bounds (number : Nat) :
    -2 ^ 31 ≤ enumValue number ∧ enumValue number < 2 ^ 31 := by
  have least := Int.le_bmod (x := number) (m := 2 ^ 32) (by norm_num)
  have most := Int.bmod_lt (x := number) (m := 2 ^ 32) (by norm_num)
  unfold enumValue
  omega

theorem Certificate.fields_merge (cert : Certificate) :
    cert.fields.foldlM mergeCertificate ⟨[], []⟩ = some cert := by
  have body : (bytesField 1 cert.body).foldlM mergeCertificate ⟨[], []⟩ =
      some ⟨cert.body, []⟩ :=
    foldlM_bytesField (fun nothing => by rw [nothing]) rfl
  have signature : (bytesField 2 cert.signature).foldlM mergeCertificate ⟨cert.body, []⟩ =
      some cert :=
    foldlM_bytesField (fun nothing => by rw [← nothing]) rfl
  exact foldlM_append_some body signature

/-- The key of the field takes one byte, and a number in it is a `u64`. -/
def SmallField (field : Field) : Prop :=
  (0 < field.tag ∧ field.tag < 15) ∧ ∀ number, field.value = .number number → number < 2 ^ 64

theorem smallField_of_bytes {tag : Nat} {content : Bytes} {field : Field}
    (ok : 0 < tag ∧ tag < 15) (member : field ∈ bytesField tag content) :
    SmallField field := by
  rw [mem_bytesField member]
  exact ⟨ok, by simp⟩

theorem smallField_of_number {tag number : Nat} {field : Field} (ok : 0 < tag ∧ tag < 15)
    (fits : number < 2 ^ 64) (member : field ∈ numberField tag number) :
    SmallField field := by
  rw [mem_numberField member]
  exact ⟨ok, by simpa using fits⟩

theorem fits_of_length_lt {fields : List Field}
    (small : (writeFields varints fields).length < 2 ^ 64)
    (each : ∀ field ∈ fields, SmallField field) :
    ∀ field ∈ fields, field.Fits varints := by
  rintro ⟨tag, value⟩ member
  obtain ⟨⟨positive, below⟩, numbers⟩ := each _ member
  refine ⟨positive, ?_, ?_⟩
  · dsimp only at below
    simp only [varints]
    omega
  · cases value with
    | number number => exact numbers number rfl
    | bytes content => exact lt_of_le_of_lt (length_content_le member) small

theorem Certificate.readFields_encode {cert : Certificate}
    (small : cert.encode.length < 2 ^ 64) :
    readFields varints cert.encode = some cert.fields := by
  refine readFields_writeFields (fits_of_length_lt small fun field member => ?_)
  rcases List.mem_append.mp member with first | second
  · exact smallField_of_bytes (by decide) first
  · exact smallField_of_bytes (by decide) second

namespace CertificateBody

variable {body : CertificateBody}

/-- What the fields of a body are: numbers of its types, and bytes. -/
theorem smallField_of_mem (typed : body.Typed) {field : Field}
    (member : field ∈ body.fields) : SmallField field := by
  have flag (value : Bool) : value.toNat < 2 ^ 64 := by cases value <;> decide
  simp only [fields, List.mem_append, List.mem_map, Option.mem_toList] at member
  rcases member with ((((((((((first | second) | third) | fourth) | sixth) | seventh) |
    eighth) | ninth) | ⟨name, -, rfl⟩) | eleventh) | ⟨renewed, -, rfl⟩)
  · exact smallField_of_bytes (by decide) first
  · exact smallField_of_bytes (by decide) second
  · exact smallField_of_bytes (by decide) third
  · exact smallField_of_number (by decide) (enumNumber_lt body.role) fourth
  · exact smallField_of_number (by decide) (flag body.mayPair) sixth
  · exact smallField_of_number (by decide) typed.notBeforeMs_lt seventh
  · exact smallField_of_number (by decide) typed.notAfterMs_lt eighth
  · exact smallField_of_bytes (by decide) ninth
  · exact ⟨by simp [scopeField], by simp [scopeField]⟩
  · exact smallField_of_number (by decide) (flag body.mayRevoke) eleventh
  · exact ⟨by simp [renewsField], by simp [renewsField]⟩

theorem scopes_merge (body : CertificateBody) (names : List Text) :
    (names.map scopeField).foldlM mergeCertificateBody body =
      some { body with scopes := body.scopes ++ names } := by
  induction names generalizing body with
  | nil => simp
  | cons name names ih =>
      have first : mergeCertificateBody body (scopeField name) =
          some { body with scopes := body.scopes ++ [name] } := by
        simp [mergeCertificateBody, scopeField, fromUtf8_utf8Bytes]
      rw [List.map_cons, List.foldlM_cons, first]
      simpa using ih { body with scopes := body.scopes ++ [name] }

theorem renews_merge (before : CertificateBody) (renews : Option Certificate)
    (fresh : before.renews = none)
    (small : ∀ renewed ∈ renews, renewed.encode.length < 2 ^ 64) :
    (renews.toList.map renewsField).foldlM mergeCertificateBody before =
      some { before with renews := renews } := by
  cases renews with
  | none =>
      obtain ⟨_, _, _, _, _, _, _, _, _, _, renews⟩ := before
      cases fresh
      rfl
  | some renewed =>
      have read := Certificate.readFields_encode (small renewed rfl)
      simp [mergeCertificateBody, renewsField, read, fresh, Certificate.fields_merge]

/-- The fields of a body are merged into that body. -/
theorem fields_merge (typed : body.Typed)
    (small : ∀ renewed ∈ body.renews, renewed.encode.length < 2 ^ 64) :
    body.fields.foldlM mergeCertificateBody .empty = some body := by
  have isRole := enumValue_enumNumber typed.role_ge typed.role_lt
  have noRole (nothing : enumNumber body.role = 0) : 0 = body.role := by
    rw [← isRole, nothing]
    rfl
  have isFlag (value : Bool) : decide (value.toNat ≠ 0) = value := by cases value <;> rfl
  have noFlag (value : Bool) (nothing : value.toNat = 0) : false = value := by
    rw [← isFlag value, nothing]
    rfl
  have noLabel (nothing : utf8Bytes body.label = []) : [] = body.label := by
    have := fromUtf8_utf8Bytes body.label
    rw [nothing, ← utf8Bytes_nil, fromUtf8_utf8Bytes] at this
    exact Option.some.inj this
  obtain ⟨subject, agreementKey, issuer, role, scopes, mayPair, mayRevoke, notBeforeMs,
    notAfterMs, label, renews⟩ := body
  dsimp only at isRole noRole noLabel small
  have first : (bytesField 1 subject).foldlM mergeCertificateBody .empty =
      some ⟨subject, [], [], 0, [], false, false, 0, 0, [], none⟩ :=
    foldlM_bytesField (by rintro rfl; rfl) rfl
  have second : (bytesField 2 agreementKey).foldlM mergeCertificateBody
      ⟨subject, [], [], 0, [], false, false, 0, 0, [], none⟩ =
      some ⟨subject, agreementKey, [], 0, [], false, false, 0, 0, [], none⟩ :=
    foldlM_bytesField (by rintro rfl; rfl) rfl
  have third : (bytesField 3 issuer).foldlM mergeCertificateBody
      ⟨subject, agreementKey, [], 0, [], false, false, 0, 0, [], none⟩ =
      some ⟨subject, agreementKey, issuer, 0, [], false, false, 0, 0, [], none⟩ :=
    foldlM_bytesField (by rintro rfl; rfl) rfl
  have fourth : (numberField 4 (enumNumber role)).foldlM mergeCertificateBody
      ⟨subject, agreementKey, issuer, 0, [], false, false, 0, 0, [], none⟩ =
      some ⟨subject, agreementKey, issuer, role, [], false, false, 0, 0, [], none⟩ :=
    foldlM_numberField (fun nothing => by rw [← noRole nothing])
      (by simp [mergeCertificateBody, isRole])
  have sixth : (numberField 6 mayPair.toNat).foldlM mergeCertificateBody
      ⟨subject, agreementKey, issuer, role, [], false, false, 0, 0, [], none⟩ =
      some ⟨subject, agreementKey, issuer, role, [], mayPair, false, 0, 0, [], none⟩ :=
    foldlM_numberField (fun nothing => by rw [← noFlag mayPair nothing])
      (by simp only [mergeCertificateBody, isFlag])
  have seventh : (numberField 7 notBeforeMs).foldlM mergeCertificateBody
      ⟨subject, agreementKey, issuer, role, [], mayPair, false, 0, 0, [], none⟩ =
      some ⟨subject, agreementKey, issuer, role, [], mayPair, false, notBeforeMs, 0, [],
        none⟩ :=
    foldlM_numberField (by rintro rfl; rfl) rfl
  have eighth : (numberField 8 notAfterMs).foldlM mergeCertificateBody
      ⟨subject, agreementKey, issuer, role, [], mayPair, false, notBeforeMs, 0, [], none⟩ =
      some ⟨subject, agreementKey, issuer, role, [], mayPair, false, notBeforeMs, notAfterMs,
        [], none⟩ :=
    foldlM_numberField (by rintro rfl; rfl) rfl
  have ninth : (bytesField 9 (utf8Bytes label)).foldlM mergeCertificateBody
      ⟨subject, agreementKey, issuer, role, [], mayPair, false, notBeforeMs, notAfterMs, [],
        none⟩ =
      some ⟨subject, agreementKey, issuer, role, [], mayPair, false, notBeforeMs, notAfterMs,
        label, none⟩ :=
    foldlM_bytesField (fun nothing => by rw [← noLabel nothing])
      (by simp [mergeCertificateBody, fromUtf8_utf8Bytes])
  have tenth := scopes_merge ⟨subject, agreementKey, issuer, role, [], mayPair, false,
    notBeforeMs, notAfterMs, label, none⟩ scopes
  have eleventh : (numberField 11 mayRevoke.toNat).foldlM mergeCertificateBody
      ⟨subject, agreementKey, issuer, role, scopes, mayPair, false, notBeforeMs, notAfterMs,
        label, none⟩ =
      some ⟨subject, agreementKey, issuer, role, scopes, mayPair, mayRevoke, notBeforeMs,
        notAfterMs, label, none⟩ :=
    foldlM_numberField (fun nothing => by rw [← noFlag mayRevoke nothing])
      (by simp only [mergeCertificateBody, isFlag])
  have twelfth := renews_merge ⟨subject, agreementKey, issuer, role, scopes, mayPair,
    mayRevoke, notBeforeMs, notAfterMs, label, none⟩ renews rfl small
  exact foldlM_append_some (foldlM_append_some (foldlM_append_some (foldlM_append_some
    (foldlM_append_some (foldlM_append_some (foldlM_append_some (foldlM_append_some
      (foldlM_append_some (foldlM_append_some first second) third) fourth) sixth) seventh)
        eighth) ninth) tenth) eleventh) twelfth

theorem decode_encode (typed : body.Typed) (small : body.encode.length < 2 ^ 64) :
    decodeCertificateBody body.encode = some body := by
  have fits := fits_of_length_lt small fun field member => smallField_of_mem typed member
  have renewed : ∀ renewed ∈ body.renews, renewed.encode.length < 2 ^ 64 := by
    intro renewed isRenewed
    have member : renewsField renewed ∈ body.fields := by
      simp only [fields, List.mem_append, List.mem_map, Option.mem_toList]
      exact Or.inr ⟨renewed, isRenewed, rfl⟩
    exact lt_of_le_of_lt (length_content_le member) small
  rw [decodeCertificateBody, encode, readFields_writeFields fits]
  exact fields_merge typed renewed

/-- A field whose number is of its type leaves the body so. -/
theorem typed_of_merge {after : CertificateBody} {field : Field} (typed : body.Typed)
    (fits : ∀ number, field.value = .number number → number < 2 ^ 64)
    (merged : mergeCertificateBody body field = some after) : after.Typed := by
  obtain ⟨role_ge, role_lt, notBefore, notAfter⟩ := typed
  unfold mergeCertificateBody at merged
  split at merged
  case h_4 number =>
    cases merged
    obtain ⟨least, most⟩ := enumValue_bounds number
    exact ⟨by simpa using least, by simpa using most, notBefore, notAfter⟩
  case h_6 number =>
    cases merged
    exact ⟨role_ge, role_lt, fits number rfl, notAfter⟩
  case h_7 number =>
    cases merged
    exact ⟨role_ge, role_lt, notBefore, fits number rfl⟩
  case h_8 content =>
    obtain ⟨label, -, returned⟩ := Option.bind_eq_some_iff.mp merged
    cases returned
    exact ⟨role_ge, role_lt, notBefore, notAfter⟩
  case h_9 content =>
    obtain ⟨name, -, returned⟩ := Option.bind_eq_some_iff.mp merged
    cases returned
    exact ⟨role_ge, role_lt, notBefore, notAfter⟩
  case h_11 content =>
    obtain ⟨fields, -, more⟩ := Option.bind_eq_some_iff.mp merged
    obtain ⟨renewed, -, returned⟩ := Option.bind_eq_some_iff.mp more
    cases returned
    exact ⟨role_ge, role_lt, notBefore, notAfter⟩
  case h_12 tag value _ _ _ _ _ _ _ _ _ _ _ =>
    split at merged
    · cases merged
    · cases merged
      exact ⟨role_ge, role_lt, notBefore, notAfter⟩
  all_goals
    cases merged
    exact ⟨role_ge, role_lt, notBefore, notAfter⟩

/-- What is decoded is of its types. -/
theorem typed_of_decode {bytes : Bytes} (decoded : decodeCertificateBody bytes = some body) :
    body.Typed := by
  obtain ⟨fields, read, merged⟩ := Option.bind_eq_some_iff.mp decoded
  have numbers : ∀ field ∈ fields, ∀ number, field.value = .number number →
      number < 2 ^ 64 :=
    fun field member number isNumber => number_lt_of_readFields read member isNumber
  have start : CertificateBody.empty.Typed := by constructor <;> decide
  clear read decoded
  generalize CertificateBody.empty = before at start merged
  induction fields generalizing before with
  | nil =>
      cases merged
      exact start
  | cons field fields ih =>
      rw [List.foldlM_cons] at merged
      obtain ⟨middle, first, others⟩ := Option.bind_eq_some_iff.mp merged
      exact ih (fun other member => numbers other (List.mem_cons_of_mem _ member)) middle
        (typed_of_merge start (numbers field List.mem_cons_self) first) others

end CertificateBody

theorem mergesCertificates (primitives : KeyPrimitives)
    (decodes : primitives.decodeCertificate = decodeCertificateBody) :
    primitives.CodesCertificates where
  inverts body typed small := by rw [decodes, CertificateBody.decode_encode typed small]
  typed bytes body decoded := by
    rw [decodes] at decoded
    exact CertificateBody.typed_of_decode decoded

end WindowMlHub
