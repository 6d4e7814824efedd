import WindowMlHub.CertificateEncoding
import WindowMlHub.SealedCommands

/-!
# Sealed messages on the wire

How the generated encoder writes the messages of `seal.proto` that two principals exchange,
and decoders that merge one field after another.  A signed command and a signed grant are
written alike: signed bytes, the signature and the chain of the signer.

A message that can be counted is read back.
-/

namespace WindowMlHub

open ProtobufFields TextFormats

/-! ## Encoding -/

/-- `encode_to_vec` of `Sealed`. -/
def Sealed.encode (message : Sealed) : Bytes :=
  writeFields varints (bytesField 1 message.enc ++ bytesField 2 message.ciphertext)

/-- One certificate of a chain: those of a repeated field are written whatever they say. -/
def chainField (cert : Certificate) : Field :=
  ⟨3, .bytes cert.encode⟩

/-- The fields of `SignedCommand` and of `SignedGrant`. -/
def signedFields (body signature : Bytes) (chain : List Certificate) : List Field :=
  bytesField 1 body ++ bytesField 2 signature ++ chain.map chainField

/-- `encode_to_vec` of `SignedCommand`. -/
def SignedCommand.encode (message : SignedCommand) : Bytes :=
  writeFields varints (signedFields message.body message.signature message.chain)

/-- `encode_to_vec` of `SignedGrant`. -/
def SignedGrant.encode (message : SignedGrant) : Bytes :=
  writeFields varints (signedFields message.body message.signature message.chain)

/-- The fields of `CommandBody`. -/
def CommandBody.fields (body : CommandBody) : List Field :=
  bytesField 1 body.sentBy ++ bytesField 2 body.sentTo ++ bytesField 3 (utf8Bytes body.scope) ++
    bytesField 4 body.nonce ++ numberField 5 body.timeMs ++ bytesField 6 body.body ++
    bytesField 7 body.answers

/-- `encode_to_vec` of `CommandBody`. -/
def CommandBody.encode (body : CommandBody) : Bytes :=
  writeFields varints body.fields

/-- The fields of `GrantBody`. -/
def GrantBody.fields (body : GrantBody) : List Field :=
  bytesField 1 body.sentBy ++ bytesField 2 body.sentTo ++ bytesField 3 body.nonce ++
    numberField 4 body.timeMs ++ bytesField 5 body.channel ++ bytesField 6 body.keyId ++
    bytesField 7 body.key ++ numberField 8 body.fromCounter

/-- `encode_to_vec` of `GrantBody`. -/
def GrantBody.encode (body : GrantBody) : Bytes :=
  writeFields varints body.fields

/-! ## Decoding -/

/-- Take one more field of `Sealed`. -/
def mergeSealed (message : Sealed) : Field → Option Sealed
  | ⟨1, .bytes content⟩ => some { message with enc := content }
  | ⟨2, .bytes content⟩ => some { message with ciphertext := content }
  | ⟨tag, _⟩ => if tag ∈ [1, 2] then none else some message

/-- `Sealed::decode`. -/
def decodeSealedBytes (bytes : Bytes) : Option Sealed := do
  let fields ← readFields varints bytes
  fields.foldlM mergeSealed ⟨[], []⟩

/-- Take one more field of `SignedCommand`. -/
def mergeSignedCommand (message : SignedCommand) : Field → Option SignedCommand
  | ⟨1, .bytes content⟩ => some { message with body := content }
  | ⟨2, .bytes content⟩ => some { message with signature := content }
  | ⟨3, .bytes content⟩ => do
      let fields ← readFields varints content
      let cert ← fields.foldlM mergeCertificate ⟨[], []⟩
      return { message with chain := message.chain ++ [cert] }
  | ⟨tag, _⟩ => if tag ∈ [1, 2, 3] then none else some message

/-- `SignedCommand::decode`. -/
def decodeSignedCommandBytes (bytes : Bytes) : Option SignedCommand := do
  let fields ← readFields varints bytes
  fields.foldlM mergeSignedCommand ⟨[], [], []⟩

/-- `SignedGrant::decode`, whose fields are those of a signed command. -/
def decodeSignedGrantBytes (bytes : Bytes) : Option SignedGrant :=
  (decodeSignedCommandBytes bytes).map fun signed =>
    ⟨signed.body, signed.signature, signed.chain⟩

/-- Take one more field of `CommandBody`. -/
def mergeCommandBody (body : CommandBody) : Field → Option CommandBody
  | ⟨1, .bytes content⟩ => some { body with sentBy := content }
  | ⟨2, .bytes content⟩ => some { body with sentTo := content }
  | ⟨3, .bytes content⟩ => do
      let scope ← fromUtf8 content
      return { body with scope }
  | ⟨4, .bytes content⟩ => some { body with nonce := content }
  | ⟨5, .number number⟩ => some { body with timeMs := number }
  | ⟨6, .bytes content⟩ => some { body with body := content }
  | ⟨7, .bytes content⟩ => some { body with answers := content }
  | ⟨tag, _⟩ => if tag ∈ [1, 2, 3, 4, 5, 6, 7] then none else some body

/-- `CommandBody::decode`. -/
def decodeCommandBodyBytes (bytes : Bytes) : Option CommandBody := do
  let fields ← readFields varints bytes
  fields.foldlM mergeCommandBody ⟨[], [], [], [], 0, [], []⟩

/-- Take one more field of `GrantBody`. -/
def mergeGrantBody (body : GrantBody) : Field → Option GrantBody
  | ⟨1, .bytes content⟩ => some { body with sentBy := content }
  | ⟨2, .bytes content⟩ => some { body with sentTo := content }
  | ⟨3, .bytes content⟩ => some { body with nonce := content }
  | ⟨4, .number number⟩ => some { body with timeMs := number }
  | ⟨5, .bytes content⟩ => some { body with channel := content }
  | ⟨6, .bytes content⟩ => some { body with keyId := content }
  | ⟨7, .bytes content⟩ => some { body with key := content }
  | ⟨8, .number number⟩ => some { body with fromCounter := number }
  | ⟨tag, _⟩ => if tag ∈ [1, 2, 3, 4, 5, 6, 7, 8] then none else some body

/-- `GrantBody::decode`. -/
def decodeGrantBodyBytes (bytes : Bytes) : Option GrantBody := do
  let fields ← readFields varints bytes
  fields.foldlM mergeGrantBody ⟨[], [], [], 0, [], [], [], 0⟩

/-- The decoders read back messages whose encoding a machine can count. -/
structure SealPrimitives.CodesMessages (primitives : SealPrimitives) : Prop where
  seals : ∀ message : Sealed, message.encode.length < 2 ^ 64 →
    primitives.decodeSealed message.encode = some message
  signedCommands : ∀ message : SignedCommand, message.encode.length < 2 ^ 64 →
    primitives.decodeSignedCommand message.encode = some message
  commandBodies : ∀ body : CommandBody, body.timeMs < 2 ^ 64 →
    body.encode.length < 2 ^ 64 → primitives.decodeCommandBody body.encode = some body
  signedGrants : ∀ message : SignedGrant, message.encode.length < 2 ^ 64 →
    primitives.decodeSignedGrant message.encode = some message
  grantBodies : ∀ body : GrantBody, body.timeMs < 2 ^ 64 → body.fromCounter < 2 ^ 64 →
    body.encode.length < 2 ^ 64 → primitives.decodeGrantBody body.encode = some body

/-! ## Reading back -/

theorem Sealed.decode_encode {message : Sealed} (small : message.encode.length < 2 ^ 64) :
    decodeSealedBytes message.encode = some message := by
  have fits := fits_of_length_lt small fun field member => by
    rcases List.mem_append.mp member with first | second
    · exact smallField_of_bytes (by decide) first
    · exact smallField_of_bytes (by decide) second
  obtain ⟨enc, ciphertext⟩ := message
  have first : (bytesField 1 enc).foldlM mergeSealed ⟨[], []⟩ = some ⟨enc, []⟩ :=
    foldlM_bytesField (by rintro rfl; rfl) rfl
  have second : (bytesField 2 ciphertext).foldlM mergeSealed ⟨enc, []⟩ =
      some ⟨enc, ciphertext⟩ :=
    foldlM_bytesField (by rintro rfl; rfl) rfl
  rw [decodeSealedBytes, Sealed.encode, readFields_writeFields fits]
  exact foldlM_append_some first second

theorem chain_merge (message : SignedCommand) (chain : List Certificate)
    (small : ∀ cert ∈ chain, cert.encode.length < 2 ^ 64) :
    (chain.map chainField).foldlM mergeSignedCommand message =
      some { message with chain := message.chain ++ chain } := by
  induction chain generalizing message with
  | nil => simp
  | cons cert rest ih =>
      have read := Certificate.readFields_encode (small cert List.mem_cons_self)
      have first : mergeSignedCommand message (chainField cert) =
          some { message with chain := message.chain ++ [cert] } := by
        simp [mergeSignedCommand, chainField, read, Certificate.fields_merge]
      rw [List.map_cons, List.foldlM_cons, first]
      simpa using ih { message with chain := message.chain ++ [cert] }
        fun other member => small other (List.mem_cons_of_mem _ member)

theorem SignedCommand.decode_encode {message : SignedCommand}
    (small : message.encode.length < 2 ^ 64) :
    decodeSignedCommandBytes message.encode = some message := by
  have fits := fits_of_length_lt small fun field member => by
    simp only [signedFields, List.mem_append, List.mem_map] at member
    rcases member with (first | second) | ⟨cert, -, rfl⟩
    · exact smallField_of_bytes (by decide) first
    · exact smallField_of_bytes (by decide) second
    · exact ⟨by simp [chainField], by simp [chainField]⟩
  have certificates : ∀ cert ∈ message.chain, cert.encode.length < 2 ^ 64 := by
    intro cert inChain
    have member : chainField cert ∈
        signedFields message.body message.signature message.chain := by
      simp only [signedFields, List.mem_append, List.mem_map]
      exact .inr ⟨cert, inChain, rfl⟩
    exact lt_of_le_of_lt (length_content_le member) small
  obtain ⟨body, signature, chain⟩ := message
  have first : (bytesField 1 body).foldlM mergeSignedCommand ⟨[], [], []⟩ =
      some ⟨body, [], []⟩ :=
    foldlM_bytesField (by rintro rfl; rfl) rfl
  have second : (bytesField 2 signature).foldlM mergeSignedCommand ⟨body, [], []⟩ =
      some ⟨body, signature, []⟩ :=
    foldlM_bytesField (by rintro rfl; rfl) rfl
  have third := chain_merge ⟨body, signature, []⟩ chain certificates
  rw [decodeSignedCommandBytes, SignedCommand.encode, readFields_writeFields fits]
  exact foldlM_append_some (foldlM_append_some first second) third

theorem SignedGrant.decode_encode {message : SignedGrant}
    (small : message.encode.length < 2 ^ 64) :
    decodeSignedGrantBytes message.encode = some message := by
  have asCommand := @SignedCommand.decode_encode
    ⟨message.body, message.signature, message.chain⟩ small
  rw [decodeSignedGrantBytes]
  exact congrArg (Option.map _) asCommand

namespace CommandBody

variable {body : CommandBody}

theorem smallField_of_mem (timed : body.timeMs < 2 ^ 64) {field : Field}
    (member : field ∈ body.fields) : SmallField field := by
  simp only [fields, List.mem_append] at member
  rcases member with (((((first | second) | third) | fourth) | fifth) | sixth) | seventh
  · exact smallField_of_bytes (by decide) first
  · exact smallField_of_bytes (by decide) second
  · exact smallField_of_bytes (by decide) third
  · exact smallField_of_bytes (by decide) fourth
  · exact smallField_of_number (by decide) timed fifth
  · exact smallField_of_bytes (by decide) sixth
  · exact smallField_of_bytes (by decide) seventh

/-- The fields of a body are merged into that body. -/
theorem fields_merge (body : CommandBody) :
    body.fields.foldlM mergeCommandBody ⟨[], [], [], [], 0, [], []⟩ = some body := by
  obtain ⟨sentBy, sentTo, scope, nonce, timeMs, content, answers⟩ := body
  have noScope (nothing : utf8Bytes scope = []) : [] = scope := by
    have := fromUtf8_utf8Bytes scope
    rw [nothing, ← utf8Bytes_nil, fromUtf8_utf8Bytes] at this
    exact Option.some.inj this
  have first : (bytesField 1 sentBy).foldlM mergeCommandBody ⟨[], [], [], [], 0, [], []⟩ =
      some ⟨sentBy, [], [], [], 0, [], []⟩ :=
    foldlM_bytesField (by rintro rfl; rfl) rfl
  have second : (bytesField 2 sentTo).foldlM mergeCommandBody
      ⟨sentBy, [], [], [], 0, [], []⟩ = some ⟨sentBy, sentTo, [], [], 0, [], []⟩ :=
    foldlM_bytesField (by rintro rfl; rfl) rfl
  have third : (bytesField 3 (utf8Bytes scope)).foldlM mergeCommandBody
      ⟨sentBy, sentTo, [], [], 0, [], []⟩ = some ⟨sentBy, sentTo, scope, [], 0, [], []⟩ :=
    foldlM_bytesField (fun nothing => by rw [← noScope nothing])
      (by simp [mergeCommandBody, fromUtf8_utf8Bytes])
  have fourth : (bytesField 4 nonce).foldlM mergeCommandBody
      ⟨sentBy, sentTo, scope, [], 0, [], []⟩ =
        some ⟨sentBy, sentTo, scope, nonce, 0, [], []⟩ :=
    foldlM_bytesField (by rintro rfl; rfl) rfl
  have fifth : (numberField 5 timeMs).foldlM mergeCommandBody
      ⟨sentBy, sentTo, scope, nonce, 0, [], []⟩ =
        some ⟨sentBy, sentTo, scope, nonce, timeMs, [], []⟩ :=
    foldlM_numberField (by rintro rfl; rfl) rfl
  have sixth : (bytesField 6 content).foldlM mergeCommandBody
      ⟨sentBy, sentTo, scope, nonce, timeMs, [], []⟩ =
        some ⟨sentBy, sentTo, scope, nonce, timeMs, content, []⟩ :=
    foldlM_bytesField (by rintro rfl; rfl) rfl
  have seventh : (bytesField 7 answers).foldlM mergeCommandBody
      ⟨sentBy, sentTo, scope, nonce, timeMs, content, []⟩ =
        some ⟨sentBy, sentTo, scope, nonce, timeMs, content, answers⟩ :=
    foldlM_bytesField (by rintro rfl; rfl) rfl
  exact foldlM_append_some (foldlM_append_some (foldlM_append_some (foldlM_append_some
    (foldlM_append_some (foldlM_append_some first second) third) fourth) fifth) sixth) seventh

theorem decode_encode (timed : body.timeMs < 2 ^ 64) (small : body.encode.length < 2 ^ 64) :
    decodeCommandBodyBytes body.encode = some body := by
  have fits := fits_of_length_lt small fun field member => smallField_of_mem timed member
  rw [decodeCommandBodyBytes, encode, readFields_writeFields fits]
  exact body.fields_merge

end CommandBody

namespace GrantBody

variable {body : GrantBody}

theorem smallField_of_mem (timed : body.timeMs < 2 ^ 64) (counted : body.fromCounter < 2 ^ 64)
    {field : Field} (member : field ∈ body.fields) : SmallField field := by
  simp only [fields, List.mem_append] at member
  rcases member with ((((((first | second) | third) | fourth) | fifth) | sixth) | seventh) |
    eighth
  · exact smallField_of_bytes (by decide) first
  · exact smallField_of_bytes (by decide) second
  · exact smallField_of_bytes (by decide) third
  · exact smallField_of_number (by decide) timed fourth
  · exact smallField_of_bytes (by decide) fifth
  · exact smallField_of_bytes (by decide) sixth
  · exact smallField_of_bytes (by decide) seventh
  · exact smallField_of_number (by decide) counted eighth

/-- The fields of a body are merged into that body. -/
theorem fields_merge (body : GrantBody) :
    body.fields.foldlM mergeGrantBody ⟨[], [], [], 0, [], [], [], 0⟩ = some body := by
  obtain ⟨sentBy, sentTo, nonce, timeMs, channel, keyId, key, fromCounter⟩ := body
  have first : (bytesField 1 sentBy).foldlM mergeGrantBody ⟨[], [], [], 0, [], [], [], 0⟩ =
      some ⟨sentBy, [], [], 0, [], [], [], 0⟩ :=
    foldlM_bytesField (by rintro rfl; rfl) rfl
  have second : (bytesField 2 sentTo).foldlM mergeGrantBody
      ⟨sentBy, [], [], 0, [], [], [], 0⟩ = some ⟨sentBy, sentTo, [], 0, [], [], [], 0⟩ :=
    foldlM_bytesField (by rintro rfl; rfl) rfl
  have third : (bytesField 3 nonce).foldlM mergeGrantBody
      ⟨sentBy, sentTo, [], 0, [], [], [], 0⟩ =
        some ⟨sentBy, sentTo, nonce, 0, [], [], [], 0⟩ :=
    foldlM_bytesField (by rintro rfl; rfl) rfl
  have fourth : (numberField 4 timeMs).foldlM mergeGrantBody
      ⟨sentBy, sentTo, nonce, 0, [], [], [], 0⟩ =
        some ⟨sentBy, sentTo, nonce, timeMs, [], [], [], 0⟩ :=
    foldlM_numberField (by rintro rfl; rfl) rfl
  have fifth : (bytesField 5 channel).foldlM mergeGrantBody
      ⟨sentBy, sentTo, nonce, timeMs, [], [], [], 0⟩ =
        some ⟨sentBy, sentTo, nonce, timeMs, channel, [], [], 0⟩ :=
    foldlM_bytesField (by rintro rfl; rfl) rfl
  have sixth : (bytesField 6 keyId).foldlM mergeGrantBody
      ⟨sentBy, sentTo, nonce, timeMs, channel, [], [], 0⟩ =
        some ⟨sentBy, sentTo, nonce, timeMs, channel, keyId, [], 0⟩ :=
    foldlM_bytesField (by rintro rfl; rfl) rfl
  have seventh : (bytesField 7 key).foldlM mergeGrantBody
      ⟨sentBy, sentTo, nonce, timeMs, channel, keyId, [], 0⟩ =
        some ⟨sentBy, sentTo, nonce, timeMs, channel, keyId, key, 0⟩ :=
    foldlM_bytesField (by rintro rfl; rfl) rfl
  have eighth : (numberField 8 fromCounter).foldlM mergeGrantBody
      ⟨sentBy, sentTo, nonce, timeMs, channel, keyId, key, 0⟩ =
        some ⟨sentBy, sentTo, nonce, timeMs, channel, keyId, key, fromCounter⟩ :=
    foldlM_numberField (by rintro rfl; rfl) rfl
  exact foldlM_append_some (foldlM_append_some (foldlM_append_some (foldlM_append_some
    (foldlM_append_some (foldlM_append_some (foldlM_append_some first second) third) fourth)
      fifth) sixth) seventh) eighth

theorem decode_encode (timed : body.timeMs < 2 ^ 64) (counted : body.fromCounter < 2 ^ 64)
    (small : body.encode.length < 2 ^ 64) : decodeGrantBodyBytes body.encode = some body := by
  have fits := fits_of_length_lt small fun field member =>
    smallField_of_mem timed counted member
  rw [decodeGrantBodyBytes, encode, readFields_writeFields fits]
  exact body.fields_merge

end GrantBody

theorem mergesMessages (primitives : SealPrimitives)
    (seals : primitives.decodeSealed = decodeSealedBytes)
    (signedCommands : primitives.decodeSignedCommand = decodeSignedCommandBytes)
    (commandBodies : primitives.decodeCommandBody = decodeCommandBodyBytes)
    (signedGrants : primitives.decodeSignedGrant = decodeSignedGrantBytes)
    (grantBodies : primitives.decodeGrantBody = decodeGrantBodyBytes) :
    primitives.CodesMessages where
  seals message small := by rw [seals, Sealed.decode_encode small]
  signedCommands message small := by rw [signedCommands, SignedCommand.decode_encode small]
  commandBodies body timed small := by rw [commandBodies, CommandBody.decode_encode timed small]
  signedGrants message small := by rw [signedGrants, SignedGrant.decode_encode small]
  grantBodies body timed counted small := by
    rw [grantBodies, GrantBody.decode_encode timed counted small]

/-! ## What is inside is shorter -/

theorem Sealed.ciphertext_le (message : Sealed) :
    message.ciphertext.length ≤ message.encode.length := by
  have := length_le_bytesField varints 2 message.ciphertext
  rw [Sealed.encode, writeFields_append, List.length_append]
  omega

theorem signedFields_body_le (body signature : Bytes) (chain : List Certificate) :
    body.length ≤ (writeFields varints (signedFields body signature chain)).length := by
  have := length_le_bytesField varints 1 body
  simp only [signedFields, writeFields_append, List.length_append]
  omega

end WindowMlHub
