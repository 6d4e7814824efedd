import WindowMlHub.CertificateEncoding
import WindowMlHub.StreamReaders

/-!
# Stream frames on the wire

How the generated encoder writes a stream frame, from `seal.proto`, and a decoder that
merges one field after another.  A frame that can be counted is read back.
-/

namespace WindowMlHub

open ProtobufFields

/-- The fields of `StreamFrame`. -/
def StreamFrame.fields (frame : StreamFrame) : List Field :=
  bytesField 1 frame.keyId ++ numberField 2 frame.counter.toNat ++ bytesField 3 frame.nonce ++
    bytesField 4 frame.ciphertext ++ bytesField 5 frame.signature

/-- `encode_to_vec` of a stream frame. -/
def StreamFrame.encode (frame : StreamFrame) : Bytes :=
  writeFields varints frame.fields

/-- Take one more field of `StreamFrame`. -/
def mergeStreamFrame (frame : StreamFrame) : Field → Option StreamFrame
  | ⟨1, .bytes content⟩ => some { frame with keyId := content }
  | ⟨2, .number number⟩ => some { frame with counter := UInt64.ofNat number }
  | ⟨3, .bytes content⟩ => some { frame with nonce := content }
  | ⟨4, .bytes content⟩ => some { frame with ciphertext := content }
  | ⟨5, .bytes content⟩ => some { frame with signature := content }
  | ⟨tag, _⟩ => if tag ∈ [1, 2, 3, 4, 5] then none else some frame

/-- `StreamFrame::decode`. -/
def decodeStreamFrameBytes (bytes : Bytes) : Option StreamFrame := do
  let fields ← readFields varints bytes
  fields.foldlM mergeStreamFrame ⟨[], 0, [], [], []⟩

/-- The decoder reads back a frame whose encoding a machine can count. -/
def StreamPrimitives.CodesStreamFrames (primitives : StreamPrimitives) : Prop :=
  ∀ frame, (primitives.encodeStreamFrame frame).length < 2 ^ 64 →
    primitives.decodeStreamFrame (primitives.encodeStreamFrame frame) = some frame

namespace StreamFrame

variable {frame : StreamFrame}

theorem smallField_of_mem {field : Field} (member : field ∈ frame.fields) :
    SmallField field := by
  simp only [fields, List.mem_append] at member
  rcases member with (((first | second) | third) | fourth) | fifth
  · exact smallField_of_bytes (by decide) first
  · exact smallField_of_number (by decide) frame.counter.toNat_lt second
  · exact smallField_of_bytes (by decide) third
  · exact smallField_of_bytes (by decide) fourth
  · exact smallField_of_bytes (by decide) fifth

/-- The fields of a frame are merged into that frame. -/
theorem fields_merge (frame : StreamFrame) :
    frame.fields.foldlM mergeStreamFrame ⟨[], 0, [], [], []⟩ = some frame := by
  obtain ⟨keyId, counter, nonce, ciphertext, signature⟩ := frame
  have first : (bytesField 1 keyId).foldlM mergeStreamFrame ⟨[], 0, [], [], []⟩ =
      some ⟨keyId, 0, [], [], []⟩ :=
    foldlM_bytesField (by rintro rfl; rfl) rfl
  have second : (numberField 2 counter.toNat).foldlM mergeStreamFrame
      ⟨keyId, 0, [], [], []⟩ = some ⟨keyId, counter, [], [], []⟩ :=
    foldlM_numberField
      (fun nothing => by rw [UInt64.toNat_inj.mp (nothing.trans UInt64.toNat_zero.symm)])
      (by simp [mergeStreamFrame])
  have third : (bytesField 3 nonce).foldlM mergeStreamFrame ⟨keyId, counter, [], [], []⟩ =
      some ⟨keyId, counter, nonce, [], []⟩ :=
    foldlM_bytesField (by rintro rfl; rfl) rfl
  have fourth : (bytesField 4 ciphertext).foldlM mergeStreamFrame
      ⟨keyId, counter, nonce, [], []⟩ = some ⟨keyId, counter, nonce, ciphertext, []⟩ :=
    foldlM_bytesField (by rintro rfl; rfl) rfl
  have fifth : (bytesField 5 signature).foldlM mergeStreamFrame
      ⟨keyId, counter, nonce, ciphertext, []⟩ =
        some ⟨keyId, counter, nonce, ciphertext, signature⟩ :=
    foldlM_bytesField (by rintro rfl; rfl) rfl
  exact foldlM_append_some (foldlM_append_some (foldlM_append_some
    (foldlM_append_some first second) third) fourth) fifth

theorem decode_encode (small : frame.encode.length < 2 ^ 64) :
    decodeStreamFrameBytes frame.encode = some frame := by
  have fits := fits_of_length_lt small fun field member => smallField_of_mem member
  rw [decodeStreamFrameBytes, encode, readFields_writeFields fits]
  exact frame.fields_merge

end StreamFrame

theorem mergesStreamFrames (primitives : StreamPrimitives)
    (encodes : primitives.encodeStreamFrame = StreamFrame.encode)
    (decodes : primitives.decodeStreamFrame = decodeStreamFrameBytes) :
    primitives.CodesStreamFrames := by
  intro frame small
  rw [encodes] at small ⊢
  rw [decodes, StreamFrame.decode_encode small]

/-- The encoders of the wire, signatures that are the key twice, a hash that keeps what its
argument ends with, and a cipher that puts the key in front. -/
def restartPrimitives : StreamPrimitives where
  decodeCertificate := decodeCertificateBody
  verifyStrict key _ signature := decide (key.length = 32 ∧ signature = key ++ key)
  digest bytes := (bytes.reverse ++ List.replicate 32 0).take 32
  decodeSealed _ := none
  decodeSignedCommand _ := none
  decodeCommandBody _ := none
  decodeSignedGrant _ := none
  decodeGrantBody _ := none
  isEncappedKey _ := true
  singleShotOpen _ _ _ ciphertext := some ciphertext
  encodeStreamFrame := StreamFrame.encode
  decodeStreamFrame := decodeStreamFrameBytes
  encrypt key _ _ batch := if key.length = 32 then some (key ++ batch) else none
  decrypt key _ _ ciphertext :=
    if key.length = 32 ∧ ciphertext.take 32 = key then some (ciphertext.drop 32) else none
  digest_length bytes := by simp

theorem restartPrimitives_ideal : restartPrimitives.IdealAead :=
  ⟨lonePrimitives_ideal.opens, lonePrimitives_ideal.only⟩

theorem restartPrimitives_codes : restartPrimitives.CodesStreamFrames :=
  mergesStreamFrames restartPrimitives rfl rfl

end WindowMlHub
