import WindowMlHub.BigEndianBytes
import WindowMlHub.CertificateIssuing
import WindowMlHub.ClientConnections
import WindowMlHub.PublishedStreams
import WindowMlHub.RevocationLists

/-!
# What a signature is made over

Every signature is over a label, which says what it is for, followed by a message.
The labels end in a zero byte and have no other, so none of them starts another, and a
labelled message is read back in one way only.  The messages with fields of their own
are read back too: the transcript of a hello, whose lengths stand in four bytes, and the
header of a stream's frame with its ciphertext, whose one length stands in two.  A
signature that fits only the bytes it was made over therefore fits only the purpose and
the fields it was made for.
-/

namespace WindowMlHub

open BigEndianBytes TextFormats

/-! ## Signing and verifying -/

/-- `Identity::sign`. -/
def Identity.signLabelled (identity : Identity) (label message : Bytes) : Bytes :=
  identity.sign (label ++ message)

/-- `sign_command`. -/
def signCommand (leaf : Identity) (body : Bytes) : Bytes :=
  leaf.signLabelled commandLabel body

/-- `sign_grant`. -/
def signGrant (leaf : Identity) (body : Bytes) : Bytes :=
  leaf.signLabelled grantLabel body

/-- `sign_stream`. -/
def signStream (leaf : Identity) (signedBytes : Bytes) : Bytes :=
  leaf.signLabelled streamLabel signedBytes

/-- `sign_hello`. -/
def signHello (leaf : Identity) (transcript : Bytes) : Bytes :=
  leaf.signLabelled helloLabel transcript

/-- `verify_command`. -/
def verifyCommand (primitives : KeyPrimitives) (leafKey body signature : Bytes) : Bool :=
  primitives.verify leafKey commandLabel body signature

/-- `verify_grant`. -/
def verifyGrant (primitives : KeyPrimitives) (leafKey body signature : Bytes) : Bool :=
  primitives.verify leafKey grantLabel body signature

/-- `verify_stream`. -/
def verifyStream (primitives : KeyPrimitives) (leafKey signedBytes signature : Bytes) :
    Bool :=
  primitives.verify leafKey streamLabel signedBytes signature

/-- `verify_hello`. -/
def verifyHello (primitives : KeyPrimitives) (leafKey transcript signature : Bytes) : Bool :=
  primitives.verify leafKey helloLabel transcript signature

/-! ## Labels -/

theorem terminated_append_inj {α : Type} {separator : α} {first second rest rest' : List α}
    (notFirst : separator ∉ first) (notSecond : separator ∉ second)
    (same : first ++ separator :: rest = second ++ separator :: rest') :
    first = second ∧ rest = rest' := by
  induction first generalizing second with
  | nil =>
      cases second with
      | nil => exact ⟨rfl, (List.cons.inj same).2⟩
      | cons head tail => exact absurd ((List.cons.inj same).1 ▸ List.mem_cons_self) notSecond
  | cons head tail ih =>
      cases second with
      | nil => exact absurd ((List.cons.inj same).1 ▸ List.mem_cons_self) notFirst
      | cons head' tail' =>
          obtain ⟨rfl, tails⟩ := List.cons.inj same
          obtain ⟨rfl, rests⟩ := ih (fun member => notFirst (List.mem_cons_of_mem _ member))
            (fun member => notSecond (List.mem_cons_of_mem _ member)) tails
          exact ⟨rfl, rests⟩

/-- What a signature is for. -/
inductive Purpose
  | certificate
  | hello
  | command
  | grant
  | stream
  | revocation
  deriving DecidableEq, Repr

namespace Purpose

/-- What stands in front of a message that is signed for this. -/
def label : Purpose → Bytes
  | certificate => certLabel
  | hello => helloLabel
  | command => commandLabel
  | grant => grantLabel
  | stream => streamLabel
  | revocation => revocationLabel

/-- A label without the zero byte that ends it. -/
def name (purpose : Purpose) : Bytes :=
  purpose.label.dropLast

theorem label_eq (purpose : Purpose) : purpose.label = purpose.name ++ [0] := by
  cases purpose <;> decide +kernel

theorem zero_notMem_name (purpose : Purpose) : 0 ∉ purpose.name := by
  cases purpose <;> decide +kernel

theorem name_injective : Function.Injective name := by
  intro first second same
  cases first <;> cases second <;> first | rfl | exact absurd same (by decide +kernel)

theorem label_append_inj {first second : Purpose} {message message' : Bytes}
    (same : first.label ++ message = second.label ++ message') :
    first = second ∧ message = message' := by
  rw [label_eq, label_eq, List.append_assoc, List.append_assoc] at same
  obtain ⟨names, messages⟩ :=
    terminated_append_inj first.zero_notMem_name second.zero_notMem_name same
  exact ⟨name_injective names, messages⟩

end Purpose

/-! ## The transcript of a hello -/

/-- What a hello binds: its fields have lengths that four bytes can say, and an account
has 32 bytes. -/
@[ext]
structure HelloFields where
  hub : String
  nonce : Bytes
  principal : Bytes
  role : Role
  account : Bytes
  hub_length : (utf8Bytes hub.toList).length < 2 ^ 32
  nonce_length : nonce.length < 2 ^ 32
  principal_length : principal.length < 2 ^ 32
  account_length : account.length = 32

/-- What is signed for a hello. -/
def HelloFields.transcript (fields : HelloFields) : Bytes :=
  helloTranscript fields.hub fields.nonce fields.principal fields.role fields.account

theorem len32_append_inj {field field' rest rest' : Bytes} (short : field.length < 2 ^ 32)
    (short' : field'.length < 2 ^ 32)
    (same : len32 field ++ (field ++ rest) = len32 field' ++ (field' ++ rest')) :
    field = field' ∧ rest = rest' := by
  obtain ⟨lengths, fields⟩ := List.append_inj same (by simp [len32])
  have equalLengths := bigEndian_inj (by omega) (by omega) lengths
  exact List.append_inj fields (by omega)

theorem role_field_inj {role role' : Role}
    (same : bigEndian 4 role.toInt.toNat = bigEndian 4 role'.toInt.toNat) : role = role' := by
  have small (role : Role) : role.toInt.toNat < 256 ^ 4 := by
    cases role <;> decide
  have numbers := bigEndian_inj (small role) (small role') same
  cases role <;> cases role' <;> first | rfl | exact absurd numbers (by decide)

theorem HelloFields.transcript_injective : Function.Injective transcript := by
  intro first second same
  simp only [transcript, helloTranscript, List.append_assoc] at same
  obtain ⟨hubs, fromNonce⟩ := len32_append_inj first.hub_length second.hub_length same
  obtain ⟨nonces, fromPrincipal⟩ :=
    len32_append_inj first.nonce_length second.nonce_length fromNonce
  obtain ⟨principals, fromRole⟩ :=
    len32_append_inj first.principal_length second.principal_length fromPrincipal
  obtain ⟨roles, accounts⟩ := List.append_inj fromRole (by simp)
  exact HelloFields.ext (String.toList_injective (utf8Bytes_injective hubs)) nonces
    principals (role_field_inj roles) accounts

/-! ## A frame of a stream -/

/-- What a frame of a stream binds: the publisher and the key are named by a fixed number
of bytes, the nonce is as long as the cipher takes it, and a channel's length stands in
two bytes. -/
@[ext]
structure StreamFields where
  publisher : Bytes
  channel : Bytes
  keyId : Bytes
  counter : UInt64
  nonce : Bytes
  ciphertext : Bytes
  publisher_length : publisher.length = 32
  channel_length : channel.length ≤ 65535
  keyId_length : keyId.length = keyIdBytes
  nonce_length : nonce.length = frameNonceBytes

/-- What is signed for a frame. -/
def StreamFields.signedBytes (fields : StreamFields) : Bytes :=
  streamHeader fields.publisher fields.channel fields.keyId fields.counter fields.nonce ++
    fields.ciphertext

theorem StreamFields.signedBytes_injective : Function.Injective signedBytes := by
  intro first second same
  simp only [signedBytes, streamHeader, List.append_assoc] at same
  obtain ⟨publishers, fromLength⟩ :=
    List.append_inj same (by rw [first.publisher_length, second.publisher_length])
  obtain ⟨lengths, fromChannel⟩ := List.append_inj fromLength (by simp)
  have channelLengths : first.channel.length = second.channel.length := by
    have := bigEndian_inj (by omega) (by omega) lengths
    have := first.channel_length
    have := second.channel_length
    omega
  obtain ⟨channels, fromKeyId⟩ := List.append_inj fromChannel channelLengths
  obtain ⟨keyIds, fromCounter⟩ :=
    List.append_inj fromKeyId (by rw [first.keyId_length, second.keyId_length])
  obtain ⟨counters, fromNonce⟩ := List.append_inj fromCounter (by simp)
  obtain ⟨nonces, ciphertexts⟩ :=
    List.append_inj fromNonce (by rw [first.nonce_length, second.nonce_length])
  have fits (counter : UInt64) : counter.toNat < 256 ^ 8 := counter.toNat_lt
  exact StreamFields.ext publishers channels keyIds
    (UInt64.toNat_inj.mp (bigEndian_inj (fits _) (fits _) counters)) nonces ciphertexts

/-! ## Signatures -/

/-- An ideal signature fits no bytes but those that it was made over. -/
def KeyPrimitives.BindsBytes (primitives : KeyPrimitives) : Prop :=
  ∀ key key' bytes bytes' signature,
    primitives.verifyStrict key bytes signature = true →
      primitives.verifyStrict key' bytes' signature = true → bytes = bytes'

section Fitting

variable {primitives : KeyPrimitives} {leaf : Identity}

theorem verify_signLabelled (binds : primitives.BindsBytes) (signs : leaf.SignsFor primitives)
    (purpose purpose' : Purpose) {key message message' : Bytes}
    (verifies : primitives.verify key purpose'.label message'
      (leaf.signLabelled purpose.label message) = true) :
    purpose' = purpose ∧ message' = message :=
  Purpose.label_append_inj (binds _ _ _ _ _ verifies (signs _))

/-- **Signed bytes are unambiguous.**  The transcript of a hello determines its fields
and the signed bytes of a frame determine theirs; labelled messages for two purposes are
never the same bytes.  An ideal signature therefore verifies for no other purpose and for
no other fields than those that it was made for. -/
theorem signed_bytes_unambiguous (binds : primitives.BindsBytes)
    (signs : leaf.SignsFor primitives) :
    Function.Injective HelloFields.transcript ∧
      Function.Injective StreamFields.signedBytes ∧
      (∀ purpose purpose' : Purpose, purpose ≠ purpose' → ∀ message message',
        purpose.label ++ message ≠ purpose'.label ++ message') ∧
      (∀ (purpose purpose' : Purpose) (key message message' : Bytes),
        primitives.verify key purpose'.label message'
          (leaf.signLabelled purpose.label message) = true →
            purpose' = purpose ∧ message' = message) ∧
      (∀ (made read : HelloFields) (key : Bytes),
        verifyHello primitives key read.transcript (signHello leaf made.transcript) = true →
          read = made) ∧
      ∀ (made read : StreamFields) (key : Bytes),
        verifyStream primitives key read.signedBytes (signStream leaf made.signedBytes) =
          true → read = made := by
  refine ⟨HelloFields.transcript_injective, StreamFields.signedBytes_injective, ?_, ?_, ?_, ?_⟩
  · intro purpose purpose' differ message message' same
    exact differ (Purpose.label_append_inj same).1
  · intro purpose purpose' key message message' verifies
    exact verify_signLabelled binds signs purpose purpose' verifies
  · intro made read key verifies
    have fitting := verify_signLabelled binds signs .hello .hello verifies
    exact HelloFields.transcript_injective fitting.2
  · intro made read key verifies
    have fitting := verify_signLabelled binds signs .stream .stream verifies
    exact StreamFields.signedBytes_injective fitting.2

end Fitting

/-- Signatures that are the key and the bytes themselves. -/
def spelledSignatures : KeyPrimitives where
  decodeCertificate _ := none
  verifyStrict key bytes signature := decide (key.length = 32 ∧ signature = key ++ bytes)
  digest bytes := bytes

theorem length_zeroKey : (List.replicate 32 0 : Bytes).length = 32 :=
  List.length_replicate

/-- The holder of the key of 32 zeros. -/
def spelledSigner : Identity where
  publicKey := List.replicate 32 0
  sign bytes := List.replicate 32 0 ++ bytes
  publicKey_length := length_zeroKey

theorem spelledSignatures_binds : spelledSignatures.BindsBytes := by
  intro key key' bytes bytes' signature verifies verifies'
  obtain ⟨length, rfl⟩ := of_decide_eq_true verifies
  obtain ⟨length', same⟩ := of_decide_eq_true verifies'
  exact (List.append_inj same (length.trans length'.symm)).2

theorem spelledSigner_signs : spelledSigner.SignsFor spelledSignatures := by
  intro message
  exact decide_eq_true ⟨length_zeroKey, rfl⟩

theorem signed_bytes_unambiguous_spelled :
    verifyHello spelledSignatures (List.replicate 32 0) [1] (signHello spelledSigner [1]) =
        true ∧
      ¬ verifyCommand spelledSignatures (List.replicate 32 0) [1]
        (signHello spelledSigner [1]) = true := by
  refine ⟨by decide +kernel, ?_⟩
  intro verifies
  obtain ⟨-, -, -, purposes, -⟩ :=
    signed_bytes_unambiguous spelledSignatures_binds spelledSigner_signs
  have fitting := purposes .hello .command _ _ _ verifies
  exact absurd fitting.1 (by decide)

end WindowMlHub
