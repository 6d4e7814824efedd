import WindowMlHub.RevocationLists

/-!
# What a connector keeps between runs

`state.rs` of the connector: what a pairing gave it, the revocation list it applies as
that arrived, and whom it has seen revoking.  A restart reads them back, and verifies
the list once more, as of the version it was signed with.

The connector verified the list by its own clock when it applied it.  The two times
differ, so what was applied is read back exactly when the signer's certificate was valid
at the version too.
-/

namespace WindowMlHub

open TextFormats CheckedConditions

/-- `PairedWith`: what a pairing gives a connector. -/
structure PairedWith where
  chain : List Certificate
  accountRoot : Bytes
  channelKey : Bytes
  deriving DecidableEq, Repr

/-- How messages are written to files and read from them. -/
structure FileFormats where
  encodeList : RevocationList → Bytes
  decodeList : Bytes → Option RevocationList
  encodePaired : PairedWith → Bytes
  decodePaired : Bytes → Option PairedWith

/-- The files of a state directory that a pairing and a run write. -/
structure StateFiles where
  paired : Option Bytes := none
  revocations : Option Bytes := none
  revokers : Option Bytes := none
  deriving DecidableEq, Repr

/-- Why the state could not be read. -/
inductive StateError
  /-- `is not a revocation list` -/
  | notAList
  /-- `no longer verifies` -/
  | noLongerVerifies (error : RevocationError)
  /-- `is not what a connector wrote` -/
  | garbled
  /-- `is not what a pairing wrote` -/
  | notPairing
  deriving DecidableEq, Repr

/-- The order of a `BTreeSet` of principals. -/
def Bytes32.Le (left right : Bytes32) : Prop :=
  left.val.map UInt8.toNat ≤ right.val.map UInt8.toNat

namespace Bytes32

instance : DecidableRel Le := fun left right =>
  inferInstanceAs (Decidable (left.val.map UInt8.toNat ≤ right.val.map UInt8.toNat))

instance : IsTrans Bytes32 Le := ⟨fun _ _ _ => le_trans⟩

instance : Std.Total Le := ⟨fun _ _ => le_total _ _⟩

instance : Std.Antisymm Le where
  antisymm left right below above := by
    have injective : Function.Injective UInt8.toNat := fun _ _ => UInt8.toNat.inj
    exact Subtype.ext (List.map_injective_iff.mpr injective (le_antisymm below above))

end Bytes32

/-- `unhex`: 32 bytes from 64 hexadecimal digits. -/
def unhex32 (text : Text) : Option Bytes32 :=
  if utf8Length text = 64 then (unhexPairs text).bind Bytes32.ofBytes? else none

/-- What is before the time in the first line of the revokers. -/
def armedPrefix : Text := "armed ".toList

/-- The lines that `write_revokers` writes. -/
def revokersLines (revocations : Revocations) : List Text :=
  (revocations.armedAt.toList.map fun ms => armedPrefix ++ decimal ms.toNat) ++
    (revocations.revokers.sort Bytes32.Le).map fun principal => hex principal.val

/-- What `write_revokers` writes. -/
def revokersText (revocations : Revocations) : Text :=
  (revokersLines revocations).flatMap fun line => line ++ ['\n']

/-- One line of the revokers, read after the lines before it. -/
def readRevokersLine (known : Finset Bytes32 × Option UInt64) (line : Text) :
    Except StateError (Finset Bytes32 × Option UInt64) :=
  match stripPrefix armedPrefix line with
  | some ms => do
      let ms ← require (parseUnsigned (2 ^ 64 - 1) ms) .garbled
      return (known.1, some (.ofNat ms))
  | none => do
      let principal ← require (unhex32 line) .garbled
      return (insert principal known.1, known.2)

/-- The part of `revocations` that reads the revokers. -/
def readRevokers (bytes : Bytes) : Except StateError (Finset Bytes32 × Option UInt64) := do
  let text ← require (fromUtf8 bytes) .garbled
  let written := ((lines text).map trim).filter (· ≠ [])
  written.foldlM readRevokersLine (∅, none)

namespace StateFiles

variable (primitives : RevocationPrimitives) (formats : FileFormats)

/-- The part of `revocations` that reads the list, which is verified again. -/
def readList (root : Bytes) (bytes : Bytes) : Except StateError Revoked := do
  let list ← require (formats.decodeList bytes) .notAList
  let body ← require (primitives.decodeRevocation list.body) .notAList
  (verifyRevocations primitives root list body.version none).mapError .noLongerVerifies

/-- `revocations`: what this connector knew when it last ran. -/
def loadRevocations (files : StateFiles) (root : Bytes) :
    Except StateError Revocations := do
  let held ← files.revocations.mapM (readList primitives formats root)
  let known ← files.revokers.mapM readRevokers
  let (revokers, armedAt) := known.getD (∅, none)
  return { root, held, revokers, armedAt }

/-- `write_revocation_list`. -/
def writeRevocationList (files : StateFiles) (list : RevocationList) : StateFiles :=
  { files with revocations := some (formats.encodeList list) }

/-- `write_revokers`. -/
def writeRevokers (files : StateFiles) (revocations : Revocations) : StateFiles :=
  { files with revokers := some (utf8Bytes (revokersText revocations)) }

/-- `paired`. -/
def loadPaired (files : StateFiles) : Except StateError (Option PairedWith) :=
  files.paired.mapM fun bytes => require (formats.decodePaired bytes) .notPairing

/-- `write_paired`. -/
def writePaired (files : StateFiles) (paired : PairedWith) : StateFiles :=
  { files with paired := some (formats.encodePaired paired) }

end StateFiles

/-! ## Reading back the revokers -/

theorem trim_of_ends {first last : Char} (begins : Solid first) (ends : Solid last)
    (middle : Text) : trim (first :: (middle ++ [last])) = first :: (middle ++ [last]) := by
  have notBlank : ¬ isWhitespace first = true := by
    rw [begins]
    exact Bool.false_ne_true
  have notBlankLast : ¬ isWhitespace last = true := by
    rw [ends]
    exact Bool.false_ne_true
  rw [trim, List.dropWhile_cons_of_neg notBlank, ← List.cons_append,
    List.rdropWhile_concat_neg _ _ _ notBlankLast]

theorem trim_armed (n : Nat) :
    trim (armedPrefix ++ decimal n) = armedPrefix ++ decimal n := by
  have nonempty : decimal n ≠ [] := Nat.toDigits_ne_nil
  have split := List.dropLast_append_getLast nonempty
  have ends : Solid ((decimal n).getLast nonempty) :=
    solid_of_isDigit (isDigit_of_mem_decimal (List.getLast_mem nonempty))
  have whole := trim_of_ends (rfl : isWhitespace 'a' = false) ends
    ("rmed ".toList ++ (decimal n).dropLast)
  rw [List.append_assoc, split] at whole
  exact whole

theorem not_prefix_hex (bytes : Bytes) : stripPrefix armedPrefix (hex bytes) = none := by
  have noLetter : 'r' ∉ hex bytes := fun member =>
    @forall_mem_hex (· ≠ 'r') bytes (by decide) 'r' member rfl
  refine if_neg fun begins => noLetter (begins.subset ?_)
  decide

theorem unhex32_hex (principal : Bytes32) : unhex32 (hex principal.val) = some principal := by
  have wide : utf8Length (hex principal.val) = 64 := by
    rw [utf8Length_hex, principal.property]
  rw [unhex32, if_pos wide, unhexPairs_hex]
  simp [Bytes32.ofBytes?, principal.property]

theorem readRevokersLine_armed (known : Finset Bytes32 × Option UInt64) (ms : UInt64) :
    readRevokersLine known (armedPrefix ++ decimal ms.toNat) = .ok (known.1, some ms) := by
  have fits : ms.toNat ≤ 2 ^ 64 - 1 := Nat.le_sub_one_of_lt ms.toNat_lt
  rw [readRevokersLine, stripPrefix_append]
  simp only [parseUnsigned_decimal fits, require]
  simp [bind, Except.bind, pure, Except.pure]

theorem readRevokersLine_principal (known : Finset Bytes32 × Option UInt64)
    (principal : Bytes32) :
    readRevokersLine known (hex principal.val) =
      .ok (insert principal known.1, known.2) := by
  rw [readRevokersLine, not_prefix_hex, unhex32_hex]
  rfl

theorem foldlM_principals (principals : List Bytes32)
    (known : Finset Bytes32 × Option UInt64) :
    (principals.map fun principal => hex principal.val).foldlM readRevokersLine known =
      .ok (known.1 ∪ principals.toFinset, known.2) := by
  induction principals generalizing known with
  | nil => simp [pure, Except.pure]
  | cons principal rest ih =>
      rw [List.map_cons, List.foldlM_cons, readRevokersLine_principal]
      change (rest.map fun principal => hex principal.val).foldlM readRevokersLine _ = _
      rw [ih, List.toFinset_cons, Finset.insert_union, Finset.union_insert]

/-- The lines are lines, and are not trimmed. -/
theorem revokersLines_plain (revocations : Revocations) :
    ∀ line ∈ revokersLines revocations,
      ('\n' ∉ line ∧ '\r' ∉ line) ∧ trim line = line ∧ line ≠ [] := by
  intro line member
  rcases List.mem_append.mp member with armed | principal
  · obtain ⟨ms, -, rfl⟩ := List.mem_map.mp armed
    have digits (c : Char) (inside : c ∈ armedPrefix ++ decimal ms.toNat) :
        c ∈ armedPrefix ∨ c.isDigit = true :=
      (List.mem_append.mp inside).imp_right isDigit_of_mem_decimal
    refine ⟨⟨fun inside => ?_, fun inside => ?_⟩, trim_armed _, by simp [armedPrefix]⟩
    · exact absurd (digits _ inside) (by decide)
    · exact absurd (digits _ inside) (by decide)
  · obtain ⟨bytes, -, rfl⟩ := List.mem_map.mp principal
    have nonempty : hex bytes.val ≠ [] := by
      intro empty
      have wide := utf8Length_hex bytes.val
      rw [empty, bytes.property] at wide
      exact absurd wide (by decide)
    refine ⟨⟨fun inside => ?_, fun inside => ?_⟩, trim_hex _, nonempty⟩
    · exact @forall_mem_hex (· ≠ '\n') bytes.val (by decide) _ inside rfl
    · exact @forall_mem_hex (· ≠ '\r') bytes.val (by decide) _ inside rfl

/-- Whom a connector saw, and since when the floor is armed, is read back. -/
theorem readRevokers_written (revocations : Revocations) :
    readRevokers (utf8Bytes (revokersText revocations)) =
      .ok (revocations.revokers, revocations.armedAt) := by
  have plain := revokersLines_plain revocations
  have split : lines (revokersText revocations) = revokersLines revocations :=
    lines_flatMap fun line member => (plain line member).1
  have trimmed : (revokersLines revocations).map trim = revokersLines revocations :=
    (List.map_congr_left fun line member => (plain line member).2.1).trans (List.map_id _)
  have kept : (revokersLines revocations).filter (· ≠ []) = revokersLines revocations :=
    List.filter_eq_self.mpr fun line member => decide_eq_true (plain line member).2.2
  have principals (known : Option UInt64) :
      ((revocations.revokers.sort Bytes32.Le).map fun principal =>
          hex principal.val).foldlM readRevokersLine (∅, known) =
        .ok (revocations.revokers, known) := by
    rw [foldlM_principals, Finset.sort_toFinset, Finset.empty_union]
  simp only [readRevokers, fromUtf8_utf8Bytes, require]
  change (((lines (revokersText revocations)).map trim).filter (· ≠ [])).foldlM
    readRevokersLine (∅, none) = _
  rw [split, trimmed, kept, revokersLines, List.foldlM_append]
  cases revocations.armedAt with
  | none => exact principals none
  | some ms =>
      simp only [Option.toList_some, List.map_cons, List.map_nil, List.foldlM_cons,
        List.foldlM_nil, readRevokersLine_armed]
      exact principals (some ms)

/-! ## Reading back what was applied -/

/-- The signer's chain was valid at the time that the list was signed with. -/
def SignedInWindow (primitives : RevocationPrimitives) (list : RevocationList) : Prop :=
  ∀ body, primitives.decodeRevocation list.body = some body →
    ChainInWindow primitives.toKeyPrimitives list.chain body.version.toNat

section Restarting

variable {primitives : RevocationPrimitives} {formats : FileFormats} {root : Bytes}
  {list : RevocationList} {nowMs : UInt64} {held : Option Revoked} {revoked other : Revoked}

theorem readList_written
    (readsBack : formats.decodeList (formats.encodeList list) = some list)
    (accepted : verifyRevocations primitives root list nowMs held = .ok revoked) :
    StateFiles.readList primitives formats root (formats.encodeList list) = .ok other ↔
      other = revoked ∧ SignedInWindow primitives list := by
  obtain ⟨body, decodes⟩ : ∃ body, primitives.decodeRevocation list.body = some body := by
    simp only [verifyRevocations, bind_eq_ok, require_eq_ok] at accepted
    obtain ⟨-, -, body, decodes, -⟩ := accepted
    exact ⟨body, decodes⟩
  have signed : SignedInWindow primitives list ↔
      ChainInWindow primitives.toKeyPrimitives list.chain revoked.version.toNat := by
    simp [SignedInWindow, decodes, version_eq accepted decodes]
  simp only [StateFiles.readList, bind_eq_ok, require_eq_ok, readsBack, decodes,
    mapError_eq_ok, Option.some.injEq, exists_eq_left', ← version_eq accepted decodes]
  rw [verifyRevocations_again accepted, signed]

theorem loadRevocations_written (files : StateFiles) (after result : Revocations) :
    ((files.writeRevocationList formats list).writeRevokers after).loadRevocations
        primitives formats root = .ok result ↔
      ∃ held, StateFiles.readList primitives formats root (formats.encodeList list) =
          .ok held ∧
        result = { root, held := some held, revokers := after.revokers
                   armedAt := after.armedAt } := by
  simp only [StateFiles.loadRevocations, StateFiles.writeRevocationList,
    StateFiles.writeRevokers, Option.mapM_some, readRevokers_written]
  cases StateFiles.readList primitives formats root (formats.encodeList list) with
  | error refusal => simp [Functor.map, Except.map, bind, Except.bind]
  | ok found =>
      simp [Functor.map, Except.map, bind, Except.bind, pure, Except.pure, eq_comm]

end Restarting

/-- What was revoked when a connector stopped.  For every list that a connector applies,
whatever it knew and whatever its clock said: once the list and the revokers are written
down, a later start reads back the same state, exactly if the certificates of the list's
signer were valid at the list's version. -/
theorem restart_keeps_revocations_iff (primitives : RevocationPrimitives)
    (formats : FileFormats) (files : StateFiles) (prior after : Revocations)
    (list : RevocationList) (nowMs : UInt64) (rotate : Bool)
    (readsBack : formats.decodeList (formats.encodeList list) = some list)
    (applied : prior.apply primitives list nowMs = .ok (after, rotate)) :
    ((files.writeRevocationList formats list).writeRevokers after).loadRevocations
        primitives formats prior.root = .ok after ↔
      SignedInWindow primitives list := by
  simp only [Revocations.apply, bind_eq_ok, pure_eq_ok_iff, Prod.mk.injEq] at applied
  obtain ⟨revoked, accepted, rfl, -⟩ := applied
  rw [loadRevocations_written]
  simp only [readList_written readsBack accepted]
  constructor
  · rintro ⟨held, ⟨-, signed⟩, -⟩
    exact signed
  · exact fun signed => ⟨revoked, ⟨rfl, signed⟩, rfl⟩

/-- A certificate that the root `[1, …]` gave a revoker, valid from 1000 to 2000. -/
def revokerBody : CertificateBody where
  subject := List.replicate 32 2
  agreementKey := List.replicate 32 3
  issuer := List.replicate 32 1
  role := 1
  scopes := []
  mayPair := false
  mayRevoke := true
  notBeforeMs := 1000
  notAfterMs := 2000
  label := []
  renews := none

/-- Every signature verifies; the empty certificate is the revoker's; a list of one byte
`n` is an empty list of version `100 * n`. -/
def plainPrimitives : RevocationPrimitives where
  decodeCertificate bytes := if bytes = [] then some revokerBody else none
  verifyStrict _ _ _ := true
  digest bytes := (bytes ++ List.replicate 32 0).take 32
  decodeRevocation
    | [n] => some ⟨List.replicate 32 1, 100 * n.toUInt64, [], []⟩
    | _ => none
  digest_length := by simp

/-- A list of the revoker's, by the byte of its version. -/
def plainList (n : UInt8) : RevocationList :=
  ⟨[n], [], [⟨[], []⟩]⟩

/-- A list is written as its body. -/
def plainFormats : FileFormats where
  encodeList list := list.body
  decodeList bytes := some ⟨bytes, [], [⟨[], []⟩]⟩
  encodePaired paired := paired.accountRoot
  decodePaired bytes := some ⟨[], bytes, []⟩

theorem restart_keeps_revocations_iff_signed :
    ∃ after, Revocations.apply plainPrimitives { root := List.replicate 32 1 } (plainList 15)
        1600 = .ok (after, false) ∧
      ((({} : StateFiles).writeRevocationList plainFormats (plainList 15)).writeRevokers
          after).loadRevocations plainPrimitives plainFormats (List.replicate 32 1) =
        .ok after := by
  refine ⟨_, rfl, ?_⟩
  refine (restart_keeps_revocations_iff plainPrimitives plainFormats {}
    { root := List.replicate 32 1 } _ (plainList 15) 1600 false rfl rfl).mpr ?_
  rintro body ⟨⟩ cert member found decoded
  obtain rfl := List.mem_singleton.mp member
  obtain rfl : revokerBody = found := Except.ok.inj decoded
  decide

/-- The revoker's clock was behind the root's when it signed: what a connector applied
is refused when it starts again. -/
theorem restart_refuses_applied :
    ∃ after, Revocations.apply plainPrimitives { root := List.replicate 32 1 } (plainList 5)
        1000 = .ok (after, false) ∧
      ((({} : StateFiles).writeRevocationList plainFormats (plainList 5)).writeRevokers
          after).loadRevocations plainPrimitives plainFormats (List.replicate 32 1) =
        .error (.noLongerVerifies (.chain .expired)) :=
  ⟨_, rfl, by rfl⟩

end WindowMlHub
