import WindowMlHub.ConnectorFiles
import WindowMlHub.KeyCoverage
import WindowMlHub.PairingExchanges
import WindowMlHub.ResumePoints
import WindowMlHub.SealedRoundTrips

/-!
# A connector on its hub connection

`serve.rs` of the connector: it publishes what its box says, grants its stream key to the
devices that ask for it, follows the revokers that it sees and applies the lists that they
publish.  A list that names somebody new replaces the key.

A list may name fewer than the one before, and then the key stays: whoever was granted it
was named by none of the lists held since.  So nobody that the list names holds the current
key from this connector.
-/

namespace WindowMlHub

open CheckedConditions TextFormats

/-- What a connector uses: the primitives of sealed messages, the decoder of revocation
bodies and the keyed hash that names channels. -/
structure ServingPrimitives extends HpkePrimitives where
  decodeRevocation : Bytes → Option RevocationBody
  hmac : Bytes → Bytes → Bytes

/-- Those of them that lists are verified with. -/
def ServingPrimitives.lists (primitives : ServingPrimitives) : RevocationPrimitives where
  toKeyPrimitives := primitives.toKeyPrimitives
  decodeRevocation := primitives.decodeRevocation
  digest_length := primitives.digest_length

/-- `CHANNEL_LABEL`. -/
def channelLabel : Bytes :=
  asciiBytes "wmlhub/channel/v1\x00".toList

/-- `CHANNEL_BYTES`. -/
def channelBytes : Nat := 16

/-- `REVOCATIONS_PURPOSE`. -/
def revocationsPurpose : Text := "revocations".toList

/-- `GRANT_COMMAND`, as bytes. -/
def grantCommand : Bytes :=
  asciiBytes "box.grant".toList

/-- `scope::VIEW`. -/
def viewScope : Text := "view".toList

/-- `ChannelKey::channel`. -/
def channelOf (primitives : ServingPrimitives) (channelKey : Bytes) (purpose : Text)
    (what : Bytes) : Bytes :=
  (primitives.hmac channelKey (channelLabel ++ utf8Bytes purpose ++ [0] ++ what)).take
    channelBytes

/-- What a client could not send. -/
inductive SendError
  | sealing (error : MessageSealError)
  | transport
  deriving DecidableEq, Repr

/-- `ServeError`: why publishing stopped. -/
inductive ServeError
  /-- the hub connection failed -/
  | hub (error : SendError)
  /-- the hub refused something -/
  | refused (notice : ErrorNotice)
  /-- `Publish`: a frame could not be sealed -/
  | unsealed (error : StreamSealError)
  /-- `Publish`: the key could not be wrapped -/
  | unwrapped (error : MessageSealError)
  /-- `Publish`: a frame could not be published -/
  | unpublished
  | boxGone
  /-- who is revoked could not be written down, or no key be drawn -/
  | state
  deriving DecidableEq, Repr

/-- `Refused`: why a command was not answered with a grant. -/
inductive NotGranted
  | notTheCommand
  | wrongScope
  | noAgreementKey
  deriving DecidableEq, Repr

/-- `Served`, as far as it counts commands and lists. -/
structure ServedCommands where
  granted : Nat := 0
  refused : Nat := 0
  revoked : Nat := 0
  lists : Nat := 0
  rotations : Nat := 0
  deriving DecidableEq, Repr

/-- `Serving`, with its chain, what it knows of revocations, and the files that it has
written. -/
structure BoxServing where
  publishing : Serving
  chain : List Certificate
  channelKey : Bytes
  revocations : Revocations
  files : StateFiles := {}
  counts : ServedCommands := {}

/-- The key that frames are sealed under now. -/
def BoxServing.key (serving : BoxServing) : Bytes :=
  serving.publishing.relay.key

/-- What a call finds: the clock, and that of the client; the nonces and the randomness of
the messages that it seals; which of the frames and which of the files that it writes are
written; and the key that is drawn, if one can be. -/
structure Circumstances where
  nowMs : UInt64
  clientMs : UInt64
  drawn : Nat → Bytes × Bytes
  sends : Nat → Bool
  writes : Nat → Bool
  freshKey : Option Bytes

/-- What a call did that is not seen in the state alone. -/
inductive Deed
  /-- a wrapped key went to whoever asked -/
  | grant (asked : Opened) (key wrapped : Bytes)
  /-- a refusal went to whoever asked -/
  | told (asked : Opened) (why : NotNow) (sealed : Bytes)
  | subscribe (revoker channel : Bytes)
  | accepted (revoked : Revoked)
  | rotated (key : Bytes)

/-- What a connector waits for: a frame of its box, or what the hub has to say. -/
inductive Awaited
  | frame (handed : Option Handover)
  | hub (event : Except SendError ClientEvent)

/-- `is_grant`. -/
def isGrant (asked : Opened) : Bool :=
  decide (asked.body = grantCommand ∧ asked.scope = viewScope)

/-- `refusal`. -/
def refusalText : NotNow → Bytes
  | .revoked => asciiBytes "revoked".toList
  | .stale sinceMs => asciiBytes ("stale ".toList ++ decimal sinceMs.toNat)

namespace BoxServing

variable (primitives : ServingPrimitives) (formats : FileFormats)

/-- Who grants are from. -/
def publisher (serving : BoxServing) : Sender where
  identity := serving.publishing.relay.publisher
  chain := serving.chain

/-- `wrap_for`. -/
def wrapFor (serving : BoxServing) (asked : Opened) (now : Circumstances) :
    Except MessageSealError (Except NotGranted (Bytes × Bytes)) :=
  if asked.body ≠ grantCommand then
    .ok (.error .notTheCommand)
  else if asked.scope ≠ viewScope then
    .ok (.error .wrongScope)
  else if asked.leaf.agreementKey.length ≠ 32 then
    .ok (.error .noAgreementKey)
  else do
    let relay := serving.publishing.relay
    let target : Recipient := ⟨asked.sentBy, asked.leaf.agreementKey⟩
    let edge ← wrapKey primitives.toHpkePrimitives serving.publisher target
      relay.channels.edge relay.key relay.keyFrom.edge now.nowMs.toNat
        (now.drawn 0).1 (now.drawn 0).2
    let sample ← wrapKey primitives.toHpkePrimitives serving.publisher target
      relay.channels.sample relay.key relay.keyFrom.sample now.nowMs.toNat
        (now.drawn 1).1 (now.drawn 1).2
    return .ok (edge, sample)

/-- `revocations_channel`. -/
def revocationsChannel (serving : BoxServing) (revoker : Bytes32) : Bytes :=
  channelOf primitives serving.channelKey revocationsPurpose revoker.val

/-- `follow`: the frame with this number is the one it sends. -/
def follow (serving : BoxServing) (revoker : Bytes32) (now : Circumstances)
    (number : Nat) : Except ServeError Deed := do
  ensure (now.sends number) (.hub .transport)
  return .subscribe revoker.val (serving.revocationsChannel primitives revoker)

/-- `publish`, of a frame that the box handed over.  Whatever it was, `Serving::publish`
says what is kept; only what went wrong is told apart here. -/
def publish (serving : BoxServing) (given : Handover) :
    Except ServeError (BoxServing × List Deed) :=
  let after := { serving with publishing := (serving.publishing.publish
    primitives.toStreamPrimitives given).1 }
  if frameHash given.frame ∈ serving.publishing.seenSet then
    .ok (after, [])
  else
    match serving.publishing.relay.frame primitives.toStreamPrimitives given.nonce
        given.frame with
    | (_, .consumed) => .ok (after, [])
    | (_, .unsealed error) => .error (.unsealed error)
    | (_, .publishes _ _ _ _) =>
        if given.accepted then .ok (after, []) else .error .unpublished

/-- The arm of `event` for a command that is refused for a revocation's sake. -/
def refuse (serving : BoxServing) (asked : Opened) (why : NotNow) (now : Circumstances) :
    Except ServeError (BoxServing × List Deed) := do
  let after := { serving with counts.revoked := serving.counts.revoked + 1 }
  if asked.leaf.agreementKey.length = 32 then
    let sealed ← (sealResult primitives.toHpkePrimitives serving.publisher
      ⟨asked.sentBy, asked.leaf.agreementKey⟩ asked.nonce (refusalText why)
        now.clientMs.toNat (now.drawn 0).1 (now.drawn 0).2).mapError fun error =>
          .hub (.sealing error)
    ensure (now.sends 0) (.hub .transport)
    return (after, [.told asked why sealed])
  else
    return (after, [])

/-- The arm of `event` for a command. -/
def command (serving : BoxServing) (asked : Opened) (now : Circumstances) :
    Except ServeError (BoxServing × List Deed) :=
  match isGrant asked, serving.revocations.mayGrant primitives.lists asked.chain now.nowMs with
  | true, .error why => serving.refuse primitives asked why now
  | _, _ =>
      match serving.wrapFor primitives asked now with
      | .error error => .error (.unwrapped error)
      | .ok (.error _) =>
          .ok ({ serving with counts.refused := serving.counts.refused + 1 }, [])
      | .ok (.ok (edge, sample)) => do
          ensure (now.sends 0) (.hub .transport)
          ensure (now.sends 1) (.hub .transport)
          return ({ serving with counts.granted := serving.counts.granted + 1 },
            [.grant asked serving.key edge, .grant asked serving.key sample])

/-- `presence`. -/
def presence (serving : BoxServing) (seen : Presence) (now : Circumstances) :
    Except ServeError (BoxServing × List Deed) :=
  if seen.online = false ∨ seen.chain = [] then
    .ok (serving, [])
  else
    match verifyChain primitives.toKeyPrimitives serving.revocations.root seen.chain
        now.nowMs.toNat with
    | .error _ => .ok (serving, [])
    | .ok verified =>
        if verified.leaf.mayRevoke = false ∨ seen.principal ≠ verified.principal then
          .ok (serving, [])
        else
          -- the principal of the chain is the hash of its leaf's key
          let revoker := primitives.lists.digest32 verified.leafKey
          let (revocations, isNew) := serving.revocations.sawRevoker revoker now.nowMs
          let after := { serving with revocations }
          if isNew then do
            ensure (now.writes 0) .state
            let after := { after with files := after.files.writeRevokers revocations }
            let followed ← after.follow primitives revoker now 0
            return (after, [followed])
          else
            .ok (after, [])

/-- What `list` does with a list that was applied. -/
def keep (serving : BoxServing) (list : RevocationList) (revocations : Revocations)
    (rotate : Bool) (now : Circumstances) : Except ServeError (BoxServing × List Deed) := do
  ensure (now.writes 0) .state
  ensure (now.writes 1) .state
  let after := { serving with
    revocations := revocations
    files := (serving.files.writeRevocationList formats list).writeRevokers revocations
    counts.lists := serving.counts.lists + 1 }
  if rotate then
    let key ← require now.freshKey .state
    let relay := after.publishing.relay.rotate key
    return ({ after with
        publishing := { after.publishing with relay }
        counts.rotations := after.counts.rotations + 1 },
      revocations.held.toList.map .accepted ++ [.rotated key])
  else
    return (after, revocations.held.toList.map .accepted)

/-- `list`. -/
def list (serving : BoxServing) (stream : StreamRef) (payload : Bytes)
    (now : Circumstances) : Except ServeError (BoxServing × List Deed) :=
  match Bytes32.ofBytes? stream.publisher with
  | none => .ok (serving, [])
  | some publisher =>
      if publisher ∉ serving.revocations.revokers ∨
          stream.channel ≠ serving.revocationsChannel primitives publisher then
        .ok (serving, [])
      else
        match formats.decodeList payload with
        | none => .ok (serving, [])
        | some list =>
            match serving.revocations.apply primitives.lists list now.nowMs with
            | .error _ => .ok (serving, [])
            | .ok (revocations, rotate) =>
                serving.keep formats list revocations rotate now

/-- `event`. -/
def event (serving : BoxServing) (now : Circumstances) :
    ClientEvent → Except ServeError (BoxServing × List Deed)
  | .command asked => serving.command primitives asked now
  | .error notice =>
      if notice.code = Code.throttled.toInt then .ok (serving, [])
      else .error (.refused notice)
  | .presence seen => serving.presence primitives seen now
  | .published stream _ _ _ _ payload => serving.list primitives formats stream payload now
  | _ => .ok (serving, [])

/-- One turn of the loop of `run`. -/
def turn (serving : BoxServing) (now : Circumstances) :
    Awaited → Except ServeError (BoxServing × List Deed)
  | .frame (some given) => serving.publish primitives given
  | .frame none => .error .boxGone
  | .hub (.ok event) => serving.event primitives formats now event
  | .hub (.error error) => .error (.hub error)

/-- Turns of the loop, none of which ended it. -/
def turns (serving : BoxServing) :
    List (Circumstances × Awaited) → Except ServeError (BoxServing × List Deed)
  | [] => .ok (serving, [])
  | (now, awaited) :: rest => do
      let (after, deeds) ← serving.turn primitives formats now awaited
      let (final, later) ← after.turns rest
      return (final, deeds ++ later)

/-- The start of `run`: every revoker known is followed. -/
def followAll (serving : BoxServing) (now : Circumstances) : Except ServeError (List Deed) :=
  (serving.revocations.revokers.sort Bytes32.Le).zipIdx.mapM fun (revoker, number) =>
    serving.follow primitives revoker now number

/-- `run`, as far as it comes before a call returns an error. -/
def run (serving : BoxServing) (first : Circumstances)
    (steps : List (Circumstances × Awaited)) : Except ServeError (BoxServing × List Deed) := do
  let followed ← serving.followAll primitives first
  let (final, deeds) ← serving.turns primitives formats steps
  return (final, followed ++ deeds)

end BoxServing

/-! ## What lists revoke -/

section Revoking

variable {primitives : RevocationPrimitives}

/-- A list that adds nobody to an older one revokes no more. -/
theorem Revoked.revokes_of_not_addsTo {revoked older : Revoked}
    (adds : revoked.addsTo (some older) = false) {chain : List Certificate}
    (spared : older.revokes primitives chain = false) :
    revoked.revokes primitives chain = false := by
  simp only [addsTo, Bool.or_eq_false_iff, decide_eq_false_iff_not, not_not] at adds
  obtain ⟨principals, certificates⟩ := adds
  rw [revokes, List.any_eq_false] at spared ⊢
  intro cert member
  have here := spared cert member
  unfold revokesCertificate at here ⊢
  cases decoded : primitives.decodeCertificate cert.body with
  | none => simp [decoded] at here
  | some body =>
      cases subject : Bytes32.ofBytes? body.subject with
      | none => simp [decoded, subject] at here
      | some key =>
          simp only [decoded, subject, Bool.or_eq_true, decide_eq_true_eq, not_or,
            Bool.not_eq_true, Option.any_eq_false] at here ⊢
          refine ⟨⟨fun inside => here.1.1 (principals inside),
            fun inside => here.1.2 (certificates inside)⟩, fun previous found => ?_⟩
          have := here.2 previous found
          simp only [decide_eq_false_iff_not] at this ⊢
          exact fun inside => this (certificates inside)

theorem subject_of_verifyLinks {primitives : KeyPrimitives} {root : Bytes} {nowMs : Nat}
    {chain : List Certificate} {bodies : List CertificateBody}
    (decoded : List.Forall₂ (fun cert body => decodeBody primitives cert.body = .ok body)
      chain bodies)
    (verified : verifyLinks primitives root nowMs (chain.zip bodies) = .ok ()) :
    ∀ cert ∈ chain, ∃ body, primitives.decodeCertificate cert.body = some body ∧
      body.subject.length = 32 := by
  induction decoded with
  | nil => simp
  | @cons cert body rest others first _ ih =>
      rw [List.zip_cons_cons, verifyLinks, bind_eq_ok] at verified
      obtain ⟨⟨⟩, link, links⟩ := verified
      simp only [verifyLink, bind_eq_ok, key32_eq_ok] at link
      obtain ⟨_, ⟨length, -⟩, -⟩ := link
      exact List.forall_mem_cons.mpr ⟨⟨body, decodeBody_eq_ok first, length⟩, ih links⟩

/-- The chain of whoever asked verified, whenever and for whatever root. -/
def Opened.IsVerified (primitives : KeyPrimitives) (asked : Opened) : Prop :=
  ∃ root nowMs verified, verifyChain primitives root asked.chain nowMs = .ok verified

theorem Revoked.revokes_of_empty {revoked : Revoked} (adds : revoked.addsTo none = false)
    {asked : Opened} (isVerified : asked.IsVerified primitives.toKeyPrimitives) :
    revoked.revokes primitives asked.chain = false := by
  obtain ⟨root, nowMs, verified, accepted⟩ := isVerified
  simp only [verifyChain, bind_eq_ok, ensure_eq_ok, exists_const, mapM_eq_ok] at accepted
  obtain ⟨-, bodies, decoded, ⟨⟩, links, -⟩ := accepted
  have nobody : revoked.principals = ∅ ∧ revoked.certificates = ∅ := by
    simpa [addsTo, len] using adds
  rw [revokes, List.any_eq_false]
  intro cert member
  obtain ⟨body, decodes, length⟩ := subject_of_verifyLinks decoded links cert member
  simp [revokesCertificate, decodes, Bytes32.ofBytes?, length, nobody]

end Revoking

/-! ## What a turn does -/

/-- What a turn of the loop may do: nothing that concerns the key, a grant of it, or a list
that is accepted, with another key if the list adds to the one held before. -/
inductive BoxServing.Turned (primitives : ServingPrimitives) (serving : BoxServing)
    (awaited : Awaited) : BoxServing → List Deed → Prop
  | quiet {after : BoxServing} {deeds : List Deed}
      (key : after.key = serving.key)
      (root : after.revocations.root = serving.revocations.root)
      (held : after.revocations.held = serving.revocations.held)
      (silent : ∀ deed ∈ deeds, (∃ asked why sealed, deed = .told asked why sealed) ∨
        ∃ revoker channel, deed = .subscribe revoker channel) :
      Turned primitives serving awaited after deeds
  | granted {after : BoxServing} {asked : Opened} {edge sample : Bytes}
      (key : after.key = serving.key)
      (revocations : after.revocations = serving.revocations)
      (spared : ∀ held ∈ serving.revocations.held,
        held.revokes primitives.lists asked.chain = false)
      (asks : awaited = .hub (.ok (.command asked))) :
      Turned primitives serving awaited after
        [.grant asked serving.key edge, .grant asked serving.key sample]
  | kept {after : BoxServing} {list : RevocationList} {nowMs : UInt64} {revoked : Revoked}
      (verified : verifyRevocations primitives.lists serving.revocations.root list nowMs
        serving.revocations.held = .ok revoked)
      (adds : revoked.addsTo serving.revocations.held = false)
      (key : after.key = serving.key)
      (root : after.revocations.root = serving.revocations.root)
      (held : after.revocations.held = some revoked) :
      Turned primitives serving awaited after [.accepted revoked]
  | replaced {after : BoxServing} {list : RevocationList} {nowMs : UInt64}
      {revoked : Revoked}
      (verified : verifyRevocations primitives.lists serving.revocations.root list nowMs
        serving.revocations.held = .ok revoked)
      (root : after.revocations.root = serving.revocations.root)
      (held : after.revocations.held = some revoked) :
      Turned primitives serving awaited after [.accepted revoked, .rotated after.key]

namespace BoxServing

variable {primitives : ServingPrimitives} {formats : FileFormats}
  {serving after : BoxServing} {now : Circumstances} {deeds : List Deed}
  {awaited : Awaited}

theorem relay_key_frame (relay : Relay) (nonce frame : Bytes) :
    (relay.frame primitives.toStreamPrimitives nonce frame).1.key = relay.key := by
  unfold Relay.frame
  split
  · rfl
  · next lane coalesce _ =>
      dsimp only
      split
      · exact key_count relay lane
      · exact key_count relay lane

/-- Publishing leaves the relay as it was, or as it is after the frame. -/
theorem relay_publish (publishing : Serving) (given : Handover) :
    (publishing.publish primitives.toStreamPrimitives given).1.relay = publishing.relay ∨
      (publishing.publish primitives.toStreamPrimitives given).1.relay =
        (publishing.relay.frame primitives.toStreamPrimitives given.nonce given.frame).1 := by
  have relay_remember (serving : Serving) (digest : UInt64) :
      (serving.remember digest).relay = serving.relay := by
    unfold Serving.remember
    dsimp only
    split
    · split <;> rfl
    · rfl
  have relay_resumeAfter (serving : Serving) (frame : Bytes) :
      (serving.resumeAfter frame).relay = serving.relay := by
    unfold Serving.resumeAfter
    split <;> rfl
  unfold Serving.publish
  dsimp only
  split
  · exact .inl rfl
  · right
    split
    · next relayed => rw [relayed]
    · next relayed => rw [relayed]
    · next relayed =>
        rw [relayed]
        split
        · rw [relay_resumeAfter]
          dsimp only
          rw [relay_remember]
        · rfl

theorem key_publish (publishing : Serving) (given : Handover) :
    (publishing.publish primitives.toStreamPrimitives given).1.relay.key =
      publishing.relay.key := by
  rcases @relay_publish primitives publishing given with same | framed
  · rw [same]
  · rw [framed]
    exact relay_key_frame _ _ _

theorem publish_eq_ok {given : Handover}
    (ran : serving.publish primitives given = .ok (after, deeds)) :
    after = { serving with publishing :=
      (serving.publishing.publish primitives.toStreamPrimitives given).1 } ∧ deeds = [] := by
  unfold publish at ran
  dsimp only at ran
  split at ran
  · cases ran
    exact ⟨rfl, rfl⟩
  · split at ran
    · cases ran
      exact ⟨rfl, rfl⟩
    · cases ran
    · split at ran
      · cases ran
        exact ⟨rfl, rfl⟩
      · cases ran

theorem turned_publish {given : Handover}
    (ran : serving.publish primitives given = .ok (after, deeds)) :
    Turned primitives serving awaited after deeds := by
  obtain ⟨rfl, rfl⟩ := publish_eq_ok ran
  exact .quiet (key_publish serving.publishing given) rfl rfl (by simp)

theorem spared_of_mayGrant {revocations : Revocations} {chain : List Certificate}
    {nowMs : UInt64}
    (may : revocations.mayGrant primitives.lists chain nowMs = .ok ()) :
    ∀ held ∈ revocations.held, held.revokes primitives.lists chain = false := by
  intro held isHeld
  unfold Revocations.mayGrant at may
  split at may
  · cases may
  · next spared => simpa [Option.mem_def.mp isHeld] using spared

theorem isGrant_of_wrapFor {asked : Opened} {edge sample : Bytes}
    (wrapped : serving.wrapFor primitives asked now = .ok (.ok (edge, sample))) :
    isGrant asked = true := by
  unfold wrapFor at wrapped
  split at wrapped
  · cases wrapped
  · next isCommand =>
      split at wrapped
      · cases wrapped
      · next isView => exact decide_eq_true ⟨not_not.mp isCommand, not_not.mp isView⟩

theorem turned_command {asked : Opened}
    (ran : serving.command primitives asked now = .ok (after, deeds)) :
    Turned primitives serving (.hub (.ok (.command asked))) after deeds := by
  unfold command at ran
  split at ran
  · next why _ _ =>
      unfold refuse at ran
      dsimp only at ran
      split at ran
      · simp only [bind_eq_ok, ensure_eq_ok, exists_const, pure_eq_ok_iff] at ran
        obtain ⟨sealed, -, -, same⟩ := ran
        cases same
        exact .quiet rfl rfl rfl (by simp)
      · cases ran
        exact .quiet rfl rfl rfl (by simp)
  · next notRefused =>
      split at ran
      · cases ran
      · cases ran
        exact .quiet rfl rfl rfl (by simp)
      · next edge sample wrapped =>
          simp only [bind_eq_ok, ensure_eq_ok, exists_const, pure_eq_ok_iff] at ran
          obtain ⟨-, -, same⟩ := ran
          cases same
          refine .granted rfl rfl (@spared_of_mayGrant primitives _ _ now.nowMs ?_) rfl
          cases may : serving.revocations.mayGrant primitives.lists asked.chain now.nowMs with
          | ok _ => rfl
          | error why => exact (notRefused why (isGrant_of_wrapFor wrapped) may).elim

theorem turned_presence {seen : Presence}
    (ran : serving.presence primitives seen now = .ok (after, deeds)) :
    Turned primitives serving awaited after deeds := by
  unfold presence at ran
  split at ran
  · cases ran
    exact .quiet rfl rfl rfl (by simp)
  · split at ran
    · cases ran
      exact .quiet rfl rfl rfl (by simp)
    · next verified _ =>
        split at ran
        · cases ran
          exact .quiet rfl rfl rfl (by simp)
        · dsimp only [Revocations.sawRevoker] at ran
          split at ran
          · simp only [bind_eq_ok, ensure_eq_ok, exists_const, pure_eq_ok_iff, follow] at ran
            obtain ⟨-, followed, ⟨-, rfl⟩, same⟩ := ran
            cases same
            exact .quiet rfl rfl rfl (by simp)
          · cases ran
            exact .quiet rfl rfl rfl (by simp)

theorem turned_list {stream : StreamRef} {payload : Bytes}
    (ran : serving.list primitives formats stream payload now = .ok (after, deeds)) :
    Turned primitives serving awaited after deeds := by
  unfold list at ran
  split at ran
  · cases ran
    exact .quiet rfl rfl rfl (by simp)
  · split at ran
    · cases ran
      exact .quiet rfl rfl rfl (by simp)
    · split at ran
      · cases ran
        exact .quiet rfl rfl rfl (by simp)
      · next found _ =>
          split at ran
          · cases ran
            exact .quiet rfl rfl rfl (by simp)
          · next revocations rotate applied =>
              simp only [Revocations.apply, bind_eq_ok, pure_eq_ok_iff, Prod.mk.injEq]
                at applied
              obtain ⟨revoked, verified, rfl, rfl⟩ := applied
              simp only [keep, bind_eq_ok, ensure_eq_ok, exists_const] at ran
              obtain ⟨-, -, rest⟩ := ran
              cases adds : revoked.addsTo serving.revocations.held with
              | false =>
                  simp only [adds, Bool.false_eq_true, if_false, pure_eq_ok_iff] at rest
                  cases rest
                  exact .kept verified adds rfl rfl rfl
              | true =>
                  simp only [adds, if_true, bind_eq_ok, require_eq_ok, pure_eq_ok_iff] at rest
                  obtain ⟨key, -, same⟩ := rest
                  cases same
                  exact .replaced verified rfl rfl

theorem turned (ran : serving.turn primitives formats now awaited = .ok (after, deeds)) :
    Turned primitives serving awaited after deeds := by
  cases awaited with
  | frame handed =>
      cases handed with
      | none => cases ran
      | some given => exact turned_publish ran
  | hub event =>
      cases event with
      | error error => cases ran
      | ok event =>
          cases event with
          | command asked => exact turned_command ran
          | presence seen => exact turned_presence ran
          | published stream _ _ _ _ payload => exact turned_list ran
          | error notice =>
              simp only [turn, BoxServing.event] at ran
              split at ran
              · cases ran
                exact .quiet rfl rfl rfl (by simp)
              · cases ran
          | _ =>
              cases ran
              exact .quiet rfl rfl rfl (by simp)

end BoxServing

/-! ## Runs -/

/-- The keys that replaced another. -/
def rotatedKeys (deeds : List Deed) : List Bytes :=
  deeds.filterMap fun
    | .rotated key => some key
    | _ => none

/-- The keys that were granted. -/
def grantedKeys (deeds : List Deed) : List Bytes :=
  deeds.filterMap fun
    | .grant _ key _ => some key
    | _ => none

/-- The versions of the lists that were accepted, in order. -/
def acceptedVersions (deeds : List Deed) : List UInt64 :=
  deeds.filterMap fun
    | .accepted revoked => some revoked.version
    | _ => none

/-- The versions of the lists that a connector held: the one it began with and those that
it accepted. -/
def heldVersions (start : BoxServing) (deeds : List Deed) : List UInt64 :=
  start.revocations.held.toList.map Revoked.version ++ acceptedVersions deeds

theorem rotatedKeys_append (first second : List Deed) :
    rotatedKeys (first ++ second) = rotatedKeys first ++ rotatedKeys second :=
  List.filterMap_append

theorem acceptedVersions_append (first second : List Deed) :
    acceptedVersions (first ++ second) = acceptedVersions first ++ acceptedVersions second :=
  List.filterMap_append

/-- What holds after these deeds of a connector that began with a key and a list: grants
were of keys that it had, the list held revokes nobody that was granted the current one,
and each list was newer than the one before. -/
structure Excludes (primitives : ServingPrimitives) (start : BoxServing) (past : List Deed)
    (now : BoxServing) : Prop where
  key : now.key ∈ start.key :: rotatedKeys past
  known : ∀ asked key wrapped, .grant asked key wrapped ∈ past →
    key ∈ start.key :: rotatedKeys past ∧ asked.IsVerified primitives.toKeyPrimitives
  excluded : ∀ asked wrapped, .grant asked now.key wrapped ∈ past →
    ∀ held ∈ now.revocations.held, held.revokes primitives.lists asked.chain = false
  increasing : (heldVersions start past).Pairwise (· < ·)
  newest : ∀ version ∈ heldVersions start past, ∃ held ∈ now.revocations.held,
    version ≤ held.version

theorem silent_deeds {deeds : List Deed}
    (silent : ∀ deed ∈ deeds, (∃ asked why sealed, deed = .told asked why sealed) ∨
      ∃ revoker channel, deed = .subscribe revoker channel) :
    rotatedKeys deeds = [] ∧ acceptedVersions deeds = [] ∧
      ∀ asked key wrapped, .grant asked key wrapped ∉ deeds := by
  refine ⟨List.filterMap_eq_nil_iff.mpr fun deed member => ?_,
    List.filterMap_eq_nil_iff.mpr fun deed member => ?_, fun asked key wrapped member => ?_⟩
  · rcases silent deed member with ⟨_, _, _, rfl⟩ | ⟨_, _, rfl⟩ <;> rfl
  · rcases silent deed member with ⟨_, _, _, rfl⟩ | ⟨_, _, rfl⟩ <;> rfl
  · rcases silent _ member with ⟨_, _, _, same⟩ | ⟨_, _, same⟩ <;> cases same

section Running

variable {primitives : ServingPrimitives} {formats : FileFormats}
  {start serving after : BoxServing} {past deeds : List Deed} {awaited : Awaited}

theorem Excludes.newer (excludes : Excludes primitives start past serving)
    {list : RevocationList} {nowMs : UInt64} {revoked : Revoked}
    (accepted : verifyRevocations primitives.lists serving.revocations.root list nowMs
      serving.revocations.held = .ok revoked) :
    ∀ version ∈ heldVersions start past, version < revoked.version := by
  intro version member
  obtain ⟨held, isHeld, most⟩ := excludes.newest version member
  simp only [verifyRevocations, bind_eq_ok, ensure_eq_ok, exists_const, pure_eq_ok_iff]
    at accepted
  obtain ⟨-, body, -, -, -, -, -, -, -, -, newer, -, -, -, -, -, rfl⟩ := accepted
  exact UInt64.lt_of_le_of_lt most (newer held isHeld)

/-- The versions after a list that verified. -/
theorem Excludes.accept (excludes : Excludes primitives start past serving)
    {list : RevocationList} {nowMs : UInt64} {revoked : Revoked} (more : List Deed)
    (accepted : verifyRevocations primitives.lists serving.revocations.root list nowMs
      serving.revocations.held = .ok revoked)
    (held : after.revocations.held = some revoked)
    (alone : acceptedVersions more = [revoked.version]) :
    (heldVersions start (past ++ more)).Pairwise (· < ·) ∧
      ∀ version ∈ heldVersions start (past ++ more), ∃ held ∈ after.revocations.held,
        version ≤ held.version := by
  have newer := excludes.newer accepted
  rw [heldVersions, acceptedVersions_append, alone, ← List.append_assoc]
  change (heldVersions start past ++ [revoked.version]).Pairwise _ ∧
    ∀ version ∈ heldVersions start past ++ [revoked.version], _
  refine ⟨List.pairwise_append.mpr ⟨excludes.increasing, List.pairwise_singleton _ _, ?_⟩,
    fun version member => ⟨revoked, held, ?_⟩⟩
  · intro version member other single
    rw [List.mem_singleton.mp single]
    exact newer version member
  · rcases List.mem_append.mp member with before | single
    · exact UInt64.le_of_lt (newer version before)
    · rw [List.mem_singleton.mp single]
      exact UInt64.le_refl _

/-- One turn keeps what holds, if a key that is drawn is a new one. -/
theorem Excludes.turned (excludes : Excludes primitives start past serving)
    (turned : BoxServing.Turned primitives serving awaited after deeds)
    (verified : ∀ asked, awaited = .hub (.ok (.command asked)) →
      asked.IsVerified primitives.toKeyPrimitives)
    (fresh : (start.key :: rotatedKeys (past ++ deeds)).Nodup) :
    Excludes primitives start (past ++ deeds) after := by
  obtain ⟨key, known, excluded, increasing, newest⟩ := excludes
  cases turned with
  | quiet sameKey root held silent =>
      obtain ⟨noKeys, noVersions, noGrants⟩ := silent_deeds silent
      have grants {asked : Opened} {key wrapped : Bytes}
          (member : .grant asked key wrapped ∈ past ++ deeds) :
          .grant asked key wrapped ∈ past :=
        (List.mem_append.mp member).resolve_right (noGrants asked key wrapped)
      refine ⟨?_, ?_, ?_, ?_, ?_⟩
      · rwa [rotatedKeys_append, noKeys, List.append_nil, sameKey]
      · intro asked granted wrapped member
        rw [rotatedKeys_append, noKeys, List.append_nil]
        exact known asked granted wrapped (grants member)
      · rw [sameKey, held]
        exact fun asked wrapped member => excluded asked wrapped (grants member)
      · rwa [heldVersions, acceptedVersions_append, noVersions, List.append_nil]
      · rw [heldVersions, acceptedVersions_append, noVersions, List.append_nil, held]
        exact newest
  | @granted asked edge sample sameKey revocations spared asks =>
      have isVerified := verified asked asks
      have here {other : Opened} {granted wrapped : Bytes}
          (member : Deed.grant other granted wrapped ∈
            [.grant asked serving.key edge, .grant asked serving.key sample]) :
          other = asked ∧ granted = serving.key := by
        simp only [List.mem_cons, Deed.grant.injEq, List.not_mem_nil, or_false] at member
        rcases member with ⟨rfl, rfl, -⟩ | ⟨rfl, rfl, -⟩ <;> exact ⟨rfl, rfl⟩
      have noKeys : rotatedKeys (past ++
          [.grant asked serving.key edge, .grant asked serving.key sample]) =
            rotatedKeys past := by
        rw [rotatedKeys_append]
        exact List.append_nil _
      have noVersions : heldVersions start (past ++
          [.grant asked serving.key edge, .grant asked serving.key sample]) =
            heldVersions start past := by
        rw [heldVersions, acceptedVersions_append]
        exact congrArg _ (List.append_nil _)
      refine ⟨?_, ?_, ?_, ?_, ?_⟩
      · rwa [noKeys, sameKey]
      · intro other granted wrapped member
        rw [noKeys]
        rcases List.mem_append.mp member with before | new
        · exact known other granted wrapped before
        · obtain ⟨rfl, rfl⟩ := here new
          exact ⟨key, isVerified⟩
      · rw [sameKey, revocations]
        intro other wrapped member
        rcases List.mem_append.mp member with before | new
        · exact excluded other wrapped before
        · obtain ⟨rfl, -⟩ := here new
          exact spared
      · rwa [noVersions]
      · rwa [noVersions, revocations]
  | @kept _ _ revoked accepted adds sameKey root held =>
      obtain ⟨versions, most⟩ := Excludes.accept ⟨key, known, excluded, increasing, newest⟩
        [.accepted revoked] accepted held rfl
      have noKeys : rotatedKeys (past ++ [.accepted revoked]) = rotatedKeys past := by
        rw [rotatedKeys_append]
        exact List.append_nil _
      have grants {asked : Opened} {granted wrapped : Bytes}
          (member : .grant asked granted wrapped ∈ past ++ [.accepted revoked]) :
          .grant asked granted wrapped ∈ past := by
        simpa using member
      refine ⟨?_, ?_, ?_, versions, most⟩
      · rwa [noKeys, sameKey]
      · intro asked granted wrapped member
        rw [noKeys]
        exact known asked granted wrapped (grants member)
      · rw [sameKey, held]
        rintro asked wrapped member _ ⟨⟩
        cases before : serving.revocations.held with
        | none =>
            rw [before] at adds
            exact Revoked.revokes_of_empty adds (known asked _ wrapped (grants member)).2
        | some older =>
            rw [before] at adds
            exact Revoked.revokes_of_not_addsTo adds
              (excluded asked wrapped (grants member) older before)
  | @replaced _ _ revoked accepted root held =>
      obtain ⟨versions, most⟩ := Excludes.accept ⟨key, known, excluded, increasing, newest⟩
        [.accepted revoked, .rotated after.key] accepted held rfl
      have newKey : rotatedKeys (past ++ [.accepted revoked, .rotated after.key]) =
          rotatedKeys past ++ [after.key] :=
        rotatedKeys_append _ _
      have grants {asked : Opened} {granted wrapped : Bytes}
          (member : .grant asked granted wrapped ∈
            past ++ [.accepted revoked, .rotated after.key]) :
          .grant asked granted wrapped ∈ past := by
        simpa using member
      rw [newKey, ← List.cons_append, List.nodup_append] at fresh
      refine ⟨?_, ?_, ?_, versions, most⟩
      · simp [newKey]
      · intro asked granted wrapped member
        obtain ⟨before, isVerified⟩ := known asked granted wrapped (grants member)
        rw [newKey, ← List.cons_append]
        exact ⟨List.mem_append_left _ before, isVerified⟩
      · intro asked wrapped member
        have before := (known asked _ wrapped (grants member)).1
        exact absurd rfl (fresh.2.2 _ before _ (List.mem_singleton_self _))

/-- Turns of the loop keep what holds. -/
theorem Excludes.turns (excludes : Excludes primitives start past serving)
    {steps : List (Circumstances × Awaited)}
    (verified : ∀ step ∈ steps, ∀ asked, step.2 = .hub (.ok (.command asked)) →
      asked.IsVerified primitives.toKeyPrimitives)
    (ran : serving.turns primitives formats steps = .ok (after, deeds))
    (fresh : (start.key :: rotatedKeys (past ++ deeds)).Nodup) :
    Excludes primitives start (past ++ deeds) after := by
  induction steps generalizing serving past deeds with
  | nil =>
      cases ran
      rwa [List.append_nil]
  | cons step rest ih =>
      obtain ⟨now, awaited⟩ := step
      obtain ⟨first, others⟩ := List.forall_mem_cons.mp verified
      simp only [BoxServing.turns, bind_eq_ok, pure_eq_ok_iff, Prod.exists,
        Prod.mk.injEq] at ran
      obtain ⟨middle, made, turned, final, later, restRan, rfl, rfl⟩ := ran
      rw [← List.append_assoc] at fresh ⊢
      have sofar : (start.key :: rotatedKeys (past ++ made)).Nodup := by
        rw [rotatedKeys_append, ← List.cons_append] at fresh
        exact (List.nodup_append.mp fresh).1
      exact ih (excludes.turned (BoxServing.turned turned) first sofar) others restRan fresh

/-- The start of a run asks for the lists of the revokers that are known, and does nothing
else. -/
theorem BoxServing.mem_followAll
    (followed : serving.followAll primitives now = .ok deeds) {deed : Deed} :
    deed ∈ deeds ↔ ∃ revoker ∈ serving.revocations.revokers,
      deed = .subscribe revoker.val (serving.revocationsChannel primitives revoker) := by
  let asks (revoker : Bytes32) : Deed :=
    .subscribe revoker.val (serving.revocationsChannel primitives revoker)
  rw [followAll, mapM_eq_ok] at followed
  have related : List.Forall₂ (fun entry deed => asks entry.1 = deed)
      (serving.revocations.revokers.sort Bytes32.Le).zipIdx deeds := by
    refine followed.imp fun entry deed asked => ?_
    simp only [follow, bind_eq_ok, ensure_eq_ok, exists_const, pure_eq_ok_iff] at asked
    exact asked.2
  rw [← List.forall₂_map_left_iff, List.forall₂_eq_eq_eq] at related
  have same : deeds = (serving.revocations.revokers.sort Bytes32.Le).map asks := by
    rw [← related]
    conv_rhs => rw [← List.zipIdx_map_fst 0 (serving.revocations.revokers.sort Bytes32.Le)]
    rw [List.map_map]
    rfl
  rw [same, List.mem_map]
  simp only [Finset.mem_sort, asks, eq_comm]

/-- What holds of a connector that has only followed its revokers. -/
theorem Excludes.of_followAll {now : Circumstances}
    (ran : start.followAll primitives now = .ok deeds) :
    Excludes primitives start deeds start := by
  have silent : ∀ deed ∈ deeds, (∃ asked why sealed, deed = .told asked why sealed) ∨
      ∃ revoker channel, deed = .subscribe revoker channel := by
    intro deed member
    obtain ⟨revoker, -, rfl⟩ := (BoxServing.mem_followAll ran).mp member
    exact .inr ⟨_, _, rfl⟩
  obtain ⟨noKeys, noVersions, noGrants⟩ := silent_deeds silent
  refine ⟨?_, ?_, ?_, ?_, ?_⟩
  · exact List.mem_cons_self
  · exact fun asked key wrapped member => absurd member (noGrants asked key wrapped)
  · exact fun asked wrapped member => absurd member (noGrants asked _ wrapped)
  · rw [heldVersions, noVersions, List.append_nil]
    cases start.revocations.held <;> simp
  · rw [heldVersions, noVersions, List.append_nil]
    intro version member
    obtain ⟨held, isHeld, rfl⟩ := List.mem_map.mp member
    exact ⟨held, Option.mem_toList.mp isHeld, UInt64.le_refl _⟩

theorem BoxServing.list_refused {list : RevocationList} {refusal : RevocationError}
    {stream : StreamRef} {payload : Bytes} {now : Circumstances}
    (decoded : formats.decodeList payload = some list)
    (refused : verifyRevocations primitives.lists serving.revocations.root list now.nowMs
      serving.revocations.held = .error refusal) :
    serving.list primitives formats stream payload now = .ok (serving, []) := by
  have notApplied : serving.revocations.apply primitives.lists list now.nowMs =
      .error refusal := by
    rw [Revocations.apply, refused]
    rfl
  unfold BoxServing.list
  split
  · rfl
  · split
    · rfl
    · rw [decoded]
      simp only [notApplied]

end Running

/-- However a connector is asked, told and handed frames, as long as no call returns an
error, the list that it holds revokes nobody that it granted the current key; each list it
accepts is newer than those before; and a list that does not verify changes nothing. -/
theorem connector_exclusion (primitives : ServingPrimitives) (formats : FileFormats)
    (start : BoxServing) (first : Circumstances) (steps : List (Circumstances × Awaited))
    (verified : ∀ step ∈ steps, ∀ asked, step.2 = .hub (.ok (.command asked)) →
      asked.IsVerified primitives.toKeyPrimitives)
    (final : BoxServing) (deeds : List Deed)
    (ran : start.run primitives formats first steps = .ok (final, deeds))
    (fresh : (start.key :: rotatedKeys deeds).Nodup) :
    (∀ asked wrapped, .grant asked final.key wrapped ∈ deeds →
        ∀ held ∈ final.revocations.held,
          held.revokes primitives.lists asked.chain = false) ∧
      (heldVersions start deeds).Pairwise (· < ·) ∧
      ∀ now stream kind sender seq epoch payload list refusal,
        formats.decodeList payload = some list →
        verifyRevocations primitives.lists final.revocations.root list now.nowMs
          final.revocations.held = .error refusal →
        final.event primitives formats now
          (.published stream kind sender seq epoch payload) = .ok (final, []) := by
  simp only [BoxServing.run, bind_eq_ok, pure_eq_ok_iff, Prod.exists, Prod.mk.injEq] at ran
  obtain ⟨followed, following, after, later, turned, rfl, rfl⟩ := ran
  have excludes := (Excludes.of_followAll following).turns verified turned fresh
  refine ⟨excludes.excluded, excludes.increasing, ?_⟩
  intro now stream kind sender seq epoch payload list refusal decoded refused
  exact BoxServing.list_refused decoded refused

/-- A certificate that the root `[1, …]` gave a device that may view. -/
def viewerBody : CertificateBody := { revokerBody with
  subject := List.replicate 32 4
  agreementKey := List.replicate 32 5
  scopes := [viewScope]
  mayRevoke := false }

/-- Every signature verifies; the empty certificate is the revoker's and `[1]` the
device's; a list of one byte `n` is of version `100 * n` and names somebody else. -/
def servedPrimitives : ServingPrimitives where
  toHpkePrimitives := { roundTripPrimitives with
    decodeCertificate := fun bytes =>
      if bytes = [] then some revokerBody
      else if bytes = [1] then some viewerBody
      else none
    verifyStrict := fun _ _ _ => true }
  decodeRevocation
    | [n] => some ⟨List.replicate 32 1, 100 * n.toUInt64, [List.replicate 32 9], []⟩
    | _ => none
  hmac key _ := key

/-- A connector of that account that has seen no revoker. -/
def newlyServing : BoxServing where
  publishing := .new (identityOf 6) (List.replicate 32 7) ⟨[1], [2]⟩
  chain := []
  channelKey := List.replicate 32 3
  revocations := { root := List.replicate 32 1 }

/-- The device's request for the key. -/
def viewerAsks : Opened where
  sentBy := List.replicate 32 4
  scope := viewScope
  nonce := List.replicate 16 8
  timeMs := 1500
  body := grantCommand
  answers := none
  leaf := viewerBody
  chain := [⟨[1], []⟩]

/-- At 1600, with everything sent and written, and this key to be drawn. -/
def drawing (freshKey : Bytes) : Circumstances where
  nowMs := 1600
  clientMs := 1600
  drawn _ := (List.replicate 16 0, [])
  sends _ := true
  writes _ := true
  freshKey := some freshKey

/-- The device is granted the key, and again after a list has replaced it. -/
def viewerTurns : List (Circumstances × Awaited) :=
  [(drawing [], .hub (.ok (.presence ⟨List.replicate 32 2, 1, true, [⟨[], []⟩]⟩))),
    (drawing [], .hub (.ok (.command viewerAsks))),
    (drawing (List.replicate 32 8), .hub (.ok (.published
      ⟨List.replicate 32 2, List.replicate 16 3⟩ .sessionEvents [] 1 1 [15]))),
    (drawing [], .hub (.ok (.command viewerAsks)))]

theorem viewerAsks_isVerified :
    viewerAsks.IsVerified servedPrimitives.toKeyPrimitives :=
  ⟨List.replicate 32 1, 1600, _, rfl⟩

theorem connector_exclusion_viewer :
    ∃ final deeds, newlyServing.run servedPrimitives plainFormats (drawing []) viewerTurns =
        .ok (final, deeds) ∧
      final.key ∈ grantedKeys deeds ∧ rotatedKeys deeds = [final.key] ∧
      (∀ asked wrapped, .grant asked final.key wrapped ∈ deeds →
        ∀ held ∈ final.revocations.held,
          held.revokes servedPrimitives.lists asked.chain = false) ∧
      (heldVersions newlyServing deeds).Pairwise (· < ·) := by
  have ends : (newlyServing.run servedPrimitives plainFormats (drawing [])
      viewerTurns).map (fun out => (out.1.key, rotatedKeys out.2, grantedKeys out.2)) =
        .ok (List.replicate 32 8, [List.replicate 32 8], [List.replicate 32 7,
          List.replicate 32 7, List.replicate 32 8, List.replicate 32 8]) := by
    decide +kernel
  cases ran : newlyServing.run servedPrimitives plainFormats (drawing []) viewerTurns with
  | error error =>
      rw [ran] at ends
      cases ends
  | ok out =>
      obtain ⟨final, deeds⟩ := out
      rw [ran] at ends
      obtain ⟨key, rotated, granted⟩ : final.key = List.replicate 32 8 ∧
          rotatedKeys deeds = [List.replicate 32 8] ∧ grantedKeys deeds = [List.replicate 32 7,
            List.replicate 32 7, List.replicate 32 8, List.replicate 32 8] := by
        simpa [Except.map] using ends
      have verified : ∀ step ∈ viewerTurns, ∀ asked, step.2 = .hub (.ok (.command asked)) →
          asked.IsVerified servedPrimitives.toKeyPrimitives := by
        intro step member asked same
        simp only [viewerTurns, List.mem_cons, List.not_mem_nil, or_false] at member
        rcases member with rfl | rfl | rfl | rfl <;> cases same
        · exact viewerAsks_isVerified
        · exact viewerAsks_isVerified
      obtain ⟨spared, increasing, -⟩ := connector_exclusion servedPrimitives plainFormats
        newlyServing (drawing []) viewerTurns verified final deeds ran
          (by rw [rotated]; decide)
      exact ⟨final, deeds, rfl, by simp [granted, key], by rw [rotated, key], spared,
        increasing⟩

end WindowMlHub
