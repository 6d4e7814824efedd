import WindowMlHub.RelayHub
import WindowMlHub.RevocationSigners
import WindowMlHub.SignedMessages

/-!
# Whose hello a hub accepts

`authenticate` in the hub's `lib.rs`, and devices and hubs that talk over a network which
is nobody's friend: anyone may send a device any challenge and a hub any hello, and keys
that no device holds sign whatever they like.

A device signs one hello for each challenge of the hub that it expects, and a hub draws a
nonce for each socket.  A hello that a hub accepts under a device's key was therefore
signed by that device for this very socket of this very hub.
-/

namespace WindowMlHub

open BigEndianBytes CheckedConditions IncrementalReaders TextFormats

/-! ## Judging a hello -/

/-- `Auth`: how a hub judges a hello. -/
inductive Auth
  | development
  | keys (hubName : String)
  deriving DecidableEq, Repr

/-- A hello that got in: which account, and what it is told about who may revoke. -/
structure AdmittedAccount where
  account : Bytes
  revoker : Revoker
  deriving DecidableEq, Repr

/-- What the registry makes of the hello of an account: whether the account is admitted,
its record of a revocation signer, whether that record can be replaced, and what others
make of it before it is read again. -/
structure RegistryReplies where
  admission : Except Refusal Admission
  record : Option Text
  stored : Except FileSystems.IoError Unit
  meanwhile : Option Text → Option Text

/-- One answer for every verification failure. -/
def badHello : Frame :=
  errorFrame .unauthenticated 0 "hello did not verify"

/-- What an account that is not admitted is told. -/
def Refusal.frame : Refusal → Frame
  | .inviteRequired =>
      errorFrame .unauthenticated 0 "this hub needs an invite to register an account"
  | .inviteInvalid => errorFrame .unauthenticated 0 "invite not valid"
  | .rateLimited => errorFrame .limit 0 "too many new accounts; try later"
  | .storage _ => errorFrame .unavailable 0 "hub storage error"

/-- `Certificate::decode`. -/
def decodeCertificate (bytes : Bytes) : Option Certificate := do
  let fields ← ProtobufFields.readFields varints bytes
  fields.foldlM mergeCertificate ⟨[], []⟩

/-- `revoker`: an account has one revocation signer. -/
def holdRevoker (verified : Verified) (leaf : Certificate) (nowMs : Nat)
    (replies : RegistryReplies) : Option Text × Except Frame Unit :=
  let signer : Signer := {
    principal := hex verified.principal
    sinceMs := verified.leaf.notBeforeMs
    untilMs := verified.leaf.notAfterMs
    certificate := leaf.encode }
  let (record, answer) := claimRevoker replies.record signer nowMs replies.stored
  (record,
    match answer with
    | .ok .held => .ok ()
    | .ok (.second _ _) => .error (errorFrame .unauthenticated 0
        "another device signs this account's revocations; pair this one again without that grant")
    | .error _ => .error (errorFrame .unavailable 0 "hub storage error"))

/-- The part of `authenticate` that is for those who may revoke. -/
def claimRevocations (verified : Verified) (hello : Hello) (nowMs : Nat)
    (replies : RegistryReplies) : Option Text × Except Frame Unit :=
  if verified.leaf.mayRevoke then
    match hello.chain.head? with
    | some leaf => holdRevoker verified leaf nowMs replies
    -- a chain that verified has a leaf
    | none => (replies.record, .ok ())
  else
    (replies.record, .ok ())

/-- What an account is told about its signer. -/
def toldRevoker (record : Option Text) (nowMs : Nat) : Revoker :=
  match (recordedSigner record).filter fun held => decide (held.untilMs > nowMs) with
  | some held => ((decodeCertificate held.certificate).map Revoker.known).getD .none
  | none => .none

section Judging

variable (primitives : KeyPrimitives)

/-- The checks of `authenticate` before the registry is asked. -/
def verifyKeys (hubName : String) (hello : Hello) (nonce : Bytes) (nowMs : Nat) :
    Except Frame Verified := do
  ensure (hello.accountRoot.length = 32) badHello
  let verified ← (verifyChain primitives hello.accountRoot hello.chain nowMs).mapError
    fun _ => badHello
  ensure (hello.principal = verified.principal ∧ hello.role = verified.leaf.role) badHello
  let transcript := helloTranscript hubName nonce hello.principal (Role.ofInt hello.role)
    verified.account
  ensure (verifyHello primitives verified.leafKey transcript hello.signature) badHello
  return verified

/-- `authenticate`, with the record of a signer that it leaves. -/
def authenticate (auth : Auth) (hello : Hello) (nonce : Bytes) (nowMs : Nat)
    (replies : RegistryReplies) : Option Text × Except Frame AdmittedAccount :=
  match auth with
  | .development =>
      if hello.accountCredential = [] then
        (replies.record,
          .error (errorFrame .unauthenticated 0 "an account credential is required"))
      else
        (replies.record, .ok ⟨hello.accountCredential, .unknown⟩)
  | .keys hubName =>
      match verifyKeys primitives hubName hello nonce nowMs with
      | .error frame => (replies.record, .error frame)
      | .ok verified =>
          match replies.admission with
          | .error refusal => (replies.record, .error refusal.frame)
          | .ok _ =>
              let claimed := claimRevocations verified hello nowMs replies
              (claimed.1, claimed.2.map fun _ =>
                ⟨verified.account, toldRevoker (replies.meanwhile claimed.1) nowMs⟩)

variable {primitives} {hubName : String} {hello : Hello} {nonce : Bytes} {nowMs : Nat}

theorem verifyKeys_eq_ok {verified : Verified} :
    verifyKeys primitives hubName hello nonce nowMs = .ok verified ↔
      hello.accountRoot.length = 32 ∧
        verifyChain primitives hello.accountRoot hello.chain nowMs = .ok verified ∧
        (hello.principal = verified.principal ∧ hello.role = verified.leaf.role) ∧
        verifyHello primitives verified.leafKey
          (helloTranscript hubName nonce hello.principal (Role.ofInt hello.role)
            verified.account) hello.signature = true := by
  simp only [verifyKeys, bind_eq_ok, ensure_eq_ok, exists_const, mapError_eq_ok, pure_eq_ok_iff]
  constructor
  · rintro ⟨root, other, chain, names, signature, rfl⟩
    exact ⟨root, chain, names, signature⟩
  · rintro ⟨root, chain, names, signature⟩
    exact ⟨root, verified, chain, names, signature, rfl⟩

/-- Who is admitted by a hub that verifies, verified. -/
theorem authenticate_keys_eq_ok {replies : RegistryReplies} {record : Option Text}
    {admitted : AdmittedAccount}
    (accepted : authenticate primitives (.keys hubName) hello nonce nowMs replies =
      (record, .ok admitted)) :
    ∃ verified, verifyKeys primitives hubName hello nonce nowMs = .ok verified ∧
      admitted.account = verified.account := by
  unfold authenticate at accepted
  dsimp only at accepted
  split at accepted
  · cases (Prod.mk.inj accepted).2
  · next verified verifies =>
      refine ⟨verified, verifies, ?_⟩
      split at accepted
      · cases (Prod.mk.inj accepted).2
      · obtain ⟨-, made⟩ := Prod.mk.inj accepted
        cases held : (claimRevocations verified hello nowMs replies).2 with
        | error frame =>
            rw [held] at made
            cases made
        | ok done =>
            rw [held] at made
            exact (congrArg AdmittedAccount.account (Except.ok.inj made)).symm

end Judging

/-! ## Hubs and devices on an open network -/

/-- What a device sends for a challenge: nothing to a hub that it does not expect. -/
def Config.answer (primitives : SealPrimitives) (config : Config) (challenge : Challenge) :
    Option Hello :=
  if challenge.hub = config.hubName then some (config.hello primitives challenge) else none

/-- What a hub knows of a socket: the nonce that it drew for it, whether its hello came,
and the hello with what it verified as, if it was admitted. -/
structure LoginSocket where
  hub : Nat
  nonce : Bytes
  heard : Bool := false
  admitted : Option (Hello × Verified) := none

/-- The names of the hubs, the devices, the sockets, and what was signed under which
key. -/
structure LoginWorld where
  hubs : List String
  devices : List Config
  sockets : List LoginSocket := []
  signings : List (Bytes × Bytes) := []

inductive LoginEvent
  /-- a hub takes a socket, and draws a nonce for it -/
  | challenged (hub : Nat) (nonce : Bytes32)
  /-- a device is sent a challenge, by whomever -/
  | answered (device : Nat) (challenge : Challenge)
  /-- something else is signed -/
  | signed (key bytes : Bytes)
  /-- a hello reaches a socket, and its hub judges it -/
  | judged (socket : Nat) (hello : Hello) (nowMs : Nat) (replies : RegistryReplies)

namespace LoginWorld

variable (primitives : SealPrimitives)

/-- A hub judges the hello of a socket that it has heard nothing from. -/
def judge (world : LoginWorld) (socket : LoginSocket) (hello : Hello) (nowMs : Nat)
    (replies : RegistryReplies) : LoginSocket :=
  if socket.heard then socket
  else
    match world.hubs[socket.hub]? with
    | none => socket
    | some hubName =>
        match authenticate primitives.toKeyPrimitives (.keys hubName) hello socket.nonce nowMs
          replies with
        | (_, .error _) => { socket with heard := true }
        | (_, .ok _) =>
            { socket with
              heard := true
              admitted := (verifyKeys primitives.toKeyPrimitives hubName hello socket.nonce
                nowMs).toOption.map fun verified => (hello, verified) }

/-- Something is signed. -/
def sign (world : LoginWorld) (key bytes : Bytes) : LoginWorld :=
  { world with signings := world.signings ++ [(key, bytes)] }

def step (world : LoginWorld) : LoginEvent → LoginWorld
  | .challenged hub nonce =>
      { world with sockets := world.sockets ++ [{ hub, nonce := nonce.val }] }
  | .answered device challenge =>
      match world.devices[device]? with
      | none => world
      | some config =>
          match config.answer primitives challenge with
          | none => world
          | some _ =>
              world.sign config.identity.publicKey (helloLabel ++
                helloTranscript config.hubName challenge.nonce
                  (primitives.principalId config.identity.publicKey) config.role
                  (primitives.accountId config.accountRoot))
  | .signed key bytes => world.sign key bytes
  | .judged index hello nowMs replies =>
      match world.sockets[index]? with
      | none => world
      | some socket =>
          { world with
            sockets := world.sockets.set index (world.judge primitives socket hello nowMs replies) }

def run (world : LoginWorld) (events : List LoginEvent) : LoginWorld :=
  events.foldl (step primitives) world

/-- What an event takes for granted: a nonce is new, a device signs nothing else as a
hello, and a signature that verifies was made before it is presented. -/
def Fair (world : LoginWorld) : LoginEvent → Prop
  | .challenged _ nonce => ∀ socket ∈ world.sockets, socket.nonce ≠ nonce.val
  | .answered _ _ => True
  | .signed key bytes => ∀ device ∈ world.devices, device.identity.publicKey = key →
      ∃ purpose message, purpose ≠ Purpose.hello ∧ bytes = purpose.label ++ message
  | .judged _ hello _ _ => ∀ key bytes,
      primitives.verifyStrict key bytes hello.signature = true → (key, bytes) ∈ world.signings

/-- The socket at this place was admitted with the nonce of this challenge. -/
def AdmittedFor (world : LoginWorld) (challenge : Challenge) (index : Nat) : Prop :=
  ∃ socket, world.sockets[index]? = some socket ∧ socket.admitted ≠ none ∧
    socket.nonce = challenge.nonce

/-- All events of a run are fair. -/
def FairRun (world : LoginWorld) : List LoginEvent → Prop
  | [] => True
  | event :: later => world.Fair primitives event ∧ (world.step primitives event).FairRun later

end LoginWorld

/-! ## Agreement -/

theorem len32_append_inj_short {field field' rest rest' : Bytes}
    (short : field'.length < 2 ^ 32 - 1)
    (same : len32 field ++ (field ++ rest) = len32 field' ++ (field' ++ rest')) :
    field = field' ∧ rest = rest' := by
  obtain ⟨lengths, fields⟩ := List.append_inj same (by simp [len32])
  have equalLengths := bigEndian_inj (by omega) (by omega) lengths
  exact List.append_inj fields (by omega)

theorem helloTranscript_inj {hub hub' : String} {nonce nonce' principal principal' account
    account' : Bytes} {role role' : Role} (shortHub : (utf8Bytes hub'.toList).length < 2 ^ 32 - 1)
    (shortNonce : nonce'.length < 2 ^ 32 - 1) (shortPrincipal : principal'.length < 2 ^ 32 - 1)
    (same : helloTranscript hub nonce principal role account =
      helloTranscript hub' nonce' principal' role' account') :
    hub = hub' ∧ nonce = nonce' ∧ principal = principal' ∧ role = role' ∧
      account = account' := by
  simp only [helloTranscript, List.append_assoc] at same
  obtain ⟨hubs, fromNonce⟩ := len32_append_inj_short shortHub same
  obtain ⟨nonces, fromPrincipal⟩ := len32_append_inj_short shortNonce fromNonce
  obtain ⟨principals, fromRole⟩ := len32_append_inj_short shortPrincipal fromPrincipal
  obtain ⟨roles, accounts⟩ := List.append_inj fromRole (by simp)
  exact ⟨String.toList_injective (utf8Bytes_injective hubs), nonces, principals,
    role_field_inj roles, accounts⟩

theorem names_of_verifyChain {primitives : KeyPrimitives} {root : Bytes}
    {chain : List Certificate} {nowMs : Nat} {verified : Verified}
    (accepted : verifyChain primitives root chain nowMs = .ok verified) :
    verified.account = primitives.accountId root ∧
      verified.principal = primitives.principalId verified.leafKey ∧
      verified.leafKey.length = 32 := by
  simp only [verifyChain, bind_eq_ok, key32_eq_ok, pure_eq_ok_iff] at accepted
  obtain ⟨_, _, _, _, _, _, _, _, _, ⟨wide, rfl⟩, rfl⟩ := accepted
  exact ⟨rfl, rfl, wide⟩

/-- A device answered this challenge, and this is what it signed. -/
structure Answered (primitives : SealPrimitives) (devices : List Config)
    (events : List LoginEvent) (key message : Bytes) (index : Nat) (config : Config)
    (challenge : Challenge) : Prop where
  found : devices[index]? = some config
  holds : config.identity.publicKey = key
  answered : .answered index challenge ∈ events
  expected : challenge.hub = config.hubName
  signed : message = helloTranscript config.hubName challenge.nonce
    (primitives.principalId key) config.role (primitives.accountId config.accountRoot)

theorem Answered.later {primitives : SealPrimitives} {devices : List Config}
    {events : List LoginEvent} {key message : Bytes} {index : Nat} {config : Config}
    {challenge : Challenge}
    (answered : Answered primitives devices events key message index config challenge)
    (more : List LoginEvent) :
    Answered primitives devices (events ++ more) key message index config challenge :=
  { answered with answered := List.mem_append_left _ answered.answered }

namespace LoginWorld

variable {primitives : SealPrimitives} {hubs : List String} {devices : List Config}
  {events : List LoginEvent} {world : LoginWorld}

/-- What holds after these events. -/
structure Kept (primitives : SealPrimitives) (hubs : List String) (devices : List Config)
    (events : List LoginEvent) (world : LoginWorld) : Prop where
  hubs_eq : world.hubs = hubs
  devices_eq : world.devices = devices
  nonces : (world.sockets.map LoginSocket.nonce).Nodup
  nonce_length : ∀ socket ∈ world.sockets, socket.nonce.length = 32
  answers : ∀ key message, (key, helloLabel ++ message) ∈ world.signings →
    (∃ device ∈ devices, device.identity.publicKey = key) →
      ∃ index config challenge,
        Answered primitives devices events key message index config challenge
  admitted : ∀ socket ∈ world.sockets, ∀ hello verified,
    socket.admitted = some (hello, verified) → ∃ hubName, hubs[socket.hub]? = some hubName ∧
      hello.principal = primitives.principalId verified.leafKey ∧
      (verified.leafKey, helloLabel ++ helloTranscript hubName socket.nonce hello.principal
        (Role.ofInt hello.role) verified.account) ∈ world.signings

theorem kept_start (primitives : SealPrimitives) (hubs : List String)
    (devices : List Config) : Kept primitives hubs devices [] ⟨hubs, devices, [], []⟩ :=
  ⟨rfl, rfl, List.nodup_nil, by simp, by simp, by simp⟩

/-- What a hub makes of a socket: it only ever fills in who was admitted, and only for what
was signed. -/
theorem judge_spec (kept : Kept primitives hubs devices events world) (index : Nat)
    (socket : LoginSocket) {hello : Hello}
    {nowMs : Nat} {replies : RegistryReplies}
    (fair : world.Fair primitives (.judged index hello nowMs replies)) :
    let after := world.judge primitives socket hello nowMs replies
    after.hub = socket.hub ∧ after.nonce = socket.nonce ∧
      (after.admitted = socket.admitted ∨ ∃ hubName verified,
        hubs[socket.hub]? = some hubName ∧ after.admitted = some (hello, verified) ∧
        hello.principal = primitives.principalId verified.leafKey ∧
        (verified.leafKey, helloLabel ++ helloTranscript hubName socket.nonce hello.principal
          (Role.ofInt hello.role) verified.account) ∈ world.signings) := by
  unfold judge
  split
  · exact ⟨rfl, rfl, .inl rfl⟩
  rw [kept.hubs_eq]
  split
  · exact ⟨rfl, rfl, .inl rfl⟩
  next hubName isHub =>
    split
    · exact ⟨rfl, rfl, .inl rfl⟩
    · next record admitted accepted =>
        obtain ⟨verified, verifies, -⟩ := authenticate_keys_eq_ok accepted
        refine ⟨rfl, rfl, .inr ⟨hubName, verified, isHub, ?_, ?_, ?_⟩⟩
        · rw [verifies]
          rfl
        · obtain ⟨-, chain, ⟨principal, -⟩, -⟩ := verifyKeys_eq_ok.mp verifies
          exact principal.trans (names_of_verifyChain chain).2.1
        · obtain ⟨-, -, -, signature⟩ := verifyKeys_eq_ok.mp verifies
          exact fair _ _ signature

theorem Kept.later (kept : Kept primitives hubs devices events world)
    (more : List LoginEvent) : Kept primitives hubs devices (events ++ more) world where
  hubs_eq := kept.hubs_eq
  devices_eq := kept.devices_eq
  nonces := kept.nonces
  nonce_length := kept.nonce_length
  answers key message signed held := by
    obtain ⟨index, config, challenge, answered⟩ := kept.answers key message signed held
    exact ⟨index, config, challenge, answered.later more⟩
  admitted := kept.admitted

/-- A device's key signs no hello but its answers. -/
theorem Kept.sign (kept : Kept primitives hubs devices events world) {key bytes : Bytes}
    (answers : ∀ message, bytes = helloLabel ++ message →
      (∃ device ∈ devices, device.identity.publicKey = key) → ∃ index config challenge,
        Answered primitives devices events key message index config challenge) :
    Kept primitives hubs devices events (world.sign key bytes) where
  hubs_eq := kept.hubs_eq
  devices_eq := kept.devices_eq
  nonces := kept.nonces
  nonce_length := kept.nonce_length
  answers key' message signed held := by
    rcases List.mem_append.mp signed with old | new
    · exact kept.answers key' message old held
    · obtain ⟨rfl, same⟩ := Prod.mk.inj (List.mem_singleton.mp new)
      exact answers message same.symm held
  admitted socket member hello verified admitted := by
    obtain ⟨hubName, isHub, principal, signed⟩ :=
      kept.admitted socket member hello verified admitted
    exact ⟨hubName, isHub, principal, List.mem_append_left _ signed⟩

/-- A socket is new, or its hub has judged its hello. -/
theorem Kept.set (kept : Kept primitives hubs devices events world) {index : Nat}
    {socket after : LoginSocket} (found : world.sockets[index]? = some socket)
    (nonce : after.nonce = socket.nonce)
    (admitted : ∀ hello verified, after.admitted = some (hello, verified) →
      ∃ hubName, hubs[after.hub]? = some hubName ∧
        hello.principal = primitives.principalId verified.leafKey ∧
        (verified.leafKey, helloLabel ++ helloTranscript hubName after.nonce hello.principal
          (Role.ofInt hello.role) verified.account) ∈ world.signings) :
    Kept primitives hubs devices events
      { world with sockets := world.sockets.set index after } where
  hubs_eq := kept.hubs_eq
  devices_eq := kept.devices_eq
  nonces := by
    obtain ⟨inside, rfl⟩ := List.getElem?_eq_some_iff.mp found
    have same : (world.sockets.set index after).map LoginSocket.nonce =
        world.sockets.map LoginSocket.nonce := by
      rw [List.map_set, nonce, ← List.getElem_map LoginSocket.nonce (h := by simpa using inside),
        List.set_getElem_self]
    rw [same]
    exact kept.nonces
  nonce_length other member := by
    rcases List.mem_or_eq_of_mem_set member with old | rfl
    · exact kept.nonce_length other old
    · rw [nonce]
      exact kept.nonce_length socket (List.mem_of_getElem? found)
  answers := kept.answers
  admitted other member hello verified is := by
    rcases List.mem_or_eq_of_mem_set member with old | rfl
    · exact kept.admitted other old hello verified is
    · exact admitted hello verified is

theorem Kept.step (kept : Kept primitives hubs devices events world) {event : LoginEvent}
    (fair : world.Fair primitives event) :
    Kept primitives hubs devices (events ++ [event]) (world.step primitives event) := by
  have after := kept.later [event]
  cases event with
  | challenged hub nonce =>
      refine { after with nonces := ?_, nonce_length := ?_, admitted := ?_ }
      · simp only [LoginWorld.step, List.map_append, List.map_singleton]
        refine List.nodup_append'.mpr ⟨kept.nonces, List.nodup_singleton _, ?_⟩
        simpa [LoginWorld.Fair] using fair
      · intro socket member
        rcases List.mem_append.mp member with old | new
        · exact kept.nonce_length socket old
        · obtain rfl := List.mem_singleton.mp new
          exact nonce.property
      · intro socket member
        rcases List.mem_append.mp member with old | new
        · exact kept.admitted socket old
        · obtain rfl := List.mem_singleton.mp new
          simp
  | answered device challenge =>
      unfold LoginWorld.step
      dsimp only
      split
      · exact after
      · next config isDevice =>
          split
          · exact after
          · next hello answer =>
              refine after.sign fun message same _ => ⟨device, config, challenge, ?_⟩
              refine ⟨kept.devices_eq ▸ isDevice, rfl, by simp, ?_,
                (List.append_cancel_left same).symm⟩
              by_contra other
              rw [Config.answer, if_neg other] at answer
              cases answer
  | signed key bytes =>
      refine after.sign fun message same held => ?_
      obtain ⟨device, member, holds⟩ := held
      obtain ⟨purpose, other, notHello, bytes⟩ := fair device (kept.devices_eq ▸ member) holds
      have labelled := @Purpose.label_append_inj .hello purpose _ _ (same.symm.trans bytes)
      exact absurd labelled.1.symm notHello
  | judged index hello nowMs replies =>
      unfold LoginWorld.step
      dsimp only
      split
      · exact after
      · next socket found =>
          obtain ⟨hub, nonce, verdict⟩ := judge_spec kept index socket fair
          refine after.set found nonce fun said verified admitted => ?_
          rw [hub, nonce]
          rcases verdict with same | ⟨hubName, fresh, isHub, made, principal, signed⟩
          · exact kept.admitted socket (List.mem_of_getElem? found) said verified
              (same ▸ admitted)
          · obtain ⟨rfl, rfl⟩ := Prod.mk.inj (Option.some.inj (made.symm.trans admitted))
            exact ⟨hubName, isHub, principal, signed⟩

theorem Kept.admittedFor_inj (kept : Kept primitives hubs devices events world)
    {challenge : Challenge} {first second : Nat}
    (isFirst : world.AdmittedFor challenge first)
    (isSecond : world.AdmittedFor challenge second) : first = second := by
  obtain ⟨socket, found, -, nonce⟩ := isFirst
  obtain ⟨other, otherFound, -, otherNonce⟩ := isSecond
  obtain ⟨inside, -⟩ := List.getElem?_eq_some_iff.mp found
  refine (List.getElem?_inj (by simpa using inside) kept.nonces).mp ?_
  simp [found, otherFound, nonce, otherNonce]

theorem Kept.run (kept : Kept primitives hubs devices events world) {later : List LoginEvent}
    (fair : world.FairRun primitives later) :
    Kept primitives hubs devices (events ++ later) (world.run primitives later) := by
  induction later generalizing events world with
  | nil => simpa [LoginWorld.run] using kept
  | cons event rest ih =>
      have onward := ih (kept.step fair.1) fair.2
      rwa [List.append_assoc] at onward

end LoginWorld

/-- **Agreement.**  Whatever challenges devices are sent and whatever hellos hubs are
sent, by whomever and in whichever order: a socket that a hub admitted under a device's
key was admitted by a hub that this device expects, for a challenge of that hub that the
device answered with the very nonce of the socket, and as the principal, in the role and
in the account that the device claims.  What a device signs for one challenge gets at most
one socket in. -/
theorem hello_agreement (primitives : SealPrimitives)
    (digests : ∀ bytes, (primitives.digest bytes).length = 32) (hubs : List String)
    (names : ∀ name ∈ hubs, (utf8Bytes name.toList).length < 2 ^ 32 - 1)
    (devices : List Config) (events : List LoginEvent)
    (fair : LoginWorld.FairRun primitives ⟨hubs, devices, [], []⟩ events) :
    let world := LoginWorld.run primitives ⟨hubs, devices, [], []⟩ events
    (∀ socket ∈ world.sockets, ∀ hello verified, socket.admitted = some (hello, verified) →
      (∃ device ∈ devices, device.identity.publicKey = verified.leafKey) →
        ∃ (index : Nat) (config : Config) (challenge : Challenge),
          devices[index]? = some config ∧ config.identity.publicKey = verified.leafKey ∧
            .answered index challenge ∈ events ∧ challenge.nonce = socket.nonce ∧
            challenge.hub = config.hubName ∧ hubs[socket.hub]? = some config.hubName ∧
            hello.principal = primitives.principalId verified.leafKey ∧
            Role.ofInt hello.role = config.role ∧
            verified.account = primitives.accountId config.accountRoot) ∧
      ∀ challenge first second, world.AdmittedFor challenge first →
        world.AdmittedFor challenge second → first = second := by
  have kept := (LoginWorld.kept_start primitives hubs devices).run fair
  rw [List.nil_append] at kept
  refine ⟨fun socket member hello verified admitted held => ?_,
    fun _ _ _ => kept.admittedFor_inj⟩
  obtain ⟨hubName, isHub, principal, signed⟩ :=
    kept.admitted socket member hello verified admitted
  obtain ⟨index, config, challenge, answered⟩ := kept.answers _ _ signed held
  have shortName := names hubName (List.mem_of_getElem? isHub)
  have shortNonce := kept.nonce_length socket member
  have shortPrincipal := digests verified.leafKey
  have same := answered.signed
  rw [principal] at same
  obtain ⟨rfl, nonce, -, role, account⟩ := helloTranscript_inj shortName (by omega)
    (by unfold KeyPrimitives.principalId; omega) same.symm
  exact ⟨index, config, challenge, answered.found, answered.holds, answered.answered, nonce,
    answered.expected, isHub, principal, role.symm, account.symm⟩

/-! ## A device that logs in -/

/-- Signatures that are the key and the bytes, and keys that are their own digests. -/
def loginPrimitives : SealPrimitives where
  decodeCertificate := decodeCertificateBody
  verifyStrict := spelledSignatures.verifyStrict
  digest bytes := (bytes ++ List.replicate 32 0).take 32
  decodeSealed _ := none
  decodeSignedCommand _ := none
  decodeCommandBody _ := none
  decodeSignedGrant _ := none
  decodeGrantBody _ := none
  isEncappedKey _ := false
  singleShotOpen _ _ _ _ := none

theorem length_spelled (key : UInt8) : (List.replicate 32 key).length = 32 :=
  List.length_replicate

/-- The holder of the key that is this byte over and over. -/
def spelledIdentity (key : UInt8) : Identity where
  publicKey := List.replicate 32 key
  sign bytes := List.replicate 32 key ++ bytes
  publicKey_length := length_spelled key

/-- A device that the root of zeros certified, and the hub that it expects. -/
def loginConfig : Config where
  hubName := "hub"
  identity := spelledIdentity 1
  agreement := List.replicate 32 1
  chain := [(spelledIdentity 0).certify (bodyOf 1 0 ["view".toList] false none)]
  accountRoot := List.replicate 32 0
  role := .client
  invite := []

def loginNonce : Bytes32 :=
  ⟨List.replicate 32 9, List.length_replicate⟩

def loginChallenge : Challenge :=
  ⟨loginNonce.val, "hub", 0⟩

/-- The hub knows the account. -/
def loginReplies : RegistryReplies :=
  ⟨.ok .known, none, .ok (), id⟩

def loginEvents : List LoginEvent := [
  .challenged 0 loginNonce,
  .answered 0 loginChallenge,
  .judged 0 (loginConfig.hello loginPrimitives loginChallenge) 1500 loginReplies]

theorem digest_loginPrimitives (bytes : Bytes) :
    (loginPrimitives.digest bytes).length = 32 := by
  simp [loginPrimitives]

theorem loginEvents_fair :
    LoginWorld.FairRun loginPrimitives ⟨["hub"], [loginConfig], [], []⟩ loginEvents := by
  refine ⟨by simp [LoginWorld.Fair], trivial, ?_, trivial⟩
  intro key bytes verifies
  obtain ⟨wide, same⟩ := of_decide_eq_true verifies
  change List.replicate 32 1 ++ _ = key ++ bytes at same
  obtain ⟨rfl, rfl⟩ := List.append_inj same (List.length_replicate.trans wide.symm)
  exact List.mem_singleton_self _

/-- The device's hello gets its socket in, and it answered the challenge of that socket. -/
theorem hello_agreement_admitted :
    ∃ socket ∈ (LoginWorld.run loginPrimitives ⟨["hub"], [loginConfig], [], []⟩
        loginEvents).sockets, socket.admitted ≠ none ∧
      ∃ (index : Nat) (challenge : Challenge),
        .answered index challenge ∈ loginEvents ∧ challenge.nonce = socket.nonce := by
  have admits : (LoginWorld.run loginPrimitives ⟨["hub"], [loginConfig], [], []⟩
      loginEvents).sockets.any (fun socket => socket.admitted.any fun admitted =>
        admitted.2.leafKey = List.replicate 32 1) = true := by
    decide +kernel
  obtain ⟨socket, member, admitted⟩ := List.any_eq_true.mp admits
  obtain ⟨⟨hello, verified⟩, is, holds⟩ := (Option.any_eq_true ..).mp admitted
  have leafKey : verified.leafKey = List.replicate 32 1 := of_decide_eq_true holds
  refine ⟨socket, member, by simp [is], ?_⟩
  obtain ⟨agreed, -⟩ := hello_agreement loginPrimitives digest_loginPrimitives ["hub"]
    (by decide) [loginConfig] loginEvents loginEvents_fair
  obtain ⟨index, config, challenge, -, -, answered, nonce, -⟩ :=
    agreed socket member hello verified is ⟨loginConfig, List.mem_singleton_self _, leafKey.symm⟩
  exact ⟨index, challenge, answered, nonce⟩

end WindowMlHub
