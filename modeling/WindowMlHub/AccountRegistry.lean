import WindowMlHub.FileSystems
import WindowMlHub.HashTables
import WindowMlHub.IpAddresses
import WindowMlHub.WireFrames

/-!
# The registry of accounts

`registry.rs` of the hub: one file per registered account, one per outstanding
invite and one per invite that was used, in a state directory.  `admit` and
`create_invite` are programs over the operations of the file system, so that any
number of connections, and the operator's command beside them, can be interleaved
operation by operation.  The window of an open hub is kept in memory, and a slot
is taken under its lock.

The hash of an invite comes from a cryptographic library and is a parameter.
-/

namespace WindowMlHub

open InterleavedPrograms FileSystems TextFormats HashTables IpAddresses

/-- How a hub admits an account it has not seen before. -/
inductive Registration
  | invite
  /-- `Open` -/
  | anyone
  deriving DecidableEq, Repr

/-- How fast an open hub admits new accounts. -/
structure OpenLimits where
  perAddress : Nat := 3
  total : Nat := 60
  windowMs : Nat := 3600000
  deriving DecidableEq, Repr

/-- Why an account was not admitted. -/
inductive Refusal
  | inviteRequired
  | inviteInvalid
  | rateLimited
  | storage (message : String)
  deriving DecidableEq, Repr

/-- How an account got in. -/
inductive Admission
  | known
  | registered
  deriving DecidableEq, Repr

/-- The largest `u64`. -/
def maxU64 : Nat := 2 ^ 64 - 1

/-- The registrations of an open hub within the current window. -/
structure RegistrationWindow where
  startedMs : Nat := 0
  total : Nat := 0
  byAddress : HashMap IpAddr Nat := ∅

/-- A folder of the state directory. -/
inductive StateFolder
  | accounts
  | invites
  | invitesUsed
  deriving DecidableEq, Repr

structure StatePath where
  folder : StateFolder
  name : Text
  deriving DecidableEq, Repr

/-- The registry's settings. -/
structure Registry where
  mode : Registration
  limits : OpenLimits := {}

/-- What the registry's calls share: the state directory, and the window. -/
structure RegistryState where
  files : Files StatePath := {}
  window : RegistrationWindow := {}

/-- An operation on what the registry's calls share. -/
inductive RegistryOp
  | file (op : FileOp StatePath)
  | takeOpenSlot (address : IpAddr) (nowMs : Nat)

@[reducible]
def RegistryOp.Reply : RegistryOp → Type
  | file op => op.Reply
  | takeOpenSlot _ _ => Except Refusal Unit

abbrev RegistryProg := Prog RegistryOp RegistryOp.Reply

abbrev RegistryEvent := Event RegistryOp RegistryOp.Reply

/-- `take_open_slot`, on the window it locked. -/
def RegistrationWindow.takeOpenSlot (limits : OpenLimits)
    (window : RegistrationWindow) (address : IpAddr) (nowMs : Nat) :
    RegistrationWindow × Except Refusal Unit :=
  let windowMs := min limits.windowMs maxU64
  let window :=
    if nowMs - window.startedMs ≥ windowMs then
      { startedMs := nowMs }
    else
      window
  let mine := (window.byAddress.lookup address).getD 0
  if mine ≥ limits.perAddress ∨ window.total ≥ limits.total then
    (window, .error .rateLimited)
  else
    ({ window with
      byAddress := window.byAddress.insert address (mine + 1)
      total := window.total + 1 }, .ok ())

/-- What an operation may reply and do. -/
def RegistryOp.Performs (limits : OpenLimits) : (op : RegistryOp) →
    RegistryState → op.Reply → RegistryState → Prop
  | .file op, state, reply, state' =>
      op.Performs state.files reply state'.files ∧
        state'.window = state.window
  | .takeOpenSlot address nowMs, state, reply, state' =>
      state.window.takeOpenSlot limits address nowMs =
          (state'.window, reply) ∧
        state'.files = state.files

/-! ## Writing -/

/-- One operation on files. -/
def onFile (op : FileOp StatePath) : RegistryProg op.Reply :=
  Prog.perform (RegistryOp.file op)

/-- `write_all`: write until everything is accepted.  An interrupted write is
tried again at once, so it is not one of the replies. -/
def writeAll (file : Nat) : Nat → Text → RegistryProg (Except FileSystems.IoError Unit)
  | 0, _ => .done (.ok ())
  | fuel + 1, text =>
      if text = [] then
        .done (.ok ())
      else do
        match ← onFile (.write file text) with
        | .ok 0 => return .error ⟨.other, "failed to write whole buffer"⟩
        | .ok accepted => writeAll file fuel (text.drop accepted)
        | .error error => return .error error

/-- `write_fmt`: the pieces of a formatted text one after another. -/
def writeFmt (file : Nat) : List Text → RegistryProg (Except FileSystems.IoError Unit)
  | [] => .done (.ok ())
  | piece :: rest => do
      match ← writeAll file piece.length piece with
      | .ok _ => writeFmt file rest
      | .error error => return .error error

/-! ## The calls -/

/-- `account_path`. -/
def accountPath (account : Bytes) : StatePath :=
  ⟨.accounts, hex account⟩

def storage (error : FileSystems.IoError) : Refusal :=
  .storage error.message

section Calls

variable (digest : Bytes → Bytes)

/-- Where an invite is kept. -/
def invitePath (invite : Bytes) : StatePath :=
  ⟨.invites, hex (digest invite)⟩

/-- The marker that an invite was used. -/
def usedPath (invite : Bytes) : StatePath :=
  ⟨.invitesUsed, hex (digest invite)⟩

/-- The expiry an invite's file gives. -/
def parseExpiry (text : Text) : Nat :=
  (parseUnsigned maxU64 (trim text)).getD 0

def consumeInvite (invite : Bytes) (nowMs : Nat) :
    RegistryProg (Except Refusal Unit) := do
  match ← onFile (.readToString (invitePath digest invite)) with
  | .error error =>
      if error.kind = .notFound then
        return .error .inviteInvalid
      else
        return .error (storage error)
  | .ok text =>
      -- the exclusive create is the claim
      match ← onFile (.createNew (usedPath digest invite)) with
      | .error error =>
          if error.kind = .alreadyExists then
            return .error .inviteInvalid
          else
            return .error (storage error)
      | .ok file => do
          let _ ← writeFmt file
            ["claimed_ms=".toList, decimal nowMs, ['\n']]
          let _ ← onFile (.removeFile (invitePath digest invite))
          if nowMs > parseExpiry text then
            return .error .inviteInvalid
          else
            return .ok ()

/-- The part of `admit` that depends on the mode. -/
def mayRegister (mode : Registration) (invite : Bytes) (address : IpAddr)
    (nowMs : Nat) : RegistryProg (Except Refusal Unit) :=
  match mode with
  | .invite =>
      if invite = [] then
        .done (.error .inviteRequired)
      else
        consumeInvite digest invite nowMs
  | .anyone => Prog.perform (RegistryOp.takeOpenSlot address nowMs)

/-- How an account was registered, as its file says. -/
def Registration.how : Registration → Text
  | .invite => "invite".toList
  | .anyone => "open".toList

/-- The last part of `admit`. -/
def register (mode : Registration) (account : Bytes) (nowMs : Nat) :
    RegistryProg (Except Refusal Admission) := do
  match ← onFile (.createNew (accountPath account)) with
  | .ok file =>
      match ← writeFmt file ["registered_ms=".toList, decimal nowMs,
          "\nvia=".toList, mode.how, ['\n']] with
      | .ok _ => return .ok .registered
      | .error error => return .error (storage error)
  | .error error =>
      -- two devices of one new account racing: the other one registered it
      if error.kind = .alreadyExists then
        return .ok .known
      else
        return .error (storage error)

/-- `admit`: register an account if it is new and the mode allows it. -/
def admitAccount (registry : Registry) (account invite : Bytes) (address : IpAddr)
    (nowMs : Nat) : RegistryProg (Except Refusal Admission) := do
  let known : Bool ← onFile (.probe (accountPath account))
  if known then
    return .ok .known
  else
    match ← mayRegister digest registry.mode invite address nowMs with
    | .error refusal => return .error refusal
    | .ok _ => register registry.mode account nowMs

/-- The invite that is handed out for these random bytes. -/
def inviteToken (raw : Bytes) : Text :=
  "wmlhub-invite-".toList ++ hex raw

/-- When an invite expires. -/
def inviteExpiry (ttlMs nowMs : Nat) : Nat :=
  min (nowMs + min ttlMs maxU64) maxU64

/-- Create an invite, given what creating the folder and drawing random bytes
answered. -/
def createInvite (folder : Except FileSystems.IoError Unit)
    (random : Except FileSystems.IoError Bytes) (ttlMs nowMs : Nat) :
    RegistryProg (Except FileSystems.IoError Text) :=
  match folder, random with
  | .error error, _ => .done (.error error)
  | .ok _, .error error => .done (.error error)
  | .ok _, .ok raw => do
      let token := inviteToken raw
      match ← onFile (.createNew (invitePath digest (asciiBytes token))) with
      | .error error => return .error error
      | .ok file =>
          match ← writeFmt file
              [decimal (inviteExpiry ttlMs nowMs), ['\n']] with
          | .ok _ => return .ok token
          | .error error => return .error error

/-- A call of the registry. -/
inductive RegistryCall
  | admitAccount (account invite : Bytes) (address : IpAddr) (nowMs : Nat)
  | createInvite (folder : Except FileSystems.IoError Unit)
      (random : Except FileSystems.IoError Bytes) (ttlMs nowMs : Nat)

/-- What a call of the registry returned. -/
inductive RegistryResult
  | admitted (result : Except Refusal Admission)
  | invited (result : Except FileSystems.IoError Text)

/-- The program of a call. -/
def RegistryCall.program (registry : Registry) :
    RegistryCall → RegistryProg RegistryResult
  | .admitAccount account invite address nowMs => do
      let result ← WindowMlHub.admitAccount digest registry account invite address nowMs
      return .admitted result
  | .createInvite folder random ttlMs nowMs => do
      let result ← WindowMlHub.createInvite digest folder random ttlMs nowMs
      return .invited result

end Calls

end WindowMlHub
