import WindowMlHub.ConnectorServing

/-!
# Pairing again

A state directory through the pairings of a connector and its runs.  A pairing replaces what
the one before gave, because a connector belongs to one account at a time.  What the runs
have written down is kept: the list of the account that they applied, and whom they saw
revoking.

A start reads the list back as one of the account that it is paired with now.  So what is
left can be used exactly if the account never changes once something is written down, and if
every list was signed while its signer's certificates were valid.
-/

namespace WindowMlHub

open CheckedConditions TextFormats

/-- What an event tells a running connector about revocations: its new view, with the list
that it comes from, if it is one. -/
structure Learning where
  list : Option RevocationList
  revocations : Revocations

/-- What the runs of an account have learned of it. -/
structure Learned where
  lists : List Revoked := []
  revokers : Finset Bytes32 := ∅
  armings : List UInt64 := []

/-- What is new in this view. -/
def Learned.add (learned : Learned) (before after : Revocations) : Learned where
  lists := after.held.toList ++ learned.lists
  revokers := learned.revokers ∪ (after.revokers \ before.revokers)
  armings := (if before.armedAt = none then after.armedAt.toList else []) ++ learned.armings

/-- The files once so many of those that the view is written to are written, in the order in
which a connector writes them. -/
def StateFiles.written (formats : FileFormats) (files : StateFiles) (learning : Learning) :
    Nat → StateFiles
  | 0 => files
  | count + 1 =>
      match learning.list with
      | none => files.writeRevokers learning.revocations
      | some list =>
          let files := files.writeRevocationList formats list
          if count = 0 then files else files.writeRevokers learning.revocations

namespace BoxServing

variable (primitives : ServingPrimitives) (formats : FileFormats)

/-- The view once a principal of the account came online, if it is a revoker that was not
followed. -/
def newRevoker (serving : BoxServing) (seen : Presence) (nowMs : UInt64) :
    Option Revocations :=
  if seen.online = false ∨ seen.chain = [] then
    none
  else
    match verifyChain primitives.toKeyPrimitives serving.revocations.root seen.chain
        nowMs.toNat with
    | .error _ => none
    | .ok verified =>
        if verified.leaf.mayRevoke = false ∨ seen.principal ≠ verified.principal then
          none
        else
          let (revocations, isNew) := serving.revocations.sawRevoker
            (primitives.lists.digest32 verified.leafKey) nowMs
          if isNew then some revocations else none

/-- The list on a revoker's channel that is applied, and the view with it. -/
def newList (serving : BoxServing) (stream : StreamRef) (payload : Bytes) (nowMs : UInt64) :
    Option (RevocationList × Revocations) :=
  match Bytes32.ofBytes? stream.publisher with
  | none => none
  | some publisher =>
      if publisher ∉ serving.revocations.revokers ∨
          stream.channel ≠ serving.revocationsChannel primitives publisher then
        none
      else
        match formats.decodeList payload with
        | none => none
        | some list =>
            match serving.revocations.apply primitives.lists list nowMs with
            | .error _ => none
            | .ok (revocations, _) => some (list, revocations)

/-- What `run` serves with, when it has loaded its keys, what a pairing gave it and what it
knew of revocations. -/
def starting (identity : Identity) (key : Bytes) (paired : PairedWith)
    (revocations : Revocations) (files : StateFiles) : BoxServing :=
  let me := primitives.principalId identity.publicKey
  { publishing := .new identity key ⟨
      channelOf primitives paired.channelKey "box.edges".toList me,
      channelOf primitives paired.channelKey "box.samples".toList me⟩
    chain := paired.chain
    channelKey := paired.channelKey
    revocations
    files }

/-- What a connector learns in a turn. -/
def learns (serving : BoxServing) (nowMs : UInt64) : Awaited → Option Learning
  | .hub (.ok (.presence seen)) =>
      (serving.newRevoker primitives seen nowMs).map fun revocations => ⟨none, revocations⟩
  | .hub (.ok (.published stream _ _ _ _ payload)) =>
      (serving.newList primitives formats stream payload nowMs).map
        fun (list, revocations) => ⟨some list, revocations⟩
  | _ => none

end BoxServing

/-- How many files are written one after another. -/
def Circumstances.written (now : Circumstances) : Nat :=
  if now.writes 0 then (if now.writes 1 then 2 else 1) else 0

/-- What happens to a state directory. -/
inductive StateEvent
  /-- `wmlbox pair` completed, with or without `--again` -/
  | pair (again : Bool) (paired : PairedWith)
  /-- `wmlbox run`, with the keys of the connector and the key of its streams -/
  | start (identity : Identity) (key : Bytes) (nowMs : UInt64)
  /-- the running connector goes through its loop once -/
  | turn (now : Circumstances) (awaited : Awaited)
  /-- it is stopped in the middle of a turn, after so many files were written -/
  | stop (now : Circumstances) (awaited : Awaited) (count : Nat)

/-- A state directory, with the connector that runs in it; and, which is written nowhere,
what the runs have learned of the account that it is paired with. -/
structure StateDirectory where
  files : StateFiles := {}
  running : Option BoxServing := none
  learned : Learned := {}

namespace StateDirectory

variable (primitives : ServingPrimitives) (formats : FileFormats)

/-- `pair`, once its exchange is complete. -/
def pair (directory : StateDirectory) (again : Bool) (paired : PairedWith) :
    StateDirectory :=
  match directory.files.loadPaired formats with
  | .error _ => directory
  | .ok before =>
      if before.isSome = true ∧ again = false then
        directory
      else {
        files := directory.files.writePaired formats paired
        running := none
        learned :=
          if before.map (·.accountRoot) = some paired.accountRoot then directory.learned
          else {} }

/-- What a run begins with: `loaded`, and `revocations`. -/
def ready (directory : StateDirectory) (nowMs : UInt64) : Option (PairedWith × Revocations) :=
  match directory.files.loadPaired formats with
  | .ok (some paired) =>
      if paired.accountRoot.length = 32 ∧ paired.channelKey.length = 32 ∧
          (verifyChain primitives.toKeyPrimitives paired.accountRoot paired.chain
            nowMs.toNat).isOk = true then
        (directory.files.loadRevocations primitives.lists formats
          paired.accountRoot).toOption.map fun revocations => (paired, revocations)
      else
        none
  | _ => none

/-- The start of `run`. -/
def start (directory : StateDirectory) (identity : Identity) (key : Bytes) (nowMs : UInt64) :
    StateDirectory where
  files := directory.files
  running := (directory.ready primitives formats nowMs).map fun (paired, revocations) =>
    .starting primitives identity key paired revocations directory.files
  learned := directory.learned

/-- What is left when the running connector stops in a turn, after so many writes. -/
def stop (directory : StateDirectory) (serving : BoxServing) (nowMs : UInt64)
    (awaited : Awaited) (count : Nat) : StateDirectory :=
  match serving.learns primitives formats nowMs awaited with
  | none => { directory with running := none }
  | some learning => {
      files := directory.files.written formats learning count
      running := none
      learned := directory.learned.add serving.revocations learning.revocations }

/-- One turn of the running connector.  A call that returns an error ends it. -/
def turn (directory : StateDirectory) (serving : BoxServing) (now : Circumstances)
    (awaited : Awaited) : StateDirectory :=
  match serving.turn primitives formats now awaited with
  | .error _ => directory.stop primitives formats serving now.nowMs awaited now.written
  | .ok (after, _) => {
      files := after.files
      running := some after
      learned :=
        match serving.learns primitives formats now.nowMs awaited with
        | none => directory.learned
        | some learning => directory.learned.add serving.revocations learning.revocations }

/-- What becomes of a state directory. -/
def step (directory : StateDirectory) : StateEvent → StateDirectory
  | .pair again paired => directory.pair formats again paired
  | .start identity key nowMs => directory.start primitives formats identity key nowMs
  | .turn now awaited =>
      match directory.running with
      | none => directory
      | some serving => directory.turn primitives formats serving now awaited
  | .stop now awaited count =>
      match directory.running with
      | none => directory
      | some serving => directory.stop primitives formats serving now.nowMs awaited count

/-- One event after another. -/
def run (directory : StateDirectory) (events : List StateEvent) : StateDirectory :=
  events.foldl (fun now event => now.step primitives formats event) directory

/-- What is known of revocations can be read for the account that the connector is paired
with, and is nothing but what its runs have learned of that account. -/
def Usable (directory : StateDirectory) : Prop :=
  ∀ paired, directory.files.loadPaired formats = .ok (some paired) →
    ∃ revocations, directory.files.loadRevocations primitives.lists formats
        paired.accountRoot = .ok revocations ∧
      (∀ held ∈ revocations.held, held ∈ directory.learned.lists) ∧
      revocations.revokers ⊆ directory.learned.revokers ∧
      ∀ ms ∈ revocations.armedAt, ms ∈ directory.learned.armings

/-- The list that is written in a turn, if any, was signed in its chain's window. -/
def WritesSigned (serving : BoxServing) (nowMs : UInt64) (awaited : Awaited) : Prop :=
  ∀ learning ∈ serving.learns primitives formats nowMs awaited, ∀ list ∈ learning.list,
    SignedInWindow primitives.lists list

/-- The account changes only while nothing is written down, and every list that is written
down was signed in its chain's window. -/
def Clean (directory : StateDirectory) : StateEvent → Prop
  | .pair again paired => ∀ before, directory.files.loadPaired formats = .ok (some before) →
      again = true → before.accountRoot ≠ paired.accountRoot →
        directory.files.revocations = none ∧ directory.files.revokers = none
  | .start _ _ _ => True
  | .turn now awaited => ∀ serving ∈ directory.running, now.writes 0 = true →
      WritesSigned primitives formats serving now.nowMs awaited
  | .stop now awaited count => ∀ serving ∈ directory.running, 0 < count →
      WritesSigned primitives formats serving now.nowMs awaited

end StateDirectory

/-! ## What a turn writes -/

namespace BoxServing

variable {primitives : ServingPrimitives} {formats : FileFormats}
  {serving after : BoxServing} {now : Circumstances} {deeds : List Deed}
  {awaited : Awaited} {learning : Learning} {nowMs : UInt64}

/-- What a turn that went through did with what it learned. -/
structure TookIn (formats : FileFormats) (serving : BoxServing) (now : Circumstances)
    (learned : Option Learning) (after : BoxServing) : Prop where
  revocations_eq : after.revocations = learned.elim serving.revocations Learning.revocations
  files_eq : after.files =
    learned.elim serving.files fun learning => serving.files.written formats learning 2
  written : ∀ learning ∈ learned, now.writes 0 = true

theorem tookIn_nothing (revocations : after.revocations = serving.revocations)
    (files : after.files = serving.files) : TookIn formats serving now none after :=
  ⟨revocations, files, by simp⟩

theorem sawRevoker_known {revocations : Revocations} {principal : Bytes32}
    (known : (revocations.sawRevoker principal nowMs).2 = false) :
    (revocations.sawRevoker principal nowMs).1 = revocations := by
  obtain ⟨root, held, revokers, armedAt⟩ := revocations
  simp only [Revocations.sawRevoker, Bool.or_eq_false_iff, decide_eq_false_iff_not, not_not]
    at known ⊢
  obtain ⟨member, armed⟩ := known
  cases armedAt with
  | none => cases armed
  | some ms => simp [Finset.insert_eq_of_mem member]

theorem tookIn_command {asked : Opened}
    (ran : serving.command primitives asked now = .ok (after, deeds)) :
    TookIn formats serving now none after := by
  unfold command at ran
  split at ran
  · unfold refuse at ran
    dsimp only at ran
    split at ran
    · simp only [bind_eq_ok, ensure_eq_ok, exists_const, pure_eq_ok_iff] at ran
      obtain ⟨sealed, -, -, same⟩ := ran
      cases same
      exact tookIn_nothing rfl rfl
    · cases ran
      exact tookIn_nothing rfl rfl
  · split at ran
    · cases ran
    · cases ran
      exact tookIn_nothing rfl rfl
    · simp only [bind_eq_ok, ensure_eq_ok, exists_const, pure_eq_ok_iff] at ran
      obtain ⟨-, -, same⟩ := ran
      cases same
      exact tookIn_nothing rfl rfl

theorem tookIn_presence {seen : Presence}
    (ran : serving.presence primitives seen now = .ok (after, deeds)) :
    TookIn formats serving now
      ((serving.newRevoker primitives seen now.nowMs).map fun revocations =>
        ⟨none, revocations⟩) after := by
  unfold presence at ran
  unfold newRevoker
  by_cases silent : seen.online = false ∨ seen.chain = []
  · rw [if_pos silent] at ran ⊢
    cases ran
    exact tookIn_nothing rfl rfl
  · rw [if_neg silent] at ran ⊢
    cases checked : verifyChain primitives.toKeyPrimitives serving.revocations.root seen.chain
        now.nowMs.toNat with
    | error refused =>
        simp only [checked] at ran ⊢
        cases ran
        exact tookIn_nothing rfl rfl
    | ok verified =>
        simp only [checked] at ran ⊢
        by_cases unable : verified.leaf.mayRevoke = false ∨ seen.principal ≠ verified.principal
        · rw [if_pos unable] at ran ⊢
          cases ran
          exact tookIn_nothing rfl rfl
        · rw [if_neg unable] at ran ⊢
          split at ran
          · next isNew =>
              simp only [bind_eq_ok, ensure_eq_ok, exists_const, pure_eq_ok_iff] at ran
              obtain ⟨written, followed, -, same⟩ := ran
              cases same
              rw [if_pos isNew]
              exact ⟨rfl, rfl, fun _ _ => written⟩
          · next known =>
              cases ran
              rw [if_neg known]
              exact tookIn_nothing (sawRevoker_known (Bool.not_eq_true _ ▸ known)) rfl

theorem tookIn_list {stream : StreamRef} {payload : Bytes}
    (ran : serving.list primitives formats stream payload now = .ok (after, deeds)) :
    TookIn formats serving now
      ((serving.newList primitives formats stream payload now.nowMs).map
        fun (list, revocations) => ⟨some list, revocations⟩) after := by
  unfold BoxServing.list at ran
  unfold newList
  cases found : Bytes32.ofBytes? stream.publisher with
  | none =>
      simp only [found] at ran ⊢
      cases ran
      exact tookIn_nothing rfl rfl
  | some publisher =>
      simp only [found] at ran ⊢
      by_cases elsewhere : publisher ∉ serving.revocations.revokers ∨
          stream.channel ≠ serving.revocationsChannel primitives publisher
      · rw [if_pos elsewhere] at ran ⊢
        cases ran
        exact tookIn_nothing rfl rfl
      · rw [if_neg elsewhere] at ran ⊢
        cases decoded : formats.decodeList payload with
        | none =>
            simp only [decoded] at ran ⊢
            cases ran
            exact tookIn_nothing rfl rfl
        | some list =>
            simp only [decoded] at ran ⊢
            cases applied : serving.revocations.apply primitives.lists list now.nowMs with
            | error refused =>
                simp only [applied] at ran ⊢
                cases ran
                exact tookIn_nothing rfl rfl
            | ok taken =>
                obtain ⟨revocations, rotate⟩ := taken
                simp only [applied] at ran ⊢
                simp only [keep, bind_eq_ok, ensure_eq_ok, exists_const] at ran
                obtain ⟨written, -, rest⟩ := ran
                split at rest
                · simp only [bind_eq_ok, require_eq_ok, pure_eq_ok_iff] at rest
                  obtain ⟨key, -, same⟩ := rest
                  cases same
                  exact ⟨rfl, rfl, fun _ _ => written⟩
                · cases rest
                  exact ⟨rfl, rfl, fun _ _ => written⟩

/-- A turn that goes through writes down what it learned. -/
theorem tookIn_turn
    (ran : serving.turn primitives formats now awaited = .ok (after, deeds)) :
    TookIn formats serving now (serving.learns primitives formats now.nowMs awaited) after := by
  cases awaited with
  | frame handed =>
      cases handed with
      | none => cases ran
      | some given =>
          obtain ⟨rfl, -⟩ := publish_eq_ok ran
          exact tookIn_nothing rfl rfl
  | hub event =>
      cases event with
      | error error => cases ran
      | ok event =>
          cases event with
          | command asked => exact tookIn_command ran
          | presence seen => exact tookIn_presence ran
          | published stream _ _ _ _ payload => exact tookIn_list ran
          | error notice =>
              simp only [turn, BoxServing.event] at ran
              split at ran
              · cases ran
                exact tookIn_nothing rfl rfl
              · cases ran
          | _ =>
              cases ran
              exact tookIn_nothing rfl rfl

/-- The floor of the view that is learned stays armed or is armed now, its revokers stay
known, and a list in it verified. -/
theorem learns_eq_some (learned : serving.learns primitives formats nowMs awaited = some learning) :
    learning.revocations.armedAt = some (serving.revocations.armedAt.getD nowMs) ∧
      learning.revocations.root = serving.revocations.root ∧
      serving.revocations.revokers ⊆ learning.revocations.revokers ∧
      ∀ list ∈ learning.list, ∃ payload revoked,
        (∃ stream kind sender seq epoch,
          awaited = .hub (.ok (.published stream kind sender seq epoch payload))) ∧
        formats.decodeList payload = some list ∧
        verifyRevocations primitives.lists serving.revocations.root list nowMs
          serving.revocations.held = .ok revoked ∧
        learning.revocations.held = some revoked := by
  unfold learns at learned
  split at learned
  · obtain ⟨revocations, found, rfl⟩ := Option.map_eq_some_iff.mp learned
    unfold newRevoker at found
    split at found
    · cases found
    · split at found
      · cases found
      · split at found
        · cases found
        · dsimp only [Revocations.sawRevoker] at found
          split at found
          · cases found
            exact ⟨rfl, rfl, Finset.subset_insert _ _, by simp⟩
          · cases found
  · next stream _ _ _ _ payload =>
      obtain ⟨⟨list, revocations⟩, found, rfl⟩ := Option.map_eq_some_iff.mp learned
      unfold newList at found
      split at found
      · cases found
      · split at found
        · cases found
        · split at found
          · cases found
          · next decoded =>
              split at found
              · cases found
              · next applied =>
                  cases found
                  simp only [Revocations.apply, bind_eq_ok, pure_eq_ok_iff, Prod.mk.injEq]
                    at applied
                  obtain ⟨revoked, verified, rfl, -⟩ := applied
                  refine ⟨rfl, rfl, Finset.subset_insert _ _, fun other same => ?_⟩
                  cases same
                  exact ⟨payload, revoked, ⟨_, _, _, _, _, rfl⟩, decoded, verified, rfl⟩
  · cases learned

end BoxServing

/-! ## What the files hold -/

section Files

variable {primitives : RevocationPrimitives} {formats : FileFormats} {files : StateFiles}
  {learning : Learning} {count : Nat}

theorem paired_written : (files.written formats learning count).paired = files.paired := by
  unfold StateFiles.written
  split
  · rfl
  · split
    · rfl
    · dsimp only
      split <;> rfl

theorem loadPaired_written :
    (files.written formats learning count).loadPaired formats = files.loadPaired formats := by
  simp only [StateFiles.loadPaired, paired_written]

theorem revocations_written :
    (files.written formats learning count).revocations = files.revocations ∨
      ∃ list ∈ learning.list, 0 < count ∧
        (files.written formats learning count).revocations = some (formats.encodeList list) := by
  unfold StateFiles.written
  split
  · exact .inl rfl
  · next count =>
      split
      · exact .inl rfl
      · next list isList =>
          refine .inr ⟨list, isList, Nat.succ_pos count, ?_⟩
          dsimp only
          split <;> rfl

theorem revocations_written_of_pos {list : RevocationList} (isList : learning.list = some list)
    (positive : 0 < count) :
    (files.written formats learning count).revocations = some (formats.encodeList list) := by
  obtain ⟨count, rfl⟩ := Nat.exists_eq_succ_of_ne_zero positive.ne'
  simp only [StateFiles.written, isList]
  split <;> rfl

theorem revokers_written :
    (files.written formats learning count).revokers = files.revokers ∨
      (files.written formats learning count).revokers =
        some (utf8Bytes (revokersText learning.revocations)) := by
  unfold StateFiles.written
  split
  · exact .inl rfl
  · split
    · exact .inr rfl
    · dsimp only
      split
      · exact .inl rfl
      · exact .inr rfl

theorem option_mapM_eq_ok {α β ε : Type} {read : α → Except ε β} {found : Option α}
    {result : Option β} :
    found.mapM read = .ok result ↔
      (found = none ∧ result = none) ∨
        ∃ value answer, found = some value ∧ read value = .ok answer ∧ result = some answer := by
  cases found with
  | none => simp [Option.mapM, pure, Except.pure, eq_comm]
  | some value =>
      cases answered : read value <;>
        simp [Option.mapM, Functor.map, Except.map, answered, eq_comm]

theorem loadRevocations_eq_ok {root : Bytes} {result : Revocations} :
    files.loadRevocations primitives formats root = .ok result ↔
      files.revocations.mapM (StateFiles.readList primitives formats root) = .ok result.held ∧
        ∃ known, files.revokers.mapM readRevokers = .ok known ∧
          result.root = root ∧ result.revokers = (known.getD (∅, none)).1 ∧
          result.armedAt = (known.getD (∅, none)).2 := by
  simp only [StateFiles.loadRevocations, bind_eq_ok, pure_eq_ok_iff]
  constructor
  · rintro ⟨held, readHeld, known, readKnown, rfl⟩
    exact ⟨readHeld, known, readKnown, rfl, rfl, rfl⟩
  · rintro ⟨readHeld, known, readKnown, rfl, revokers, armedAt⟩
    refine ⟨result.held, readHeld, known, readKnown, ?_⟩
    rw [← revokers, ← armedAt]

end Files

/-! ## Directories -/

namespace StateDirectory

section Parts

variable (primitives : ServingPrimitives) (formats : FileFormats)

/-- The list that is kept is read back for this root, and was learned. -/
def ListKnown (directory : StateDirectory) (root : Bytes) : Prop :=
  ∀ bytes ∈ directory.files.revocations, ∃ held ∈ directory.learned.lists,
    StateFiles.readList primitives.lists formats root bytes = .ok held

/-- So are whoever was seen revoking, and since when the floor is armed. -/
def RevokersKnown (directory : StateDirectory) : Prop :=
  ∀ bytes ∈ directory.files.revokers, ∃ known, readRevokers bytes = .ok known ∧
    known.1 ⊆ directory.learned.revokers ∧ ∀ ms ∈ known.2, ms ∈ directory.learned.armings

/-- What is in the files was written by this code, and what runs has loaded it. -/
structure Sound (directory : StateDirectory) : Prop where
  paired : ∀ bytes ∈ directory.files.paired, ∃ paired, formats.decodePaired bytes = some paired
  unpaired : directory.files.paired = none →
    directory.files.revocations = none ∧ directory.files.revokers = none
  armed : ∀ bytes ∈ directory.files.revokers, ∃ written : Revocations,
    bytes = utf8Bytes (revokersText written) ∧ written.armedAt ≠ none
  running : ∀ serving ∈ directory.running, serving.files = directory.files ∧
    ∃ paired, directory.files.loadPaired formats = .ok (some paired) ∧
      serving.revocations.root = paired.accountRoot

/-- What runs knows nothing but what was learned. -/
def Knowing (directory : StateDirectory) : Prop :=
  ∀ serving ∈ directory.running,
    serving.revocations.revokers ⊆ directory.learned.revokers ∧
      ∀ ms ∈ serving.revocations.armedAt, ms ∈ directory.learned.armings

end Parts

variable {primitives : ServingPrimitives} {formats : FileFormats}
  {directory : StateDirectory} {serving : BoxServing} {learning : Learning}

/-- A directory is usable if both files are. -/
theorem usable_iff : directory.Usable primitives formats ↔
    ∀ paired, directory.files.loadPaired formats = .ok (some paired) →
      directory.ListKnown primitives formats paired.accountRoot ∧ directory.RevokersKnown := by
  unfold Usable
  refine forall_congr' fun paired => imp_congr_right fun _ => ?_
  constructor
  · rintro ⟨result, loaded, heldKnown, revokersKnown, armingKnown⟩
    obtain ⟨readHeld, known, readKnown, -, revokers, armedAt⟩ := loadRevocations_eq_ok.mp loaded
    constructor
    · intro bytes isBytes
      rcases option_mapM_eq_ok.mp readHeld with ⟨missing, -⟩ | ⟨found, held, isFound, reads, same⟩
      · rw [missing] at isBytes
        cases isBytes
      · obtain rfl := Option.some.inj (isFound.symm.trans isBytes)
        exact ⟨held, heldKnown held same, reads⟩
    · intro bytes isBytes
      rcases option_mapM_eq_ok.mp readKnown with ⟨missing, -⟩ | ⟨found, kept, isFound, reads, rfl⟩
      · rw [missing] at isBytes
        cases isBytes
      · obtain rfl := Option.some.inj (isFound.symm.trans isBytes)
        rw [Option.getD_some] at revokers armedAt
        exact ⟨kept, reads, revokers ▸ revokersKnown, armedAt ▸ armingKnown⟩
  · rintro ⟨listKnown, revokersKnown⟩
    have list : ∃ held, directory.files.revocations.mapM
        (StateFiles.readList primitives.lists formats paired.accountRoot) = .ok held ∧
          ∀ revoked ∈ held, revoked ∈ directory.learned.lists := by
      cases isBytes : directory.files.revocations with
      | none => exact ⟨none, rfl, by simp⟩
      | some bytes =>
          obtain ⟨held, learned, reads⟩ := listKnown bytes isBytes
          refine ⟨some held, option_mapM_eq_ok.mpr (.inr ⟨bytes, held, rfl, reads, rfl⟩), ?_⟩
          rintro revoked ⟨⟩
          exact learned
    have revokers : ∃ known, directory.files.revokers.mapM readRevokers = .ok known ∧
        (known.getD (∅, none)).1 ⊆ directory.learned.revokers ∧
          ∀ ms ∈ (known.getD (∅, none)).2, ms ∈ directory.learned.armings := by
      cases isBytes : directory.files.revokers with
      | none => exact ⟨none, rfl, by simp⟩
      | some bytes =>
          obtain ⟨known, reads, within⟩ := revokersKnown bytes isBytes
          exact ⟨some known, option_mapM_eq_ok.mpr (.inr ⟨bytes, known, rfl, reads, rfl⟩), within⟩
    obtain ⟨held, readHeld, heldKnown⟩ := list
    obtain ⟨known, readKnown, principals, armings⟩ := revokers
    exact ⟨⟨paired.accountRoot, held, (known.getD (∅, none)).1, (known.getD (∅, none)).2⟩,
      loadRevocations_eq_ok.mpr ⟨readHeld, known, readKnown, rfl, rfl, rfl⟩, heldKnown,
      principals, armings⟩

/-- What is left of a directory by a turn, or by a part of one, in which so many files were
written. -/
structure Left (primitives : ServingPrimitives) (formats : FileFormats)
    (directory : StateDirectory) (serving : BoxServing) (nowMs : UInt64) (awaited : Awaited)
    (count : Nat) (after : StateDirectory) : Prop where
  files_eq : after.files = (serving.learns primitives formats nowMs awaited).elim
    directory.files fun learning => directory.files.written formats learning count
  learned_eq : after.learned = (serving.learns primitives formats nowMs awaited).elim
    directory.learned fun learning =>
      directory.learned.add serving.revocations learning.revocations
  running : ∀ next ∈ after.running, next.files = after.files ∧
    next.revocations = (serving.learns primitives formats nowMs awaited).elim
      serving.revocations Learning.revocations

variable {nowMs : UInt64} {now : Circumstances} {awaited : Awaited} {count : Nat}
  {after : StateDirectory} {event : StateEvent}

theorem left_stop : Left primitives formats directory serving nowMs awaited count
    (directory.stop primitives formats serving nowMs awaited count) := by
  unfold stop
  cases learns : serving.learns primitives formats nowMs awaited with
  | none => exact ⟨by rw [learns]; rfl, by rw [learns]; rfl, by simp⟩
  | some learning => exact ⟨by rw [learns]; rfl, by rw [learns]; rfl, by simp⟩

theorem written_pos : 0 < now.written ↔ now.writes 0 = true := by
  unfold Circumstances.written
  split
  · split <;> simp [*]
  · simp [*]

theorem left_turn (isFiles : serving.files = directory.files) :
    ∃ count, (∀ learning ∈ serving.learns primitives formats now.nowMs awaited,
        (0 < count ↔ now.writes 0 = true)) ∧
      Left primitives formats directory serving now.nowMs awaited count
        (directory.turn primitives formats serving now awaited) := by
  unfold turn
  cases turned : serving.turn primitives formats now awaited with
  | error error => exact ⟨now.written, fun _ _ => written_pos, left_stop⟩
  | ok answer =>
      obtain ⟨after, deeds⟩ := answer
      have took := BoxServing.tookIn_turn turned
      refine ⟨2, fun learning learns => by simp [took.written learning learns], ?_, ?_, ?_⟩
      · rw [← isFiles]
        exact took.files_eq
      · dsimp only
        cases serving.learns primitives formats now.nowMs awaited <;> rfl
      · rintro next ⟨⟩
        exact ⟨rfl, took.revocations_eq⟩

theorem ready_eq_some {found : PairedWith × Revocations}
    (ready : directory.ready primitives formats nowMs = some found) :
    directory.files.loadPaired formats = .ok (some found.1) ∧
      directory.files.loadRevocations primitives.lists formats found.1.accountRoot =
        .ok found.2 := by
  unfold StateDirectory.ready at ready
  split at ready
  · next paired isPaired =>
      split at ready
      · obtain ⟨revocations, loaded, rfl⟩ := Option.map_eq_some_iff.mp ready
        refine ⟨isPaired, ?_⟩
        cases answer : directory.files.loadRevocations primitives.lists formats
            paired.accountRoot with
        | error error =>
            rw [answer] at loaded
            cases loaded
        | ok found =>
            rw [answer] at loaded
            cases loaded
            rfl
      · cases ready
  · cases ready

/-! ### What is always so -/

theorem Sound.loadPaired (sound : directory.Sound formats) :
    ∃ paired, directory.files.loadPaired formats = .ok paired := by
  unfold StateFiles.loadPaired
  cases isPaired : directory.files.paired with
  | none => exact ⟨none, rfl⟩
  | some bytes =>
      obtain ⟨paired, decoded⟩ := sound.paired bytes isPaired
      exact ⟨some paired, option_mapM_eq_ok.mpr
        (.inr ⟨bytes, paired, rfl, require_eq_ok.mpr decoded, rfl⟩)⟩

/-- A directory stays sound through a turn. -/
theorem Sound.left (sound : directory.Sound formats) (isRunning : serving ∈ directory.running)
    (left : Left primitives formats directory serving nowMs awaited count after) :
    after.Sound formats := by
  obtain ⟨isFiles, paired, isPaired, root⟩ := sound.running serving isRunning
  obtain ⟨files, learned, running⟩ := left
  have isKept : directory.files.paired ≠ none := by
    intro missing
    rw [StateFiles.loadPaired, missing] at isPaired
    cases isPaired
  cases learns : serving.learns primitives formats nowMs awaited with
  | none =>
      rw [learns] at files running
      simp only [Option.elim_none] at files running
      refine ⟨files ▸ sound.paired, files ▸ sound.unpaired, files ▸ sound.armed,
        fun next isNext => ?_⟩
      obtain ⟨nextFiles, same⟩ := running next isNext
      exact ⟨nextFiles, paired, files ▸ isPaired, same ▸ root⟩
  | some learning =>
      rw [learns] at files running
      simp only [Option.elim_some] at files running
      obtain ⟨armed, sameRoot, -, -⟩ := BoxServing.learns_eq_some learns
      refine ⟨?_, ?_, ?_, fun next isNext => ?_⟩
      · rw [files, paired_written]
        exact sound.paired
      · rw [files, paired_written]
        exact fun missing => (isKept missing).elim
      · intro bytes isBytes
        rw [files] at isBytes
        rcases @revokers_written formats directory.files learning count with same | new
        · exact sound.armed bytes (same ▸ isBytes)
        · rw [new] at isBytes
          cases isBytes
          exact ⟨learning.revocations, rfl, by simp [armed]⟩
      · obtain ⟨nextFiles, same⟩ := running next isNext
        refine ⟨nextFiles, paired, ?_, ?_⟩
        · rw [files, loadPaired_written]
          exact isPaired
        · rw [same, sameRoot]
          exact root

end StateDirectory

/-- What a pairing gave is read back. -/
def StateEvent.Reads (formats : FileFormats) : StateEvent → Prop
  | .pair _ paired => formats.decodePaired (formats.encodePaired paired) = some paired
  | _ => True

namespace StateDirectory

variable {primitives : ServingPrimitives} {formats : FileFormats}
  {directory : StateDirectory} {serving : BoxServing} {event : StateEvent}

theorem loadPaired_writePaired {files : StateFiles} {paired : PairedWith}
    (reads : formats.decodePaired (formats.encodePaired paired) = some paired) :
    (files.writePaired formats paired).loadPaired formats = .ok (some paired) :=
  option_mapM_eq_ok.mpr (.inr ⟨_, paired, rfl, require_eq_ok.mpr reads, rfl⟩)

theorem Sound.pair (sound : directory.Sound formats) {again : Bool} {paired : PairedWith}
    (reads : formats.decodePaired (formats.encodePaired paired) = some paired) :
    (directory.pair formats again paired).Sound formats := by
  unfold StateDirectory.pair
  split
  · exact sound
  · split
    · exact sound
    · refine ⟨?_, fun missing => (by cases missing), sound.armed, by simp⟩
      rintro bytes ⟨⟩
      exact ⟨paired, reads⟩

theorem Sound.start (sound : directory.Sound formats) (identity : Identity) (key : Bytes)
    (nowMs : UInt64) : (directory.start primitives formats identity key nowMs).Sound formats := by
  refine ⟨sound.paired, sound.unpaired, sound.armed, fun serving isRunning => ?_⟩
  obtain ⟨⟨paired, revocations⟩, ready, rfl⟩ := Option.map_eq_some_iff.mp isRunning
  obtain ⟨isPaired, loaded⟩ := ready_eq_some ready
  obtain ⟨-, -, -, root, -⟩ := loadRevocations_eq_ok.mp loaded
  exact ⟨rfl, paired, isPaired, root⟩

/-- A directory stays sound. -/
theorem Sound.step (sound : directory.Sound formats) (reads : event.Reads formats) :
    (directory.step primitives formats event).Sound formats := by
  cases event with
  | pair again paired => exact sound.pair reads
  | start identity key nowMs => exact sound.start identity key nowMs
  | turn now awaited =>
      cases isRunning : directory.running with
      | none => simpa [StateDirectory.step, isRunning] using sound
      | some serving =>
          obtain ⟨count, -, left⟩ := @left_turn primitives formats directory serving now awaited
            (sound.running serving isRunning).1
          simpa [StateDirectory.step, isRunning] using sound.left isRunning left
  | stop now awaited count =>
      cases isRunning : directory.running with
      | none => simpa [StateDirectory.step, isRunning] using sound
      | some serving =>
          have left := @left_stop primitives formats directory serving now.nowMs awaited count
          simpa [StateDirectory.step, isRunning] using sound.left isRunning left

theorem sound_empty : Sound formats {} :=
  ⟨by simp, fun _ => ⟨rfl, rfl⟩, by simp, by simp⟩

/-! ### What is learned -/

/-- What a turn leaves is known, if what it wrote was signed in its window. -/
theorem known_left {nowMs : UInt64} {awaited : Awaited} {count : Nat} {after : StateDirectory}
    (readsLists : ∀ payload list, formats.decodeList payload = some list →
      formats.decodeList (formats.encodeList list) = some list)
    (sound : directory.Sound formats) (isRunning : serving ∈ directory.running)
    (usable : directory.Usable primitives formats) (knowing : directory.Knowing)
    (left : Left primitives formats directory serving nowMs awaited count after)
    (signed : 0 < count → WritesSigned primitives formats serving nowMs awaited) :
    after.Usable primitives formats ∧ after.Knowing := by
  obtain ⟨isFiles, paired, isPaired, root⟩ := sound.running serving isRunning
  obtain ⟨servingRevokers, servingArmings⟩ := knowing serving isRunning
  obtain ⟨files, learned, running⟩ := left
  rw [usable_iff] at usable ⊢
  obtain ⟨listKnown, revokersKnown⟩ := usable paired isPaired
  cases learns : serving.learns primitives formats nowMs awaited with
  | none =>
      rw [learns] at files learned running
      simp only [Option.elim_none] at files learned running
      refine ⟨fun other isOther => ?_, fun next isNext => ?_⟩
      · rw [files, isPaired] at isOther
        cases isOther
        simp only [ListKnown, RevokersKnown, files, learned]
        exact ⟨listKnown, revokersKnown⟩
      · rw [(running next isNext).2, learned]
        exact ⟨servingRevokers, servingArmings⟩
  | some learning =>
      rw [learns] at files learned running
      simp only [Option.elim_some] at files learned running
      obtain ⟨armed, -, -, verified⟩ := BoxServing.learns_eq_some learns
      have revokers : learning.revocations.revokers ⊆ after.learned.revokers := by
        rw [learned]
        intro principal member
        by_cases before : principal ∈ serving.revocations.revokers
        · exact Finset.mem_union_left _ (servingRevokers before)
        · exact Finset.mem_union_right _ (Finset.mem_sdiff.mpr ⟨member, before⟩)
      have armings : ∀ ms ∈ learning.revocations.armedAt, ms ∈ after.learned.armings := by
        intro ms isMs
        rw [learned]
        cases before : serving.revocations.armedAt with
        | none => exact List.mem_append_left _ (by simp [before, Option.mem_def.mp isMs])
        | some earlier =>
            rw [armed, before] at isMs
            cases isMs
            exact List.mem_append_right _ (servingArmings earlier before)
      refine ⟨fun other isOther => ?_, fun next isNext => ?_⟩
      · rw [files, loadPaired_written, isPaired] at isOther
        cases isOther
        constructor
        · intro bytes isBytes
          rw [files] at isBytes
          rcases @revocations_written formats directory.files learning count with
            same | ⟨list, isList, positive, new⟩
          · obtain ⟨held, member, reads⟩ := listKnown bytes (same ▸ isBytes)
            refine ⟨held, ?_, reads⟩
            rw [learned]
            exact List.mem_append_right _ member
          · obtain ⟨payload, revoked, -, decoded, accepted, held⟩ := verified list isList
            rw [new] at isBytes
            cases isBytes
            refine ⟨revoked, ?_, ?_⟩
            · rw [learned]
              exact List.mem_append_left _ (by simp [held])
            · rw [root] at accepted
              exact (readList_written (readsLists payload list decoded) accepted).mpr
                ⟨rfl, signed positive learning learns list isList⟩
        · intro bytes isBytes
          rw [files] at isBytes
          rcases @revokers_written formats directory.files learning count with same | new
          · obtain ⟨known, reads, within, armedWithin⟩ := revokersKnown bytes (same ▸ isBytes)
            rw [learned]
            exact ⟨known, reads, within.trans Finset.subset_union_left,
              fun ms isMs => List.mem_append_right _ (armedWithin ms isMs)⟩
          · rw [new] at isBytes
            cases isBytes
            exact ⟨_, readRevokers_written learning.revocations, revokers, armings⟩
      · rw [(running next isNext).2]
        exact ⟨revokers, armings⟩

/-- A list that was written is read back only if it was signed in its window. -/
theorem signed_of_usable {nowMs : UInt64} {awaited : Awaited} {count : Nat}
    {after : StateDirectory}
    (readsLists : ∀ payload list, formats.decodeList payload = some list →
      formats.decodeList (formats.encodeList list) = some list)
    (sound : directory.Sound formats) (isRunning : serving ∈ directory.running)
    (left : Left primitives formats directory serving nowMs awaited count after)
    (usable : after.Usable primitives formats) (positive : 0 < count) :
    WritesSigned primitives formats serving nowMs awaited := by
  intro learning learns list isList
  obtain ⟨isFiles, paired, isPaired, root⟩ := sound.running serving isRunning
  obtain ⟨-, -, -, verified⟩ := BoxServing.learns_eq_some learns
  obtain ⟨payload, revoked, -, decoded, accepted, -⟩ := verified list isList
  have files := left.files_eq
  rw [Option.mem_def.mp learns, Option.elim_some] at files
  have stillPaired : after.files.loadPaired formats = .ok (some paired) := by
    rw [files, loadPaired_written, isPaired]
  have isBytes : after.files.revocations = some (formats.encodeList list) := by
    rw [files, revocations_written_of_pos isList positive]
  obtain ⟨held, -, reads⟩ := (usable_iff.mp usable paired stillPaired).1 _ isBytes
  rw [root] at accepted
  exact ((readList_written (readsLists payload list decoded) accepted).mp reads).2

/-- A pairing with another account leaves nothing usable of what is written down. -/
theorem nothing_of_usable {again : Bool} {paired before : PairedWith}
    (sound : directory.Sound formats)
    (reads : formats.decodePaired (formats.encodePaired paired) = some paired)
    (usable : (directory.pair formats again paired).Usable primitives formats)
    (isBefore : directory.files.loadPaired formats = .ok (some before)) (isAgain : again = true)
    (other : before.accountRoot ≠ paired.accountRoot) :
    directory.files.revocations = none ∧ directory.files.revokers = none := by
  have pairs : directory.pair formats again paired =
      { files := directory.files.writePaired formats paired, running := none, learned := {} } := by
    simp [pair, isBefore, isAgain, other]
  rw [pairs, usable_iff] at usable
  obtain ⟨listKnown, revokersKnown⟩ := usable paired (loadPaired_writePaired reads)
  constructor
  · rw [Option.eq_none_iff_forall_not_mem]
    intro bytes isBytes
    obtain ⟨held, member, -⟩ := listKnown bytes isBytes
    cases member
  · rw [Option.eq_none_iff_forall_not_mem]
    intro bytes isBytes
    obtain ⟨written, rfl, armed⟩ := sound.armed bytes isBytes
    obtain ⟨known, readKnown, -, armings⟩ := revokersKnown _ isBytes
    rw [readRevokers_written] at readKnown
    cases readKnown
    obtain ⟨ms, isMs⟩ := Option.ne_none_iff_exists'.mp armed
    cases armings ms isMs

/-- A pairing keeps what is known usable, if the account stays or nothing is written down. -/
theorem known_pair {again : Bool} {paired : PairedWith} (sound : directory.Sound formats)
    (reads : formats.decodePaired (formats.encodePaired paired) = some paired)
    (usable : directory.Usable primitives formats) (knowing : directory.Knowing)
    (clean : directory.Clean primitives formats (.pair again paired)) :
    (directory.pair formats again paired).Usable primitives formats ∧
      (directory.pair formats again paired).Knowing := by
  obtain ⟨before, isBefore⟩ := sound.loadPaired
  by_cases refused : before.isSome = true ∧ again = false
  · have stays : directory.pair formats again paired = directory := by
      simp only [pair, isBefore, refused, and_self, if_true]
    rw [stays]
    exact ⟨usable, knowing⟩
  have pairs : directory.pair formats again paired = {
      files := directory.files.writePaired formats paired
      running := none
      learned :=
        if before.map (·.accountRoot) = some paired.accountRoot then directory.learned
        else {} } := by
    simp only [pair, isBefore, refused, if_false]
  rw [pairs, usable_iff]
  refine ⟨fun found isFound => ?_, by simp [Knowing]⟩
  obtain rfl : paired = found := by
    have same := isFound.symm.trans (loadPaired_writePaired reads)
    cases same
    rfl
  by_cases same : before.map (·.accountRoot) = some paired.accountRoot
  · obtain ⟨old, rfl, sameRoot⟩ := Option.map_eq_some_iff.mp same
    simp only [same, if_true]
    rw [← sameRoot]
    exact usable_iff.mp usable old isBefore
  · have nothing : directory.files.revocations = none ∧ directory.files.revokers = none := by
      cases before with
      | none =>
          refine sound.unpaired ?_
          rcases option_mapM_eq_ok.mp isBefore with ⟨missing, -⟩ | ⟨_, _, _, _, absurdity⟩
          · exact missing
          · cases absurdity
      | some old =>
          refine clean old isBefore ?_ fun equal => same (by simp [equal])
          simpa using refused
    constructor
    · intro bytes isBytes
      simp [StateFiles.writePaired, nothing] at isBytes
    · intro bytes isBytes
      simp [StateFiles.writePaired, nothing] at isBytes

theorem known_start (usable : directory.Usable primitives formats) (identity : Identity)
    (key : Bytes) (nowMs : UInt64) :
    (directory.start primitives formats identity key nowMs).Usable primitives formats ∧
      (directory.start primitives formats identity key nowMs).Knowing := by
  refine ⟨usable, fun serving isRunning => ?_⟩
  obtain ⟨⟨paired, revocations⟩, ready, rfl⟩ := Option.map_eq_some_iff.mp isRunning
  obtain ⟨isPaired, loaded⟩ := ready_eq_some ready
  obtain ⟨same, again, -, revokers, armings⟩ := usable paired isPaired
  obtain rfl := Except.ok.inj (again.symm.trans loaded)
  exact ⟨revokers, armings⟩

/-- A clean event keeps what is known usable. -/
theorem known_step
    (readsLists : ∀ payload list, formats.decodeList payload = some list →
      formats.decodeList (formats.encodeList list) = some list)
    (sound : directory.Sound formats) (reads : event.Reads formats)
    (usable : directory.Usable primitives formats) (knowing : directory.Knowing)
    (clean : directory.Clean primitives formats event) :
    (directory.step primitives formats event).Usable primitives formats ∧
      (directory.step primitives formats event).Knowing := by
  cases event with
  | pair again paired => exact known_pair sound reads usable knowing clean
  | start identity key nowMs => exact known_start usable identity key nowMs
  | turn now awaited =>
      cases isRunning : directory.running with
      | none => simpa [step, isRunning] using And.intro usable knowing
      | some serving =>
          obtain ⟨count, wrote, left⟩ := @left_turn primitives formats directory serving now
            awaited (sound.running serving isRunning).1
          have signed : 0 < count → WritesSigned primitives formats serving now.nowMs awaited :=
            fun positive learning learns =>
              clean serving isRunning ((wrote learning learns).mp positive) learning learns
          simpa [step, isRunning] using
            known_left readsLists sound isRunning usable knowing left signed
  | stop now awaited count =>
      cases isRunning : directory.running with
      | none => simpa [step, isRunning] using And.intro usable knowing
      | some serving =>
          have left := @left_stop primitives formats directory serving now.nowMs awaited count
          simpa [step, isRunning] using
            known_left readsLists sound isRunning usable knowing left (clean serving isRunning)

/-- An event that leaves a usable directory was clean. -/
theorem clean_of_usable
    (readsLists : ∀ payload list, formats.decodeList payload = some list →
      formats.decodeList (formats.encodeList list) = some list)
    (sound : directory.Sound formats) (reads : event.Reads formats)
    (usable : (directory.step primitives formats event).Usable primitives formats) :
    directory.Clean primitives formats event := by
  cases event with
  | pair again paired =>
      exact fun before isBefore isAgain => nothing_of_usable sound reads usable isBefore isAgain
  | start identity key nowMs => trivial
  | turn now awaited =>
      intro serving isRunning wrote
      obtain ⟨count, counted, left⟩ := @left_turn primitives formats directory serving now
        awaited (sound.running serving isRunning).1
      have isUsable : (directory.turn primitives formats serving now awaited).Usable primitives
          formats := by
        simpa [step, Option.mem_def.mp isRunning] using usable
      intro learning learns
      exact signed_of_usable readsLists sound isRunning left isUsable
        ((counted learning learns).mpr wrote) learning learns
  | stop now awaited count =>
      intro serving isRunning positive
      have left := @left_stop primitives formats directory serving now.nowMs awaited count
      refine signed_of_usable readsLists sound isRunning left ?_ positive
      simpa [step, Option.mem_def.mp isRunning] using usable

theorem run_concat (events : List StateEvent) (event : StateEvent) :
    directory.run primitives formats (events ++ [event]) =
      (directory.run primitives formats events).step primitives formats event := by
  simp [run, List.foldl_append]

theorem Sound.run (sound : directory.Sound formats) {events : List StateEvent}
    (reads : ∀ event ∈ events, event.Reads formats) :
    (directory.run primitives formats events).Sound formats := by
  induction events using List.reverseRecOn with
  | nil => exact sound
  | append_singleton earlier event ih =>
      rw [run_concat]
      exact (ih fun other member => reads other (List.mem_append_left _ member)).step
        (reads event (by simp))

end StateDirectory

/-- A state directory after any pairings, starts, turns and stops in the middle of a turn:
what is known of revocations can always be read for the account it is paired with, and holds
nothing of another one, exactly if the account changes only while nothing is written down and
every list that is written down was signed in its chain's window. -/
theorem repaired_directory_usable_iff (primitives : ServingPrimitives) (formats : FileFormats)
    (readsLists : ∀ payload list, formats.decodeList payload = some list →
      formats.decodeList (formats.encodeList list) = some list)
    (events : List StateEvent) (reads : ∀ event ∈ events, event.Reads formats) :
    (∀ earlier later, events = earlier ++ later →
        (StateDirectory.run primitives formats {} earlier).Usable primitives formats) ↔
      ∀ earlier event later, events = earlier ++ event :: later →
        (StateDirectory.run primitives formats {} earlier).Clean primitives formats event := by
  have sound (earlier later : List StateEvent) (split : events = earlier ++ later) :
      (StateDirectory.run primitives formats {} earlier).Sound formats :=
    StateDirectory.sound_empty.run fun event member =>
      reads event (split ▸ List.mem_append_left _ member)
  constructor
  · intro usable earlier event later split
    have after : events = (earlier ++ [event]) ++ later := by simp [split]
    have isUsable := usable _ _ after
    rw [StateDirectory.run_concat] at isUsable
    exact StateDirectory.clean_of_usable readsLists (sound _ _ split)
      (reads event (by simp [split])) isUsable
  · intro clean
    have known (earlier : List StateEvent) : ∀ later, events = earlier ++ later →
        (StateDirectory.run primitives formats {} earlier).Usable primitives formats ∧
          (StateDirectory.run primitives formats {} earlier).Knowing := by
      induction earlier using List.reverseRecOn with
      | nil =>
          refine fun _ _ => ⟨fun paired isPaired => ?_, ?_⟩
          · cases isPaired
          · simp [StateDirectory.run, StateDirectory.Knowing]
      | append_singleton earlier event ih =>
          intro later split
          have before : events = earlier ++ event :: later := by simp [split]
          obtain ⟨usable, knowing⟩ := ih _ before
          rw [StateDirectory.run_concat]
          exact StateDirectory.known_step readsLists (sound _ _ before)
            (reads event (by simp [split])) usable knowing (clean _ _ _ before)
    exact fun earlier later split => (known earlier later split).1

/-- Lists are written as their bodies and pairings as their accounts, with one certificate
and one channel key for all. -/
def pairingFormats : FileFormats where
  encodeList list := list.body
  decodeList bytes := some ⟨bytes, [], [⟨[], []⟩]⟩
  encodePaired paired := paired.accountRoot
  decodePaired bytes := some ⟨[⟨[], []⟩], bytes, List.replicate 32 3⟩

/-- What a pairing with the account of this root gives. -/
def pairedWith (root : UInt8) : PairedWith :=
  ⟨[⟨[], []⟩], List.replicate 32 root, List.replicate 32 3⟩

/-- A connector of the account `[1, …]` follows the revoker and applies its list, and is then
paired with this account. -/
def repairEvents (root : UInt8) : List StateEvent := [
  .pair false (pairedWith 1),
  .start (identityOf 6) (List.replicate 32 7) 1600,
  .turn (drawing []) (.hub (.ok (.presence ⟨List.replicate 32 2, 1, true, [⟨[], []⟩]⟩))),
  .turn (drawing (List.replicate 32 8)) (.hub (.ok (.published
    ⟨List.replicate 32 2, List.replicate 16 3⟩ .sessionEvents [] 1 1 [15]))),
  .pair true (pairedWith root)]

/-- Paired with another account, the connector cannot read what it knew of the first. -/
theorem repaired_directory_unusable :
    (StateDirectory.run servedPrimitives pairingFormats {} (repairEvents 2)).files.loadPaired
        pairingFormats = .ok (some (pairedWith 2)) ∧
      (StateDirectory.run servedPrimitives pairingFormats {}
        (repairEvents 2)).files.loadRevocations servedPrimitives.lists pairingFormats
          (pairedWith 2).accountRoot = .error (.noLongerVerifies .wrongAccount) ∧
      ¬ (StateDirectory.run servedPrimitives pairingFormats {} (repairEvents 2)).Usable
        servedPrimitives pairingFormats := by
  have isPaired : (StateDirectory.run servedPrimitives pairingFormats {}
      (repairEvents 2)).files.loadPaired pairingFormats = .ok (some (pairedWith 2)) := by
    decide +kernel
  have refused : (StateDirectory.run servedPrimitives pairingFormats {}
      (repairEvents 2)).files.loadRevocations servedPrimitives.lists pairingFormats
        (pairedWith 2).accountRoot = .error (.noLongerVerifies .wrongAccount) := by
    decide +kernel
  refine ⟨isPaired, refused, fun usable => ?_⟩
  obtain ⟨revocations, loaded, -⟩ := usable _ isPaired
  rw [refused] at loaded
  cases loaded

theorem StateDirectory.clean_cons {primitives : ServingPrimitives} {formats : FileFormats}
    {directory : StateDirectory} {first : StateEvent} {rest : List StateEvent}
    (clean : directory.Clean primitives formats first)
    (later : ∀ earlier event later, rest = earlier ++ event :: later →
      ((directory.step primitives formats first).run primitives formats earlier).Clean
        primitives formats event) :
    ∀ earlier event later, first :: rest = earlier ++ event :: later →
      (directory.run primitives formats earlier).Clean primitives formats event := by
  intro earlier event after split
  cases earlier with
  | nil =>
      cases split
      exact clean
  | cons head tail =>
      cases split
      exact later tail event after rfl

/-- Paired with the same account once more, it can. -/
theorem repaired_directory_usable_same :
    (StateDirectory.run servedPrimitives pairingFormats {} (repairEvents 1)).Usable
      servedPrimitives pairingFormats := by
  have readsLists (payload : Bytes) (list : RevocationList)
      (decoded : pairingFormats.decodeList payload = some list) :
      pairingFormats.decodeList (pairingFormats.encodeList list) = some list := by
    cases decoded
    rfl
  have signed : SignedInWindow servedPrimitives.lists (plainList 15) := by
    rintro body ⟨⟩ cert member found decoded
    obtain rfl := List.mem_singleton.mp member
    obtain rfl : revokerBody = found := Except.ok.inj decoded
    decide
  refine (repaired_directory_usable_iff servedPrimitives pairingFormats readsLists
    (repairEvents 1) ?_).mpr ?_ (repairEvents 1) [] (by simp)
  · simp [repairEvents, StateEvent.Reads, pairingFormats, pairedWith]
  · refine StateDirectory.clean_cons ?_ (StateDirectory.clean_cons trivial
      (StateDirectory.clean_cons ?_ (StateDirectory.clean_cons ?_
        (StateDirectory.clean_cons ?_ (by simp)))))
    · intro before isBefore
      cases isBefore
    · intro serving _ _ learning learns list isList
      obtain ⟨revocations, -, rfl⟩ := Option.map_eq_some_iff.mp learns
      cases isList
    · intro serving _ _ learning learns list isList
      obtain ⟨-, -, -, verified⟩ := BoxServing.learns_eq_some learns
      obtain ⟨payload, revoked, ⟨_, _, _, _, _, same⟩, decoded, -⟩ := verified list isList
      cases same
      cases decoded
      exact signed
    · intro before isBefore _ other
      refine absurd ?_ other
      have isPaired : (StateDirectory.run servedPrimitives pairingFormats {}
          ((repairEvents 1).take 4)).files.loadPaired pairingFormats =
            .ok (some (pairedWith 1)) := by
        decide +kernel
      cases isBefore.symm.trans isPaired
      rfl

end WindowMlHub
