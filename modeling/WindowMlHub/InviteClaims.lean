import WindowMlHub.AccountRegistry

/-!
# An invite admits one account

Whatever calls of the registry run at once, and however their operations on the
state directory are interleaved, every account file was created by a call that had
read an invite not yet expired and had then created the invite's marker.  Nobody
removes a marker, so it is created once, and no two accounts share an invite.

What a reader finds in an invite's file may still be half written; a part of an
expiry is an earlier one.
-/

namespace WindowMlHub

open InterleavedPrograms FileSystems TextFormats HashTables IpAddresses

/-! ## The operations on files -/

/-- The operation on files that an event is, if it is one. -/
def fileEvent? : RegistryEvent → Option (FileEvent StatePath)
  | ⟨.file op, reply⟩ => some ⟨op, reply⟩
  | ⟨.takeOpenSlot _ _, _⟩ => none

def fileEvents (events : List RegistryEvent) : List (FileEvent StatePath) :=
  events.filterMap fileEvent?

@[simp]
theorem fileEvents_append (earlier later : List RegistryEvent) :
    fileEvents (earlier ++ later) = fileEvents earlier ++ fileEvents later :=
  List.filterMap_append

@[simp]
theorem fileEvents_single (op : FileOp StatePath) (reply : op.Reply) :
    fileEvents [⟨.file op, reply⟩] = [⟨op, reply⟩] :=
  rfl

theorem mem_fileEvents {events : List RegistryEvent} {op : FileOp StatePath}
    {reply : op.Reply} :
    ⟨op, reply⟩ ∈ fileEvents events ↔ ⟨.file op, reply⟩ ∈ events := by
  simp only [fileEvents, List.mem_filterMap]
  constructor
  · rintro ⟨⟨found, answer⟩, member, same⟩
    cases found with
    | file other =>
        cases Option.some.inj same
        exact member
    | takeOpenSlot address nowMs => cases same
  · intro member
    exact ⟨_, member, rfl⟩

theorem performs_files {limits : OpenLimits} {start state : RegistryState}
    {events : List RegistryEvent}
    (performed : Performs (RegistryOp.Performs limits) start events state) :
    Performs FileOp.Performs start.files (fileEvents events) state.files := by
  induction performed with
  | start => exact .start
  | @snoc events state state' op reply earlier performed ih =>
      rw [fileEvents_append]
      cases op with
      | file op => exact .snoc ih performed.1
      | takeOpenSlot address nowMs =>
          obtain ⟨_, same⟩ := performed
          have none : fileEvents [⟨.takeOpenSlot address nowMs, reply⟩] = [] :=
            rfl
          rw [same, none, List.append_nil]
          exact ih

/-! ## What one call does -/

section Guards

variable (digest : Bytes → Bytes)

/-- The line that a call writes to an invite's file. -/
def RegistryCall.inviteLine : RegistryCall → Text
  | .admitAccount .. => []
  | .createInvite _ _ ttlMs nowMs => decimalLine (inviteExpiry ttlMs nowMs)

/-- What each operation of a call is preceded by, in a hub that admits by
invite. -/
def RegistryCall.Allowed (call : RegistryCall) (past : List RegistryEvent) :
    RegistryOp → Prop
  | .file (.createNew ⟨.accounts, name⟩) =>
      ∃ account invite address nowMs text marker,
        call = .admitAccount account invite address nowMs ∧ name = hex account ∧
        ⟨.file (.readToString (invitePath digest invite)), .ok text⟩ ∈ past ∧
        ⟨.file (.createNew (usedPath digest invite)), .ok marker⟩ ∈ past ∧
        nowMs ≤ parseExpiry text
  | .file (.createNew ⟨.invites, name⟩) =>
      ∃ folder raw ttlMs nowMs,
        call = .createInvite folder (.ok raw) ttlMs nowMs ∧
        name = hex (digest (asciiBytes (inviteToken raw)))
  | .file (.removeFile path) => path.folder = .invites
  | .file (.write file text) =>
      ∃ path, ⟨.file (.createNew path), .ok file⟩ ∈ past ∧
        (path.folder = .invites →
          written file (fileEvents past) ++ text <+: call.inviteLine)
  | _ => True

variable {digest} {call : RegistryCall} {past : List RegistryEvent}
  {path : StatePath} {file : Nat}

theorem created_last (past : List RegistryEvent) (path : StatePath)
    (file : Nat) : ⟨.file (.createNew path), .ok file⟩ ∈
      past ++ [⟨.file (.createNew path), .ok file⟩] :=
  List.mem_append_right _ (List.mem_singleton.mpr rfl)

theorem writeAll_succ {fuel : Nat} {text : Text} (some : text ≠ []) :
    writeAll file (fuel + 1) text =
      .call (.file (.write file text)) fun reply =>
        match (reply : Except FileSystems.IoError Nat) with
        | .ok 0 => .done (.error ⟨.other, "failed to write whole buffer"⟩)
        | .ok accepted => writeAll file fuel (text.drop accepted)
        | .error error => .done (.error error) := by
  rw [writeAll, if_neg some]
  rfl

/-- A text that was written through is in the file. -/
theorem writeAll_written {fuel : Nat} {text : Text} {events : List RegistryEvent}
    (enough : text.length ≤ fuel)
    (steps : Prog.Steps (writeAll file fuel text) events (.done (.ok ()))) :
    written file (fileEvents events) = text := by
  induction fuel generalizing text events with
  | zero =>
      have empty : text = [] := List.length_eq_zero_iff.mp (by omega)
      cases steps
      rw [empty]
      rfl
  | succ fuel ih =>
      by_cases empty : text = []
      · rw [writeAll, if_pos empty] at steps
        cases steps
        rw [empty]
        rfl
      · rw [writeAll_succ empty] at steps
        cases steps with
        | @call _ _ reply events _ later =>
            rw [← List.singleton_append, fileEvents_append, fileEvents_single,
              written_append, written_single]
            match reply, later with
            | .ok 0, later => cases later
            | .ok (count + 1), later =>
                have rest := ih (by rw [List.length_drop]; omega) later
                rw [rest]
                simp [accepted]
            | .error error, later => cases later

theorem guards_writeAll {fuel : Nat} {text : Text}
    (opened : ⟨.file (.createNew path), .ok file⟩ ∈ past)
    (fits : path.folder = .invites →
      written file (fileEvents past) ++ text <+: call.inviteLine) :
    Prog.Guards (call.Allowed digest) past (writeAll file fuel text) := by
  induction fuel generalizing past text with
  | zero => exact Prog.guards_done _
  | succ fuel ih =>
      by_cases empty : text = []
      · rw [writeAll, if_pos empty]
        exact Prog.guards_done _
      · rw [writeAll_succ empty]
        refine ⟨⟨path, opened, fits⟩, fun reply => ?_⟩
        match reply with
        | .ok 0 => exact Prog.guards_done _
        | .ok (count + 1) =>
            refine ih (List.mem_append_left _ opened) fun isInvite => ?_
            rw [fileEvents_append, fileEvents_single, written_append,
              written_single]
            simpa [accepted] using fits isInvite
        | .error error => exact Prog.guards_done _

theorem guards_writeFmt {pieces : List Text}
    (opened : ⟨.file (.createNew path), .ok file⟩ ∈ past)
    (fits : path.folder = .invites →
      written file (fileEvents past) ++ pieces.flatten <+: call.inviteLine) :
    Prog.Guards (call.Allowed digest) past (writeFmt file pieces) := by
  induction pieces generalizing past with
  | nil => exact Prog.guards_done _
  | cons piece rest ih =>
      rw [writeFmt]
      refine Prog.Guards.bind (guards_writeAll opened fun isInvite => ?_) ?_
      · refine List.IsPrefix.trans ?_ (fits isInvite)
        rw [List.flatten_cons, ← List.append_assoc]
        exact List.prefix_append _ _
      · intro events result steps
        match result, steps with
        | .ok (), steps =>
            refine ih (List.mem_append_left _ opened) fun isInvite => ?_
            rw [fileEvents_append, written_append,
              writeAll_written (Nat.le_refl _) steps, List.append_assoc]
            exact fits isInvite
        | .error error, steps => exact Prog.guards_done _

/-- What a successful claim of an invite has done. -/
def Claims (digest : Bytes → Bytes) (invite : Bytes) (nowMs : Nat)
    (past : List RegistryEvent) : Prop :=
  ∃ text marker,
    ⟨.file (.readToString (invitePath digest invite)), .ok text⟩ ∈ past ∧
    ⟨.file (.createNew (usedPath digest invite)), .ok marker⟩ ∈ past ∧
    nowMs ≤ parseExpiry text

theorem Claims.append {invite : Bytes} {nowMs : Nat}
    {later : List RegistryEvent} (claims : Claims digest invite nowMs later) :
    Claims digest invite nowMs (past ++ later) := by
  obtain ⟨text, marker, read, marked, inTime⟩ := claims
  exact ⟨text, marker, List.mem_append_right _ read,
    List.mem_append_right _ marked, inTime⟩

theorem guards_consumeInvite (invite : Bytes) (nowMs : Nat) :
    Prog.Guards (call.Allowed digest) past
      (consumeInvite digest invite nowMs) := by
  refine Prog.Guards.perform trivial fun reply => ?_
  match reply with
  | .error error =>
      simp only
      split
      · exact Prog.guards_done _
      · exact Prog.guards_done _
  | .ok text =>
      refine Prog.Guards.perform trivial fun reply => ?_
      match reply with
      | .error error =>
          simp only
          split
          · exact Prog.guards_done _
          · exact Prog.guards_done _
      | .ok file =>
          refine Prog.Guards.bind (guards_writeFmt
            (created_last _ (usedPath digest invite) file)
            fun isInvite => by cases isInvite) fun events result steps => ?_
          refine Prog.Guards.perform rfl fun reply => ?_
          split
          · exact Prog.guards_done _
          · exact Prog.guards_done _

theorem claims_of_consumeInvite {invite : Bytes} {nowMs : Nat}
    {events : List RegistryEvent}
    (steps : Prog.Steps (consumeInvite digest invite nowMs) events
      (.done (.ok ()))) :
    Claims digest invite nowMs events := by
  obtain ⟨found, rest, rfl, reading⟩ := Prog.Steps.of_perform steps
  cases found with
  | error error =>
      by_cases missing : error.kind = .notFound
      · simp only [missing, if_true] at reading
        cases reading
      · simp only [missing, if_false] at reading
        cases reading
  | ok text =>
      obtain ⟨created, rest, rfl, marking⟩ := Prog.Steps.of_perform reading
      cases created with
      | error error =>
          by_cases taken : error.kind = .alreadyExists
          · simp only [taken, if_true] at marking
            cases marking
          · simp only [taken, if_false] at marking
            cases marking
      | ok file =>
          obtain ⟨_, _, _, rfl, _, tidying⟩ := Prog.Steps.of_bind marking
          obtain ⟨_, _, rfl, deciding⟩ := Prog.Steps.of_perform tidying
          split at deciding
          · cases deciding
          next inTime =>
            exact ⟨text, file, by simp, by simp, Nat.le_of_not_lt inTime⟩

theorem guards_register {mode : Registration} {account : Bytes} {nowMs : Nat}
    (claimed : call.Allowed digest past
      (.file (.createNew (accountPath account)))) :
    Prog.Guards (call.Allowed digest) past (register mode account nowMs) := by
  refine Prog.Guards.perform claimed fun reply => ?_
  match reply with
  | .ok file =>
      refine Prog.Guards.bind (guards_writeFmt
        (created_last past (accountPath account) file)
        fun isInvite => by cases isInvite) fun events result steps => ?_
      match result with
      | .ok () => exact Prog.guards_done _
      | .error error => exact Prog.guards_done _
  | .error error =>
      simp only
      split
      · exact Prog.guards_done _
      · exact Prog.guards_done _

theorem guards_admitAccount (registry : Registry) (invited : registry.mode = .invite)
    (account invite : Bytes) (address : IpAddr) (nowMs : Nat) :
    Prog.Guards (RegistryCall.Allowed digest
        (.admitAccount account invite address nowMs)) []
      (admitAccount digest registry account invite address nowMs) := by
  refine Prog.Guards.perform trivial fun reply => ?_
  split
  · exact Prog.guards_done _
  · rw [invited]
    refine Prog.Guards.bind ?_ fun events result steps => ?_
    · unfold mayRegister
      simp only
      split
      · exact Prog.guards_done _
      · exact guards_consumeInvite invite nowMs
    · match result, steps with
      | .error refusal, steps => exact Prog.guards_done _
      | .ok (), steps =>
          have claims : Claims digest invite nowMs events := by
            unfold mayRegister at steps
            simp only at steps
            split at steps
            · cases steps
            · exact claims_of_consumeInvite steps
          obtain ⟨text, marker, read, marked, inTime⟩ := claims.append
          exact guards_register ⟨account, invite, address, nowMs, text, marker,
            rfl, rfl, read, marked, inTime⟩

theorem guards_createInvite (folder : Except FileSystems.IoError Unit)
    (random : Except FileSystems.IoError Bytes) (ttlMs nowMs : Nat) :
    Prog.Guards (RegistryCall.Allowed digest
        (.createInvite folder random ttlMs nowMs)) []
      (createInvite digest folder random ttlMs nowMs) := by
  rcases folder with error | _
  · exact Prog.guards_done _
  · cases random with
    | error error => exact Prog.guards_done _
    | ok raw =>
      refine Prog.Guards.perform ⟨_, raw, ttlMs, nowMs, rfl, rfl⟩ fun reply => ?_
      rcases reply with error | file
      · exact Prog.guards_done _
      · refine Prog.Guards.bind (guards_writeFmt (created_last []
            (invitePath digest (asciiBytes (inviteToken raw))) file)
            fun _ => ?_) fun events result steps => ?_
        · simp [fileEvents, fileEvent?, written, accepted,
            RegistryCall.inviteLine, decimalLine]
        · cases result with
          | ok _ => exact Prog.guards_done _
          | error error => exact Prog.guards_done _

theorem guards_program (registry : Registry)
    (invited : registry.mode = .invite) (call : RegistryCall) :
    Prog.Guards (call.Allowed digest) [] (call.program digest registry) := by
  cases call with
  | admitAccount account invite address nowMs =>
      exact Prog.Guards.bind
        (guards_admitAccount registry invited account invite address nowMs)
        fun _ _ _ => Prog.guards_done _
  | createInvite folder random ttlMs nowMs =>
      exact Prog.Guards.bind (guards_createInvite folder random ttlMs nowMs)
        fun _ _ _ => Prog.guards_done _

end Guards

/-! ## All calls together -/

/-- Calls of the registry that run at once on a fresh state directory. -/
abbrev RegistryRun (digest : Bytes → Bytes) (registry : Registry) :=
  Run (RegistryCall.program digest registry)
    (RegistryOp.Performs registry.limits) ({} : RegistryState)

abbrev RegistryTask := Task RegistryCall RegistryOp RegistryOp.Reply
  RegistryResult

section Runs

variable {digest : Bytes → Bytes} {registry : Registry}
  {tasks : List RegistryTask} {history : List (Nat × RegistryEvent)}
  {state : RegistryState} {path : StatePath} {file : Nat}

theorem mem_fileEvents_history {op : FileOp StatePath} {reply : op.Reply} :
    ⟨op, reply⟩ ∈ fileEvents (history.map (·.2)) ↔
      ∃ index, (index, ⟨.file op, reply⟩) ∈ history := by
  rw [mem_fileEvents, List.mem_map]
  constructor
  · rintro ⟨⟨index, event⟩, member, rfl⟩
    exact ⟨index, member⟩
  · rintro ⟨index, member⟩
    exact ⟨_, member, rfl⟩

/-- What holds between any two operations on files holds between different
entries of the history. -/
theorem related_entries {R : FileEvent StatePath → FileEvent StatePath → Prop}
    (pairs : (fileEvents (history.map (·.2))).Pairwise R)
    {first second : Nat × RegistryEvent} (here : first ∈ history)
    (there : second ∈ history) (differ : first ≠ second)
    {event other : FileEvent StatePath}
    (isFirst : fileEvent? first.2 = some event)
    (isSecond : fileEvent? second.2 = some other) :
    R event other ∨ R other event := by
  rw [fileEvents, List.pairwise_filterMap, List.pairwise_map] at pairs
  have either := pairs.imp (S := fun first second : Nat × RegistryEvent =>
    ∀ event, fileEvent? first.2 = some event →
      ∀ other, fileEvent? second.2 = some other → R event other ∨ R other event)
    fun related event isEvent other isOther =>
      Or.inl (related event isEvent other isOther)
  have symmetric : Std.Symm fun first second : Nat × RegistryEvent =>
      ∀ event, fileEvent? first.2 = some event →
        ∀ other, fileEvent? second.2 = some other →
          R event other ∨ R other event :=
    ⟨fun _ _ related event isEvent other isOther =>
      (related other isOther event isEvent).symm⟩
  exact either.forall here there differ event isFirst other isSecond

/-- A marker or an account file has one creator. -/
theorem one_creator (invited : registry.mode = .invite)
    (run : RegistryRun digest registry tasks history state)
    (lasting : path.folder ≠ .invites) {index other first second : Nat}
    (here : (index, ⟨.file (.createNew path), .ok first⟩) ∈ history)
    (there : (other, ⟨.file (.createNew path), .ok second⟩) ∈ history) :
    index = other := by
  have unremoved : ⟨.removeFile path, .ok ()⟩ ∉
      fileEvents (history.map (·.2)) := by
    intro removed
    obtain ⟨remover, member⟩ := mem_fileEvents_history.mp removed
    obtain ⟨before, after, split⟩ := List.append_of_mem member
    obtain ⟨task, _, allowed⟩ :=
      run.allowed (guards_program registry invited) split
    exact lasting allowed
  by_contra differ
  rcases related_entries
    (created_once (performs_files run.performs) unremoved) here there
    (fun same => differ (Prod.mk.inj same).1) rfl rfl with apart | apart
  · exact apart first second rfl rfl
  · exact apart second first rfl rfl

theorem one_opener (run : RegistryRun digest registry tasks history state)
    {index other : Nat} {path' : StatePath}
    (here : (index, ⟨.file (.createNew path), .ok file⟩) ∈ history)
    (there : (other, ⟨.file (.createNew path'), .ok file⟩) ∈ history) :
    index = other ∧ path = path' := by
  by_cases same : ((index, ⟨.file (.createNew path), .ok file⟩) :
      Nat × RegistryEvent) = (other, ⟨.file (.createNew path'), .ok file⟩)
  · cases same
    exact ⟨rfl, rfl⟩
  · rcases related_entries (created_apart (performs_files run.performs)) here
      there same rfl rfl with apart | apart
    · exact (apart path path' file rfl rfl).elim
    · exact (apart path' path file rfl rfl).elim

/-- What was written to a file that only one task writes to. -/
theorem written_eventsOf {writer : Nat}
    (only : ∀ index text reply,
      (index, ⟨.file (.write file text), reply⟩) ∈ history → index = writer) :
    written file (fileEvents (history.map (·.2))) =
      written file (fileEvents (eventsOf writer history)) := by
  induction history using List.reverseRecOn with
  | nil => rfl
  | append_singleton history entry ih =>
      obtain ⟨index, event⟩ := entry
      have earlier := ih fun index text reply member =>
        only index text reply (List.mem_append_left _ member)
      rw [List.map_append, fileEvents_append, written_append, eventsOf_append,
        fileEvents_append, written_append, earlier, List.append_cancel_left_eq,
        eventsOf_single]
      split
      · rfl
      next differs =>
        obtain ⟨op, reply⟩ := event
        cases op with
        | takeOpenSlot address nowMs => rfl
        | file op =>
            cases op with
            | write target text =>
                have other : target ≠ file := by
                  rintro rfl
                  exact differs (only index text reply (by simp))
                cases reply with
                | ok count =>
                    simp [fileEvents, fileEvent?, written, accepted, other]
                | error error => rfl
            | _ => rfl

/-- An operation on files among the events, where it happened. -/
theorem fileEvents_split {events : List RegistryEvent}
    {before after : List (FileEvent StatePath)} {op : FileOp StatePath}
    {reply : op.Reply}
    (split : fileEvents events = before ++ ⟨op, reply⟩ :: after) :
    ∃ earlier later, events = earlier ++ ⟨.file op, reply⟩ :: later ∧
      fileEvents earlier = before := by
  obtain ⟨front, back, rfl, frontEq, backEq⟩ :=
    List.filterMap_eq_append_iff.mp split
  obtain ⟨others, ⟨found, answer⟩, later, rfl, noFile, isFile, _⟩ :=
    List.filterMap_eq_cons_iff.mp backEq
  cases found with
  | takeOpenSlot address nowMs => cases isFile
  | file other =>
      cases Option.some.inj isFile
      refine ⟨front ++ others, later, by simp, ?_⟩
      have nothing : others.filterMap fileEvent? = [] :=
        List.filterMap_eq_nil_iff.mpr noFile
      rw [fileEvents, List.filterMap_append, frontEq, nothing, List.append_nil]

/-- Whoever created an invite's file has written a part of its line so far. -/
theorem written_invite (invited : registry.mode = .invite)
    (run : RegistryRun digest registry tasks history state)
    (isInvite : path.folder = .invites) {before after : List (Nat × RegistryEvent)}
    (split : history = before ++ after) {creator : Nat} {task : RegistryTask}
    (found : tasks[creator]? = some task)
    (created : (creator, ⟨.file (.createNew path), .ok file⟩) ∈ history) :
    written file (fileEvents (before.map (·.2))) <+: task.job.inviteLine := by
  have only (index : Nat) (text : Text) (reply : Except FileSystems.IoError Nat)
      (member : (index, ⟨.file (.write file text), reply⟩) ∈ before) :
      index = creator := by
    obtain ⟨earlier, later, rfl⟩ := List.append_of_mem member
    obtain ⟨_, _, path', opened, _⟩ :=
      run.allowed (guards_program registry invited)
        (split.trans (List.append_assoc ..))
    have here : (index, ⟨.file (.createNew path'), .ok file⟩) ∈ history := by
      rw [split]
      exact List.mem_append_left _ (List.mem_append_left _
        (mem_eventsOf.mp opened))
    exact (one_opener run here created).1
  rw [written_eventsOf only]
  refine written_part fun front text reply back wrote => ?_
  obtain ⟨earlier, later, whole, rfl⟩ := fileEvents_split wrote
  have steps := run.steps found
  rw [split, eventsOf_append, whole, List.append_assoc,
    List.cons_append] at steps
  obtain ⟨path', opened, fits⟩ :=
    (guards_program registry invited task.job).of_steps steps
  have here : (creator, ⟨.file (.createNew path'), .ok file⟩) ∈ before := by
    rw [← mem_eventsOf, whole]
    exact List.mem_append_left _ opened
  obtain ⟨_, rfl⟩ := one_opener run (by
    rw [split]
    exact List.mem_append_left _ here) created
  exact fits isInvite

/-- An invite that a call read was created by another, and the reader saw no
later expiry than it has. -/
theorem read_invite (invited : registry.mode = .invite)
    (run : RegistryRun digest registry tasks history state) {reader : Nat}
    {invite : Bytes} {text : Text}
    (read : (reader, ⟨.file (.readToString (invitePath digest invite)),
      .ok text⟩) ∈ history) :
    ∃ creator folder raw ttlMs nowMs rest file,
      tasks[creator]? =
        some ⟨.createInvite folder (.ok raw) ttlMs nowMs, rest⟩ ∧
      digest invite = digest (asciiBytes (inviteToken raw)) ∧
      (creator, ⟨.file (.createNew (invitePath digest invite)), .ok file⟩) ∈
        history ∧
      parseExpiry text ≤ inviteExpiry ttlMs nowMs := by
  obtain ⟨before, after, split⟩ := List.append_of_mem read
  have performed := performs_files run.performs
  rw [split, List.map_append, fileEvents_append] at performed
  obtain ⟨file, created, rfl⟩ := read_written performed
  obtain ⟨creator, member⟩ := mem_fileEvents_history.mp created
  have inHistory : (creator, ⟨.file (.createNew (invitePath digest invite)),
      .ok file⟩) ∈ history := by
    rw [split]
    exact List.mem_append_left _ member
  obtain ⟨earlier, later, whole⟩ := List.append_of_mem inHistory
  obtain ⟨⟨job, rest⟩, found, folder, raw, ttlMs, nowMs, rfl, sameName⟩ :=
    run.allowed (guards_program registry invited) whole
  refine ⟨creator, folder, raw, ttlMs, nowMs, rest, file, found,
    hex_injective sameName, inHistory, ?_⟩
  exact parse_trim_le (written_invite invited run rfl split found inHistory)

/-- One of the calls created an invite with this token and expiry. -/
def Invited (digest : Bytes → Bytes) (tasks : List RegistryTask)
    (history : List (Nat × RegistryEvent)) (token : Bytes) (expiry : Nat) :
    Prop :=
  ∃ creator folder raw ttlMs nowMs rest file,
    tasks[creator]? = some ⟨.createInvite folder (.ok raw) ttlMs nowMs, rest⟩ ∧
    token = asciiBytes (inviteToken raw) ∧
    expiry = inviteExpiry ttlMs nowMs ∧
    (creator, ⟨.file (.createNew (invitePath digest token)), .ok file⟩) ∈ history

/-- One of the calls presented this token for this account, at this time. -/
def Presented (tasks : List RegistryTask) (account token : Bytes)
    (nowMs : Nat) : Prop :=
  ∃ (index : Nat) (address : IpAddr) (rest : RegistryProg RegistryResult),
    tasks[index]? = some ⟨.admitAccount account token address nowMs, rest⟩

/-- No two of the tokens that the calls present or create have one hash. -/
def CollisionFree (digest : Bytes → Bytes) (tasks : List RegistryTask) : Prop :=
  ∀ account invite nowMs, Presented tasks account invite nowMs →
    ∀ (creator : Nat) (folder : Except FileSystems.IoError Unit) (raw : Bytes)
      (ttlMs createdMs : Nat) (rest : RegistryProg RegistryResult),
      tasks[creator]? =
        some ⟨.createInvite folder (.ok raw) ttlMs createdMs, rest⟩ →
      digest invite = digest (asciiBytes (inviteToken raw)) →
        invite = asciiBytes (inviteToken raw)

/-- An account has its file. -/
def RegistryState.Registered (state : RegistryState) (account : Bytes) : Prop :=
  state.files.names (accountPath account) ≠ none

/-- The call that created an account's file had claimed an invite in time. -/
theorem registered_claim (invited : registry.mode = .invite)
    (run : RegistryRun digest registry tasks history state) {account : Bytes}
    (registered : state.Registered account) :
    ∃ index invite address nowMs rest text marker,
      tasks[index]? = some ⟨.admitAccount account invite address nowMs, rest⟩ ∧
      (index, ⟨.file (.readToString (invitePath digest invite)), .ok text⟩) ∈
        history ∧
      (index, ⟨.file (.createNew (usedPath digest invite)), .ok marker⟩) ∈
        history ∧
      nowMs ≤ parseExpiry text := by
  obtain ⟨file, named⟩ := Option.ne_none_iff_exists'.mp registered
  have created := (Files.describes (performs_files run.performs)).created named
  obtain ⟨index, member⟩ := mem_fileEvents_history.mp created
  obtain ⟨before, after, split⟩ := List.append_of_mem member
  obtain ⟨⟨job, rest⟩, found, account', invite, address, nowMs, text, marker,
    rfl, sameName, read, marked, inTime⟩ :=
      run.allowed (guards_program registry invited) split
  obtain rfl := hex_injective sameName
  refine ⟨index, invite, address, nowMs, rest, text, marker, found, ?_, ?_,
    inTime⟩
  · rw [split]
    exact List.mem_append_left _ (mem_eventsOf.mp read)
  · rw [split]
    exact List.mem_append_left _ (mem_eventsOf.mp marked)

end Runs

/-- Whatever calls run at once, every account with a file has an invite of its
own: one that a call created, and that a call presented for this account no later
than it expired. -/
theorem invites_single_use (digest : Bytes → Bytes) (registry : Registry)
    (invited : registry.mode = .invite) (tasks : List RegistryTask)
    (history : List (Nat × RegistryEvent)) (state : RegistryState)
    (run : RegistryRun digest registry tasks history state)
    (collisionFree : CollisionFree digest tasks) :
    ∃ inviteOf : Bytes → Bytes,
      (∀ account, state.Registered account → ∃ expiry nowMs,
        Invited digest tasks history (inviteOf account) expiry ∧
        Presented tasks account (inviteOf account) nowMs ∧ nowMs ≤ expiry) ∧
      Set.InjOn inviteOf {account | state.Registered account} := by
  classical
  choose! index inviteOf address nowMs rest text marker found read marked inTime
    using fun account (registered : state.Registered account) =>
      registered_claim invited run registered
  refine ⟨inviteOf, fun account registered => ?_, ?_⟩
  · obtain ⟨creator, folder, raw, ttlMs, createdMs, creatorRest, file,
      creatorFound, sameHash, created, le⟩ :=
        read_invite invited run (read account registered)
    have presented : Presented tasks account (inviteOf account)
        (nowMs account) :=
      ⟨index account, _, _, found account registered⟩
    have sameToken := collisionFree _ _ _ presented _ _ _ _ _ _ creatorFound
      sameHash
    exact ⟨inviteExpiry ttlMs createdMs, nowMs account,
      ⟨creator, folder, raw, ttlMs, createdMs, creatorRest, file, creatorFound,
        sameToken, rfl, created⟩, presented, (inTime account registered).trans le⟩
  · intro account registered other otherRegistered same
    -- the two claims created one marker, so they are one call
    have sameIndex : index account = index other :=
      one_creator invited run (by simp [usedPath]) (marked account registered)
        (same ▸ marked other otherRegistered)
    have sameTask := found account registered
    rw [sameIndex, found other otherRegistered] at sameTask
    have sameCall := congrArg Task.job (Option.some.inj sameTask)
    simp only [RegistryCall.admitAccount.injEq] at sameCall
    exact sameCall.1.symm

/-- The SHA-256 hash of the invite that is made of zero bytes, for every
invite. -/
def zeroInviteDigest (_ : Bytes) : Bytes :=
  [133, 38, 152, 31, 18, 196, 124, 232, 51, 216, 7, 80, 203, 225, 200, 25,
    108, 24, 190, 146, 98, 31, 27, 161, 24, 50, 235, 85, 204, 240, 241, 18]

/-- An invite is created, an account is admitted with it, and while its marker
is being written another account comes too late. -/
theorem invites_single_use_race :
    ∃ tasks history state,
      RegistryRun zeroInviteDigest ⟨.invite, {}⟩ tasks history state ∧
      state.Registered (List.replicate 32 1) ∧
      ∃ inviteOf : Bytes → Bytes,
        (∀ account, state.Registered account → ∃ expiry nowMs,
          Invited zeroInviteDigest tasks history (inviteOf account) expiry ∧
          Presented tasks account (inviteOf account) nowMs ∧
          nowMs ≤ expiry) ∧
        Set.InjOn inviteOf {account | state.Registered account} := by
  have spawned : RegistryRun zeroInviteDigest ⟨.invite, {}⟩ _ _ _ :=
    Run.spawn (.spawn (.spawn .start
      (.createInvite (.ok ()) (.ok (List.replicate 20 0)) 1000 0))
      (.admitAccount (List.replicate 32 1) (asciiBytes
        (inviteToken (List.replicate 20 0))) (.v4 127 0 0 1) 5))
      (.admitAccount (List.replicate 32 2) (asciiBytes
        (inviteToken (List.replicate 20 0))) (.v4 127 0 0 1) 6)
  have created := Run.step spawned (show _[0]? = some _ from rfl)
    (show RegistryOp.Performs {} (.file (.createNew _)) _ (.ok 0) ⟨_, _⟩ from
      ⟨⟨rfl, rfl, rfl⟩, rfl⟩)
  have written := Run.step created (show _[0]? = some _ from rfl)
    (show RegistryOp.Performs {} (.file (.write 0 _)) _ (.ok 4) ⟨_, _⟩ from
      ⟨⟨by decide, by decide, rfl⟩, rfl⟩)
  have absent := Run.step written (show _[1]? = some _ from rfl)
    (show RegistryOp.Performs {} (.file (.probe _)) _ false ⟨_, _⟩ from
      ⟨⟨rfl, by simp⟩, rfl⟩)
  have absentToo := Run.step absent (show _[2]? = some _ from rfl)
    (show RegistryOp.Performs {} (.file (.probe _)) _ false ⟨_, _⟩ from
      ⟨⟨rfl, by simp⟩, rfl⟩)
  have read := Run.step absentToo (show _[1]? = some _ from rfl)
    (show RegistryOp.Performs {} (.file (.readToString _)) _
      (.ok "1000".toList) ⟨_, _⟩ from ⟨⟨rfl, 0, rfl, rfl⟩, rfl⟩)
  have readToo := Run.step read (show _[2]? = some _ from rfl)
    (show RegistryOp.Performs {} (.file (.readToString _)) _
      (.ok "1000".toList) ⟨_, _⟩ from ⟨⟨rfl, 0, rfl, rfl⟩, rfl⟩)
  have marked := Run.step readToo (show _[1]? = some _ from rfl)
    (show RegistryOp.Performs {} (.file (.createNew _)) _ (.ok 1) ⟨_, _⟩ from
      ⟨⟨rfl, rfl, rfl⟩, rfl⟩)
  have late := Run.step marked (show _[2]? = some _ from rfl)
    (show RegistryOp.Performs {} (.file (.createNew _)) _
      (.error ⟨.alreadyExists, "exists"⟩) ⟨_, _⟩ from
      ⟨⟨rfl, fun _ => by simp [usedPath]⟩, rfl⟩)
  have full := Run.step late (show _[1]? = some _ from rfl)
    (show RegistryOp.Performs {} (.file (.write 1 _)) _
      (.error ⟨.other, "no space left"⟩) ⟨_, _⟩ from ⟨rfl, rfl⟩)
  have removed := Run.step full (show _[1]? = some _ from rfl)
    (show RegistryOp.Performs {} (.file (.removeFile _)) _ (.ok ()) ⟨_, _⟩ from
      ⟨⟨by simp [invitePath, usedPath], rfl⟩, rfl⟩)
  have registered := Run.step removed (show _[1]? = some _ from rfl)
    (show RegistryOp.Performs {} (.file (.createNew _)) _ (.ok 2) ⟨_, _⟩ from
      ⟨⟨rfl, rfl, rfl⟩, rfl⟩)
  refine ⟨_, _, _, registered, ?_, invites_single_use zeroInviteDigest
    ⟨.invite, {}⟩ rfl _ _ _ registered ?_⟩
  · simp [RegistryState.Registered]
  · rintro account invite nowMs ⟨index, address, rest, presents⟩ creator folder
      raw ttlMs createdMs creatorRest creates _
    have presenting := List.mem_map_of_mem (f := Task.job)
      (List.mem_of_getElem? presents)
    have creating := List.mem_map_of_mem (f := Task.job)
      (List.mem_of_getElem? creates)
    simp only [List.map_cons, List.map_nil,
      List.nil_append, List.cons_append, List.set_cons_zero,
      List.set_cons_succ, List.mem_cons, List.not_mem_nil, or_false,
      RegistryCall.createInvite.injEq, RegistryCall.admitAccount.injEq, reduceCtorEq,
      false_or] at presenting creating
    obtain ⟨_, sameRaw, _⟩ := creating
    obtain rfl := Except.ok.inj sameRaw
    rcases presenting with ⟨_, same, _⟩ | ⟨_, same, _⟩
    · exact same
    · exact same

end WindowMlHub
