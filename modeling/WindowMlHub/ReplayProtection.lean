import WindowMlHub.SealedCommands

/-!
# No message twice

A recipient opens one sealed message after another, commands and grants, genuine and
not, at whatever its clock reads.  What it remembers is a queue that forgets from the
front (`Attempts.order_eq`): the readings at which the window was asked, and the nonces
that were accepted.

While no reading comes two windows after an arrival, what arrived then is not accepted
again.  A clock that never steps back gives no more than that: a nonce may come again
later, in another message.  A clock that jumps ahead and steps back may forget a nonce
whose message is still in time.
-/

namespace WindowMlHub

open CheckedEvaluation HashTables RetentionQueues

/-- What a sealed message says about itself. -/
structure Message where
  sender : Bytes
  nonce : Bytes
  timeMs : Nat
  deriving DecidableEq, Repr

/-- What the window knows a message by. -/
def Message.key (message : Message) : ReplayKey :=
  (message.sender, message.nonce)

/-- A call of `open` or of `open_grant`: the sender that the hub named, the bytes, and
the reading of the clock. -/
inductive Unsealing
  | command (sender sealed : Bytes) (nowMs : Nat)
  | grant (sender sealed : Bytes) (nowMs : Nat)
  deriving DecidableEq, Repr

def Unsealing.nowMs : Unsealing → Nat
  | command _ _ nowMs => nowMs
  | grant _ _ nowMs => nowMs

/-- What a call that succeeded returned. -/
inductive Unlocked
  | command (opened : Opened)
  | grant (grant : Grant)
  deriving DecidableEq, Repr

/-- A call, the recipient before and after it, and what it answered. -/
structure Attempt where
  opening : Unsealing
  before : Receiver
  answer : Except OpenError Unlocked
  after : Receiver

namespace Receiver

variable (primitives : SealPrimitives)

/-- Make a call. -/
def attempt (receiver : Receiver) :
    Unsealing → Checked (Receiver × Except OpenError Unlocked)
  | .command sender sealed nowMs => do
      let (receiver, answer) ← receiver.openCommand primitives sender sealed nowMs
      return (receiver, answer.map .command)
  | .grant sender sealed nowMs => do
      let (receiver, answer) ← receiver.openGrant primitives sender sealed nowMs
      return (receiver, answer.map .grant)

/-- One call after another. -/
def run (receiver : Receiver) : List Unsealing → Checked (List Attempt)
  | [] => .ok []
  | opening :: rest => do
      let (after, answer) ← receiver.attempt primitives opening
      let attempts ← after.run rest
      return ⟨opening, receiver, answer, after⟩ :: attempts

/-- The message that passes every check up to the window, if one does. -/
def message? (receiver : Receiver) : Unsealing → Option Message
  | .command sender sealed nowMs =>
      match receiver.readCommand primitives sender sealed nowMs with
      | .error _ => none
      | .ok (_, _, body, _) =>
          match receiver.addressed sender body.sentBy body.sentTo body.nonce
              body.timeMs nowMs with
          | .error _ => none
          | .ok () => some ⟨sender, body.nonce, body.timeMs⟩
  | .grant sender sealed nowMs =>
      match receiver.readGrant primitives sender sealed nowMs with
      | .error _ => none
      | .ok (_, body) =>
          match receiver.addressed sender body.sentBy body.sentTo body.nonce
              body.timeMs nowMs with
          | .error _ => none
          | .ok () => some ⟨sender, body.nonce, body.timeMs⟩

/-- The recipients differ in no more than what they remember. -/
structure Same (receiver after : Receiver) : Prop where
  principal_eq : after.principal = receiver.principal
  agreement_eq : after.agreement = receiver.agreement
  accountRoot_eq : after.accountRoot = receiver.accountRoot

/-- What the answer of the window makes of a call. -/
structure Verdict {α : Type} (given : Except ReplayError Unit)
    (answer : Except OpenError α) : Prop where
  accepted_iff : given = .ok () ↔ ∃ value, answer = .ok value
  refused : ∀ refusal, given = .error refusal → answer = .error refusal.toOpenError

namespace Verdict

variable {α β : Type} {given : Except ReplayError Unit} {answer : Except OpenError α}

theorem of_given (given : Except ReplayError Unit) (value : α) :
    Verdict given ((given.mapError ReplayError.toOpenError).map fun _ => value) := by
  cases given with
  | error refusal =>
      refine ⟨by simp [Except.mapError, Except.map], ?_⟩
      rintro _ ⟨⟩
      rfl
  | ok _ =>
      refine ⟨by simp [Except.mapError, Except.map], ?_⟩
      rintro _ ⟨⟩

theorem map (verdict : Verdict given answer) (wrap : α → β) :
    Verdict given (answer.map wrap) := by
  refine ⟨?_, fun refusal isRefused => ?_⟩
  · rw [verdict.accepted_iff]
    cases answer <;> simp [Except.map]
  · rw [verdict.refused refusal isRefused]
    rfl

end Verdict

/-- What a call does: it fails before it asks the window, and changes nothing, or the
window answers by what it remembers at the reading of the clock. -/
inductive Attempted (receiver : Receiver) (opening : Unsealing) (after : Receiver)
    (answer : Except OpenError Unlocked) : Prop
  | failed (unread : receiver.message? primitives opening = none)
      (same : after = receiver) (refused : ∃ refusal, answer = .error refusal)
  | asked (message : Message) (given : Except ReplayError Unit)
      (read : receiver.message? primitives opening = some message)
      (timely : absDiff message.timeMs opening.nowMs ≤ clockWindowMs)
      (answered : ReplayWindow.Answered receiver.replay
        (forgetDue opening.nowMs receiver.replay.order) message.sender message.nonce
        opening.nowMs after.replay.order given)
      (verdict : Verdict given answer)

variable {primitives} {receiver : Receiver}

theorem addressed_timely {sender sentBy sentTo nonce : Bytes} {timeMs nowMs : Nat}
    (ok : receiver.addressed sender sentBy sentTo nonce timeMs nowMs = .ok ()) :
    absDiff timeMs nowMs ≤ clockWindowMs := by
  simp only [addressed, CheckedConditions.bind_eq_ok,
    CheckedConditions.ensure_eq_ok, exists_const] at ok
  exact ok.2.2.2

/-- What the addressing check comes to. -/
theorem checkAddressing_spec (ok : receiver.replay.Ok)
    (sender sentBy sentTo nonce : Bytes) (timeMs nowMs : Nat) :
    ∃ after answer, receiver.checkAddressing sender sentBy sentTo nonce timeMs nowMs =
        .ok (after, answer) ∧ after.replay.Ok ∧ receiver.Same after ∧
      ((∃ refusal, receiver.addressed sender sentBy sentTo nonce timeMs nowMs =
            .error refusal ∧ after = receiver ∧ answer = .error refusal) ∨
        ∃ given, receiver.addressed sender sentBy sentTo nonce timeMs nowMs = .ok () ∧
          ReplayWindow.Answered receiver.replay (forgetDue nowMs receiver.replay.order)
            sender nonce nowMs after.replay.order given ∧ Verdict given answer) := by
  unfold checkAddressing
  cases checked : receiver.addressed sender sentBy sentTo nonce timeMs nowMs with
  | error refusal =>
      exact ⟨receiver, _, rfl, ok, ⟨rfl, rfl, rfl⟩, Or.inl ⟨refusal, rfl, rfl, rfl⟩⟩
  | ok _ =>
      obtain ⟨replay, given, admitted, replayOk, -, -, answered⟩ :=
        ReplayWindow.admit_spec ok sender nonce nowMs
      simp only [admitted, ok_bind, pure_eq_ok]
      exact ⟨_, _, rfl, replayOk, ⟨rfl, rfl, rfl⟩,
        Or.inr ⟨given, trivial, answered, .of_given given nonce⟩⟩

/-- What a call makes of the addressing check, whatever it answers with. -/
theorem attempted_of_addressing {opening : Unsealing} (body : Message) {after : Receiver}
    {answer : Except OpenError Bytes} (wrap : Bytes → Unlocked) (ok : receiver.replay.Ok)
    (sentBy sentTo : Bytes)
    (checked : receiver.checkAddressing body.sender sentBy sentTo body.nonce body.timeMs
      opening.nowMs = .ok (after, answer))
    (read : receiver.message? primitives opening =
      match receiver.addressed body.sender sentBy sentTo body.nonce body.timeMs
          opening.nowMs with
      | .error _ => none
      | .ok () => some body) :
    Attempted primitives receiver opening after (answer.map wrap) := by
  obtain ⟨after', answer', ran, -, -, outcome⟩ := checkAddressing_spec ok body.sender
    sentBy sentTo body.nonce body.timeMs opening.nowMs
  obtain ⟨rfl, rfl⟩ := Prod.mk.inj (Except.ok.inj (checked.symm.trans ran))
  rcases outcome with ⟨refusal, unaddressed, rfl, rfl⟩ |
    ⟨given, addressed, answered, verdict⟩
  · rw [unaddressed] at read
    exact .failed read rfl ⟨refusal, rfl⟩
  · rw [addressed] at read
    exact .asked body given read (addressed_timely addressed) answered (verdict.map wrap)

theorem map_map {α β γ : Type} (answer : Except OpenError α) (first : α → β)
    (second : β → γ) :
    (answer.map first).map second = answer.map fun value => second (first value) := by
  cases answer <;> rfl

/-- A call does not panic, and changes only what the recipient remembers. -/
theorem attempt_spec (primitives : SealPrimitives) (ok : receiver.replay.Ok)
    (opening : Unsealing) :
    ∃ after answer, receiver.attempt primitives opening = .ok (after, answer) ∧
      after.replay.Ok ∧ receiver.Same after ∧
      Attempted primitives receiver opening after answer := by
  cases opening with
  | command sender sealed nowMs =>
      simp only [attempt, openCommand]
      cases read : receiver.readCommand primitives sender sealed nowMs with
      | error refusal =>
          exact ⟨receiver, .error refusal, rfl, ok, ⟨rfl, rfl, rfl⟩,
            .failed (by simp [message?, read]) rfl ⟨refusal, rfl⟩⟩
      | ok found =>
          obtain ⟨verified, signed, body, answers⟩ := found
          obtain ⟨after, answer, checked, afterOk, same, -⟩ := checkAddressing_spec ok
            sender body.sentBy body.sentTo body.nonce body.timeMs nowMs
          simp only [checked, ok_bind, pure_eq_ok, map_map]
          exact ⟨after, _, rfl, afterOk, same,
            attempted_of_addressing ⟨sender, body.nonce, body.timeMs⟩ _ ok
              body.sentBy body.sentTo checked (by simp only [message?, read]; rfl)⟩
  | grant sender sealed nowMs =>
      simp only [attempt, openGrant]
      cases read : receiver.readGrant primitives sender sealed nowMs with
      | error refusal =>
          exact ⟨receiver, .error refusal, rfl, ok, ⟨rfl, rfl, rfl⟩,
            .failed (by simp [message?, read]) rfl ⟨refusal, rfl⟩⟩
      | ok found =>
          obtain ⟨verified, body⟩ := found
          obtain ⟨after, answer, checked, afterOk, same, -⟩ := checkAddressing_spec ok
            sender body.sentBy body.sentTo body.nonce body.timeMs nowMs
          simp only [checked, ok_bind, pure_eq_ok, map_map]
          exact ⟨after, _, rfl, afterOk, same,
            attempted_of_addressing ⟨sender, body.nonce, body.timeMs⟩ _ ok
              body.sentBy body.sentTo checked (by simp only [message?, read]; rfl)⟩

end Receiver

/-! ## Runs -/

namespace Attempt

/-- The call succeeded. -/
def Accepted (attempt : Attempt) : Prop :=
  ∃ unlocked, attempt.answer = .ok unlocked

/-- The message that the call put to the window, if it came so far. -/
def message? (primitives : SealPrimitives) (attempt : Attempt) : Option Message :=
  attempt.before.message? primitives attempt.opening

/-- The reading of the clock at which the window was asked, if it was, and what it then
noted. -/
def reading? (primitives : SealPrimitives) (attempt : Attempt) :
    Option (Reading ReplayKey) :=
  (attempt.message? primitives).map fun message =>
    ⟨attempt.opening.nowMs,
      match attempt.answer with
      | .ok _ => some (saturatingAdd attempt.opening.nowMs (2 * clockWindowMs + 1),
          message.key)
      | .error _ => none⟩

end Attempt

/-- Calls in turn. -/
inductive Attempts (primitives : SealPrimitives) :
    Receiver → List Attempt → Receiver → Prop
  | done (receiver : Receiver) : Attempts primitives receiver [] receiver
  | next {receiver after final : Receiver} {opening : Unsealing}
      {answer : Except OpenError Unlocked} {attempts : List Attempt}
      (ok : receiver.replay.Ok) (afterOk : after.replay.Ok)
      (attempted : receiver.Attempted primitives opening after answer)
      (rest : Attempts primitives after attempts final) :
      Attempts primitives receiver (⟨opening, receiver, answer, after⟩ :: attempts) final

section Running

variable {primitives : SealPrimitives} {receiver after final : Receiver}
  {opening : Unsealing} {answer : Except OpenError Unlocked} {steps : List Attempt}

theorem Receiver.run_attempts (primitives : SealPrimitives) (ok : receiver.replay.Ok)
    (openings : List Unsealing) :
    ∃ attempts final, receiver.run primitives openings = .ok attempts ∧
      Attempts primitives receiver attempts final ∧
      attempts.map Attempt.opening = openings := by
  induction openings generalizing receiver with
  | nil => exact ⟨[], receiver, rfl, .done receiver, rfl⟩
  | cons opening rest ih =>
      obtain ⟨after, answer, ran, afterOk, -, attempted⟩ := attempt_spec primitives ok opening
      obtain ⟨attempts, final, restRan, restAttempts, openings⟩ := ih afterOk
      refine ⟨⟨opening, receiver, answer, after⟩ :: attempts, final, ?_,
        .next ok afterOk attempted restAttempts, ?_⟩
      · simp only [Receiver.run, ran, ok_bind, restRan, pure_eq_ok]
      · rw [List.map_cons, openings]

theorem Receiver.new_ok (primitives : SealPrimitives)
    (identityPublic agreement accountRoot : Bytes) :
    (Receiver.new primitives identityPublic agreement accountRoot).replay.Ok :=
  ReplayWindow.Agrees.empty

namespace Attempts

theorem split {earlier later : List Attempt}
    (attempts : Attempts primitives receiver (earlier ++ later) final) :
    ∃ middle, Attempts primitives receiver earlier middle ∧
      Attempts primitives middle later final := by
  induction earlier generalizing receiver with
  | nil => exact ⟨receiver, .done receiver, attempts⟩
  | cons first rest ih =>
      cases attempts with
      | next ok afterOk attempted others =>
          obtain ⟨middle, before, behind⟩ := ih others
          exact ⟨middle, .next ok afterOk attempted before, behind⟩

theorem uncons {attempt : Attempt} {later : List Attempt}
    (attempts : Attempts primitives receiver (attempt :: later) final) :
    attempt.before = receiver ∧ attempt.before.replay.Ok ∧ attempt.after.replay.Ok ∧
      attempt.before.Attempted primitives attempt.opening attempt.after attempt.answer ∧
      Attempts primitives attempt.after later final := by
  cases attempts with
  | next ok afterOk attempted others => exact ⟨rfl, ok, afterOk, attempted, others⟩

end Attempts

/-- One call, as a reading of the queue's clock. -/
theorem Receiver.Attempted.order_eq
    (attempted : receiver.Attempted primitives opening after answer) :
    after.replay.order = RetentionQueues.run receiver.replay.order
      (Attempt.reading? primitives ⟨opening, receiver, answer, after⟩).toList := by
  cases attempted with
  | failed unread same refused =>
      simp [Attempt.reading?, Attempt.message?, unread, same, RetentionQueues.run]
  | asked message given read timely answered verdict =>
      simp only [Attempt.reading?, Attempt.message?, read, Option.map_some,
        Option.toList_some, RetentionQueues.run, List.foldl_cons, List.foldl_nil, look]
      generalize after.replay.order = order at answered
      cases answered with
      | replay known =>
          rw [verdict.refused _ rfl]
          simp
      | busy fresh full =>
          rw [verdict.refused _ rfl]
          simp
      | noted fresh room space =>
          obtain ⟨unlocked, rfl⟩ := verdict.accepted_iff.mp rfl
          rfl

theorem Attempts.order_eq (attempts : Attempts primitives receiver steps final) :
    final.replay.order = RetentionQueues.run receiver.replay.order
      (steps.filterMap (Attempt.reading? primitives)) := by
  induction attempts with
  | done => rfl
  | @next receiver after final opening answer attempts _ _ attempted rest ih =>
      rw [ih, attempted.order_eq]
      cases reading : Attempt.reading? primitives ⟨opening, receiver, answer, after⟩ with
      | none => simp [reading, RetentionQueues.run]
      | some found => simp [reading, RetentionQueues.run]

theorem Receiver.Attempted.timely {message : Message}
    (attempted : receiver.Attempted primitives opening after answer)
    (read : receiver.message? primitives opening = some message) :
    absDiff message.timeMs opening.nowMs ≤ clockWindowMs := by
  cases attempted with
  | failed unread _ _ => simp [unread] at read
  | asked found given foundRead timely answered verdict =>
      obtain rfl : found = message := Option.some.inj (foundRead.symm.trans read)
      exact timely

theorem Receiver.Attempted.noted {message : Message}
    (attempted : receiver.Attempted primitives opening after answer)
    (read : receiver.message? primitives opening = some message)
    (accepted : ∃ unlocked, answer = .ok unlocked) :
    (saturatingAdd opening.nowMs (2 * clockWindowMs + 1), message.key) ∈
      after.replay.order := by
  cases attempted with
  | failed unread _ _ => simp [unread] at read
  | asked found given foundRead timely answered verdict =>
      obtain rfl : found = message := Option.some.inj (foundRead.symm.trans read)
      obtain rfl := verdict.accepted_iff.mpr accepted
      generalize after.replay.order = order at answered
      cases answered with
      | noted fresh room space => exact List.mem_append_right _ (List.mem_singleton_self _)

theorem Receiver.Attempted.refused {message : Message} {forgetAt : Nat}
    (attempted : receiver.Attempted primitives opening after answer)
    (read : receiver.message? primitives opening = some message)
    (known : (forgetAt, message.key) ∈ receiver.replay.order)
    (live : opening.nowMs < forgetAt) : answer = .error .replay := by
  cases attempted with
  | failed unread _ _ => simp [unread] at read
  | asked found given foundRead timely answered verdict =>
      obtain rfl : found = message := Option.some.inj (foundRead.symm.trans read)
      have remembered : found.key ∈
          (forgetDue opening.nowMs receiver.replay.order).map Prod.snd :=
        List.mem_map_of_mem (mem_forgetDue known live)
      generalize after.replay.order = order at answered
      cases answered with
      | replay _ => exact verdict.refused _ rfl
      | busy fresh _ => exact (fresh remembered).elim
      | noted fresh _ _ => exact (fresh remembered).elim

/-- A message that was accepted is refused for as long as no reading of the clock has
come two windows after its arrival. -/
theorem Attempts.refused_again {earlier middle later : List Attempt}
    {first second : Attempt} {message again : Message}
    (attempts : Attempts primitives receiver
      (earlier ++ first :: (middle ++ second :: later)) final)
    (accepted : first.Accepted) (read : first.message? primitives = some message)
    (readAgain : second.message? primitives = some again) (same : again.key = message.key)
    (live : ∀ attempt ∈ middle ++ [second], attempt.opening.nowMs <
      saturatingAdd first.opening.nowMs (2 * clockWindowMs + 1)) :
    second.answer = .error .replay := by
  obtain ⟨_, -, fromFirst⟩ := attempts.split
  obtain ⟨-, -, -, attempted, rest⟩ := fromFirst.uncons
  obtain ⟨before, between, fromSecond⟩ := rest.split
  obtain ⟨rfl, -, -, attemptedAgain, -⟩ := fromSecond.uncons
  have still : (saturatingAdd first.opening.nowMs (2 * clockWindowMs + 1),
      message.key) ∈ second.before.replay.order := by
    rw [between.order_eq]
    refine mem_run (attempted.noted read accepted) fun reading member => ?_
    obtain ⟨attempt, among, isReading⟩ := List.mem_filterMap.mp member
    obtain ⟨_, -, rfl⟩ := Option.map_eq_some_iff.mp isReading
    exact live attempt (List.mem_append_left _ among)
  exact attemptedAgain.refused readAgain (same ▸ still)
    (live second (List.mem_append_right _ (List.mem_singleton_self _)))

theorem exists_split_of_pair {α : Type} {first second : α} {list : List α}
    (pair : [first, second].Sublist list) :
    ∃ earlier middle later, list = earlier ++ first :: (middle ++ second :: later) := by
  obtain ⟨front, rest, rfl, inFront, inRest⟩ := List.cons_sublist_iff.mp pair
  obtain ⟨earlier, between, rfl⟩ := List.append_of_mem inFront
  obtain ⟨middle, later, rfl⟩ := List.append_of_mem (List.singleton_sublist.mp inRest)
  exact ⟨earlier, between ++ middle, later, by simp⟩

end Running

/-- A reading two windows past an earlier one, and after it one that is back within two
windows of the earlier one. -/
def ClockReturns (readings : List Nat) : Prop :=
  ∃ first between last, [first, between, last].Sublist readings ∧
    first + 2 * clockWindowMs < between ∧ absDiff first last ≤ 2 * clockWindowMs

/-- The window took nothing: it remembers no nonce that it did not remember before, and
nobody holds more. -/
structure Attempt.AddsNothing (attempt : Attempt) : Prop where
  order_suffix : attempt.after.replay.order <:+ attempt.before.replay.order
  seen_subset : ∀ key ∈ attempt.after.replay.seen, key ∈ attempt.before.replay.seen
  heldBy_le : ∀ sender,
    attempt.after.replay.heldBy sender ≤ attempt.before.replay.heldBy sender

section Protecting

variable {primitives : SealPrimitives} {receiver final : Receiver}
  {steps : List Attempt} {first second : Attempt} {message again : Message}

theorem Attempts.attempted (attempts : Attempts primitives receiver steps final)
    {attempt : Attempt} (member : attempt ∈ steps) :
    attempt.before.replay.Ok ∧ attempt.after.replay.Ok ∧
      attempt.before.Attempted primitives attempt.opening attempt.after
        attempt.answer := by
  obtain ⟨earlier, later, rfl⟩ := List.append_of_mem member
  obtain ⟨_, -, rest⟩ := attempts.split
  obtain ⟨-, ok, afterOk, attempted, -⟩ := rest.uncons
  exact ⟨ok, afterOk, attempted⟩

/-- Two calls of a run that put the same nonce of the same sender to the window, of which
the first was accepted: the second is refused, or the clock has come two windows past
the first in the meantime. -/
theorem Attempts.refused_or_late (attempts : Attempts primitives receiver steps final)
    (small : ∀ nowMs ∈ steps.map (·.opening.nowMs),
      nowMs + (2 * clockWindowMs + 1) < 2 ^ 64)
    (pair : [first, second].Sublist steps) (accepted : first.Accepted)
    (read : first.message? primitives = some message)
    (readAgain : second.message? primitives = some again)
    (same : again.key = message.key) :
    second.answer = .error .replay ∨
      first.opening.nowMs + 2 * clockWindowMs < second.opening.nowMs ∨
      ∃ between, [first.opening.nowMs, between, second.opening.nowMs].Sublist
          (steps.map (·.opening.nowMs)) ∧
        first.opening.nowMs + 2 * clockWindowMs < between := by
  by_cases refused : second.answer = .error .replay
  · exact Or.inl refused
  · right
    obtain ⟨earlier, middle, later, rfl⟩ := exists_split_of_pair pair
    have bound := small first.opening.nowMs (by simp)
    have due : saturatingAdd first.opening.nowMs (2 * clockWindowMs + 1) =
        first.opening.nowMs + (2 * clockWindowMs + 1) := by
      unfold saturatingAdd
      omega
    by_contra early
    rw [not_or, not_exists] at early
    obtain ⟨notLate, notBetween⟩ := early
    refine refused (attempts.refused_again accepted read readAgain same ?_)
    intro attempt member
    rw [due]
    rcases List.mem_append.mp member with among | isSecond
    · by_contra reached
      have tail : [attempt, second].Sublist (middle ++ second :: later) :=
        (List.singleton_sublist.mpr among).append
          (List.singleton_sublist.mpr List.mem_cons_self)
      have between := (tail.cons_cons first).trans (List.sublist_append_right earlier _)
      exact notBetween attempt.opening.nowMs
        ⟨between.map fun attempt : Attempt => attempt.opening.nowMs, by omega⟩
    · rw [List.mem_singleton.mp isSecond]
      omega

theorem Attempts.timely (attempts : Attempts primitives receiver steps final)
    {attempt : Attempt} (member : attempt ∈ steps)
    (read : attempt.message? primitives = some message) :
    absDiff message.timeMs attempt.opening.nowMs ≤ clockWindowMs :=
  (attempts.attempted member).2.2.timely read

/-- A call that fails adds nothing to the window. -/
theorem Attempts.addsNothing (attempts : Attempts primitives receiver steps final)
    {attempt : Attempt} (member : attempt ∈ steps) (failed : ¬ attempt.Accepted) :
    attempt.AddsNothing := by
  obtain ⟨ok, afterOk, attempted⟩ := attempts.attempted member
  have suffix : attempt.after.replay.order <:+ attempt.before.replay.order := by
    cases attempted with
    | failed unread same refused => rw [same]
    | asked message given read timely answered verdict =>
        have kept := forgetDue_suffix attempt.opening.nowMs attempt.before.replay.order
        generalize attempt.after.replay.order = order at answered
        cases answered with
        | replay known => exact kept
        | busy fresh full => exact kept
        | noted fresh room space => exact (failed (verdict.accepted_iff.mp rfl)).elim
  refine ⟨suffix, fun key known => ?_, fun sender => ?_⟩
  · rw [ok.seen_iff]
    rw [afterOk.seen_iff] at known
    exact (suffix.map Prod.snd).subset known
  · rw [ok.heldBy_eq, afterOk.heldBy_eq]
    exact suffix.sublist.countP_le

end Protecting

/-- Once a message was accepted it is refused as a replay whenever it comes again and
passes every check up to the window, in every run in which the clock does not come two
windows past a reading and return. -/
theorem replay_refused_unless_clock_returns (primitives : SealPrimitives)
    (identityPublic agreement accountRoot : Bytes) (openings : List Unsealing)
    (small : ∀ opening ∈ openings, opening.nowMs + (2 * clockWindowMs + 1) < 2 ^ 64)
    (onward : ¬ ClockReturns (openings.map Unsealing.nowMs)) :
    ∃ attempts, (Receiver.new primitives identityPublic agreement accountRoot).run
        primitives openings = .ok attempts ∧
      ∀ first second message, [first, second].Sublist attempts → first.Accepted →
        first.message? primitives = some message →
        second.message? primitives = some message → second.answer = .error .replay := by
  obtain ⟨steps, final, ran, attempts, rfl⟩ := Receiver.run_attempts primitives
    (Receiver.new_ok primitives identityPublic agreement accountRoot) openings
  refine ⟨steps, ran, fun first second message pair accepted read readAgain => ?_⟩
  have bounded : ∀ nowMs ∈ steps.map (·.opening.nowMs),
      nowMs + (2 * clockWindowMs + 1) < 2 ^ 64 := by
    intro nowMs member
    obtain ⟨attempt, among, rfl⟩ := List.mem_map.mp member
    exact small attempt.opening (List.mem_map_of_mem among)
  -- both times the message is within a window of the clock
  have timely := attempts.timely (pair.subset List.mem_cons_self) read
  have timelyAgain := attempts.timely (pair.subset (by simp)) readAgain
  have close : absDiff first.opening.nowMs second.opening.nowMs ≤
      2 * clockWindowMs := by
    unfold absDiff at timely timelyAgain ⊢
    omega
  rcases attempts.refused_or_late bounded pair accepted read readAgain rfl with
    refused | late | ⟨between, order, late⟩
  · exact refused
  · unfold absDiff at close
    omega
  · rw [List.map_map] at onward
    exact (onward ⟨_, between, _, order, late, close⟩).elim

/-- While the clock does not step back, two calls that succeed with the same nonce of the
same sender are more than two windows apart, and the second message is dated later.  A
call that fails adds nothing to the window. -/
theorem opened_once_in_two_windows (primitives : SealPrimitives)
    (identityPublic agreement accountRoot : Bytes) (openings : List Unsealing)
    (small : ∀ opening ∈ openings, opening.nowMs + (2 * clockWindowMs + 1) < 2 ^ 64)
    (ordered : (openings.map Unsealing.nowMs).Pairwise (· ≤ ·)) :
    ∃ attempts, (Receiver.new primitives identityPublic agreement accountRoot).run
        primitives openings = .ok attempts ∧
      (∀ first second message again, [first, second].Sublist attempts →
        first.Accepted → second.Accepted → first.message? primitives = some message →
        second.message? primitives = some again → again.sender = message.sender →
        again.nonce = message.nonce →
          first.opening.nowMs + 2 * clockWindowMs < second.opening.nowMs ∧
            message.timeMs < again.timeMs) ∧
      ∀ attempt ∈ attempts, ¬ attempt.Accepted → attempt.AddsNothing := by
  obtain ⟨steps, final, ran, attempts, rfl⟩ := Receiver.run_attempts primitives
    (Receiver.new_ok primitives identityPublic agreement accountRoot) openings
  refine ⟨steps, ran, ?_, fun attempt member failed => attempts.addsNothing member failed⟩
  intro first second message again pair accepted acceptedAgain read readAgain sender nonce
  have bounded : ∀ nowMs ∈ steps.map (·.opening.nowMs),
      nowMs + (2 * clockWindowMs + 1) < 2 ^ 64 := by
    intro nowMs member
    obtain ⟨attempt, among, rfl⟩ := List.mem_map.mp member
    exact small attempt.opening (List.mem_map_of_mem among)
  have timely := attempts.timely (pair.subset List.mem_cons_self) read
  have timelyAgain := attempts.timely (pair.subset (by simp)) readAgain
  rw [List.map_map] at ordered
  have late : first.opening.nowMs + 2 * clockWindowMs < second.opening.nowMs := by
    rcases attempts.refused_or_late bounded pair accepted read readAgain
      (Prod.ext sender nonce) with refused | late | ⟨between, order, late⟩
    · obtain ⟨unlocked, isOk⟩ := acceptedAgain
      rw [refused] at isOk
      cases isOk
    · exact late
    · have forward := (ordered.sublist order).of_cons
      have := List.rel_of_pairwise_cons forward (List.mem_singleton_self _)
      omega
  refine ⟨late, ?_⟩
  unfold absDiff at timely timelyAgain
  omega

/-! ## Two commands -/

/-- A device that the root, whose key is all zeros, lets view from 1 to 1000000. -/
def viewer : CertificateBody where
  subject := List.replicate 32 1
  agreementKey := List.replicate 32 1
  issuer := List.replicate 32 0
  role := Role.client.toInt
  scopes := [['v']]
  mayPair := false
  mayRevoke := false
  notBeforeMs := 1
  notAfterMs := 1000000
  label := []
  renews := none

/-- A command of the device to the recipient whose key is all twos. -/
def viewCommand (nonce : UInt8) (timeMs : Nat) : CommandBody where
  sentBy := List.replicate 32 1
  sentTo := List.replicate 32 2
  scope := ['v']
  nonce := List.replicate 16 nonce
  timeMs := timeMs
  body := []
  answers := []

/-- Commands that are known by one byte, and signatures that are the key. -/
def viewPrimitives : SealPrimitives where
  decodeCertificate bytes := if bytes = [0] then some viewer else none
  verifyStrict key _ signature := decide (signature = key)
  digest key := key
  decodeSealed bytes := some ⟨[], bytes⟩
  decodeSignedCommand bytes :=
    some ⟨bytes, List.replicate 32 1, [⟨[0], List.replicate 32 0⟩]⟩
  decodeCommandBody
    | [1] => some (viewCommand 1 200000)
    | [2] => some (viewCommand 2 320001)
    | [3] => some (viewCommand 1 320001)
    | _ => none
  decodeSignedGrant _ := none
  decodeGrantBody _ := none
  isEncappedKey _ := true
  singleShotOpen _ _ _ ciphertext := some ciphertext

/-- The recipient, before it has opened anything. -/
def viewReceiver : Receiver :=
  .new viewPrimitives (List.replicate 32 2) [] (List.replicate 32 0)

/-- The device's command of one byte arrives. -/
def viewOpening (command : UInt8) (nowMs : Nat) : Unsealing :=
  .command (List.replicate 32 1) [command] nowMs

/-- Whether a call succeeded with this message. -/
def Attempt.opens (attempt : Attempt) (message : Message) : Bool :=
  attempt.answer.toOption.isSome &&
    decide (attempt.message? viewPrimitives = some message)

theorem Attempt.accepted_of_opens {attempt : Attempt} {message : Message}
    (opens : attempt.opens message = true) :
    attempt.Accepted ∧ attempt.message? viewPrimitives = some message := by
  rw [Attempt.opens, Bool.and_eq_true, decide_eq_true_eq] at opens
  obtain ⟨isOk, read⟩ := opens
  cases answer : attempt.answer with
  | error refusal => simp [answer, Except.toOption] at isOk
  | ok unlocked => exact ⟨⟨unlocked, answer⟩, read⟩

/-- The first call of a run and the last of these, both of which succeeded. -/
theorem exists_opened_twice {openings : List Unsealing} {message again : Message}
    (facts : (viewReceiver.run viewPrimitives openings).toOption.any (fun attempts =>
      match attempts with
      | first :: rest =>
          first.opens message && rest.getLast?.any fun second => second.opens again
      | [] => false) = true) :
    ∃ attempts, viewReceiver.run viewPrimitives openings = .ok attempts ∧
      ∃ first second, [first, second].Sublist attempts ∧ first.Accepted ∧
        first.message? viewPrimitives = some message ∧
        second.message? viewPrimitives = some again ∧ second.Accepted := by
  cases ran : viewReceiver.run viewPrimitives openings with
  | error panic => simp [ran, Except.toOption] at facts
  | ok attempts =>
      simp only [ran, Except.toOption, Option.any_some] at facts
      cases attempts with
      | nil => cases facts
      | cons first rest =>
          rw [Bool.and_eq_true, Option.any_eq_true] at facts
          obtain ⟨opens, second, last, opensAgain⟩ := facts
          obtain ⟨accepted, read⟩ := Attempt.accepted_of_opens opens
          obtain ⟨acceptedAgain, readAgain⟩ := Attempt.accepted_of_opens opensAgain
          have member : second ∈ rest := List.mem_of_getLast? last
          exact ⟨_, rfl, first, second,
            .cons_cons first (List.singleton_sublist.mpr member), accepted, read,
            readAgain, acceptedAgain⟩

/-- A command is accepted, the clock jumps ahead for another one, and when it has been
corrected the first command is accepted again. -/
theorem replay_accepted_after_return :
    ∃ attempts, viewReceiver.run viewPrimitives
        [viewOpening 1 200000, viewOpening 2 320001, viewOpening 1 200000] =
          .ok attempts ∧
      ∃ first second, [first, second].Sublist attempts ∧ first.Accepted ∧
        first.message? viewPrimitives =
          some ⟨List.replicate 32 1, List.replicate 16 1, 200000⟩ ∧
        second.message? viewPrimitives =
          some ⟨List.replicate 32 1, List.replicate 16 1, 200000⟩ ∧ second.Accepted :=
  exists_opened_twice (by decide +kernel)

/-- A command is accepted, the clock is ahead for another one, though not by two windows,
and when it has been corrected the first command is refused. -/
theorem replay_refused_unless_clock_returns_within :
    ∃ attempts, viewReceiver.run viewPrimitives
        [viewOpening 1 200000, viewOpening 2 310000, viewOpening 1 230000] =
          .ok attempts ∧
      ∃ first second, [first, second].Sublist attempts ∧ first.Accepted ∧
        second.answer = .error .replay := by
  obtain ⟨attempts, ran, refused⟩ := replay_refused_unless_clock_returns viewPrimitives
    (List.replicate 32 2) [] (List.replicate 32 0)
    [viewOpening 1 200000, viewOpening 2 310000, viewOpening 1 230000] (by decide) (by
      rintro ⟨first, between, last, order, late, -⟩
      have early : first ∈ [200000, 310000, 230000] := order.subset List.mem_cons_self
      have ahead : between ∈ [200000, 310000, 230000] := order.subset (by simp)
      simp only [List.mem_cons, List.not_mem_nil, or_false] at early ahead
      rw [show clockWindowMs = 60000 from rfl] at late
      omega)
  obtain ⟨three, opens, readAgain⟩ : attempts.length = 3 ∧
      attempts.head?.any (fun first =>
        first.opens ⟨List.replicate 32 1, List.replicate 16 1, 200000⟩) = true ∧
      attempts.getLast?.any (fun again => decide (again.message? viewPrimitives =
        some ⟨List.replicate 32 1, List.replicate 16 1, 200000⟩)) = true :=
    holds_of_check ran (by decide +kernel)
  obtain ⟨first, between, again, rfl⟩ := List.length_eq_three.mp three
  obtain ⟨accepted, read⟩ := Attempt.accepted_of_opens opens
  have pair : [first, again].Sublist [first, between, again] := by simp
  exact ⟨_, ran, first, again, pair, accepted,
    refused first again _ pair accepted read (of_decide_eq_true readAgain)⟩

/-- A device signs another command with a nonce that it has used before, and two windows
later it is heard. -/
theorem nonce_opened_twice :
    ∃ attempts, viewReceiver.run viewPrimitives
        [viewOpening 1 200000, viewOpening 3 320001] = .ok attempts ∧
      ∃ first second, [first, second].Sublist attempts ∧ first.Accepted ∧
        first.message? viewPrimitives =
          some ⟨List.replicate 32 1, List.replicate 16 1, 200000⟩ ∧
        second.message? viewPrimitives =
          some ⟨List.replicate 32 1, List.replicate 16 1, 320001⟩ ∧ second.Accepted :=
  exists_opened_twice (by decide +kernel)

theorem opened_once_in_two_windows_apart :
    ∃ attempts, viewReceiver.run viewPrimitives
        [viewOpening 1 200000, viewOpening 3 320001] = .ok attempts ∧
      (∀ first second message again, [first, second].Sublist attempts →
        first.Accepted → second.Accepted → first.message? viewPrimitives = some message →
        second.message? viewPrimitives = some again → again.sender = message.sender →
        again.nonce = message.nonce →
          first.opening.nowMs + 2 * clockWindowMs < second.opening.nowMs ∧
            message.timeMs < again.timeMs) ∧
      ∀ attempt ∈ attempts, ¬ attempt.Accepted → attempt.AddsNothing :=
  opened_once_in_two_windows viewPrimitives _ _ _ _ (by decide) (by decide)

end WindowMlHub
