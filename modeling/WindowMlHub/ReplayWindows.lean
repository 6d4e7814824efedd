import WindowMlHub.CheckedEvaluation
import WindowMlHub.HashTables
import WindowMlHub.RetentionQueues
import WindowMlHub.WireFrames

/-!
# The replay window

The nonces that a recipient accepted recently, per sender.  Three collections say the
same thing: which nonces are known, how many each sender holds, and in which order they
arrived with the time each may be forgotten.  The window has a capacity, and each sender
a share of it.

The share is read off an entry that a sender has only while it holds a nonce.  A sender
that holds none has no entry to compare, so a share of nothing admits one nonce.
-/

namespace WindowMlHub

open CheckedEvaluation HashTables RetentionQueues

/-- `CLOCK_WINDOW_MS`. -/
def clockWindowMs : Nat := 60000

/-- `MAX_REPLAY_ENTRIES`. -/
def maxReplayEntries : Nat := 65536

/-- `MAX_REPLAY_PER_SENDER`. -/
def maxReplayPerSender : Nat := 4096

/-- A sender and one of its nonces. -/
abbrev ReplayKey := Bytes × Bytes

/-- Why the window does not take a nonce. -/
inductive ReplayError
  | replay
  | busy
  deriving DecidableEq, Repr

structure ReplayWindow where
  capacity : Nat
  perSender : Nat
  seen : HashSet ReplayKey := ∅
  /-- how many of `seen` each sender holds -/
  held : HashMap Bytes Nat := ∅
  /-- in arrival order, with the time each may be forgotten -/
  order : List (Nat × ReplayKey) := []

namespace ReplayWindow

/-- One nonce of a sender forgotten, and the sender itself with its last one. -/
def release (window : ReplayWindow) (sender : Bytes) : Checked ReplayWindow :=
  match window.held.lookup sender with
  | none => .ok window
  | some held => do
      let held ← sub held 1
      return { window with held :=
        if held = 0 then window.held.erase sender
        else window.held.insert sender held }

/-- The loop of `admit` that forgets from the front of the order. -/
def forgetLoop (nowMs : Nat) :
    List (Nat × ReplayKey) → ReplayWindow → Checked ReplayWindow
  | [], window => .ok { window with order := [] }
  | (forgetAt, key) :: rest, window =>
      if forgetAt > nowMs then
        .ok { window with order := (forgetAt, key) :: rest }
      else if key ∈ window.seen then do
        let window ← { window with seen := window.seen.erase key }.release key.1
        forgetLoop nowMs rest window
      else
        forgetLoop nowMs rest window

/-- Is this sender's share taken, or the whole window? -/
def isFull (window : ReplayWindow) (sender : Bytes) : Bool :=
  (window.held.lookup sender).any (fun held => decide (held ≥ window.perSender)) ||
    decide (HashMap.len window.seen ≥ window.capacity)

/-- Note a nonce. -/
def note (window : ReplayWindow) (sender nonce : Bytes) (nowMs : Nat) : ReplayWindow :=
  { window with
    seen := window.seen.insert (sender, nonce) ()
    held := window.held.insert sender ((window.held.lookup sender).getD 0 + 1)
    order := window.order ++
      [(saturatingAdd nowMs (2 * clockWindowMs + 1), (sender, nonce))] }

/-- `admit`. -/
def admitNonce (window : ReplayWindow) (sender nonce : Bytes) (nowMs : Nat) :
    Checked (ReplayWindow × Except ReplayError Unit) := do
  let window ← forgetLoop nowMs window.order window
  if (sender, nonce) ∈ window.seen then
    return (window, .error .replay)
  else if window.isFull sender then
    return (window, .error .busy)
  else
    return (window.note sender nonce nowMs, .ok ())

/-! ## Three collections that say the same -/

/-- How many of these entries are a sender's. -/
def share (order : List (Nat × ReplayKey)) (sender : Bytes) : Nat :=
  order.countP fun entry => decide (entry.2.1 = sender)

/-- The nonces in arrival order, the set of them and the numbers held agree. -/
structure Agrees (order : List (Nat × ReplayKey)) (seen : HashSet ReplayKey)
    (held : HashMap Bytes Nat) : Prop where
  nodup : (order.map Prod.snd).Nodup
  seen_iff : ∀ key, key ∈ seen ↔ key ∈ order.map Prod.snd
  held_eq : ∀ sender, held.lookup sender =
    if share order sender = 0 then none else some (share order sender)

/-- A window whose collections agree. -/
def Ok (window : ReplayWindow) : Prop :=
  Agrees window.order window.seen window.held

variable {order : List (Nat × ReplayKey)} {seen : HashSet ReplayKey}
  {held : HashMap Bytes Nat} {window : ReplayWindow} {nowMs : Nat}
  {sender nonce : Bytes}

@[simp]
theorem share_nil (sender : Bytes) : share [] sender = 0 :=
  rfl

theorem share_cons (entry : Nat × ReplayKey) (sender : Bytes) :
    share (entry :: order) sender =
      share order sender + if entry.2.1 = sender then 1 else 0 := by
  simp [share, List.countP_cons]

theorem share_append (first second : List (Nat × ReplayKey)) (sender : Bytes) :
    share (first ++ second) sender = share first sender + share second sender := by
  simp [share]

theorem Agrees.empty : Agrees [] ∅ ∅ where
  nodup := by simp
  seen_iff key := by simp
  held_eq sender := by simp

theorem Agrees.keys_perm (agrees : Agrees order seen held) :
    seen.keys.Perm (order.map Prod.snd) :=
  (List.perm_ext_iff_of_nodup seen.keys_nodup agrees.nodup).mpr fun key =>
    agrees.seen_iff key

theorem Agrees.len_seen (agrees : Agrees order seen held) :
    HashMap.len seen = order.length := by
  rw [HashMap.len, agrees.keys_perm.length_eq, List.length_map]

/-- A nonce that is forgotten takes itself off all three. -/
theorem Agrees.forget {forgetAt : Nat} {key : ReplayKey}
    (agrees : Agrees ((forgetAt, key) :: order) window.seen window.held) :
    key ∈ window.seen ∧ ∃ window',
      ({ window with seen := window.seen.erase key }).release key.1 = .ok window' ∧
      Agrees order window'.seen window'.held ∧
      window'.capacity = window.capacity ∧ window'.perSender = window.perSender := by
  have known : key ∈ window.seen := (agrees.seen_iff key).mpr (by simp)
  obtain ⟨fresh, nodup⟩ := List.nodup_cons.mp agrees.nodup
  have holds : window.held.lookup key.1 = some (share order key.1 + 1) := by
    rw [agrees.held_eq, share_cons]
    simp
  refine ⟨known, ?_⟩
  unfold release
  simp only [holds, sub_of_le (Nat.le_add_left 1 _), Nat.add_sub_cancel, ok_bind]
  refine ⟨_, rfl, ⟨nodup, fun other => ?_, fun other => ?_⟩, rfl, rfl⟩
  · simp only [AList.mem_erase, agrees.seen_iff, List.map_cons, List.mem_cons]
    constructor
    · rintro ⟨differs, same | later⟩
      · exact (differs same).elim
      · exact later
    · intro later
      exact ⟨fun same => fresh (same ▸ later), Or.inr later⟩
  · have before := agrees.held_eq other
    rw [share_cons] at before
    by_cases same : other = key.1
    · subst same
      by_cases last : share order key.1 = 0
      · simp [last]
      · simp [last]
    · rw [if_neg (Ne.symm same), Nat.add_zero] at before
      by_cases last : share order key.1 = 0
      · simp [last, same, before]
      · simp [last, same, before]

/-- The loop forgets what the clock allows, and never counts a sender below nothing. -/
theorem forgetLoop_spec (nowMs : Nat) (agrees : Agrees order window.seen window.held) :
    ∃ window', forgetLoop nowMs order window = .ok window' ∧ window'.Ok ∧
      window'.order = forgetDue nowMs order ∧
      window'.capacity = window.capacity ∧ window'.perSender = window.perSender := by
  induction order generalizing window with
  | nil => exact ⟨_, rfl, agrees, rfl, rfl, rfl⟩
  | cons entry rest ih =>
      obtain ⟨forgetAt, key⟩ := entry
      unfold forgetLoop forgetDue
      by_cases later : forgetAt > nowMs
      · rw [if_pos later, List.dropWhile_cons_of_neg (by simpa using later)]
        exact ⟨_, rfl, agrees, rfl, rfl, rfl⟩
      · rw [if_neg later, List.dropWhile_cons_of_pos (by simpa using later)]
        obtain ⟨known, middle, released, less, capacity, perSender⟩ := agrees.forget
        rw [if_pos known, released, ok_bind]
        obtain ⟨window', ran, ok, orderEq, capacity', perSender'⟩ := ih less
        exact ⟨window', ran, ok, orderEq, capacity'.trans capacity,
          perSender'.trans perSender⟩

/-- A fresh nonce is noted in all three. -/
theorem Agrees.note (agrees : Agrees order seen held) {key : ReplayKey}
    (fresh : key ∉ order.map Prod.snd) (forgetAt : Nat) :
    Agrees (order ++ [(forgetAt, key)]) (seen.insert key ())
      (held.insert key.1 ((held.lookup key.1).getD 0 + 1)) where
  nodup := by
    rw [List.map_append]
    refine List.nodup_append.mpr ⟨agrees.nodup, by simp, ?_⟩
    intro old member new single same
    rw [same, List.mem_singleton.mp single] at member
    exact fresh member
  seen_iff other := by
    simp [agrees.seen_iff, or_comm]
  held_eq other := by
    have count : (held.lookup key.1).getD 0 = share order key.1 := by
      rw [agrees.held_eq]
      split
      · next none => simp [none]
      · rfl
    rw [HashMap.lookup_insert_eq, count, share_append, share_cons, share_nil]
    by_cases same : other = key.1
    · subst same
      simp
    · rw [if_neg same, if_neg (Ne.symm same), agrees.held_eq, Nat.add_zero]

/-- What the window makes of a nonce, given what it remembers at that moment. -/
inductive Answered (window : ReplayWindow) (kept : List (Nat × ReplayKey))
    (sender nonce : Bytes) (nowMs : Nat) :
    List (Nat × ReplayKey) → Except ReplayError Unit → Prop
  | replay (known : (sender, nonce) ∈ kept.map Prod.snd) :
      Answered window kept sender nonce nowMs kept (.error .replay)
  | busy (fresh : (sender, nonce) ∉ kept.map Prod.snd)
      (full : share kept sender ≠ 0 ∧ window.perSender ≤ share kept sender ∨
        window.capacity ≤ kept.length) :
      Answered window kept sender nonce nowMs kept (.error .busy)
  | noted (fresh : (sender, nonce) ∉ kept.map Prod.snd)
      (room : share kept sender = 0 ∨ share kept sender < window.perSender)
      (space : kept.length < window.capacity) :
      Answered window kept sender nonce nowMs
        (kept ++ [(saturatingAdd nowMs (2 * clockWindowMs + 1), (sender, nonce))]) (.ok ())

/-- Admitting does not panic, keeps the three collections in step, and answers by what
is remembered. -/
theorem admit_spec (ok : window.Ok) (sender nonce : Bytes) (nowMs : Nat) :
    ∃ window' answer, window.admitNonce sender nonce nowMs = .ok (window', answer) ∧
      window'.Ok ∧ window'.capacity = window.capacity ∧
      window'.perSender = window.perSender ∧
      Answered window (forgetDue nowMs window.order) sender nonce nowMs window'.order
        answer := by
  obtain ⟨kept, ran, keptOk, orderEq, capacity, perSender⟩ := forgetLoop_spec nowMs ok
  rw [← orderEq]
  have full : kept.isFull sender = true ↔
      share kept.order sender ≠ 0 ∧ window.perSender ≤ share kept.order sender ∨
        window.capacity ≤ kept.order.length := by
    rw [isFull, keptOk.held_eq, keptOk.len_seen, capacity, perSender]
    by_cases none : share kept.order sender = 0
    all_goals simp [none]
  unfold admitNonce
  rw [ran, ok_bind]
  by_cases known : (sender, nonce) ∈ kept.seen
  · rw [if_pos known]
    exact ⟨kept, _, rfl, keptOk, capacity, perSender,
      .replay ((keptOk.seen_iff _).mp known)⟩
  · rw [if_neg known]
    have fresh : (sender, nonce) ∉ kept.order.map Prod.snd := by
      rwa [← keptOk.seen_iff]
    by_cases refused : kept.isFull sender = true
    · rw [if_pos refused]
      exact ⟨kept, _, rfl, keptOk, capacity, perSender, .busy fresh (full.mp refused)⟩
    · rw [if_neg refused]
      rw [full, not_or, not_and_or, not_not, Nat.not_le, Nat.not_le] at refused
      exact ⟨_, _, rfl, keptOk.note fresh _, capacity, perSender,
        .noted fresh refused.1 refused.2⟩

/-! ## Runs of the window -/

/-- `with_capacity`. -/
def withCapacity (capacity perSender : Nat) : ReplayWindow :=
  { capacity, perSender }

/-- One call of `admit`: what it was asked, what it answered, and the window after it. -/
structure Step where
  sender : Bytes
  nonce : Bytes
  nowMs : Nat
  answer : Except ReplayError Unit
  after : ReplayWindow

/-- One call after another, of senders, nonces and readings of the clock. -/
def run (window : ReplayWindow) : List (Bytes × Bytes × Nat) → Checked (List Step)
  | [] => .ok []
  | (sender, nonce, nowMs) :: rest => do
      let (after, answer) ← window.admitNonce sender nonce nowMs
      let steps ← after.run rest
      return ⟨sender, nonce, nowMs, answer, after⟩ :: steps

/-- How many of the nonces seen are a sender's. -/
def heldBy (window : ReplayWindow) (sender : Bytes) : Nat :=
  window.seen.keys.countP fun key => decide (key.1 = sender)

/-- The window's structure: the nonces seen are those in arrival order, each once; what
a sender is counted to hold is what it holds, and never nothing; and neither the whole
nor anybody's share is exceeded. -/
structure Sound (window : ReplayWindow) : Prop where
  once : (window.order.map Prod.snd).Nodup
  seen_iff : ∀ key, key ∈ window.seen ↔ key ∈ window.order.map Prod.snd
  held_eq : ∀ sender, window.held.lookup sender =
    if window.heldBy sender = 0 then none else some (window.heldBy sender)
  within : HashMap.len window.seen ≤ window.capacity
  shares : ∀ sender held, window.held.lookup sender = some held →
    held ≤ window.perSender

/-- Whoever was told the window is busy has filled its own share, or all of them
together have filled the window. -/
def Step.Fair (step : Step) : Prop :=
  step.answer = .error .busy →
    step.after.perSender ≤ step.after.heldBy step.sender ∨
      step.after.capacity ≤ HashMap.len step.after.seen

/-- Every run keeps the structure, without a panic, and is fair. -/
def KeepsStructure (capacity perSender : Nat) : Prop :=
  ∀ calls, ∃ steps, (withCapacity capacity perSender).run calls = .ok steps ∧
    ∀ step ∈ steps, step.after.Sound ∧ step.Fair

/-- Nothing is exceeded. -/
structure Bounded (window : ReplayWindow) (order : List (Nat × ReplayKey)) : Prop where
  within : order.length ≤ window.capacity
  shares : ∀ sender, share order sender ≤ window.perSender

theorem Ok.heldBy_eq (ok : window.Ok) (sender : Bytes) :
    window.heldBy sender = share window.order sender := by
  rw [heldBy, ok.keys_perm.countP_eq, List.countP_map]
  rfl

theorem Ok.sound (ok : window.Ok) (bounded : window.Bounded window.order) :
    window.Sound where
  once := ok.nodup
  seen_iff := ok.seen_iff
  held_eq sender := by rw [ok.heldBy_eq, ok.held_eq]
  within := by
    rw [ok.len_seen]
    exact bounded.within
  shares sender held found := by
    have bound := bounded.shares sender
    rw [ok.held_eq] at found
    split at found
    · cases found
    · obtain rfl := Option.some.inj found
      exact bound

theorem Bounded.forgetDue (bounded : window.Bounded order) (nowMs : Nat) :
    window.Bounded (RetentionQueues.forgetDue nowMs order) := by
  have less := (forgetDue_suffix nowMs order).sublist
  exact ⟨less.length_le.trans bounded.within,
    fun sender => less.countP_le.trans (bounded.shares sender)⟩

/-- A nonce is noted only if there is room for it, except that nothing is no bound on
the share of a sender that holds nothing. -/
theorem Answered.bounded {kept order : List (Nat × ReplayKey)}
    {answer : Except ReplayError Unit}
    (answered : Answered window kept sender nonce nowMs order answer)
    (proper : 0 < window.perSender ∨ window.capacity = 0)
    (bounded : window.Bounded kept) : window.Bounded order := by
  cases answered with
  | replay known => exact bounded
  | busy fresh full => exact bounded
  | noted fresh room space =>
      refine ⟨?_, fun other => ?_⟩
      · rw [List.length_append, List.length_singleton]
        exact space
      · have before := bounded.shares other
        rw [share_append, share_cons, share_nil, Nat.zero_add]
        split
        · next same =>
            obtain rfl : sender = other := same
            rcases proper with positive | nothing
            · omega
            · omega
        · exact before

theorem Answered.fair {kept : List (Nat × ReplayKey)} {after : ReplayWindow}
    {answer : Except ReplayError Unit}
    (answered : Answered window kept sender nonce nowMs after.order answer)
    (ok : after.Ok) (capacity : after.capacity = window.capacity)
    (perSender : after.perSender = window.perSender) :
    Step.Fair ⟨sender, nonce, nowMs, answer, after⟩ := by
  intro isBusy
  simp only at isBusy ⊢
  rw [ok.heldBy_eq, ok.len_seen, capacity, perSender]
  generalize after.order = order at answered
  cases answered with
  | replay known => cases isBusy
  | noted fresh room space => cases isBusy
  | busy fresh full =>
      rcases full with ⟨-, own⟩ | all
      · exact Or.inl own
      · exact Or.inr all

theorem run_sound (ok : window.Ok) (bounded : window.Bounded window.order)
    (proper : 0 < window.perSender ∨ window.capacity = 0)
    (calls : List (Bytes × Bytes × Nat)) :
    ∃ steps, window.run calls = .ok steps ∧
      ∀ step ∈ steps, step.after.Sound ∧ step.Fair := by
  induction calls generalizing window with
  | nil => exact ⟨[], rfl, by simp⟩
  | cons call rest ih =>
      obtain ⟨sender, nonce, nowMs⟩ := call
      obtain ⟨after, answer, ran, afterOk, capacity, perSender, answered⟩ :=
        admit_spec ok sender nonce nowMs
      have within := answered.bounded proper (bounded.forgetDue nowMs)
      have afterBounded : after.Bounded after.order :=
        ⟨capacity ▸ within.within, perSender ▸ within.shares⟩
      obtain ⟨steps, later, sound⟩ := ih afterOk afterBounded
        (by rw [capacity, perSender]; exact proper)
      refine ⟨⟨sender, nonce, nowMs, answer, after⟩ :: steps, ?_, ?_⟩
      · simp only [run, ran, ok_bind, later, pure_eq_ok]
      · intro step member
        rcases List.mem_cons.mp member with rfl | among
        · exact ⟨afterOk.sound afterBounded, answered.fair afterOk capacity perSender⟩
        · exact sound step among

theorem admit_first (capacity perSender : Nat) (space : 0 < capacity)
    (sender nonce : Bytes) (nowMs : Nat) :
    (withCapacity capacity perSender).admitNonce sender nonce nowMs =
      .ok ((withCapacity capacity perSender).note sender nonce nowMs, .ok ()) := by
  have empty : ¬ capacity ≤ HashMap.len (∅ : HashSet ReplayKey) := by
    rw [HashMap.len_eq_zero_iff.mpr rfl]
    omega
  have room : ({ withCapacity capacity perSender with order := [] } :
      ReplayWindow).isFull sender = false := by
    simp [isFull, withCapacity, empty]
  unfold admitNonce
  simp only [withCapacity, forgetLoop, ok_bind] at room ⊢
  rw [if_neg (AList.notMem_empty _), if_neg (by simp [room])]
  rfl

theorem not_sound_note_first (capacity : Nat) (sender nonce : Bytes) (nowMs : Nat) :
    ¬ ((withCapacity capacity 0).note sender nonce nowMs).Sound := by
  intro sound
  have exceeded := sound.shares sender 1 (by
    rw [note, HashMap.lookup_insert_eq]
    simp [withCapacity])
  simp [note, withCapacity] at exceeded

/-- Every run keeps the structure of the window exactly if a share is more than nothing,
or nothing fits in the window at all. -/
theorem replay_window_structure_iff (capacity perSender : Nat) :
    KeepsStructure capacity perSender ↔ 0 < perSender ∨ capacity = 0 := by
  constructor
  · intro keeps
    by_contra improper
    rw [not_or, Nat.not_lt, Nat.le_zero] at improper
    obtain ⟨rfl, space⟩ := improper
    obtain ⟨steps, ran, sound⟩ := keeps [([1], [1], 0)]
    simp only [run, admit_first capacity 0 (Nat.pos_of_ne_zero space), ok_bind,
      pure_eq_ok] at ran
    obtain rfl := Except.ok.inj ran
    exact not_sound_note_first capacity [1] [1] 0 (sound _ List.mem_cons_self).1
  · intro proper calls
    have ok : (withCapacity capacity perSender).Ok := Agrees.empty
    exact run_sound ok ⟨Nat.zero_le _, fun sender => Nat.zero_le _⟩ proper calls

/-- With a share of nothing and room for one nonce, a sender holds one. -/
theorem replay_share_exceeded :
    ∃ steps, (withCapacity 1 0).run [([1], [1], 0)] = .ok steps ∧
      ∃ step ∈ steps, ¬ step.after.Sound := by
  refine ⟨[⟨[1], [1], 0, .ok (), (withCapacity 1 0).note [1] [1] 0⟩], ?_, _,
    List.mem_singleton.mpr rfl, not_sound_note_first 1 [1] [1] 0⟩
  simp only [run, admit_first 1 0 Nat.one_pos, ok_bind, pure_eq_ok]

end ReplayWindow

end WindowMlHub
