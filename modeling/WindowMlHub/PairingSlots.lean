import WindowMlHub.HashTables
import WindowMlHub.WireFrames

/-!
# Pairing slots

`pairing.rs` of the hub: a slot holds the offer of a device that has no certificate
yet, and the answer that a device with one puts back.  It is keyed by the hash of a
code that a person carries from one to the other.  Slots expire, are bounded in number
and in size, take one answer, and are gone once that is collected.

The law of the slots is stated over the history of calls: what a slot holds is
explained by the latest offer under its hash, and by the one answer accepted since.
-/

namespace WindowMlHub

open HashTables

/-- `SLOT_LIFETIME`: ten minutes, in nanoseconds. -/
def slotLifetime : Nat := 10 * 60 * 1000000000

/-- `MAX_SLOTS`. -/
def maxSlots : Nat := 1024

/-- `MAX_OFFER_BYTES`. -/
def maxOfferBytes : Nat := 512

/-- `MAX_ANSWER_BYTES`. -/
def maxAnswerBytes : Nat := 4096

/-- Why a slot operation was refused. -/
inductive SlotError
  | unknown
  | taken
  | tooLarge
  | full
  | answered
  deriving DecidableEq, Repr

structure Slot where
  offer : Bytes
  answer : Option Bytes
  expires : Nat
  deriving DecidableEq, Repr

/-- Every slot the hub is holding. -/
structure Slots where
  /-- `open` -/
  opened : HashMap Bytes Slot := ∅

/-- What a slot operation answers. -/
inductive SlotReply
  | done
  | bytes (found : Bytes)
  | refused (error : SlotError)
  deriving DecidableEq, Repr

namespace Slots

/-- `held`. -/
def held (slots : Slots) : Nat :=
  HashMap.len slots.opened

/-- `forget_expired`. -/
def forgetExpired (slots : Slots) (now : Nat) : Slots where
  opened := slots.opened.retain fun _ slot => decide (slot.expires > now)

/-- `Slots::offer`. -/
def offer (slots : Slots) (codeHash offer : Bytes) (now : Nat) : Slots × SlotReply :=
  if codeHash.length ≠ 32 then
    (slots, .refused .tooLarge)
  else if offer.length > maxOfferBytes then
    (slots, .refused .tooLarge)
  else
    let slots := slots.forgetExpired now
    if codeHash ∈ slots.opened then
      (slots, .refused .taken)
    else if slots.held ≥ maxSlots then
      (slots, .refused .full)
    else
      (⟨slots.opened.insert codeHash ⟨offer, none, now + slotLifetime⟩⟩, .done)

/-- `Slots::offered`. -/
def offered (slots : Slots) (codeHash : Bytes) (now : Nat) : Slots × SlotReply :=
  if codeHash.length ≠ 32 then
    (slots, .refused .tooLarge)
  else
    let slots := slots.forgetExpired now
    match slots.opened.lookup codeHash with
    | none => (slots, .refused .unknown)
    | some slot => (slots, .bytes slot.offer)

/-- `Slots::answer`. -/
def answer (slots : Slots) (codeHash answer : Bytes) (now : Nat) : Slots × SlotReply :=
  if codeHash.length ≠ 32 then
    (slots, .refused .tooLarge)
  else if answer.length > maxAnswerBytes then
    (slots, .refused .tooLarge)
  else
    let slots := slots.forgetExpired now
    match slots.opened.lookup codeHash with
    | none => (slots, .refused .unknown)
    | some slot =>
        match slot.answer with
        | some _ => (slots, .refused .answered)
        | none =>
            (⟨slots.opened.insert codeHash { slot with answer := some answer }⟩, .done)

/-- `Slots::collect`. -/
def collect (slots : Slots) (codeHash : Bytes) (now : Nat) : Slots × SlotReply :=
  if codeHash.length ≠ 32 then
    (slots, .refused .tooLarge)
  else
    let slots := slots.forgetExpired now
    match (slots.opened.lookup codeHash).bind fun slot => slot.answer with
    | none => (slots, .refused .unknown)
    | some answer => (⟨slots.opened.erase codeHash⟩, .bytes answer)

/-- `Slots::forget`. -/
def forget (slots : Slots) (codeHash : Bytes) : Slots × SlotReply :=
  if codeHash.length ≠ 32 then
    (slots, .done)
  else
    (⟨slots.opened.erase codeHash⟩, .done)

end Slots

/-- A call of the slots. -/
inductive SlotCall
  | offer (codeHash offer : Bytes)
  | offered (codeHash : Bytes)
  | answer (codeHash answer : Bytes)
  | collect (codeHash : Bytes)
  | forget (codeHash : Bytes)
  deriving DecidableEq, Repr

/-- A call at a time. -/
def Slots.apply (slots : Slots) (now : Nat) : SlotCall → Slots × SlotReply
  | .offer codeHash offer => slots.offer codeHash offer now
  | .offered codeHash => slots.offered codeHash now
  | .answer codeHash answer => slots.answer codeHash answer now
  | .collect codeHash => slots.collect codeHash now
  | .forget codeHash => slots.forget codeHash

/-- A call as it was made, with the slots before and after it. -/
structure SlotStep where
  before : Slots
  call : SlotCall
  now : Nat
  reply : SlotReply
  after : Slots

/-- The step that a call makes. -/
def Slots.step (slots : Slots) (call : SlotCall) (now : Nat) : SlotStep :=
  let result := slots.apply now call
  ⟨slots, call, now, result.2, result.1⟩

/-- Calls one after another, each at its time. -/
def Slots.run (slots : Slots) : List (SlotCall × Nat) → List SlotStep
  | [] => []
  | (call, now) :: rest =>
      let step := slots.step call now
      step :: step.after.run rest

/-! ## What the history says of a slot -/

namespace SlotStep

/-- The offer that the step opened a slot with. -/
def opens (codeHash : Bytes) (step : SlotStep) : Option Bytes :=
  match step.call, step.reply with
  | .offer hash offer, .done => if hash = codeHash then some offer else none
  | _, _ => none

/-- The answer that the step put into a slot. -/
def answers (codeHash : Bytes) (step : SlotStep) : Option Bytes :=
  match step.call, step.reply with
  | .answer hash answer, .done => if hash = codeHash then some answer else none
  | _, _ => none

/-- Whether the step collected or forgot a slot. -/
def ends (codeHash : Bytes) (step : SlotStep) : Bool :=
  match step.call, step.reply with
  | .collect hash, .bytes _ => decide (hash = codeHash)
  | .forget hash, .done => decide (hash = codeHash)
  | _, _ => false

end SlotStep

/-- What happened under a hash since it was last offered: the slot was not opened
again, collected or forgotten, and the answers accepted are just the one it holds. -/
structure Untouched (codeHash : Bytes) (slot : Slot) (later : List SlotStep) : Prop where
  not_opened : ∀ step ∈ later, step.opens codeHash = none
  not_ended : ∀ step ∈ later, step.ends codeHash = false
  answers_eq : later.filterMap (·.answers codeHash) = slot.answer.toList

/-- The step that opened a slot. -/
structure Opening (codeHash : Bytes) (slot : Slot) (step : SlotStep) : Prop where
  opens : step.opens codeHash = some slot.offer
  expires_eq : slot.expires = step.now + slotLifetime

/-- A slot as the past explains it: the latest successful offer under its hash opened
it, and it was left alone since but for the answer it holds. -/
def Explains (past : List SlotStep) (codeHash : Bytes) (slot : Slot) : Prop :=
  ∃ earlier opening later, past = earlier ++ opening :: later ∧
    Opening codeHash slot opening ∧ Untouched codeHash slot later

/-- The slot under a hash that has not expired. -/
def Slots.live (slots : Slots) (now : Nat) (codeHash : Bytes) : Option Slot :=
  (slots.opened.lookup codeHash).filter fun slot => decide (slot.expires > now)

/-- What a call of a slot that has not expired is answered: the offer is handed out, the first
answer is taken, and an answer is collected. -/
structure Serves (step : SlotStep) (codeHash : Bytes) (slot : Slot) : Prop where
  offered : step.call = .offered codeHash → step.reply = .bytes slot.offer
  answered : ∀ answer, step.call = .answer codeHash answer → slot.answer = none →
    answer.length ≤ maxAnswerBytes → step.reply = .done
  collected : ∀ answer, step.call = .collect codeHash → slot.answer = some answer →
    step.reply = .bytes answer

/-- The law of one call, given the calls before it. -/
structure SlotLaw (past : List SlotStep) (step : SlotStep) : Prop where
  collected : ∀ codeHash answer, step.call = .collect codeHash →
    step.reply = .bytes answer → ∃ slot, Explains past codeHash slot ∧
      slot.answer = some answer ∧ step.now < slot.expires
  offered : ∀ codeHash offer, step.call = .offered codeHash →
    step.reply = .bytes offer → ∃ slot, Explains past codeHash slot ∧
      slot.offer = offer ∧ step.now < slot.expires
  answered : ∀ codeHash answer, step.call = .answer codeHash answer →
    step.reply = .done → ∃ slot, Explains past codeHash slot ∧
      slot.answer = none ∧ step.now < slot.expires
  serves : ∀ codeHash slot, step.before.live step.now codeHash = some slot →
    Serves step codeHash slot
  held_le : step.after.held ≤ maxSlots
  small : ∀ codeHash slot, step.after.opened.lookup codeHash = some slot →
    slot.offer.length ≤ maxOfferBytes ∧
      ∀ answer ∈ slot.answer, answer.length ≤ maxAnswerBytes
  refused : ∀ error, step.reply = .refused error → ∀ codeHash,
    step.after.live step.now codeHash = step.before.live step.now codeHash

/-! ## What a call can do -/

/-- What a call can do, and when. -/
inductive SlotEffect (slots : Slots) (now : Nat) : SlotCall → Slots × SlotReply → Prop
  | refused (call : SlotCall) (error : SlotError) (after : Slots)
      (kept : after = slots ∨ after = slots.forgetExpired now) :
      SlotEffect slots now call (after, .refused error)
  | opened (codeHash offer : Bytes) (wide : codeHash.length = 32)
      (small : offer.length ≤ maxOfferBytes) (free : slots.live now codeHash = none)
      (room : (slots.forgetExpired now).held < maxSlots) :
      SlotEffect slots now (.offer codeHash offer)
        (⟨(slots.forgetExpired now).opened.insert codeHash
          ⟨offer, none, now + slotLifetime⟩⟩, .done)
  | found (codeHash : Bytes) (slot : Slot) (live : slots.live now codeHash = some slot) :
      SlotEffect slots now (.offered codeHash)
        (slots.forgetExpired now, .bytes slot.offer)
  | answered (codeHash answer : Bytes) (slot : Slot)
      (small : answer.length ≤ maxAnswerBytes)
      (live : slots.live now codeHash = some slot) (first : slot.answer = none) :
      SlotEffect slots now (.answer codeHash answer)
        (⟨(slots.forgetExpired now).opened.insert codeHash
          { slot with answer := some answer }⟩, .done)
  | collected (codeHash answer : Bytes) (slot : Slot)
      (live : slots.live now codeHash = some slot)
      (given : slot.answer = some answer) :
      SlotEffect slots now (.collect codeHash)
        (⟨(slots.forgetExpired now).opened.erase codeHash⟩, .bytes answer)
  | forgot (codeHash : Bytes) (wide : codeHash.length = 32) :
      SlotEffect slots now (.forget codeHash) (⟨slots.opened.erase codeHash⟩, .done)
  | ignored (codeHash : Bytes) (odd : codeHash.length ≠ 32) :
      SlotEffect slots now (.forget codeHash) (slots, .done)

section Law

variable {slots : Slots} {now : Nat}

theorem lookup_forgetExpired (slots : Slots) (now : Nat) (codeHash : Bytes) :
    (slots.forgetExpired now).opened.lookup codeHash = slots.live now codeHash :=
  HashMap.lookup_retain _ slots.opened codeHash

theorem mem_forgetExpired_iff (slots : Slots) (now : Nat) (codeHash : Bytes) :
    codeHash ∉ (slots.forgetExpired now).opened ↔ slots.live now codeHash = none := by
  rw [← lookup_forgetExpired, AList.lookup_eq_none]

theorem live_eq_some_iff {codeHash : Bytes} {slot : Slot} :
    slots.live now codeHash = some slot ↔
      slots.opened.lookup codeHash = some slot ∧ now < slot.expires := by
  simp [Slots.live, Option.filter_eq_some_iff]

theorem live_forgetExpired (slots : Slots) (now : Nat) (codeHash : Bytes) :
    (slots.forgetExpired now).live now codeHash = slots.live now codeHash := by
  simp [Slots.live, lookup_forgetExpired, Option.filter_filter]

theorem offer_effect (slots : Slots) (now : Nat) (codeHash offer : Bytes) :
    SlotEffect slots now (.offer codeHash offer) (slots.offer codeHash offer now) := by
  unfold Slots.offer
  split
  · exact .refused _ _ _ (.inl rfl)
  next wide =>
    split
    · exact .refused _ _ _ (.inl rfl)
    next small =>
      dsimp only
      split
      · exact .refused _ _ _ (.inr rfl)
      next free =>
        split
        · exact .refused _ _ _ (.inr rfl)
        next room =>
          exact .opened _ _ (not_not.mp wide) (Nat.le_of_not_lt small)
            ((mem_forgetExpired_iff slots now codeHash).mp free) (Nat.lt_of_not_le room)

theorem offered_effect (slots : Slots) (now : Nat) (codeHash : Bytes) :
    SlotEffect slots now (.offered codeHash) (slots.offered codeHash now) := by
  unfold Slots.offered
  split
  · exact .refused _ _ _ (.inl rfl)
  · dsimp only
    split
    · exact .refused _ _ _ (.inr rfl)
    next slot found =>
      rw [lookup_forgetExpired] at found
      exact .found _ _ found

theorem answer_effect (slots : Slots) (now : Nat) (codeHash answer : Bytes) :
    SlotEffect slots now (.answer codeHash answer) (slots.answer codeHash answer now) := by
  unfold Slots.answer
  split
  · exact .refused _ _ _ (.inl rfl)
  · split
    · exact .refused _ _ _ (.inl rfl)
    next small =>
      dsimp only
      split
      · exact .refused _ _ _ (.inr rfl)
      next slot found =>
        rw [lookup_forgetExpired] at found
        split
        · exact .refused _ _ _ (.inr rfl)
        next first => exact .answered _ _ _ (Nat.le_of_not_lt small) found first

theorem collect_effect (slots : Slots) (now : Nat) (codeHash : Bytes) :
    SlotEffect slots now (.collect codeHash) (slots.collect codeHash now) := by
  unfold Slots.collect
  split
  · exact .refused _ _ _ (.inl rfl)
  · dsimp only
    split
    · exact .refused _ _ _ (.inr rfl)
    next answer found =>
      rw [lookup_forgetExpired, Option.bind_eq_some_iff] at found
      obtain ⟨slot, live, given⟩ := found
      exact .collected _ _ _ live given

theorem forget_effect (slots : Slots) (now : Nat) (codeHash : Bytes) :
    SlotEffect slots now (.forget codeHash) (slots.forget codeHash) := by
  unfold Slots.forget
  split
  next odd => exact .ignored _ odd
  next wide => exact .forgot _ (not_not.mp wide)

theorem apply_effect (slots : Slots) (now : Nat) (call : SlotCall) :
    SlotEffect slots now call (slots.apply now call) := by
  cases call with
  | offer codeHash offer => exact offer_effect slots now codeHash offer
  | offered codeHash => exact offered_effect slots now codeHash
  | answer codeHash answer => exact answer_effect slots now codeHash answer
  | collect codeHash => exact collect_effect slots now codeHash
  | forget codeHash => exact forget_effect slots now codeHash

theorem collect_live {codeHash answer : Bytes}
    (collected : (slots.apply now (.collect codeHash)).2 = .bytes answer) :
    ∃ slot, slots.live now codeHash = some slot ∧ slot.answer = some answer := by
  have effect := apply_effect slots now (.collect codeHash)
  generalize slots.apply now (.collect codeHash) = result at effect collected
  cases effect with
  | refused call error after same => cases collected
  | collected _ found slot live given =>
      obtain rfl := SlotReply.bytes.inj collected
      exact ⟨slot, live, given⟩

theorem offered_live {codeHash offer : Bytes}
    (read : (slots.apply now (.offered codeHash)).2 = .bytes offer) :
    ∃ slot, slots.live now codeHash = some slot ∧ slot.offer = offer := by
  have effect := apply_effect slots now (.offered codeHash)
  generalize slots.apply now (.offered codeHash) = result at effect read
  cases effect with
  | refused call error after same => cases read
  | found _ slot live => exact ⟨slot, live, SlotReply.bytes.inj read⟩

theorem answer_live {codeHash answer : Bytes}
    (accepted : (slots.apply now (.answer codeHash answer)).2 = .done) :
    ∃ slot, slots.live now codeHash = some slot ∧ slot.answer = none := by
  have effect := apply_effect slots now (.answer codeHash answer)
  generalize slots.apply now (.answer codeHash answer) = result at effect accepted
  cases effect with
  | refused call error after same => cases accepted
  | answered _ _ slot small live first => exact ⟨slot, live, first⟩

theorem refused_live {call : SlotCall} {error : SlotError}
    (refused : (slots.apply now call).2 = .refused error) (codeHash : Bytes) :
    (slots.apply now call).1.live now codeHash = slots.live now codeHash := by
  have effect := apply_effect slots now call
  generalize slots.apply now call = result at effect refused
  cases effect with
  | refused call error after same =>
      rcases same with rfl | rfl
      · rfl
      · exact live_forgetExpired slots now codeHash
  | opened => cases refused
  | found => cases refused
  | answered => cases refused
  | collected => cases refused
  | forgot => cases refused
  | ignored => cases refused

/-! ## The history explains the slots -/

namespace Explains

variable {past : List SlotStep} {codeHash : Bytes} {slot : Slot} {step : SlotStep}

theorem snoc (explained : Explains past codeHash slot)
    (opens : step.opens codeHash = none) (ends : step.ends codeHash = false)
    (answers : step.answers codeHash = none) :
    Explains (past ++ [step]) codeHash slot := by
  obtain ⟨earlier, opening, later, rfl, opened, untouched⟩ := explained
  refine ⟨earlier, opening, later ++ [step], by simp, opened, ?_, ?_, ?_⟩
  · intro other member
    rcases List.mem_append.mp member with old | new
    · exact untouched.not_opened other old
    · rw [List.mem_singleton.mp new]
      exact opens
  · intro other member
    rcases List.mem_append.mp member with old | new
    · exact untouched.not_ended other old
    · rw [List.mem_singleton.mp new]
      exact ends
  · simp [answers, untouched.answers_eq]

/-- The first answer since the offer. -/
theorem answered (explained : Explains past codeHash slot) {answer : Bytes}
    (first : slot.answer = none) (opens : step.opens codeHash = none)
    (ends : step.ends codeHash = false)
    (answers : step.answers codeHash = some answer) :
    Explains (past ++ [step]) codeHash { slot with answer := some answer } := by
  obtain ⟨earlier, opening, later, rfl, opened, untouched⟩ := explained
  refine ⟨earlier, opening, later ++ [step], by simp, ⟨opened.opens, opened.expires_eq⟩,
    ?_, ?_, ?_⟩
  · intro other member
    rcases List.mem_append.mp member with old | new
    · exact untouched.not_opened other old
    · rw [List.mem_singleton.mp new]
      exact opens
  · intro other member
    rcases List.mem_append.mp member with old | new
    · exact untouched.not_ended other old
    · rw [List.mem_singleton.mp new]
      exact ends
  · simp [answers, untouched.answers_eq, first]

theorem opened (past : List SlotStep) {offer : Bytes}
    (opens : step.opens codeHash = some offer) :
    Explains (past ++ [step]) codeHash ⟨offer, none, step.now + slotLifetime⟩ :=
  ⟨past, step, [], rfl, ⟨opens, rfl⟩, by simp, by simp, rfl⟩

end Explains

/-- The slots are what the past explains, and within their bounds. -/
structure Slots.Kept (past : List SlotStep) (slots : Slots) : Prop where
  explained : ∀ {codeHash slot}, slots.opened.lookup codeHash = some slot →
    Explains past codeHash slot
  wide : ∀ {codeHash slot}, slots.opened.lookup codeHash = some slot →
    codeHash.length = 32
  small : ∀ {codeHash slot}, slots.opened.lookup codeHash = some slot →
    slot.offer.length ≤ maxOfferBytes ∧
      ∀ answer ∈ slot.answer, answer.length ≤ maxAnswerBytes
  held_le : slots.held ≤ maxSlots

theorem Slots.kept_empty : Slots.Kept [] {} where
  explained found := by cases found
  wide found := by cases found
  small found := by cases found
  held_le := Nat.zero_le _

namespace Slots.Kept

variable {past : List SlotStep} {step : SlotStep}

theorem forgetExpired (kept : slots.Kept past) (now : Nat) :
    (slots.forgetExpired now).Kept past := by
  have before {codeHash : Bytes} {slot : Slot}
      (found : (slots.forgetExpired now).opened.lookup codeHash = some slot) :
      slots.opened.lookup codeHash = some slot := by
    rw [lookup_forgetExpired] at found
    exact (live_eq_some_iff.mp found).1
  exact ⟨fun found => kept.explained (before found), fun found => kept.wide (before found),
    fun found => kept.small (before found),
    (HashMap.len_retain_le _ _).trans kept.held_le⟩

theorem snoc (kept : slots.Kept past)
    (opens : ∀ codeHash, step.opens codeHash = none)
    (ends : ∀ codeHash, step.ends codeHash = false)
    (answers : ∀ codeHash, step.answers codeHash = none) :
    slots.Kept (past ++ [step]) :=
  { kept with
    explained := fun found => (kept.explained found).snoc (opens _) (ends _) (answers _) }

/-- A step after which one slot is new or changed, and the others are as they were. -/
theorem insert (kept : slots.Kept past) {codeHash : Bytes} {slot : Slot}
    (explained : Explains (past ++ [step]) codeHash slot)
    (wide : codeHash.length = 32)
    (small : slot.offer.length ≤ maxOfferBytes ∧
      ∀ answer ∈ slot.answer, answer.length ≤ maxAnswerBytes)
    (held : HashMap.len (slots.opened.insert codeHash slot) ≤ maxSlots)
    (opens : ∀ other, other ≠ codeHash → step.opens other = none)
    (ends : ∀ other, other ≠ codeHash → step.ends other = false)
    (answers : ∀ other, other ≠ codeHash → step.answers other = none) :
    (Slots.mk (slots.opened.insert codeHash slot)).Kept (past ++ [step]) where
  explained {other found} lookup := by
    rw [HashMap.lookup_insert_eq] at lookup
    split at lookup
    next same =>
      obtain rfl := Option.some.inj lookup
      exact same ▸ explained
    next differs =>
      exact (kept.explained lookup).snoc (opens other differs) (ends other differs)
        (answers other differs)
  wide {other found} lookup := by
    rw [HashMap.lookup_insert_eq] at lookup
    split at lookup
    next same => exact same ▸ wide
    next differs => exact kept.wide lookup
  small {other found} lookup := by
    rw [HashMap.lookup_insert_eq] at lookup
    split at lookup
    · obtain rfl := Option.some.inj lookup
      exact small
    · exact kept.small lookup
  held_le := held

theorem erase (kept : slots.Kept past) {codeHash : Bytes}
    (opens : ∀ other, step.opens other = none)
    (ends : ∀ other, other ≠ codeHash → step.ends other = false)
    (answers : ∀ other, step.answers other = none) :
    (Slots.mk (slots.opened.erase codeHash)).Kept (past ++ [step]) := by
  have before {other : Bytes} {slot : Slot}
      (found : (slots.opened.erase codeHash).lookup other = some slot) :
      other ≠ codeHash ∧ slots.opened.lookup other = some slot := by
    rw [HashMap.lookup_erase_eq] at found
    split at found
    · cases found
    next differs => exact ⟨differs, found⟩
  refine ⟨fun found => ?_, fun found => kept.wide (before found).2,
    fun found => kept.small (before found).2,
    (HashMap.len_erase_le _ _).trans kept.held_le⟩
  obtain ⟨differs, old⟩ := before found
  exact (kept.explained old).snoc (opens _) (ends _ differs) (answers _)

/-- What one call preserves. -/
theorem apply (kept : slots.Kept past) (call : SlotCall) (now : Nat) :
    (slots.step call now).after.Kept (past ++ [slots.step call now]) := by
  have effect := apply_effect slots now call
  have trimmed := kept.forgetExpired now
  unfold Slots.step
  generalize slots.apply now call = result at effect
  cases effect with
  | refused call error after same =>
      have afterKept : after.Kept past := by
        rcases same with rfl | rfl
        · exact kept
        · exact trimmed
      refine afterKept.snoc ?_ ?_ ?_
      · intro codeHash
        cases call <;> rfl
      · intro codeHash
        cases call <;> rfl
      · intro codeHash
        cases call <;> rfl
  | opened codeHash offer wide small free room =>
      have absent := (mem_forgetExpired_iff slots now codeHash).mpr free
      refine trimmed.insert (Explains.opened past ?_) wide ⟨small, by simp⟩ ?_ ?_ ?_ ?_
      · simp [SlotStep.opens]
      · rw [HashMap.len_insert_of_notMem absent]
        exact room
      · intro other differs
        simp [SlotStep.opens, differs.symm]
      · intro other differs
        rfl
      · intro other differs
        rfl
  | found codeHash slot live =>
      exact trimmed.snoc (fun _ => rfl) (fun _ => rfl) (fun _ => rfl)
  | answered codeHash answer slot small live first =>
      rw [← lookup_forgetExpired] at live
      have there := HashMap.mem_of_lookup live
      refine trimmed.insert ((trimmed.explained live).answered first rfl rfl ?_)
        (trimmed.wide live) ⟨(trimmed.small live).1, ?_⟩ ?_ ?_ ?_ ?_
      · simp [SlotStep.answers]
      · rintro given ⟨⟩
        exact small
      · rw [HashMap.len_insert_of_mem there]
        exact trimmed.held_le
      · intro other differs
        rfl
      · intro other differs
        rfl
      · intro other differs
        simp [SlotStep.answers, differs.symm]
  | collected codeHash answer slot live given =>
      refine trimmed.erase (fun _ => rfl) ?_ (fun _ => rfl)
      intro other differs
      simp [SlotStep.ends, differs.symm]
  | forgot codeHash wide =>
      refine kept.erase (fun _ => rfl) ?_ (fun _ => rfl)
      intro other differs
      simp [SlotStep.ends, differs.symm]
  | ignored codeHash odd =>
      refine { kept with explained := fun {other slot} found => ?_ }
      refine (kept.explained found).snoc rfl ?_ rfl
      -- no slot has such a hash
      have differs : codeHash ≠ other := fun same => odd (same ▸ kept.wide found)
      simp [SlotStep.ends, differs]

theorem live (kept : slots.Kept past) {codeHash : Bytes} {slot : Slot}
    (found : slots.live now codeHash = some slot) :
    Explains past codeHash slot ∧ now < slot.expires := by
  obtain ⟨lookup, unexpired⟩ := live_eq_some_iff.mp found
  exact ⟨kept.explained lookup, unexpired⟩

theorem serves (kept : slots.Kept past) {codeHash : Bytes} {slot : Slot} (call : SlotCall)
    (found : slots.live now codeHash = some slot) :
    Serves (slots.step call now) codeHash slot := by
  have wide := kept.wide (live_eq_some_iff.mp found).1
  have there : (slots.forgetExpired now).opened.lookup codeHash = some slot :=
    (lookup_forgetExpired ..).trans found
  refine ⟨?_, fun answer isCall first small => ?_, fun answer isCall given => ?_⟩
  · rintro rfl
    simp [Slots.step, Slots.apply, Slots.offered, wide, there]
  · change call = _ at isCall
    subst isCall
    simp [Slots.step, Slots.apply, Slots.answer, wide, there, first, Nat.not_lt.mpr small]
  · change call = _ at isCall
    subst isCall
    simp [Slots.step, Slots.apply, Slots.collect, wide, there, given]

/-- What a call answers, the past explains. -/
theorem law (kept : slots.Kept past) (call : SlotCall) (now : Nat) :
    SlotLaw past (slots.step call now) := by
  have after := kept.apply call now
  refine ⟨?_, ?_, ?_, fun _ _ => kept.serves call, after.held_le,
    fun codeHash slot found => after.small found, ?_⟩
  · rintro codeHash answer rfl replied
    obtain ⟨slot, found, given⟩ := collect_live replied
    obtain ⟨explained, unexpired⟩ := kept.live found
    exact ⟨slot, explained, given, unexpired⟩
  · rintro codeHash offer rfl replied
    obtain ⟨slot, found, same⟩ := offered_live replied
    obtain ⟨explained, unexpired⟩ := kept.live found
    exact ⟨slot, explained, same, unexpired⟩
  · rintro codeHash answer rfl replied
    obtain ⟨slot, found, first⟩ := answer_live replied
    obtain ⟨explained, unexpired⟩ := kept.live found
    exact ⟨slot, explained, first, unexpired⟩
  · intro error refused codeHash
    exact refused_live refused codeHash

end Slots.Kept

theorem Slots.run_law {past : List SlotStep} (kept : slots.Kept past)
    (calls : List (SlotCall × Nat)) (index : Nat) (step : SlotStep)
    (found : (slots.run calls)[index]? = some step) :
    SlotLaw (past ++ (slots.run calls).take index) step := by
  induction calls generalizing slots past index with
  | nil => cases found
  | cons entry rest ih =>
      obtain ⟨call, now⟩ := entry
      cases index with
      | zero =>
          obtain rfl := Option.some.inj found
          simpa using kept.law call now
      | succ index =>
          have later := ih (kept.apply call now) index found
          rwa [List.append_assoc] at later

end Law

/-- The pairing slot machine.  Whatever calls are made on the slots, and whenever: what
a call answers is explained by the latest successful offer under its hash, which has
not expired, been collected or been forgotten, and by the one answer accepted since;
an unexpired slot gives its offer, takes its first answer and gives that up; the slots stay
within their bounds; and a refused call changes no unexpired slot. -/
theorem pairing_slots_law (calls : List (SlotCall × Nat)) (index : Nat)
    (step : SlotStep) (found : (Slots.run {} calls)[index]? = some step) :
    SlotLaw ((Slots.run {} calls).take index) step :=
  Slots.run_law Slots.kept_empty calls index step found

theorem pairing_slots_law_collect :
    ∃ slot, Explains ((Slots.run {} [(.offer (List.replicate 32 7) [1], 0),
        (.answer (List.replicate 32 7) [2], 5), (.collect (List.replicate 32 7), 9)]).take
          2) (List.replicate 32 7) slot ∧ slot.answer = some [2] := by
  have law := pairing_slots_law [(.offer (List.replicate 32 7) [1], 0),
    (.answer (List.replicate 32 7) [2], 5), (.collect (List.replicate 32 7), 9)] 2 _ rfl
  obtain ⟨slot, explained, given, -⟩ := law.collected (List.replicate 32 7) [2] rfl (by rfl)
  exact ⟨slot, explained, given⟩

end WindowMlHub
