import WindowMlHub.ProtobufLengths
import WindowMlHub.RelayRing

/-!
# What a backfill returns

A ring hands a subscriber the entries after a position that the subscriber chose, and
says whether anything published after that position is missing.  The position is a
pair of 64-bit numbers off the wire, so the two additions of `backfill` can overflow.
A release build goes round, as `Ring.backfill` does; `backfillU64` is the build that checks
its arithmetic, and answers nothing where that panics.
-/

namespace WindowMlHub

/-- The largest 64-bit position. -/
def maxPosition : Nat := 2 ^ 64 - 1

/-- Addition of 64-bit numbers; an overflow is no value. -/
def addU64 (left right : Nat) : Option Nat :=
  if left + right ≤ maxPosition then some (left + right) else none

namespace Ring

/-- `Ring::backfill` with its additions on 64-bit numbers. -/
def backfillU64 (ring : Ring) (since : Option Position) : Option Backfill := do
  let after := ring.resumeAfter since
  let next ← addU64 ring.seq 1
  let firstRetained := (ring.entries.head?.map (·.seq)).getD next
  let staleEpoch := since.any fun position =>
    decide (position.epoch ≠ ring.epoch ∧ position.seq > 0)
  let afterNext ← addU64 after 1
  return {
    entries := ring.entries.filter fun entry => entry.seq > after
    truncated := decide (firstRetained > afterNext) || staleEpoch }

/-- The rings that publishing into, and evicting from, a new one gives. -/
inductive Reachable [Codec] (capacity : Nat) : Ring → Prop
  | new (kind : Kind) (epoch touched : Nat) : Reachable capacity (new kind epoch touched)
  | publish {ring next : Ring} {published : Published} {env : Envelope}
      {touched : Nat} (before : Reachable capacity ring)
      (fits : ring.seq + 1 ≤ maxPosition)
      (ran : ring.publish env capacity touched = .ok (next, published)) :
      Reachable capacity next
  | evictOldest {ring next : Ring} {freed : Nat} (before : Reachable capacity ring)
      (ran : ring.evictOldest = .ok (next, freed)) : Reachable capacity next

/-- The retained entries are a contiguous run of numbers that ends at the newest one
published, or there are none. -/
def Contiguous (ring : Ring) : Prop :=
  ring.entries.length ≤ ring.seq ∧
    ring.entries.map (·.seq) =
      List.range' (ring.seq + 1 - ring.entries.length) ring.entries.length

/-- What a subscriber that has everything up to `since` is to be given: in order the
retained entries after it, and whether anything published after it is not among
them. -/
structure Answers (ring : Ring) (since : Option Position) (backfill : Backfill) :
    Prop where
  entries_eq : backfill.entries =
    ring.entries.filter fun entry => entry.seq > ring.resumeAfter since
  truncated_iff : backfill.truncated = true ↔
    (∃ seq, ring.resumeAfter since < seq ∧ seq ≤ ring.seq ∧
      ∀ entry ∈ backfill.entries, entry.seq ≠ seq) ∨
    ∃ position, since = some position ∧ position.epoch ≠ ring.epoch ∧ 0 < position.seq

section Exact

variable [Codec] {capacity : Nat} {ring : Ring}

/-- Publishing under any capacity keeps the bookkeeping. -/
theorem publish_sound {next : Ring} {published : Published} {env : Envelope}
    {touched : Nat} (sound : ring.Sound) (within : ring.entries.length ≤ capacity)
    (ran : ring.publish env capacity touched = .ok (next, published)) :
    next.Sound ∧ next.entries.length ≤ capacity ∧ next.seq = ring.seq + 1 := by
  unfold publish at ran
  by_cases retained : capacity > 0
  · obtain ⟨last, released, evicted, lastSound, trimmed, lastWithin, -⟩ :=
      evictPast_spec capacity (sound.push env touched) 0 _ (Nat.lt_succ_self _)
    rw [if_pos retained] at ran
    simp only [CheckedEvaluation.bind_eq_ok] at ran
    obtain ⟨⟨other, freed⟩, ranLoop, answer⟩ := ran
    obtain ⟨rfl, -⟩ := Prod.mk.inj (Except.ok.inj (evicted.symm.trans ranLoop))
    obtain ⟨rfl, -⟩ := Prod.mk.inj (Except.ok.inj answer)
    exact ⟨lastSound, lastWithin, trimmed.seq_eq⟩
  · have nothing : ring.entries = [] :=
      List.eq_nil_of_length_eq_zero (by omega)
    rw [if_neg retained] at ran
    obtain ⟨rfl, -⟩ := Prod.mk.inj (Except.ok.inj ran)
    refine ⟨⟨sound.bytes_eq, ?_, ?_⟩, within, rfl⟩
    · simp [nothing]
    · simp [nothing]

theorem Reachable.sound (reachable : Reachable capacity ring) :
    ring.Sound ∧ ring.entries.length ≤ capacity ∧ ring.seq ≤ maxPosition := by
  induction reachable with
  | new kind epoch touched => exact ⟨sound_new kind epoch touched, by simp [Ring.new],
      by simp [Ring.new]⟩
  | publish before fits ran ih =>
      obtain ⟨nextSound, nextWithin, seqEq⟩ := publish_sound ih.1 ih.2.1 ran
      exact ⟨nextSound, nextWithin, seqEq ▸ fits⟩
  | evictOldest before ran ih =>
      obtain ⟨last, bytes, evicted, lastSound, trimmed, tail, -⟩ := evictOldest_spec ih.1
      obtain ⟨rfl, -⟩ := Prod.mk.inj (Except.ok.inj (evicted.symm.trans ran))
      refine ⟨lastSound, ?_, trimmed.seq_eq ▸ ih.2.2⟩
      exact (trimmed.entries_suffix.length_le).trans ih.2.1

omit [Codec] in
theorem Contiguous.retains_iff (contiguous : ring.Contiguous) (seq : Nat) :
    (∃ entry ∈ ring.entries, entry.seq = seq) ↔
      ring.seq < seq + ring.entries.length ∧ seq ≤ ring.seq := by
  obtain ⟨short, seqs⟩ := contiguous
  have named : (∃ entry ∈ ring.entries, entry.seq = seq) ↔
      seq ∈ ring.entries.map (·.seq) :=
    List.mem_map.symm
  rw [named, seqs, List.mem_range'_1]
  omega

omit [Codec] in
theorem Contiguous.firstRetained (contiguous : ring.Contiguous) :
    (ring.entries.head?.map (·.seq)).getD (ring.seq + 1) =
      ring.seq + 1 - ring.entries.length := by
  obtain ⟨short, seqs⟩ := contiguous
  cases entries : ring.entries with
  | nil => simp
  | cons entry rest =>
      rw [entries] at seqs
      simp only [List.map_cons, List.length_cons, List.range'_succ,
        List.cons.injEq] at seqs
      simpa using seqs.1

omit [Codec] in
theorem backfill_eq (ring : Ring) (since : Option Position) :
    ring.backfill since = {
      entries := ring.entries.filter fun entry => entry.seq > ring.resumeAfter since
      truncated := decide ((ring.entries.head?.map (·.seq)).getD (ring.seq + 1) >
          nextPosition (ring.resumeAfter since)) ||
        since.any fun position =>
          decide (position.epoch ≠ ring.epoch ∧ position.seq > 0) } := by
  unfold backfill
  cases ring.entries.head? <;> rfl

omit [Codec] in
/-- Something after a position is missing exactly when the oldest entry retained comes
more than one after it. -/
theorem Contiguous.missing_iff (contiguous : ring.Contiguous) (after : Nat) :
    ring.seq + 1 - ring.entries.length > after + 1 ↔
      ∃ seq, after < seq ∧ seq ≤ ring.seq ∧
        ∀ entry ∈ ring.entries.filter fun entry => entry.seq > after,
          entry.seq ≠ seq := by
  have short := contiguous.1
  constructor
  · intro missing
    refine ⟨after + 1, by omega, by omega, ?_⟩
    intro entry member same
    have retained := (contiguous.retains_iff (after + 1)).mp
      ⟨entry, List.mem_of_mem_filter member, same⟩
    omega
  · rintro ⟨seq, later, published, absent⟩
    by_contra enough
    obtain ⟨entry, member, same⟩ := (contiguous.retains_iff seq).mpr (by omega)
    refine absent entry (List.mem_filter.mpr ⟨member, ?_⟩) same
    simpa [same] using later

omit [Codec] in
theorem nextPosition_of_fits {position : Nat} (fits : position + 1 ≤ maxPosition) :
    nextPosition position = position + 1 :=
  Nat.mod_eq_of_lt (by unfold maxPosition at fits; omega)

omit [Codec] in
theorem answers_backfill (contiguous : ring.Contiguous) (since : Option Position)
    (fits : ring.resumeAfter since + 1 ≤ maxPosition) :
    ring.Answers since (ring.backfill since) := by
  refine ⟨rfl, ?_⟩
  have stale : (since.any fun position =>
      decide (position.epoch ≠ ring.epoch ∧ position.seq > 0)) = true ↔
      ∃ position, since = some position ∧ position.epoch ≠ ring.epoch ∧
        0 < position.seq := by
    cases since <;> simp
  rw [backfill_eq, nextPosition_of_fits fits]
  simp only [Bool.or_eq_true, decide_eq_true_eq, contiguous.firstRetained]
  rw [contiguous.missing_iff, stale]

omit [Codec] in
theorem backfillU64_eq (ring : Ring) (since : Option Position) :
    ring.backfillU64 since =
      if ring.seq + 1 ≤ maxPosition ∧ ring.resumeAfter since + 1 ≤ maxPosition then
        some (ring.backfill since)
      else
        none := by
  by_cases newest : ring.seq + 1 ≤ maxPosition
  · by_cases position : ring.resumeAfter since + 1 ≤ maxPosition
    · rw [if_pos ⟨newest, position⟩, backfill_eq, nextPosition_of_fits position]
      simp only [backfillU64, addU64, if_pos newest, if_pos position]
      rfl
    · simp [backfillU64, addU64, newest, position]
  · simp [backfillU64, addU64, newest]

/-- A backfill answers what it should exactly when neither the newest number nor the
position in this ring's epoch is the largest there is. -/
theorem ring_backfill_exact_iff (reachable : Reachable capacity ring)
    (since : Option Position)
    (machine : ∀ position ∈ since,
      position.epoch ≤ maxPosition ∧ position.seq ≤ maxPosition) :
    (ring.Contiguous ∧
        ∃ backfill, ring.backfillU64 since = some backfill ∧
          ring.Answers since backfill) ↔
      ring.seq ≠ maxPosition ∧
        ∀ position ∈ since, position.epoch = ring.epoch →
          position.seq ≠ maxPosition := by
  obtain ⟨sound, -, seqLe⟩ := reachable.sound
  have contiguous : ring.Contiguous := ⟨sound.length_le_seq, sound.seqs_eq⟩
  have positionFits : ring.resumeAfter since + 1 ≤ maxPosition ↔
      ∀ position ∈ since, position.epoch = ring.epoch →
        position.seq ≠ maxPosition := by
    cases since with
    | none => simp [resumeAfter, maxPosition]
    | some position =>
        have bounded := (machine position rfl).2
        by_cases current : position.epoch = ring.epoch
        · simp only [resumeAfter, current, if_true, Option.mem_def, Option.some.injEq]
          constructor
          · rintro fits _ rfl -
            omega
          · intro differs
            have := differs position rfl current
            omega
        · simp [resumeAfter, current, maxPosition]
  have newestFits : ring.seq + 1 ≤ maxPosition ↔ ring.seq ≠ maxPosition := by
    omega
  rw [backfillU64_eq, ← newestFits, ← positionFits]
  constructor
  · rintro ⟨-, backfill, ran, -⟩
    by_contra overflows
    rw [if_neg overflows] at ran
    cases ran
  · intro fits
    rw [if_pos fits]
    exact ⟨contiguous, _, rfl, answers_backfill contiguous since fits.2⟩

end Exact

/-- A position at the numeric limit, in the epoch of a new ring, is none that a
backfill can start after: the addition overflows. -/
theorem ring_backfill_overflows :
    Reachable 2 (new .sessionEvents 7 0) ∧
      ¬ ∃ backfill, (new .sessionEvents 7 0).backfillU64 (some ⟨7, 2 ^ 64 - 1⟩) =
        some backfill := by
  refine ⟨.new _ _ _, ?_⟩
  rintro ⟨backfill, ran⟩
  have overflows : (new .sessionEvents 7 0).backfillU64 (some ⟨7, 2 ^ 64 - 1⟩) =
      none := by
    decide
  rw [overflows] at ran
  cases ran

/-- A ring of two takes three envelopes, and then drops its oldest. -/
theorem reachable_afterThree : ∃ ring, Reachable 2 ring ∧ ring.epoch = 7 ∧
    ring.seq = 3 ∧ ring.entries.map (·.seq) = [3] := by
  let env : Envelope := { sentTo := some (.channel [5]), kind := 1 }
  have first := @Reachable.publish _ 2 _ _ _ env 1 (.new .sessionEvents 7 0)
    (by decide) rfl
  have second := @Reachable.publish _ 2 _ _ _ env 2 first (by decide) rfl
  have third := @Reachable.publish _ 2 _ _ _ env 3 second (by decide) rfl
  exact ⟨_, .evictOldest third rfl, rfl, rfl, rfl⟩

/-- The backfill of that ring leaves out the second envelope, and says so. -/
theorem ring_backfill_exact_evicted :
    ∃ ring backfill, Reachable 2 ring ∧ ring.seq = 3 ∧
      ring.backfillU64 (some ⟨7, 1⟩) = some backfill ∧
      ring.Answers (some ⟨7, 1⟩) backfill ∧ backfill.truncated = true := by
  obtain ⟨ring, reachable, epoch, newest, held⟩ := reachable_afterThree
  have exact := ring_backfill_exact_iff reachable (some ⟨7, 1⟩) (by
    rintro position ⟨⟩
    decide)
  obtain ⟨_, backfill, ran, answers⟩ := exact.mpr ⟨by rw [newest]; decide, by
    rintro position ⟨⟩ -
    decide⟩
  refine ⟨ring, backfill, reachable, newest, ran, answers, ?_⟩
  refine answers.truncated_iff.mpr (.inl ⟨2, ?_, ?_, ?_⟩)
  · simp [resumeAfter, epoch]
  · omega
  · intro entry member
    rw [answers.entries_eq] at member
    have : entry.seq ∈ ring.entries.map (·.seq) :=
      List.mem_map_of_mem (List.mem_filter.mp member).1
    rw [held, List.mem_singleton] at this
    omega

end Ring

end WindowMlHub
