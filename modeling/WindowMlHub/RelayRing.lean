import WindowMlHub.CheckedEvaluation
import WindowMlHub.RelayLimits

/-!
# One stream's ring

`ring.rs`: the bounded recent history a subscriber backfills from.  The retained
entries of a well-formed ring are a contiguous run of sequence numbers ending at
the newest one ever published, and the byte counter is the sum of their encoded
lengths.
-/

namespace WindowMlHub

open CheckedEvaluation

/-- A published envelope as it travels: its seq, its encoded frame, and its
coalesce key. -/
structure Entry where
  seq : Nat
  wire : Frame
  coalesce : Bytes
  deriving DecidableEq, Repr

structure Ring where
  kind : Kind
  epoch : Nat
  /-- the seq of the newest envelope ever published, retained or not -/
  seq : Nat
  entries : List Entry
  /-- encoded bytes retained -/
  bytes : Nat
  /-- logical clock of the last publish -/
  touched : Nat
  deriving DecidableEq, Repr

/-- What a subscriber gets: the entries to send, and whether its record has a
gap before them. -/
structure Backfill where
  entries : List Entry
  truncated : Bool
  deriving DecidableEq, Repr

/-- What a publish did to the ring's memory. -/
structure Published where
  entry : Entry
  added : Nat
  freed : Nat
  deriving DecidableEq, Repr

namespace Ring

/-- `Ring::new`. -/
def new (kind : Kind) (epoch touched : Nat) : Ring :=
  ⟨kind, epoch, 0, [], 0, touched⟩

/-- Drop the oldest retained entry; the bytes freed. -/
def evictOldest [Codec] (ring : Ring) : Checked (Ring × Nat) :=
  match ring.entries with
  | [] => .ok (ring, 0)
  | entry :: rest => do
      let bytes ← sub ring.bytes (wireLen entry.wire)
      return ({ ring with entries := rest, bytes }, wireLen entry.wire)

/-- `while self.entries.len() > capacity { freed += self.evict_oldest(); }` -/
def evictPast [Codec] (capacity : Nat) : Nat → Ring → Nat → Checked (Ring × Nat)
  | 0, _, _ => .error .hang
  | fuel + 1, ring, freed =>
      if ring.entries.length > capacity then do
        let (ring, bytes) ← ring.evictOldest
        evictPast capacity fuel ring (freed + bytes)
      else
        .ok (ring, freed)

/-- The entry made of an envelope: stamped with this ring's epoch and next seq,
encoded once. -/
def stamp (ring : Ring) (env : Envelope) : Entry where
  seq := ring.seq + 1
  wire := .of (.envelope
    { env with seq := ring.seq + 1, epoch := ring.epoch })
  coalesce := env.coalesce

/-- Stamp `env`, retain it (evicting past `capacity`), and return the entry
every subscriber will share. -/
def publish [Codec] (ring : Ring) (env : Envelope) (capacity touched : Nat) :
    Checked (Ring × Published) := do
  let entry := ring.stamp env
  let ring := { ring with seq := ring.seq + 1, touched }
  if capacity > 0 then
    let added := wireLen entry.wire
    let ring := { ring with
      bytes := ring.bytes + added
      entries := ring.entries ++ [entry] }
    let (ring, freed) ←
      evictPast capacity (ring.entries.length + 1) ring 0
    return (ring, ⟨entry, added, freed⟩)
  else
    return (ring, ⟨entry, 0, 0⟩)

/-- The position a backfill starts after. -/
def resumeAfter (ring : Ring) : Option Position → Nat
  | some position => if position.epoch = ring.epoch then position.seq else 0
  | none => 0

/-- The number after a position.  A position comes off the wire and may be the largest of
its 64 bits, which nothing checks: a release build goes round to 0. -/
def nextPosition (position : Nat) : Nat := (position + 1) % 2 ^ 64

/-- Everything after `since`. -/
def backfill (ring : Ring) (since : Option Position) : Backfill :=
  let after := ring.resumeAfter since
  let firstRetained :=
    match ring.entries.head? with
    | some entry => entry.seq
    | none => ring.seq + 1
  let staleEpoch := since.any fun position =>
    decide (position.epoch ≠ ring.epoch ∧ position.seq > 0)
  { entries := ring.entries.filter fun entry => entry.seq > after
    truncated := decide (firstRetained > nextPosition after) || staleEpoch }

theorem nextPosition_le (position : Nat) : nextPosition position ≤ position + 1 :=
  Nat.mod_le _ _

/-- The byte counter and the sequence numbers agree with the entries. -/
structure Sound [Codec] (ring : Ring) : Prop where
  bytes_eq : ring.bytes =
    (ring.entries.map fun entry => wireLen entry.wire).sum
  seqs_eq : ring.entries.map (·.seq) =
    List.range' (ring.seq + 1 - ring.entries.length) ring.entries.length
  length_le_seq : ring.entries.length ≤ ring.seq

/-- A sound ring within the capacity of its kind. -/
structure Ok [Codec] (limits : Limits) (ring : Ring) : Prop
    extends ring.Sound where
  length_le_capacity :
    ring.entries.length ≤ limits.ringCapacity ring.kind

theorem Sound.seq_pos [Codec] {ring : Ring} (sound : ring.Sound) {entry : Entry}
    (member : entry ∈ ring.entries) : 0 < entry.seq := by
  have inRange : entry.seq ∈ ring.entries.map (·.seq) := List.mem_map_of_mem member
  rw [sound.seqs_eq, List.mem_range'_1] at inRange
  have := sound.length_le_seq
  omega

/-- The same ring with some of its oldest entries given up. -/
structure Trimmed (before after : Ring) : Prop where
  kind_eq : after.kind = before.kind
  epoch_eq : after.epoch = before.epoch
  seq_eq : after.seq = before.seq
  entries_suffix : after.entries <:+ before.entries

theorem Trimmed.refl (ring : Ring) : ring.Trimmed ring :=
  ⟨rfl, rfl, rfl, List.suffix_refl _⟩

theorem Trimmed.trans {first second third : Ring}
    (earlier : first.Trimmed second) (later : second.Trimmed third) :
    first.Trimmed third :=
  ⟨later.kind_eq.trans earlier.kind_eq,
    later.epoch_eq.trans earlier.epoch_eq,
    later.seq_eq.trans earlier.seq_eq,
    later.entries_suffix.trans earlier.entries_suffix⟩

section Bookkeeping

variable [Codec] {limits : Limits} {ring : Ring}

theorem sound_new (kind : Kind) (epoch touched : Nat) :
    (new kind epoch touched).Sound :=
  ⟨rfl, rfl, Nat.le_refl 0⟩

theorem ok_new (kind : Kind) (epoch touched : Nat) :
    (new kind epoch touched).Ok limits :=
  ⟨sound_new kind epoch touched, Nat.zero_le _⟩

/-- Dropping the oldest entry of a sound ring frees exactly its bytes. -/
theorem evictOldest_spec (sound : ring.Sound) :
    ∃ next freed, ring.evictOldest = .ok (next, freed) ∧ next.Sound ∧
      ring.Trimmed next ∧ next.entries = ring.entries.tail ∧
        next.bytes + freed = ring.bytes := by
  obtain ⟨bytesEq, seqsEq, lengthLe⟩ := sound
  unfold evictOldest
  cases entries : ring.entries with
  | nil =>
      refine ⟨ring, 0, rfl, ?_, Trimmed.refl ring, by simp [entries], rfl⟩
      exact ⟨bytesEq, seqsEq, lengthLe⟩
  | cons entry rest =>
      rw [entries] at bytesEq seqsEq lengthLe
      simp only [List.map_cons, List.sum_cons] at bytesEq
      simp only [List.map_cons, List.length_cons, List.range'_succ,
        List.cons.injEq] at seqsEq
      simp only [List.length_cons] at lengthLe
      refine ⟨{ ring with
          entries := rest
          bytes := (rest.map fun entry => wireLen entry.wire).sum },
        wireLen entry.wire, ?_, ⟨rfl, ?_, ?_⟩, ?_, rfl, ?_⟩
      · simp [bytesEq]
      · have start : ring.seq + 1 - (rest.length + 1) + 1 =
            ring.seq + 1 - rest.length := by omega
        rw [start] at seqsEq
        exact seqsEq.2
      · exact Nat.le_of_succ_le lengthLe
      · exact ⟨rfl, rfl, rfl, by simp [entries]⟩
      · simp only [bytesEq]
        omega

/-- The eviction loop ends, within the capacity it was asked for. -/
theorem evictPast_spec (capacity : Nat) (sound : ring.Sound) (freed fuel : Nat)
    (enough : ring.entries.length < fuel) :
    ∃ next released, evictPast capacity fuel ring freed =
        .ok (next, freed + released) ∧
      next.Sound ∧ ring.Trimmed next ∧ next.entries.length ≤ capacity ∧
        next.bytes + released = ring.bytes := by
  induction fuel generalizing ring freed with
  | zero => omega
  | succ fuel ih =>
      unfold evictPast
      by_cases exceeds : ring.entries.length > capacity
      · obtain ⟨next, bytes, evicted, nextSound, trimmed, tail, balance⟩ :=
          evictOldest_spec sound
        have shorter : next.entries.length < fuel := by
          rw [tail, List.length_tail]
          omega
        obtain ⟨last, released, ran, lastSound, lastTrimmed, within,
          lastBalance⟩ := ih nextSound (freed + bytes) shorter
        refine ⟨last, bytes + released, ?_, lastSound,
          trimmed.trans lastTrimmed, within, by omega⟩
        rw [if_pos exceeds, evicted, ok_bind]
        simpa [Nat.add_assoc] using ran
      · refine ⟨ring, 0, by simp [exceeds], sound, Trimmed.refl ring, ?_, rfl⟩
        omega

theorem Sound.push (sound : ring.Sound) (env : Envelope) (touched : Nat) :
    Sound { ring with
      seq := ring.seq + 1
      touched
      bytes := ring.bytes + wireLen (ring.stamp env).wire
      entries := ring.entries ++ [ring.stamp env] } := by
  obtain ⟨bytesEq, seqsEq, lengthLe⟩ := sound
  refine ⟨by simp [bytesEq], ?_, by simpa using lengthLe⟩
  have start : ring.seq + 1 + 1 - (ring.entries.length + 1) =
      ring.seq + 1 - ring.entries.length := by omega
  have last : ring.seq + 1 - ring.entries.length + ring.entries.length =
      ring.seq + 1 := by omega
  simp [seqsEq, start, List.range'_concat, last, stamp]

/-- Publishing into a well-formed ring stamps the next seq, hands out the
stamped entry, and accounts for the bytes it retains and frees. -/
theorem publish_spec (ok : ring.Ok limits) (env : Envelope) (touched : Nat) :
    ∃ next added freed,
      ring.publish env (limits.ringCapacity ring.kind) touched =
        .ok (next, ⟨ring.stamp env, added, freed⟩) ∧
      next.Ok limits ∧ next.kind = ring.kind ∧ next.epoch = ring.epoch ∧
        next.seq = ring.seq + 1 ∧
        next.entries <:+ ring.entries ++ [ring.stamp env] ∧
          next.bytes + freed = ring.bytes + added := by
  unfold publish
  by_cases retained : limits.ringCapacity ring.kind > 0
  · obtain ⟨next, released, ran, nextSound, trimmed, within, balance⟩ :=
      evictPast_spec (limits.ringCapacity ring.kind)
        (ok.toSound.push env touched) 0 _ (Nat.lt_succ_self _)
    refine ⟨next, wireLen (ring.stamp env).wire, released, ?_, ?_,
      trimmed.kind_eq, trimmed.epoch_eq, trimmed.seq_eq,
      trimmed.entries_suffix, balance⟩
    · simpa [retained, bind, Except.bind, pure, Except.pure] using
        congrArg (fun result => result >>= fun pair =>
          (Except.ok (pair.1, ⟨ring.stamp env,
            wireLen (ring.stamp env).wire, pair.2⟩) :
              Checked (Ring × Published))) ran
    · refine ⟨nextSound, ?_⟩
      rw [trimmed.kind_eq]
      exact within
  · have nothing : ring.entries = [] := by
      have within := ok.length_le_capacity
      exact List.eq_nil_of_length_eq_zero (by omega)
    refine ⟨{ ring with seq := ring.seq + 1, touched }, 0, 0,
      by simp [retained], ⟨⟨ok.bytes_eq, ?_, ?_⟩, ok.length_le_capacity⟩,
      rfl, rfl, rfl, ?_, rfl⟩
    · simp [nothing]
    · simp [nothing]
    · simp [nothing]

end Bookkeeping

end Ring

end WindowMlHub
