import WindowMlHub.CheckedEvaluation
import WindowMlHub.DelimitedFrames
import WindowMlHub.RelayLimits

/-!
# What a message costs

The read loop of a connection hands the frames of a message to the relay in chunks, and has
the account charged for each chunk before: for the chunk's share of the message's bytes and
for its frames.  The share divides the bytes by the number of frames and rounds down; the
last chunk takes what is left.

What one chunk does not take is left for the later ones, and at least their shares are:
`chargeChunks_spec` carries that through the loop.
-/

namespace WindowMlHub

open CheckedEvaluation

/-- `RECEIVE_CHUNK`. -/
def receiveChunk : Nat := 16

section Platforms

variable [Platform]

/-- `usize::saturating_add`. -/
def usizeSaturatingAdd (left right : Nat) : Nat :=
  min (left + right) usizeMax

/-- `usize::saturating_mul`. -/
def usizeSaturatingMul (left right : Nat) : Nat :=
  min (left * right) usizeMax

end Platforms

/-- Frames that are handed over together, and what the account is charged for them. -/
structure ReadChunk where
  frames : List Frame
  cost : Nat
  deriving DecidableEq, Repr

/-- What the read loop calls for. -/
inductive ReadCall
  /-- the slots, for an offer that is then delivered -/
  | offered (codeHash : Bytes)
  /-- the slots, to take an answer -/
  | answer (codeHash answer : Bytes)
  /-- `Hub::charge` -/
  | charge (cost : Nat)
  /-- `Hub::receive` -/
  | receive (frame : Frame)
  deriving DecidableEq, Repr

/-- The call for a frame about a pairing, which the relay never sees. -/
def Frame.slotCall? (frame : Frame) : Option ReadCall :=
  match frame.body with
  | some (.pairFetch codeHash) => some (.offered codeHash)
  | some (.pairAnswer ⟨codeHash, answer⟩) => some (.answer codeHash answer)
  | _ => none

/-- The calls that are made for a chunk. -/
def ReadChunk.calls (chunk : ReadChunk) : List ReadCall :=
  chunk.frames.filterMap Frame.slotCall? ++
    .charge chunk.cost ::
      (chunk.frames.filter fun frame => frame.slotCall?.isNone).map .receive

section Reading

variable [Platform] (pendingBytes frames : Nat)

/-- The loop over the chunks of a message of so many bytes and frames, with so many turns
left. -/
def chargeChunks : Nat → Nat → List Frame → Checked (List ReadChunk)
  | 0, _, _ => .error .hang
  | turns + 1, bytesLeft, rest =>
      let chunk := rest.take receiveChunk
      let rest := rest.drop receiveChunk
      if chunk = [] then .ok []
      else do
        let share :=
          if rest.length = 0 then bytesLeft
          else pendingBytes / frames * chunk.length % (usizeMax + 1)
        let bytesLeft ← sub bytesLeft share
        let cost := usizeSaturatingAdd share (usizeSaturatingMul chunk.length frameCostBytes)
        let later ← chargeChunks turns bytesLeft rest
        return ⟨chunk, cost⟩ :: later

/-- The chunks of a message. -/
def messageChunks (pending : List Frame) : Checked (List ReadChunk) :=
  if pending = [] then .ok []
  else chargeChunks pendingBytes pending.length (pending.length + 1) pendingBytes pending

/-- The calls that the read loop makes for a message, if nothing ends it before. -/
def readMessage (pending : List Frame) : Checked (List ReadCall) := do
  let chunks ← messageChunks pendingBytes pending
  return chunks.flatMap ReadChunk.calls

end Reading

/-- What is passed to `Hub::charge`. -/
def chargedCosts (calls : List ReadCall) : List Nat :=
  calls.filterMap fun
    | .charge cost => some cost
    | _ => none

theorem chargedCosts_append (first second : List ReadCall) :
    chargedCosts (first ++ second) = chargedCosts first ++ chargedCosts second :=
  List.filterMap_append

theorem chargedCosts_calls (chunk : ReadChunk) : chargedCosts chunk.calls = [chunk.cost] := by
  have noSlots : chargedCosts (chunk.frames.filterMap Frame.slotCall?) = [] := by
    refine List.filterMap_eq_nil_iff.mpr fun call member => ?_
    obtain ⟨frame, -, isCall⟩ := List.mem_filterMap.mp member
    unfold Frame.slotCall? at isCall
    split at isCall <;> cases isCall <;> rfl
  have noFrames : chargedCosts
      ((chunk.frames.filter fun frame => frame.slotCall?.isNone).map .receive) = [] := by
    refine List.filterMap_eq_nil_iff.mpr fun call member => ?_
    obtain ⟨frame, -, rfl⟩ := List.mem_map.mp member
    rfl
  rw [ReadChunk.calls, chargedCosts_append, noSlots, List.nil_append]
  exact congrArg (chunk.cost :: ·) noFrames

theorem chargedCosts_flatMap_calls (chunks : List ReadChunk) :
    chargedCosts (chunks.flatMap ReadChunk.calls) = chunks.map (·.cost) := by
  induction chunks with
  | nil => rfl
  | cons chunk rest ih =>
      rw [List.flatMap_cons, chargedCosts_append, chargedCosts_calls, ih]
      rfl

section Loop

variable [Platform] {pendingBytes frames : Nat}

theorem usizeSaturatingAdd_of_fits {left right : Nat} (fits : left + right ≤ usizeMax) :
    usizeSaturatingAdd left right = left + right :=
  Nat.min_eq_left fits

theorem usizeSaturatingMul_of_fits {left right : Nat} (fits : left * right ≤ usizeMax) :
    usizeSaturatingMul left right = left * right :=
  Nat.min_eq_left fits

theorem cost_of_fits (share count others : Nat)
    (fits : share + (count * frameCostBytes + others) ≤ usizeMax) :
    usizeSaturatingAdd share (usizeSaturatingMul count frameCostBytes) =
      share + count * frameCostBytes := by
  rw [usizeSaturatingMul_of_fits (by omega), usizeSaturatingAdd_of_fits (by omega)]

/-- While the shares of all the frames that are left fit into the bytes that are left, the
loop goes through; and what it charges for is these bytes and these frames. -/
theorem chargeChunks_spec {turns bytesLeft : Nat} {rest : List Frame}
    (enough : rest.length < turns) (small : bytesLeft ≤ usizeMax)
    (covers : pendingBytes / frames * rest.length ≤ bytesLeft) :
    ∃ chunks, chargeChunks pendingBytes frames turns bytesLeft rest = .ok chunks ∧
      (chunks.map (·.frames)).flatten = rest ∧
      (∀ chunk ∈ chunks, chunk.frames ≠ [] ∧ chunk.frames.length ≤ receiveChunk) ∧
      (rest ≠ [] → bytesLeft + rest.length * frameCostBytes ≤ usizeMax →
        (chunks.map (·.cost)).sum = bytesLeft + rest.length * frameCostBytes) := by
  induction turns generalizing bytesLeft rest with
  | zero => exact absurd enough (Nat.not_lt_zero _)
  | succ turns ih =>
      by_cases ended : rest = []
      · subst ended
        exact ⟨[], rfl, rfl, by simp, fun absurdity => absurd rfl absurdity⟩
      have positive : 0 < rest.length := List.length_pos_iff_ne_nil.mpr ended
      have started : rest.take receiveChunk ≠ [] := by
        simp [List.take_eq_nil_iff, ended, receiveChunk]
      have short : (rest.take receiveChunk).length ≤ receiveChunk := by simp
      have split : (rest.take receiveChunk).length + (rest.drop receiveChunk).length =
          rest.length := by
        rw [← List.length_append, List.take_append_drop]
      have taken : 0 < (rest.take receiveChunk).length :=
        List.length_pos_iff_ne_nil.mpr started
      have whole : rest.take receiveChunk ++ rest.drop receiveChunk = rest :=
        List.take_append_drop ..
      rw [chargeChunks, if_neg started]
      generalize rest.take receiveChunk = chunk at *
      generalize rest.drop receiveChunk = later at *
      subst whole
      rw [← split, Nat.mul_add] at covers
      rw [← split, Nat.add_mul]
      by_cases last : later = []
      · subst last
        refine ⟨[⟨chunk, usizeSaturatingAdd bytesLeft
          (usizeSaturatingMul chunk.length frameCostBytes)⟩], ?_, by simp,
          by simp [started, short], fun _ fits => ?_⟩
        · obtain ⟨turns, rfl⟩ := Nat.exists_eq_succ_of_ne_zero (by omega : turns ≠ 0)
          simp [sub_of_le, chargeChunks]
        · simpa using cost_of_fits bytesLeft chunk.length _ fits
      · have more : later.length ≠ 0 := by simpa using last
        have share : pendingBytes / frames * chunk.length % (usizeMax + 1) =
            pendingBytes / frames * chunk.length := Nat.mod_eq_of_lt (by omega)
        obtain ⟨chunks, ran, inOrder, sized, adds⟩ := @ih
          (bytesLeft - pendingBytes / frames * chunk.length) later (by omega) (by omega)
            (by omega)
        refine ⟨⟨chunk, usizeSaturatingAdd (pendingBytes / frames * chunk.length)
          (usizeSaturatingMul chunk.length frameCostBytes)⟩ :: chunks, ?_, ?_, ?_, ?_⟩
        · simp only [if_neg more, share, sub_of_le (show
            pendingBytes / frames * chunk.length ≤ bytesLeft by omega), ok_bind, ran]
          rfl
        · simp [inOrder]
        · exact List.forall_mem_cons.mpr ⟨⟨started, short⟩, sized⟩
        · intro _ fits
          have cost := cost_of_fits (pendingBytes / frames * chunk.length) chunk.length
            (later.length * frameCostBytes) (by omega)
          rw [List.map_cons, List.sum_cons, adds last (by omega)]
          dsimp only
          rw [cost]
          omega

end Loop

/-- The loop over a message never takes more bytes than are left; the chunks that it hands
over are non-empty, and its frames in order; and what it has charged is the bytes of the
message and the cost of its frames, if that is a `usize`. -/
theorem message_charges_add_up [Platform] (pendingBytes : Nat) (small : pendingBytes ≤ usizeMax)
    (pending : List Frame) (nonempty : pending ≠ []) :
    ∃ chunks, messageChunks pendingBytes pending = .ok chunks ∧
      readMessage pendingBytes pending = .ok (chunks.flatMap ReadChunk.calls) ∧
      (chunks.map (·.frames)).flatten = pending ∧
      (∀ chunk ∈ chunks, chunk.frames ≠ [] ∧ chunk.frames.length ≤ receiveChunk) ∧
      (pendingBytes + pending.length * frameCostBytes ≤ usizeMax →
        (chargedCosts (chunks.flatMap ReadChunk.calls)).sum =
          pendingBytes + pending.length * frameCostBytes) := by
  have covers : pendingBytes / pending.length * pending.length ≤ pendingBytes :=
    Nat.div_mul_le_self ..
  obtain ⟨chunks, ran, inOrder, sized, adds⟩ :=
    chargeChunks_spec (Nat.lt_succ_self pending.length) small covers
  have chunked : messageChunks pendingBytes pending = .ok chunks := by
    rw [messageChunks, if_neg nonempty]
    exact ran
  refine ⟨chunks, chunked, ?_, inOrder, sized, ?_⟩
  · rw [readMessage, chunked]
    rfl
  · rw [chargedCosts_flatMap_calls]
    exact adds nonempty

/-- Twenty frames in 103 bytes: the first chunk is charged for five bytes a frame, the last
one for the 23 that are left. -/
theorem message_charges_add_up_twenty :
    letI := Platform.bits64
    ∃ chunks, messageChunks 103 (List.replicate 20 (.of (.pong 0))) = .ok chunks ∧
      chunks.map (·.cost) = [80 + 16 * 64, 23 + 4 * 64] ∧
      (chargedCosts (chunks.flatMap ReadChunk.calls)).sum = 103 + 20 * 64 := by
  let := Platform.bits64
  obtain ⟨chunks, ran, -, -, -, adds⟩ := message_charges_add_up 103 (by decide)
    (List.replicate 20 (.of (.pong 0))) (by simp)
  have costs : (messageChunks 103 (List.replicate 20 (.of (.pong 0)))).map
      (fun chunks => chunks.map (·.cost)) = .ok [80 + 16 * 64, 23 + 4 * 64] := by
    decide +kernel
  rw [ran] at costs
  exact ⟨chunks, ran, Except.ok.inj costs, adds (by decide)⟩

end WindowMlHub
