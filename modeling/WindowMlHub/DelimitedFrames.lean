import WindowMlHub.WireFrames
import WindowMlHub.IncrementalReaders

/-!
# Delimited frames

The framing of a byte stream by `crates/frame/src/lib.rs`: a varint byte count
precedes each message, and a reader is handed the stream in whatever chunks the
transport delivers.  What it yields does not depend on how the stream was cut.

A `u64` is a natural number here; that no shift of `read_varint` leaves its range
is proved below.
-/

namespace WindowMlHub

open IncrementalReaders

/-- What the target says of `usize`. -/
class Platform where
  /-- `usize::MAX`. -/
  usizeMax : Nat
  wide : 2 ^ 32 ≤ usizeMax + 1
  narrow : usizeMax < 2 ^ 64

export Platform (usizeMax)

/-- Why a stream cannot be framed. -/
inductive FrameError
  | varintTooLong
  | tooLarge (len max : Nat)
  | truncated (pending : Nat)
  deriving DecidableEq, Repr

/-- `MAX_VARINT_BYTES`. -/
def maxVarintBytes : Nat := 10

/-- The loop of `read_varint`, about to look at the byte with the index `i`. -/
def readVarintFrom : Bytes → Nat → Nat → Except FrameError (Option (Nat × Nat))
  | [], i, _ => if maxVarintBytes ≤ i then .error .varintTooLong else .ok none
  | b :: rest, i, value =>
      if maxVarintBytes ≤ i then .error .varintTooLong
      -- The tenth byte carries only the top bit of a `u64`.
      else if i = maxVarintBytes - 1 ∧ 1 < (b &&& 0x7f).toNat then .error .varintTooLong
      else if b &&& 0x80 = 0 then
        .ok (some (value ||| (b &&& 0x7f).toNat <<< (7 * i), i + 1))
      else readVarintFrom rest (i + 1) (value ||| (b &&& 0x7f).toNat <<< (7 * i))

/-- `read_varint`: the value at the start of the buffer and how many bytes it
took, or nothing while the bytes present do not hold a whole one. -/
def readVarint (buf : Bytes) : Except FrameError (Option (Nat × Nat)) :=
  readVarintFrom buf 0 0

/-- `write_varint`. -/
def writeVarint (value : Nat) : Bytes :=
  if value < 0x80 then [UInt8.ofNat value]
  else (UInt8.ofNat value ||| 0x80) :: writeVarint (value >>> 7)
  termination_by value
  decreasing_by
    rw [Nat.shiftRight_eq_div_pow]
    omega

theorem writeVarint_small {value : Nat} (small : value < 0x80) :
    writeVarint value = [UInt8.ofNat value] := by
  rw [writeVarint, if_pos small]

/-- `write_frame`: the buffer with one more frame, unless the message is over
the limit. -/
def writeFrame (message : Bytes) (max : Nat) (out : Bytes) : Except FrameError Bytes :=
  if max < message.length then .error (.tooLarge message.length max)
  else .ok (out ++ writeVarint message.length ++ message)

/-- The frames of these messages, written one after another. -/
def writeFrames (messages : List Bytes) (max : Nat) : Except FrameError Bytes :=
  messages.foldlM (fun out message => writeFrame message max out) []

/-! ## Varints -/

theorem toNat_and_payload (b : UInt8) : (b &&& 0x7f).toNat = b.toNat % 128 := by
  rw [UInt8.toNat_and]
  exact Nat.and_two_pow_sub_one_eq_mod b.toNat 7

theorem and_continuation_eq_zero (b : UInt8) : b &&& 0x80 = 0 ↔ b.toNat < 128 := by
  have all : ∀ n < 256, UInt8.ofNat n &&& 0x80 = 0 ↔ n < 128 := by decide +kernel
  have same := all b.toNat b.toNat_lt
  rwa [UInt8.ofNat_toNat] at same

theorem toNat_or_continuation (n : Nat) :
    (UInt8.ofNat n ||| 0x80).toNat = n % 128 + 128 := by
  have all : ∀ n < 256, (UInt8.ofNat n ||| 0x80).toNat = n % 128 + 128 := by
    decide +kernel
  have same := all (n % 256) (Nat.mod_lt n (by decide))
  have byte : UInt8.ofNat (n % 256) = UInt8.ofNat n := by
    apply UInt8.toNat_inj.mp
    simp
  rw [byte] at same
  omega

theorem or_shiftLeft {value bits : Nat} (payload : Nat) (low : value < 2 ^ bits) :
    value ||| payload <<< bits = value + payload * 2 ^ bits := by
  rw [Nat.or_comm, ← Nat.shiftLeft_add_eq_or_of_lt low, Nat.shiftLeft_eq, Nat.add_comm]

/-- An answer about a varint stands whatever bytes follow. -/
theorem readVarintFrom_append {buf : Bytes} {i value : Nat} (later : Bytes)
    (answered : readVarintFrom buf i value ≠ .ok none) :
    readVarintFrom (buf ++ later) i value = readVarintFrom buf i value := by
  induction buf generalizing i value with
  | nil =>
      have long : maxVarintBytes ≤ i := by
        by_contra short
        exact answered (by simp [readVarintFrom, short])
      cases later with
      | nil => rfl
      | cons b rest => simp [readVarintFrom, long]
  | cons b rest ih =>
      rw [List.cons_append]
      simp only [readVarintFrom] at answered ⊢
      split
      · rfl
      split
      · rfl
      split
      · rfl
      next long excess more =>
        rw [if_neg long, if_neg excess, if_neg more] at answered
        exact ih answered

/-- A varint takes at least one byte, at most ten, and only bytes that are
there. -/
theorem readVarintFrom_some {buf : Bytes} {i value result head : Nat}
    (read : readVarintFrom buf i value = .ok (some (result, head))) :
    i < head ∧ head ≤ i + buf.length ∧ head ≤ maxVarintBytes := by
  induction buf generalizing i value with
  | nil =>
      simp only [readVarintFrom] at read
      split at read <;> cases read
  | cons b rest ih =>
      simp only [readVarintFrom] at read
      rw [List.length_cons]
      split at read
      · cases read
      split at read
      · cases read
      split at read
      · cases read
        omega
      · have later := ih read
        omega

/-- A varint that is not yet whole has at most nine bytes. -/
theorem readVarintFrom_none {buf : Bytes} {i value : Nat}
    (read : readVarintFrom buf i value = .ok none) :
    i + buf.length < maxVarintBytes := by
  induction buf generalizing i value with
  | nil =>
      simp only [readVarintFrom] at read
      split at read
      · cases read
      · simpa using Nat.lt_of_not_le ‹_›
  | cons b rest ih =>
      simp only [readVarintFrom] at read
      rw [List.length_cons]
      split at read
      · cases read
      split at read
      · cases read
      split at read
      · cases read
      · have later := ih read
        omega

/-- What is read is a `u64`: no bit is shifted out of it. -/
theorem readVarintFrom_lt {buf : Bytes} {i value result head : Nat}
    (low : value < 2 ^ (7 * i))
    (read : readVarintFrom buf i value = .ok (some (result, head))) :
    result < 2 ^ 64 := by
  induction buf generalizing i value with
  | nil =>
      simp only [readVarintFrom] at read
      split at read <;> cases read
  | cons b rest ih =>
      have payload : (b &&& 0x7f).toNat < 128 := by
        rw [toNat_and_payload]
        exact Nat.mod_lt _ (by decide)
      have next : value ||| (b &&& 0x7f).toNat <<< (7 * i) < 2 ^ (7 * (i + 1)) := by
        rw [or_shiftLeft _ low, Nat.mul_succ, Nat.pow_add]
        nlinarith [Nat.two_pow_pos (7 * i)]
      simp only [readVarintFrom] at read
      split at read
      · cases read
      next short =>
      split at read
      · cases read
      next top =>
      split at read
      · cases read
        by_cases tenth : i = 9
        · subst tenth
          rw [or_shiftLeft _ low]
          have bit : (b &&& 0x7f).toNat ≤ 1 := by
            by_contra excess
            exact top ⟨rfl, by omega⟩
          omega
        · have bits : 7 * (i + 1) ≤ 63 := by
            simp only [maxVarintBytes] at short
            omega
          calc _ < 2 ^ (7 * (i + 1)) := next
            _ ≤ 2 ^ 63 := Nat.pow_le_pow_right (by decide) bits
            _ < 2 ^ 64 := by decide
      · exact ih next read

theorem readVarint_lt {buf : Bytes} {value head : Nat}
    (read : readVarint buf = .ok (some (value, head))) : value < 2 ^ 64 :=
  readVarintFrom_lt (by decide) read

/-- A varint is read back as it was written, whatever follows it. -/
theorem readVarintFrom_writeVarint {value i low : Nat} (later : Bytes) (short : i < 10)
    (fits : value < 2 ^ (64 - 7 * i)) (below : low < 2 ^ (7 * i)) :
    readVarintFrom (writeVarint value ++ later) i low =
      .ok (some (low + value * 2 ^ (7 * i), i + (writeVarint value).length)) := by
  have inRange : ¬ maxVarintBytes ≤ i := Nat.not_le_of_lt short
  induction value using Nat.strong_induction_on generalizing i low with
  | h value ih =>
      unfold writeVarint
      split
      next small =>
        have byte : (UInt8.ofNat value).toNat = value := by
          simp
          omega
        have payload : (UInt8.ofNat value &&& 0x7f).toNat = value := by
          rw [toNat_and_payload, byte]
          omega
        have last : UInt8.ofNat value &&& 0x80 = 0 := by
          rw [and_continuation_eq_zero, byte]
          exact small
        have topBit : ¬ (i = maxVarintBytes - 1 ∧ 1 < value) := by
          rintro ⟨rfl, excess⟩
          simp [maxVarintBytes] at fits
          omega
        rw [List.singleton_append, readVarintFrom, payload, if_neg inRange,
          if_neg topBit, if_pos last, or_shiftLeft _ below, List.length_singleton]
      next large =>
        have notTenth : i < 9 := by
          by_contra tenth
          obtain rfl : i = 9 := by omega
          simp at fits
          omega
        have shifted : value >>> 7 = value / 128 := Nat.shiftRight_eq_div_pow value 7
        have payload : ((UInt8.ofNat value ||| 0x80) &&& 0x7f).toNat = value % 128 := by
          rw [toNat_and_payload, toNat_or_continuation]
          omega
        have more : ¬ (UInt8.ofNat value ||| 0x80) &&& 0x80 = 0 := by
          rw [and_continuation_eq_zero, toNat_or_continuation]
          omega
        have topBit : ¬ (i = maxVarintBytes - 1 ∧ 1 < value % 128) := by
          rintro ⟨rfl, _⟩
          exact absurd notTenth (by decide)
        have lower : low + value % 128 * 2 ^ (7 * i) < 2 ^ (7 * (i + 1)) := by
          rw [Nat.mul_succ, Nat.pow_add]
          nlinarith [Nat.two_pow_pos (7 * i), Nat.mod_lt value (by decide : 128 > 0)]
        have restFits : value / 128 < 2 ^ (64 - 7 * (i + 1)) := by
          apply Nat.div_lt_of_lt_mul
          have parts : 64 - 7 * i = 7 + (64 - 7 * (i + 1)) := by omega
          rwa [parts, Nat.pow_add] at fits
        rw [List.cons_append, readVarintFrom, payload, if_neg inRange, if_neg topBit,
          if_neg more, or_shiftLeft _ below, shifted,
          ih (value / 128) (by omega) (by omega) restFits lower
            (by simp only [maxVarintBytes]; omega),
          List.length_cons]
        have whole : low + value % 128 * 2 ^ (7 * i) + value / 128 * 2 ^ (7 * (i + 1)) =
            low + value * 2 ^ (7 * i) := by
          rw [Nat.mul_succ, Nat.pow_add]
          calc low + value % 128 * 2 ^ (7 * i) + value / 128 * (2 ^ (7 * i) * 2 ^ 7)
              = low + (value % 128 + 128 * (value / 128)) * 2 ^ (7 * i) := by ring
            _ = low + value * 2 ^ (7 * i) := by rw [Nat.mod_add_div]
        rw [whole, Nat.add_assoc i 1, Nat.add_comm 1]

theorem readVarint_writeVarint {value : Nat} (later : Bytes) (fits : value < 2 ^ 64) :
    readVarint (writeVarint value ++ later) =
      .ok (some (value, (writeVarint value).length)) := by
  rw [readVarint, readVarintFrom_writeVarint later (by decide) fits (by decide)]
  simp

/-! ## Frames -/

/-- One turn of the loop of `FrameReader::push`: the frame at the front of the
bytes and how many of them it takes. -/
def readFrame (max : Nat) (rest : Bytes) : Except FrameError (Option (Bytes × Nat)) :=
  match readVarint rest with
  | .error e => .error e
  | .ok none => .ok none
  | .ok (some (len, head)) =>
      if max < len then .error (.tooLarge len max)
      else if rest.length < head + len then .ok none
      else .ok (some ((rest.take (head + len)).drop head, head + len))

theorem readFrame_taken {max count : Nat} {rest message : Bytes}
    (read : readFrame max rest = .ok (some (message, count))) :
    0 < count ∧ count ≤ rest.length := by
  unfold readFrame at read
  split at read
  · cases read
  · cases read
  next len head found =>
    have bounds := readVarintFrom_some found
    split at read
    · cases read
    split at read
    · cases read
    next whole =>
      cases read
      omega

theorem readFrame_append {max : Nat} {rest : Bytes} (later : Bytes)
    (answered : readFrame max rest ≠ .ok none) :
    readFrame max (rest ++ later) = readFrame max rest := by
  have whole : readVarint rest ≠ .ok none := by
    intro partly
    exact answered (by simp [readFrame, partly])
  have same : readVarint (rest ++ later) = readVarint rest :=
    readVarintFrom_append later whole
  unfold readFrame at answered ⊢
  rw [same]
  cases found : readVarint rest with
  | error e => rfl
  | ok reading =>
      cases reading with
      | none => exact absurd found whole
      | some pair =>
          obtain ⟨len, head⟩ := pair
          simp only [found] at answered ⊢
          by_cases tooLarge : max < len
          · rw [if_pos tooLarge, if_pos tooLarge]
          · rw [if_neg tooLarge] at answered
            rw [if_neg tooLarge, if_neg tooLarge]
            by_cases short : rest.length < head + len
            · exact absurd (if_pos short) answered
            · have present : head + len ≤ rest.length := Nat.le_of_not_lt short
              rw [if_neg short, if_neg (by rw [List.length_append]; omega),
                List.take_append_of_le_length present]

/-- The frames at the front of a stream, under a limit. -/
def frameItems (max : Nat) : ItemReader UInt8 Bytes FrameError where
  read := readFrame max
  taken := readFrame_taken
  stable := readFrame_append

theorem readFrame_written {max : Nat} {message : Bytes} (later : Bytes)
    (small : message.length ≤ max) (fits : message.length < 2 ^ 64) :
    readFrame max (writeVarint message.length ++ message ++ later) =
      .ok (some (message, (writeVarint message.length ++ message).length)) := by
  have found := readVarint_writeVarint (message ++ later) fits
  rw [← List.append_assoc] at found
  have present : ¬ (writeVarint message.length ++ message ++ later).length <
      (writeVarint message.length).length + message.length := by
    simp only [List.length_append]
    omega
  rw [readFrame, found]
  dsimp only
  rw [if_neg (Nat.not_lt_of_le small), if_neg present, ← List.length_append,
    List.take_left', List.drop_left']
  all_goals rfl

theorem length_lt_of_readFrame_none {max : Nat} {rest : Bytes}
    (read : readFrame max rest = .ok none) : rest.length < max + 10 := by
  unfold readFrame at read
  split at read
  · cases read
  next partly =>
    have few := readVarintFrom_none partly
    simp only [maxVarintBytes] at few
    omega
  next len head found =>
    have bounds := readVarintFrom_some found
    simp only [maxVarintBytes] at bounds
    split at read
    · cases read
    split at read
    next short => omega
    · cases read

/-! ## The reader -/

/-- `FrameReader`: the bytes it holds, of which the first `start` have been handed
out, and its limit. -/
structure FrameReader [Platform] where
  buf : Bytes
  start : Nat
  max : Nat
  within : start ≤ buf.length
  fits : max + 10 ≤ usizeMax

/-- The loop of `FrameReader::push`: where it leaves `start`, and the frames or
the error. -/
def takeFrames (max : Nat) (buf : Bytes) (start : Nat) (out : List Bytes) :
    Nat × Except FrameError (List Bytes) :=
  match read : readFrame max (buf.drop start) with
  | .error e => (start, .error e)
  | .ok none => (start, .ok out)
  | .ok (some (message, count)) =>
      have := readFrame_taken read
      takeFrames max buf (start + count) (out ++ [message])
  termination_by buf.length - start
  decreasing_by
    rw [List.length_drop] at this
    omega

theorem takeFrames_spec (max : Nat) (buf : Bytes) (start : Nat) (out : List Bytes)
    (within : start ≤ buf.length) :
    (takeFrames max buf start out).1 ≤ buf.length ∧
      ∃ frames verdict,
        Settles (frameItems max) (buf.drop start) frames
          (buf.drop (takeFrames max buf start out).1) verdict ∧
        (takeFrames max buf start out).2 =
          verdict.elim (.ok (out ++ frames)) .error := by
  fun_induction takeFrames max buf start out with
  | case1 start out e read =>
      exact ⟨within, [], some e, ⟨.done _, read⟩, rfl⟩
  | case2 start out read =>
      exact ⟨within, [], none, ⟨.done _, read⟩, by simp⟩
  | case3 start out message count read took ih =>
      rw [List.length_drop] at took
      obtain ⟨kept, frames, verdict, settled, result⟩ := ih (by omega)
      refine ⟨kept, message :: frames, verdict, ⟨.item read ?_, settled.stopped⟩, ?_⟩
      · rw [List.drop_drop]
        exact settled.reads
      · rw [result, List.append_assoc, List.singleton_append]

namespace FrameReader

variable [Platform]

/-- `FrameReader::new`. -/
def new (max : Nat) (fits : max + 10 ≤ usizeMax) : FrameReader :=
  ⟨[], 0, max, Nat.le_refl 0, fits⟩

/-- The bytes not yet handed out. -/
def unread (reader : FrameReader) : Bytes :=
  reader.buf.drop reader.start

/-- `FrameReader::pending`. -/
def pending (reader : FrameReader) : Nat :=
  reader.buf.length - reader.start

/-- The bytes already handed out are dropped once they are half of the buffer. -/
def compact (reader : FrameReader) : FrameReader :=
  if 0 < reader.start ∧ reader.buf.length ≤ reader.start * 2 then
    ⟨reader.buf.drop reader.start, 0, reader.max, Nat.zero_le _, reader.fits⟩
  else reader

/-- `FrameReader::push`: the reader afterwards, and the frames that are now
complete or why the stream is corrupt. -/
def push (reader : FrameReader) (chunk : Bytes) :
    FrameReader × Except FrameError (List Bytes) :=
  let held := reader.compact
  let buf := held.buf ++ chunk
  have within : held.start ≤ buf.length := by
    rw [List.length_append]
    exact Nat.le_add_right_of_le held.within
  let taken := takeFrames held.max buf held.start []
  (⟨buf, taken.1, held.max, (takeFrames_spec held.max buf held.start [] within).1,
    held.fits⟩, taken.2)

/-- Chunks pushed one after another, up to the first that fails: the frames that
the pushes before it returned, and its error. -/
def pushAll (reader : FrameReader) : List Bytes → FrameReader × List Bytes × Option FrameError
  | [] => (reader, [], none)
  | chunk :: chunks =>
      match reader.push chunk with
      | (after, .error e) => (after, [], some e)
      | (after, .ok frames) =>
          let (last, others, failed) := after.pushAll chunks
          (last, frames ++ others, failed)

theorem head_add_len_le (reader : FrameReader) {rest : Bytes} {len head : Nat}
    (read : readVarint rest = .ok (some (len, head))) (small : len ≤ reader.max) :
    head + len ≤ usizeMax := by
  have bounds := readVarintFrom_some read
  have fits := reader.fits
  simp only [maxVarintBytes] at bounds
  omega

theorem pending_eq (reader : FrameReader) : reader.pending = reader.unread.length := by
  rw [pending, unread, List.length_drop]

@[simp]
theorem compact_max (reader : FrameReader) : reader.compact.max = reader.max := by
  unfold compact
  split <;> rfl

@[simp]
theorem compact_unread (reader : FrameReader) : reader.compact.unread = reader.unread := by
  unfold compact
  split <;> rfl

@[simp]
theorem push_max (reader : FrameReader) (chunk : Bytes) :
    (reader.push chunk).1.max = reader.max :=
  reader.compact_max

theorem push_spec (reader : FrameReader) (chunk : Bytes) :
    ∃ frames verdict,
      Settles (frameItems reader.max) (reader.unread ++ chunk) frames
        (reader.push chunk).1.unread verdict ∧
      (reader.push chunk).2 = verdict.elim (.ok frames) .error := by
  have within : reader.compact.start ≤ (reader.compact.buf ++ chunk).length := by
    rw [List.length_append]
    exact Nat.le_add_right_of_le reader.compact.within
  obtain ⟨-, frames, verdict, settled, result⟩ :=
    takeFrames_spec reader.compact.max (reader.compact.buf ++ chunk)
      reader.compact.start [] within
  refine ⟨frames, verdict, ?_, result⟩
  rw [List.drop_append_of_le_length reader.compact.within, compact_max] at settled
  rw [← compact_unread]
  simpa only [push, unread, compact_max] using settled

theorem push_ok {reader after : FrameReader} {chunk : Bytes} {frames : List Bytes}
    (pushed : reader.push chunk = (after, .ok frames)) :
    Settles (frameItems reader.max) (reader.unread ++ chunk) frames after.unread none := by
  obtain ⟨found, verdict, settled, result⟩ := reader.push_spec chunk
  rw [pushed] at settled result
  cases verdict with
  | none =>
      obtain rfl := Except.ok.inj result
      exact settled
  | some e => cases result

theorem push_error {reader after : FrameReader} {chunk : Bytes} {e : FrameError}
    (pushed : reader.push chunk = (after, .error e)) :
    ∃ frames, Settles (frameItems reader.max) (reader.unread ++ chunk) frames
      after.unread (some e) := by
  obtain ⟨found, verdict, settled, result⟩ := reader.push_spec chunk
  rw [pushed] at settled result
  cases verdict with
  | none => cases result
  | some failure =>
      obtain rfl := Except.error.inj result
      exact ⟨found, settled⟩

/-- Successive pushes read the frames off the concatenation of their chunks; those
of the push that fails are lost. -/
theorem pushAll_spec {chunks : List Bytes} {reader last : FrameReader}
    {frames : List Bytes} {failed : Option FrameError}
    (waiting : readFrame reader.max reader.unread = .ok none)
    (pushed : reader.pushAll chunks = (last, frames, failed)) :
    ∃ lost rest,
      Settles (frameItems reader.max) (reader.unread ++ chunks.flatten) (frames ++ lost)
        rest failed ∧
      (failed = none → lost = [] ∧ rest = last.unread) := by
  induction chunks generalizing reader frames with
  | nil =>
      obtain ⟨rfl, rfl, rfl⟩ : reader = last ∧ [] = frames ∧ none = failed := by
        simpa [pushAll] using pushed
      refine ⟨[], reader.unread, ?_, fun _ => ⟨rfl, rfl⟩⟩
      rw [List.flatten_nil, List.append_nil]
      exact ⟨.done _, waiting⟩
  | cons chunk chunks ih =>
      rw [List.flatten_cons, ← List.append_assoc]
      unfold pushAll at pushed
      split at pushed
      next after e first =>
        obtain ⟨rfl, rfl, rfl⟩ : after = last ∧ [] = frames ∧ some e = failed := by
          simpa using pushed
        obtain ⟨lost, settled⟩ := push_error first
        exact ⟨lost, _, settled.failed_append chunks.flatten, nofun⟩
      next after found first =>
        have settled := push_ok first
        have kept : after.max = reader.max := by
          rw [← push_max reader chunk, first]
        rcases others : after.pushAll chunks with ⟨last', frames', failed'⟩
        rw [others] at pushed
        obtain ⟨rfl, rfl, rfl⟩ : last' = last ∧ found ++ frames' = frames ∧
            failed' = failed := by
          simpa using pushed
        have stillWaiting : readFrame after.max after.unread = .ok none := by
          rw [kept]
          exact settled.stopped
        obtain ⟨lost, rest, later, ended⟩ := ih stillWaiting others
        rw [kept] at later
        refine ⟨lost, rest, ?_, ended⟩
        rw [List.append_assoc found]
        exact settled.resume later

end FrameReader

/-- What was written is read off as the messages. -/
theorem reads_written {max : Nat} {messages : List Bytes} {before bytes : Bytes}
    (fits : max < 2 ^ 64)
    (written : messages.foldlM (fun out message => writeFrame message max out) before =
      .ok bytes) :
    ∃ later, bytes = before ++ later ∧ Reads (frameItems max) later messages [] := by
  induction messages generalizing before with
  | nil =>
      obtain rfl : before = bytes := by simpa [pure, Except.pure] using written
      exact ⟨[], (List.append_nil _).symm, .done _⟩
  | cons message messages ih =>
      rw [List.foldlM_cons, writeFrame] at written
      by_cases large : max < message.length
      · rw [if_pos large] at written
        cases written
      · rw [if_neg large] at written
        obtain ⟨later, rfl, reads⟩ := ih written
        have small : message.length ≤ max := Nat.le_of_not_lt large
        refine ⟨writeVarint message.length ++ message ++ later,
          by simp only [List.append_assoc], ?_⟩
        apply Reads.item (readFrame_written later small (by omega))
        rwa [List.drop_left' rfl]

section Chunks

variable [Platform]

/-- Chunking does not show.  A stream that one push reads is read alike however it
is cut; one that is corrupt fails with the same error, after some of the frames
that precede the corrupt prefix.  Frames that were written are read back whole,
and a push that succeeds holds back less than the limit and a length prefix. -/
theorem framing_independent_of_chunks (max : Nat) (fits : max + 10 ≤ usizeMax) :
    (∀ (chunks : List Bytes) (after : FrameReader) (frames : List Bytes),
      (FrameReader.new max fits).push chunks.flatten = (after, .ok frames) →
        ∃ last, (FrameReader.new max fits).pushAll chunks = (last, frames, none) ∧
          last.pending = after.pending) ∧
    (∀ (chunks : List Bytes) (after : FrameReader) (e : FrameError),
      (FrameReader.new max fits).push chunks.flatten = (after, .error e) →
        ∃ last frames whole rest,
          (FrameReader.new max fits).pushAll chunks = (last, frames, some e) ∧
          Reads (frameItems max) chunks.flatten whole rest ∧
          readFrame max rest = .error e ∧ frames <+: whole) ∧
    (∀ (messages chunks : List Bytes), writeFrames messages max = .ok chunks.flatten →
      ∃ last, (FrameReader.new max fits).pushAll chunks = (last, messages, none) ∧
        last.pending = 0) ∧
    (∀ (reader after : FrameReader) (chunk : Bytes) (frames : List Bytes),
      reader.max = max → reader.push chunk = (after, .ok frames) →
        after.pending < max + 10) := by
  have waiting : readFrame (FrameReader.new max fits).max
      (FrameReader.new max fits).unread = .ok none := rfl
  have agrees : ∀ {chunks : List Bytes} {whole rest verdict},
      Settles (frameItems max) chunks.flatten whole rest verdict →
        ∃ last frames lost,
          (FrameReader.new max fits).pushAll chunks = (last, frames, verdict) ∧
          frames ++ lost = whole ∧
          (verdict = none → lost = [] ∧ rest = last.unread) := by
    intro chunks whole rest verdict settled
    rcases pushed : (FrameReader.new max fits).pushAll chunks with ⟨last, frames, failed⟩
    obtain ⟨lost, rest', chunked, ended⟩ := FrameReader.pushAll_spec waiting pushed
    obtain ⟨rfl, rfl, rfl⟩ := settled.unique chunked
    exact ⟨last, frames, lost, rfl, rfl, ended⟩
  refine ⟨?_, ?_, ?_, ?_⟩
  · intro chunks after frames pushed
    obtain ⟨last, found, lost, chunked, joined, ended⟩ :=
      agrees (FrameReader.push_ok pushed)
    obtain ⟨rfl, left⟩ := ended rfl
    rw [List.append_nil] at joined
    subst joined
    exact ⟨last, chunked, by rw [FrameReader.pending_eq, FrameReader.pending_eq, left]⟩
  · intro chunks after e pushed
    obtain ⟨whole, settled⟩ := FrameReader.push_error pushed
    obtain ⟨last, frames, lost, chunked, joined, -⟩ := agrees settled
    exact ⟨last, frames, whole, after.unread, chunked, settled.reads, settled.stopped,
      lost, joined⟩
  · intro messages chunks written
    have narrow : max < 2 ^ 64 := by
      have := Platform.narrow
      omega
    obtain ⟨later, same, reads⟩ := reads_written narrow written
    rw [List.nil_append] at same
    rw [← same] at reads
    have settled : Settles (frameItems max) chunks.flatten messages [] none :=
      ⟨reads, rfl⟩
    obtain ⟨last, found, lost, chunked, joined, ended⟩ := agrees settled
    obtain ⟨rfl, left⟩ := ended rfl
    rw [List.append_nil] at joined
    subst joined
    exact ⟨last, chunked, by rw [FrameReader.pending_eq, ← left, List.length_nil]⟩
  · intro reader after chunk frames same pushed
    subst same
    rw [FrameReader.pending_eq]
    exact length_lt_of_readFrame_none (FrameReader.push_ok pushed).stopped

end Chunks

/-- A target with 64-bit addresses. -/
@[reducible]
def Platform.bits64 : Platform where
  usizeMax := 2 ^ 64 - 1
  wide := by decide
  narrow := by decide

/-- Two messages, cut inside the first and before the second. -/
theorem framing_independent_of_chunks_two :
    letI := Platform.bits64
    ∃ last, (FrameReader.new 256 (by decide)).pushAll [[2, 97], [], [98], [0]] =
      (last, [[97, 98], []], none) ∧ last.pending = 0 :=
  (@framing_independent_of_chunks Platform.bits64 256 (by decide)).2.2.1
    [[97, 98], []] [[2, 97], [], [98], [0]] (by
      simp [writeFrames, writeFrame, writeVarint_small, bind, Except.bind, pure,
        Except.pure])

end WindowMlHub
