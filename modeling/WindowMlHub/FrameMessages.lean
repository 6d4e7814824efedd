import WindowMlHub.CheckedConditions
import WindowMlHub.DelimitedFrames

/-!
# Frames of a websocket message

`crates/proto/src/lib.rs`: a websocket message is a sequence of delimited frames.  The
relay decodes it in place and encodes each frame once; tests and the model of the relay
decode it through the reader of a stream.  Both ways come to the same.

The generated code for `Frame` and prost's length delimiter are parameters.
-/

namespace WindowMlHub

open IncrementalReaders CheckedConditions

/-- The generated code for `Frame`: how prost encodes a frame, writes a length delimiter,
and decodes a frame from a slice and from a `Bytes`. -/
structure FrameProtobuf where
  ProtoError : Type
  encodeToVec : Frame → Bytes
  lengthDelimiter : Nat → Bytes
  decodeSlice : Bytes → Except ProtoError Frame
  decodeBytes : Bytes → Except ProtoError Frame

/-- Why bytes off the wire are not a sequence of frames. -/
inductive DecodeError (protobuf : FrameProtobuf)
  | frame (e : FrameError)
  | proto (e : protobuf.ProtoError)

namespace FrameProtobuf

variable (protobuf : FrameProtobuf)

/-- `encode_frames`. -/
def encodeFrames (frames : List Frame) (max : Nat) : Except FrameError Bytes :=
  frames.foldlM (fun out frame => writeFrame (protobuf.encodeToVec frame) max out) []

/-- `encode_frame`. -/
def encodeFrame (frame : Frame) : Bytes :=
  protobuf.lengthDelimiter (protobuf.encodeToVec frame).length ++
    protobuf.encodeToVec frame

/-- The loop of `decode_frames_shared`, about to look at the byte at `position`.  A sum
that leaves `usize` is past the end of the message as well. -/
def decodeFramesFrom (message : Bytes) (max position : Nat) (frames : List Frame) :
    Except (DecodeError protobuf) (List Frame) :=
  if position < message.length then
    match read : readVarint (message.drop position) with
    | .error e => .error (.frame e)
    | .ok none => .error (.frame (.truncated (message.length - position)))
    | .ok (some (len, head)) =>
        if max < len then
          .error (.frame (.tooLarge len max))
        else if position + head + len ≤ message.length then
          match protobuf.decodeBytes
              ((message.take (position + head + len)).drop (position + head)) with
          | .error e => .error (.proto e)
          | .ok frame =>
              have := readVarintFrom_some read
              decodeFramesFrom message max (position + head + len) (frames ++ [frame])
        else
          .error (.frame (.truncated (message.length - position)))
  else
    .ok frames
  termination_by message.length - position

/-- `decode_frames_shared`. -/
def decodeFramesShared (message : Bytes) (max : Nat) :
    Except (DecodeError protobuf) (List Frame) :=
  protobuf.decodeFramesFrom message max 0 []

/-- `decode_frames`. -/
def decodeFrames [Platform] (message : Bytes) (max : Nat) (fits : max + 10 ≤ usizeMax) :
    Except (DecodeError protobuf) (List Frame) :=
  match (FrameReader.new max fits).push message with
  | (_, .error e) => .error (.frame e)
  | (reader, .ok raw) =>
      if reader.pending ≠ 0 then
        .error (.frame (.truncated reader.pending))
      else
        raw.mapM fun bytes => (protobuf.decodeSlice bytes).mapError .proto

end FrameProtobuf

/-- `join_frames`. -/
def joinFrames : List Bytes → Bytes
  | [frame] => frame
  | frames => frames.flatten

theorem joinFrames_eq_flatten (frames : List Bytes) : joinFrames frames = frames.flatten := by
  unfold joinFrames
  split
  · simp
  · rfl

/-- Reading an input to its end: there is nothing to read, or an item and what follows
it is read to the end. -/
theorem reads_to_end_iff {max : Nat} {input : Bytes} {values : List Bytes} :
    Reads (frameItems max) input values [] ↔
      input = [] ∧ values = [] ∨
        ∃ message count others, readFrame max input = .ok (some (message, count)) ∧
          values = message :: others ∧
          Reads (frameItems max) (input.drop count) others [] := by
  constructor
  · intro reads
    cases reads with
    | done => exact .inl ⟨rfl, rfl⟩
    | item first others => exact .inr ⟨_, _, _, first, rfl, others⟩
  · rintro (⟨rfl, rfl⟩ | ⟨message, count, others, first, rfl, rest⟩)
    · exact .done _
    · exact .item first rest

theorem not_reads_to_end {max : Nat} {input : Bytes} {values : List Bytes}
    (nonempty : input ≠ [])
    (nothing : ∀ item, readFrame max input ≠ .ok (some item)) :
    ¬ Reads (frameItems max) input values [] := by
  rw [reads_to_end_iff]
  rintro (⟨none, -⟩ | ⟨message, count, others, first, -⟩)
  · exact nonempty none
  · exact nothing _ first

theorem drop_ne_nil {message : Bytes} {position : Nat} (within : position < message.length) :
    message.drop position ≠ [] := by
  rw [Ne, List.drop_eq_nil_iff]
  exact Nat.not_le_of_lt within

theorem readFrame_of_varint {max len head : Nat} {input : Bytes}
    (read : readVarint input = .ok (some (len, head))) :
    readFrame max input =
      if max < len then .error (.tooLarge len max)
      else if input.length < head + len then .ok none
      else .ok (some ((input.take (head + len)).drop head, head + len)) := by
  rw [readFrame, read]

theorem readFrame_written_at {max len head position : Nat} {message : Bytes}
    (read : readVarint (message.drop position) = .ok (some (len, head)))
    (small : ¬ max < len) (whole : position + head + len ≤ message.length) :
    readFrame max (message.drop position) =
      .ok (some ((message.take (position + head + len)).drop (position + head),
        head + len)) := by
  have present : ¬ (message.drop position).length < head + len := by
    rw [List.length_drop]
    omega
  have slice : ((message.drop position).take (head + len)).drop head =
      (message.take (position + head + len)).drop (position + head) := by
    rw [Nat.add_assoc, List.take_drop, List.drop_drop]
  rw [readFrame_of_varint read, if_neg small, if_neg present, slice]

namespace FrameProtobuf

variable {protobuf : FrameProtobuf}

/-- From a position on, the shared decoder accepts what is read to the end as frames that
all decode. -/
theorem decodeFramesFrom_eq_ok_iff {message : Bytes} {max position : Nat}
    {frames result : List Frame} :
    protobuf.decodeFramesFrom message max position frames = .ok result ↔
      ∃ raws found, Reads (frameItems max) (message.drop position) raws [] ∧
        raws.mapM protobuf.decodeBytes = .ok found ∧ frames ++ found = result := by
  have refuses {position : Nat} (within : position < message.length)
      (nothing : ∀ item, readFrame max (message.drop position) ≠ .ok (some item))
      {error : DecodeError protobuf} {before : List Frame} :
      Except.error error = .ok result ↔
        ∃ raws found, Reads (frameItems max) (message.drop position) raws [] ∧
          raws.mapM protobuf.decodeBytes = .ok found ∧ before ++ found = result := by
    simp [not_reads_to_end (drop_ne_nil within) nothing]
  fun_induction protobuf.decodeFramesFrom message max position frames with
  | case1 position frames within e read =>
      exact refuses within (by simp [readFrame, read])
  | case2 position frames within read =>
      exact refuses within (by simp [readFrame, read])
  | case3 position frames within len head read tooLarge =>
      exact refuses within (by simp [readFrame_of_varint read, tooLarge])
  | case4 position frames within len head read small whole e refused =>
      constructor
      · intro accepted
        cases accepted
      · rintro ⟨raws, found, reads, decoded, -⟩
        obtain ⟨none, -⟩ | ⟨first, count, others, front, rfl, -⟩ := reads_to_end_iff.mp reads
        · exact absurd none (drop_ne_nil within)
        · rw [readFrame_written_at read small whole] at front
          cases front
          rw [mapM_eq_ok] at decoded
          obtain _ | ⟨accepted, -⟩ := decoded
          rw [refused] at accepted
          cases accepted
  | case5 position frames within len head read small whole frame accepted took ih =>
      refine Iff.trans ih ?_
      constructor
      · rintro ⟨raws, found, reads, decoded, rfl⟩
        refine ⟨_ :: raws, frame :: found,
          .item (readFrame_written_at read small whole) ?_, ?_, by simp⟩
        · rwa [List.drop_drop, ← Nat.add_assoc]
        · exact mapM_eq_ok.mpr (.cons accepted (mapM_eq_ok.mp decoded))
      · rintro ⟨raws, found, reads, decoded, rfl⟩
        obtain ⟨none, -⟩ | ⟨first, count, others, front, rfl, rest⟩ :=
          reads_to_end_iff.mp reads
        · exact absurd none (drop_ne_nil within)
        · rw [readFrame_written_at read small whole] at front
          cases front
          obtain _ | ⟨accepted', decoded'⟩ := mapM_eq_ok.mp decoded
          rw [accepted] at accepted'
          cases accepted'
          rw [List.drop_drop, ← Nat.add_assoc] at rest
          exact ⟨others, _, rest, mapM_eq_ok.mpr decoded', by simp⟩
  | case6 position frames within len head read small cut =>
      have short : (message.drop position).length < head + len := by
        rw [List.length_drop]
        omega
      have waits : readFrame max (message.drop position) = .ok none := by
        rw [readFrame_of_varint read, if_neg small, if_pos short]
      exact refuses within (by simp [waits])
  | case7 position frames past =>
      have ended : message.drop position = [] := List.drop_of_length_le (not_lt.mp past)
      rw [ended]
      constructor
      · intro same
        cases same
        exact ⟨[], [], .done _, rfl, List.append_nil _⟩
      · rintro ⟨raws, found, reads, decoded, rfl⟩
        obtain ⟨-, rfl⟩ | ⟨message, count, others, first, -⟩ := reads_to_end_iff.mp reads
        · cases decoded
          simp
        · cases first

/-- The reader of a stream accepts the same. -/
theorem decodeFrames_eq_ok_iff [Platform] {message : Bytes} {max : Nat}
    {fits : max + 10 ≤ usizeMax} {result : List Frame} :
    protobuf.decodeFrames message max fits = .ok result ↔
      ∃ raws, Reads (frameItems max) message raws [] ∧
        raws.mapM protobuf.decodeSlice = .ok result := by
  have ends {raws : List Bytes} (reads : Reads (frameItems max) message raws []) :
      Settles (frameItems max) message raws [] none := ⟨reads, rfl⟩
  unfold decodeFrames
  rcases pushed : (FrameReader.new max fits).push message with ⟨reader, e | raw⟩
  · obtain ⟨raws, failed⟩ := FrameReader.push_error pushed
    constructor
    · intro accepted
      cases accepted
    · rintro ⟨others, reads, -⟩
      obtain ⟨-, -, differ⟩ := failed.unique (ends reads)
      cases differ
  · have settled : Settles (frameItems max) message raw reader.unread none :=
      FrameReader.push_ok pushed
    dsimp only
    by_cases rest : reader.unread = []
    · have nothing : reader.pending = 0 := by
        rw [FrameReader.pending_eq, rest, List.length_nil]
      rw [rest] at settled
      simp only [nothing, ne_eq, not_true_eq_false, if_false, mapM_eq_ok, mapError_eq_ok]
      constructor
      · intro decoded
        exact ⟨raw, settled.reads, decoded⟩
      · rintro ⟨raws, reads, decoded⟩
        obtain ⟨rfl, -, -⟩ := settled.unique (ends reads)
        exact decoded
    · have something : reader.pending ≠ 0 := by
        rw [FrameReader.pending_eq]
        exact fun none => rest (List.eq_nil_of_length_eq_zero none)
      rw [if_pos something]
      constructor
      · intro accepted
        cases accepted
      · rintro ⟨raws, reads, -⟩
        obtain ⟨-, empty, -⟩ := settled.unique (ends reads)
        exact absurd empty rest

theorem decodeFramesShared_eq_ok_iff {message : Bytes} {max : Nat} {result : List Frame} :
    protobuf.decodeFramesShared message max = .ok result ↔
      ∃ raws, Reads (frameItems max) message raws [] ∧
        raws.mapM protobuf.decodeBytes = .ok result := by
  simp [decodeFramesShared, decodeFramesFrom_eq_ok_iff]

/-- Frames under the limit are encoded together as they are one by one. -/
theorem encodeFrames_eq_ok {max : Nat} {frames : List Frame}
    (minimal : ∀ len, protobuf.lengthDelimiter len = writeVarint len)
    (small : ∀ frame ∈ frames, (protobuf.encodeToVec frame).length ≤ max) :
    protobuf.encodeFrames frames max =
      .ok (joinFrames (frames.map protobuf.encodeFrame)) := by
  have from' : ∀ out, frames.foldlM
      (fun out frame => writeFrame (protobuf.encodeToVec frame) max out) out =
        .ok (out ++ (frames.map protobuf.encodeFrame).flatten) := by
    induction frames with
    | nil => simp [pure, Except.pure]
    | cons frame rest ih =>
        intro out
        have here := small frame List.mem_cons_self
        have others := ih fun other member => small other (List.mem_cons_of_mem _ member)
        have written : writeFrame (protobuf.encodeToVec frame) max out =
            .ok (out ++ protobuf.encodeFrame frame) := by
          rw [writeFrame, if_neg (Nat.not_lt_of_le here), encodeFrame, minimal,
            List.append_assoc]
        rw [List.foldlM_cons, written]
        change rest.foldlM _ (out ++ protobuf.encodeFrame frame) = _
        rw [others, List.map_cons, List.flatten_cons, List.append_assoc]
  rw [joinFrames_eq_flatten]
  exact from' []

theorem reads_encodeFrames {max : Nat} {frames : List Frame}
    (fits : max < 2 ^ 64)
    (minimal : ∀ len, protobuf.lengthDelimiter len = writeVarint len)
    (small : ∀ frame ∈ frames, (protobuf.encodeToVec frame).length ≤ max) :
    Reads (frameItems max) (joinFrames (frames.map protobuf.encodeFrame))
      (frames.map protobuf.encodeToVec) [] := by
  have written : (frames.map protobuf.encodeToVec).foldlM
      (fun out message => writeFrame message max out) [] =
        .ok (joinFrames (frames.map protobuf.encodeFrame)) := by
    rw [List.foldlM_map]
    exact encodeFrames_eq_ok minimal small
  obtain ⟨later, same, reads⟩ := reads_written fits written
  rw [List.nil_append] at same
  rwa [same]

end FrameProtobuf

/-- The two decoders agree on every message, frames or failure.  Frames within the limit
are encoded one by one as they are together, and the shared decoder gives them back. -/
theorem frame_decoders_agree [Platform] (protobuf : FrameProtobuf) (max : Nat)
    (fits : max + 10 ≤ usizeMax)
    (alike : ∀ bytes, protobuf.decodeSlice bytes = protobuf.decodeBytes bytes) :
    (∀ message,
      (∃ frames, protobuf.decodeFrames message max fits = .ok frames ∧
        protobuf.decodeFramesShared message max = .ok frames) ∨
      ∃ e e', protobuf.decodeFrames message max fits = .error e ∧
        protobuf.decodeFramesShared message max = .error e') ∧
    ((∀ len, protobuf.lengthDelimiter len = writeVarint len) →
      ∀ frames : List Frame,
        (∀ frame ∈ frames, (protobuf.encodeToVec frame).length ≤ max) →
        (∀ frame ∈ frames,
          protobuf.decodeBytes (protobuf.encodeToVec frame) = .ok frame) →
        protobuf.encodeFrames frames max =
            .ok (joinFrames (frames.map protobuf.encodeFrame)) ∧
          protobuf.decodeFramesShared (joinFrames (frames.map protobuf.encodeFrame)) max =
            .ok frames) := by
  constructor
  · intro message
    have same : ∀ frames, protobuf.decodeFrames message max fits = .ok frames ↔
        protobuf.decodeFramesShared message max = .ok frames := by
      intro frames
      rw [FrameProtobuf.decodeFrames_eq_ok_iff,
        FrameProtobuf.decodeFramesShared_eq_ok_iff, funext alike]
    cases copied : protobuf.decodeFrames message max fits with
    | ok frames => exact .inl ⟨frames, rfl, (same frames).mp copied⟩
    | error e =>
        cases shared : protobuf.decodeFramesShared message max with
        | ok frames =>
            rw [(same frames).mpr shared] at copied
            cases copied
        | error e' => exact .inr ⟨e, e', rfl, rfl⟩
  · intro minimal frames small inverts
    refine ⟨FrameProtobuf.encodeFrames_eq_ok minimal small, ?_⟩
    have narrow : max < 2 ^ 64 := by
      have := Platform.narrow
      omega
    rw [FrameProtobuf.decodeFramesShared_eq_ok_iff]
    refine ⟨_, FrameProtobuf.reads_encodeFrames narrow minimal small, ?_⟩
    rw [mapM_eq_ok, List.forall₂_map_left_iff, List.forall₂_same]
    exact inverts

/-- The generated code, as far as it is asked for a frame without a body and a ping. -/
def pingProtobuf : FrameProtobuf where
  ProtoError := Unit
  encodeToVec frame := if frame = .of (.ping 5) then [0x4a, 2, 8, 5] else []
  lengthDelimiter := writeVarint
  decodeSlice := decode
  decodeBytes := decode
where
  decode (bytes : Bytes) : Except Unit Frame :=
    if bytes = [] then .ok ⟨none⟩
    else if bytes = [0x4a, 2, 8, 5] then .ok (.of (.ping 5))
    else .error ()

theorem frame_decoders_agree_ping :
    pingProtobuf.decodeFramesShared [0, 4, 0x4a, 2, 8, 5] 256 =
      .ok [⟨none⟩, .of (.ping 5)] := by
  have agree := (@frame_decoders_agree Platform.bits64 pingProtobuf 256 (by decide)
    fun _ => rfl).2 (fun _ => rfl) [⟨none⟩, .of (.ping 5)] (by decide)
      (by simp [pingProtobuf, pingProtobuf.decode, Frame.of])
  have joined : joinFrames ([⟨none⟩, .of (.ping 5)].map pingProtobuf.encodeFrame) =
      [0, 4, 0x4a, 2, 8, 5] := by
    decide +kernel
  rw [joined] at agree
  exact agree.2

end WindowMlHub
