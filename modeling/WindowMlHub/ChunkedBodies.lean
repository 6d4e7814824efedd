import WindowMlHub.HttpResponses

/-!
# Where a chunked body may be cut

What the bytes of a chunked body say so far depends on nothing but those bytes: the
content, and where they stop.  A decoder that is pushed the same bytes in pieces follows
this reading piece by piece, with one exception: it refuses a size line of which more than
64 bytes have arrived when the line has not ended, and so looks at where a piece ends.
-/

namespace WindowMlHub

open TextFormats CheckedConditions

/-- Where the bytes of a chunked body stop: so many bytes before the end of a chunk, in a
size line, after the last chunk, or at a size line that states no size. -/
inductive BodyEnd
  | inChunk (left : Nat)
  | inLine (held : Bytes)
  | ended
  | refused (e : HttpError)
  deriving DecidableEq, Repr

/-- The bytes stop in a size line of which more than 64 bytes have arrived. -/
def BodyEnd.Overlong (stop : BodyEnd) : Prop :=
  ∃ held, stop = .inLine held ∧ 64 < held.length

instance decidableOverlong : (stop : BodyEnd) → Decidable stop.Overlong
  | .inLine held => decidable_of_iff (64 < held.length) (by simp [BodyEnd.Overlong])
  | .inChunk _ => isFalse (by simp [BodyEnd.Overlong])
  | .ended => isFalse (by simp [BodyEnd.Overlong])
  | .refused _ => isFalse (by simp [BodyEnd.Overlong])

/-- The bytes stop at a size line that states no size. -/
def BodyEnd.Refused (stop : BodyEnd) : Prop :=
  ∃ e, stop = .refused e

/-- A decoder that has followed bytes to where they stop. -/
inductive BodyEnd.HeldBy : BodyEnd → Chunked → Prop
  | inChunk {left : Nat} (positive : 0 < left) : HeldBy (.inChunk left) ⟨[], left, false⟩
  | inLine {held : Bytes} (short : held.length ≤ 64) : HeldBy (.inLine held) ⟨held, 0, false⟩
  | ended (rest : Bytes) : HeldBy .ended ⟨rest, 0, true⟩

/-- What a push returns for content and where it stops. -/
inductive Answers : Bytes → Bytes × BodyEnd → Chunked × Except HttpError Bytes → Prop
  | follows {out content : Bytes} {stop : BodyEnd} {decoder : Chunked}
      (held : stop.HeldBy decoder) :
      Answers out (content, stop) (decoder, .ok (out ++ content))
  | overlong {out content : Bytes} {stop : BodyEnd} {decoder : Chunked} {e : HttpError}
      (long : stop.Overlong) : Answers out (content, stop) (decoder, .error e)
  | refused {out content : Bytes} {stop : BodyEnd} {decoder : Chunked} {e : HttpError}
      (malformed : stop.Refused) : Answers out (content, stop) (decoder, .error e)

theorem BodyEnd.HeldBy.not_overlong {stop : BodyEnd} {decoder : Chunked}
    (held : stop.HeldBy decoder) : ¬ stop.Overlong := by
  rintro ⟨line, same, long⟩
  cases held with
  | inChunk positive => cases same
  | inLine short =>
      cases same
      exact Nat.not_lt_of_le short long
  | ended rest => cases same

theorem BodyEnd.HeldBy.not_refused {stop : BodyEnd} {decoder : Chunked}
    (held : stop.HeldBy decoder) : ¬ stop.Refused := by
  rintro ⟨e, same⟩
  cases held <;> cases same

theorem BodyEnd.HeldBy.done_iff {stop : BodyEnd} {decoder : Chunked}
    (held : stop.HeldBy decoder) : decoder.done = true ↔ stop = .ended := by
  cases held with
  | inChunk positive => simp
  | inLine short => simp
  | ended rest => simp

theorem Answers.prepend {out part : Bytes} {reading : Bytes × BodyEnd}
    {result : Chunked × Except HttpError Bytes}
    (answers : Answers (out ++ part) reading result) :
    Answers out (part ++ reading.1, reading.2) result := by
  cases answers with
  | follows held =>
      rw [List.append_assoc]
      exact .follows held
  | overlong long => exact .overlong long
  | refused malformed => exact .refused malformed

theorem Answers.nothing {out : Bytes} {stop : BodyEnd} {decoder : Chunked}
    (held : stop.HeldBy decoder) : Answers out ([], stop) (decoder, .ok out) := by
  have answers := @Answers.follows out [] stop decoder held
  rwa [List.append_nil] at answers

section Chunks

variable [Platform]

/-- The content of the bytes of a chunked body, when so many bytes of a chunk are still to
come, and where the bytes stop. -/
def readBody (left : Nat) (input : Bytes) : Bytes × BodyEnd :=
  if _inChunk : 0 < left then
    if _cut : input.length < left then
      (input, .inChunk (left - input.length))
    else
      let later := readBody 0 (input.drop left)
      (input.take left ++ later.1, later.2)
  else if _separator : crlf <+: input then
    readBody 0 (input.drop 2)
  else
    match _found : find crlf input with
    | none => ([], .inLine input)
    | some stop =>
        match readSizeLine (input.take stop) with
        | .error e => ([], .refused e)
        | .ok 0 => ([], .ended)
        | .ok (size + 1) => readBody (size + 1) (input.drop (stop + 2))
  termination_by input.length
  decreasing_by
    · rw [List.length_drop]
      omega
    · have := _separator.length_le
      simp only [crlf, List.length_cons, List.length_nil] at this
      rw [List.length_drop]
      omega
    · have := find_le _found
      simp only [crlf, List.length_cons, List.length_nil] at this
      rw [List.length_drop]
      omega

/-- Bytes that follow are read from where the bytes before them stopped. -/
def BodyEnd.resume (later : Bytes) : BodyEnd → Bytes × BodyEnd
  | .inChunk left => readBody left later
  | .inLine held => readBody 0 (held ++ later)
  | .ended => ([], .ended)
  | .refused e => ([], .refused e)

/-! ## What follows is read from where the bytes stop -/

theorem readBody_cut {left : Nat} {input : Bytes} (cut : input.length < left) :
    readBody left input = (input, .inChunk (left - input.length)) := by
  rw [readBody, dif_pos (by omega), dif_pos cut]

theorem readBody_chunk {left : Nat} {input : Bytes} (positive : 0 < left)
    (whole : left ≤ input.length) :
    readBody left input =
      (input.take left ++ (readBody 0 (input.drop left)).1,
        (readBody 0 (input.drop left)).2) := by
  rw [readBody, dif_pos positive, dif_neg (Nat.not_lt_of_le whole)]

theorem readBody_separator {input : Bytes} (separator : crlf <+: input) :
    readBody 0 input = readBody 0 (input.drop 2) := by
  rw [readBody, dif_neg (by decide), dif_pos separator]

theorem readBody_line {input : Bytes} (between : ¬ crlf <+: input)
    (unended : find crlf input = none) : readBody 0 input = ([], .inLine input) := by
  rw [readBody, dif_neg (by decide), dif_neg between]
  split
  · rfl
  · simp_all

theorem readBody_size {input : Bytes} {stop : Nat} (between : ¬ crlf <+: input)
    (found : find crlf input = some stop) :
    readBody 0 input =
      match readSizeLine (input.take stop) with
      | .error e => ([], .refused e)
      | .ok 0 => ([], .ended)
      | .ok (size + 1) => readBody (size + 1) (input.drop (stop + 2)) := by
  rw [readBody, dif_neg (by decide), dif_neg between]
  split
  · simp_all
  next stop' found' =>
    obtain rfl : stop = stop' := Option.some.inj (found.symm.trans found')
    rfl

omit [Platform] in
theorem not_prefix_append {input : Bytes} {stop : Nat} (later : Bytes)
    (between : ¬ crlf <+: input) (found : find crlf input = some stop) :
    ¬ crlf <+: input ++ later := by
  have within := find_le found
  intro there
  exact between (List.prefix_of_prefix_length_le there (List.prefix_append _ _) (by omega))

theorem readBody_inChunk_append {left : Nat} {input : Bytes} (later : Bytes)
    (cut : input.length < left) :
    readBody left (input ++ later) =
      (input ++ (readBody (left - input.length) later).1,
        (readBody (left - input.length) later).2) := by
  have split := @List.length_append _ input later
  rcases lt_or_ge later.length (left - input.length) with short | whole
  · rw [readBody_cut short, readBody_cut (by omega), split, Nat.sub_sub]
  · rw [readBody_chunk (by omega) whole, readBody_chunk (by omega) (by omega)]
    rw [List.take_append, List.drop_append, List.take_of_length_le cut.le,
      List.drop_of_length_le cut.le, List.nil_append, List.append_assoc]

/-- What more bytes say follows from where the bytes before them stopped. -/
theorem readBody_append (left : Nat) (input later : Bytes) :
    readBody left (input ++ later) =
      ((readBody left input).1 ++ ((readBody left input).2.resume later).1,
        ((readBody left input).2.resume later).2) := by
  fun_induction readBody left input with
  | case1 left input inChunk cut => exact readBody_inChunk_append later cut
  | case2 left input inChunk whole tail ih =>
      have arrived : left ≤ input.length := Nat.le_of_not_lt whole
      rw [readBody_chunk inChunk (by rw [List.length_append]; omega),
        List.take_append_of_le_length arrived, List.drop_append_of_le_length arrived, ih,
        List.append_assoc]
  | case3 left input between separator ih =>
      obtain rfl : left = 0 := by omega
      have still : crlf <+: input ++ later := separator.trans (List.prefix_append _ _)
      have two : 2 ≤ input.length := separator.length_le
      rw [readBody_separator still, List.drop_append_of_le_length two, ih]
  | case4 left input between notEnded unended =>
      obtain rfl : left = 0 := by omega
      rfl
  | case5 left input between notEnded stop found e read =>
      obtain rfl : left = 0 := by omega
      have within := find_le found
      rw [readBody_size (not_prefix_append later notEnded found) (find_append later found),
        List.take_append_of_le_length (by omega), read]
      rfl
  | case6 left input between notEnded stop found read =>
      obtain rfl : left = 0 := by omega
      have within := find_le found
      rw [readBody_size (not_prefix_append later notEnded found) (find_append later found),
        List.take_append_of_le_length (by omega), read]
      rfl
  | case7 left input between notEnded stop found size read ih =>
      obtain rfl : left = 0 := by omega
      have within := find_le found
      have two : crlf.length = 2 := rfl
      rw [readBody_size (not_prefix_append later notEnded found) (find_append later found),
        List.take_append_of_le_length (by omega), read,
        List.drop_append_of_le_length (by omega)]
      exact ih

/-! ## The decoder -/

/-- The loop returns what the bytes say, unless it refuses them. -/
theorem decodeChunks_answers (buf : Bytes) (left : Nat) (out : Bytes) :
    Answers out (readBody left buf) (decodeChunks buf left out) := by
  fun_induction decodeChunks buf left out with
  | case1 buf left out inChunk take more =>
      have cut : buf.length < left := by omega
      have all : take = buf.length := Nat.min_eq_right cut.le
      rw [readBody_cut cut, all, List.drop_length, List.take_length]
      exact .follows (.inChunk (by omega))
  | case2 buf left out inChunk take last ih =>
      have arrived : left ≤ buf.length := by omega
      have all : take = left := Nat.min_eq_left arrived
      rw [all, Nat.sub_self] at ih ⊢
      rw [readBody_chunk inChunk arrived]
      exact ih.prepend
  | case3 buf left out between ended ih =>
      obtain rfl : left = 0 := by omega
      rwa [readBody_separator ended]
  | case4 buf left out between notEnded notFound long =>
      obtain rfl : left = 0 := by omega
      rw [readBody_line notEnded notFound]
      exact .overlong ⟨buf, rfl, long⟩
  | case5 buf left out between notEnded notFound short =>
      obtain rfl : left = 0 := by omega
      rw [readBody_line notEnded notFound]
      exact .nothing (.inLine (Nat.le_of_not_lt short))
  | case6 buf left out between notEnded stop found e read =>
      obtain rfl : left = 0 := by omega
      rw [readBody_size notEnded found, read]
      exact .refused ⟨e, rfl⟩
  | case7 buf left out between notEnded stop found read =>
      obtain rfl : left = 0 := by omega
      rw [readBody_size notEnded found, read]
      exact .nothing (.ended _)
  | case8 buf left out between notEnded stop found size read ih =>
      obtain rfl : left = 0 := by omega
      rwa [readBody_size notEnded found, read]

theorem push_answers {stop : BodyEnd} {decoder : Chunked} (held : stop.HeldBy decoder)
    (bytes : Bytes) : Answers [] (stop.resume bytes) (decoder.push bytes) := by
  cases held with
  | inChunk positive => exact decodeChunks_answers _ _ _
  | inLine short => exact decodeChunks_answers _ _ _
  | ended rest => exact .nothing (.ended rest)

/-- Pieces pushed one after another, up to the first that is refused: the decoder, and
the content of the body or the error. -/
def Chunked.pushAll (decoder : Chunked) : List Bytes → Chunked × Except HttpError Bytes
  | [] => (decoder, .ok [])
  | piece :: pieces =>
      match decoder.push piece with
      | (after, .error e) => (after, .error e)
      | (after, .ok part) =>
          match after.pushAll pieces with
          | (last, .error e) => (last, .error e)
          | (last, .ok rest) => (last, .ok (part ++ rest))

theorem refused_append {input : Bytes} (later : Bytes)
    (malformed : (readBody 0 input).2.Refused) : (readBody 0 (input ++ later)).2.Refused := by
  obtain ⟨e, same⟩ := malformed
  rw [readBody_append, same]
  exact ⟨e, rfl⟩

/-- A run that follows the bytes hands out their content; one that does not has either
met a malformed size line or a cut far inside one. -/
inductive Follows (before : Bytes) (pieces : List Bytes) :
    Chunked × Except HttpError Bytes → Prop
  | through {decoder : Chunked} {content : Bytes}
      (held : (readBody 0 (before ++ pieces.flatten)).2.HeldBy decoder)
      (same : (readBody 0 (before ++ pieces.flatten)).1 = (readBody 0 before).1 ++ content)
      (short : ∀ k, ¬ (readBody 0 (before ++ (pieces.take k).flatten)).2.Overlong) :
      Follows before pieces (decoder, .ok content)
  | overlong {decoder : Chunked} {e : HttpError} (k : Nat)
      (long : (readBody 0 (before ++ (pieces.take k).flatten)).2.Overlong) :
      Follows before pieces (decoder, .error e)
  | refused {decoder : Chunked} {e : HttpError}
      (malformed : (readBody 0 (before ++ pieces.flatten)).2.Refused) :
      Follows before pieces (decoder, .error e)

theorem pushAll_follows {before : Bytes} {decoder : Chunked}
    (held : (readBody 0 before).2.HeldBy decoder) (pieces : List Bytes) :
    Follows before pieces (decoder.pushAll pieces) := by
  induction pieces generalizing before decoder with
  | nil =>
      have all : before ++ ([] : List Bytes).flatten = before := by simp
      refine .through (by rwa [all]) (by rw [all, List.append_nil]) fun k => ?_
      rw [List.take_nil, all]
      exact held.not_overlong
  | cons piece pieces ih =>
      have joined := readBody_append 0 before piece
      have pushed := push_answers held piece
      rcases reading : (readBody 0 before).2.resume piece with ⟨content, stop⟩
      rcases returned : decoder.push piece with ⟨after, result⟩
      rw [reading] at joined pushed
      rw [returned] at pushed
      unfold Chunked.pushAll
      rw [returned]
      cases pushed with
      | overlong long =>
          refine .overlong 1 ?_
          simpa [joined] using long
      | refused malformed =>
          refine .refused ?_
          rw [List.flatten_cons, ← List.append_assoc]
          refine refused_append _ ?_
          rwa [joined]
      | follows next =>
          have later := @ih (before ++ piece) after (by rwa [joined])
          dsimp only
          rcases rest : after.pushAll pieces with ⟨last, e | more⟩
          · rw [rest] at later
            cases later with
            | overlong k long =>
                refine .overlong (k + 1) ?_
                simpa using long
            | refused malformed =>
                refine .refused ?_
                simpa using malformed
          · rw [rest] at later
            cases later with
            | through final same short =>
                refine .through (by simpa using final) ?_ fun k => ?_
                · rw [List.flatten_cons, ← List.append_assoc, same, joined,
                    List.nil_append, List.append_assoc]
                · cases k with
                  | zero => simpa using held.not_overlong
                  | succ k => simpa using short k

/-- Two runs accept everything, with the same body and the same end, or both fail. -/
def Agree (one other : Chunked × Except HttpError Bytes) : Prop :=
  (∃ body, one.2 = .ok body ∧ other.2 = .ok body ∧ one.1.done = other.1.done) ∨
    (∃ e, one.2 = .error e) ∧ ∃ e, other.2 = .error e

/-- A fresh decoder fails on these pieces if and only if they are malformed, or some
piece ends in a size line of which more than 64 bytes have arrived. -/
theorem pushAll_fails_iff (pieces : List Bytes) :
    (∃ e, (Chunked.pushAll {} pieces).2 = .error e) ↔
      (readBody 0 pieces.flatten).2.Refused ∨
        ∃ k, (readBody 0 (pieces.take k).flatten).2.Overlong := by
  have fresh : (readBody 0 []).2.HeldBy {} := by
    rw [readBody_line (by decide) (by decide)]
    exact .inLine (by decide)
  have follows := pushAll_follows fresh pieces
  rcases ran : Chunked.pushAll {} pieces with ⟨last, e | body⟩
  · rw [ran] at follows
    cases follows with
    | overlong k long =>
        rw [List.nil_append] at long
        exact ⟨fun _ => .inr ⟨k, long⟩, fun _ => ⟨e, rfl⟩⟩
    | refused malformed => exact ⟨fun _ => .inl malformed, fun _ => ⟨e, rfl⟩⟩
  · rw [ran] at follows
    cases follows with
    | through held same short =>
        simp only [List.nil_append] at held short
        constructor
        · rintro ⟨e, failed⟩
          cases failed
        · rintro (malformed | ⟨k, long⟩)
          · exact absurd malformed held.not_refused
          · exact absurd long (short k)

theorem pushAll_ok {pieces : List Bytes} {last : Chunked} {body : Bytes}
    (ran : Chunked.pushAll {} pieces = (last, .ok body)) :
    body = (readBody 0 pieces.flatten).1 ∧
      (last.done = true ↔ (readBody 0 pieces.flatten).2 = .ended) := by
  have fresh : (readBody 0 []).2.HeldBy {} := by
    rw [readBody_line (by decide) (by decide)]
    exact .inLine (by decide)
  have follows := pushAll_follows fresh pieces
  rw [ran] at follows
  cases follows with
  | through held same short =>
      have nothing : (readBody 0 []).1 = [] := by
        rw [readBody_line (by decide) (by decide)]
      rw [nothing, List.nil_append, List.nil_append] at same
      rw [List.nil_append] at held
      exact ⟨same.symm, held.done_iff⟩

/-- Two ways of cutting the same bytes are read alike if and only if the bytes are
malformed, or both ways or neither have a piece that ends in a size line of which more
than 64 bytes have arrived. -/
theorem chunked_cuts_agree_iff (one other : List Bytes) (same : one.flatten = other.flatten) :
    Agree (Chunked.pushAll {} one) (Chunked.pushAll {} other) ↔
      (readBody 0 one.flatten).2.Refused ∨
        ((∃ k, (readBody 0 (one.take k).flatten).2.Overlong) ↔
          ∃ k, (readBody 0 (other.take k).flatten).2.Overlong) := by
  have fails : Agree (Chunked.pushAll {} one) (Chunked.pushAll {} other) ↔
      ((∃ e, (Chunked.pushAll {} one).2 = .error e) ↔
        ∃ e, (Chunked.pushAll {} other).2 = .error e) := by
    unfold Agree
    rcases ranOne : Chunked.pushAll {} one with ⟨last, e | body⟩
    · rcases ranOther : Chunked.pushAll {} other with ⟨last', e' | body'⟩
      · simp
      · simp
    · rcases ranOther : Chunked.pushAll {} other with ⟨last', e' | body'⟩
      · simp
      · obtain ⟨content, ended⟩ := pushAll_ok ranOne
        obtain ⟨content', ended'⟩ := pushAll_ok ranOther
        rw [← same] at content' ended'
        have alike : last.done = last'.done := Bool.eq_iff_iff.mpr (ended.trans ended'.symm)
        simp [content, content', alike]
  rw [fails, pushAll_fails_iff one, pushAll_fails_iff other, ← same]
  by_cases malformed : (readBody 0 one.flatten).2.Refused
  · simp only [malformed, true_or]
  · simp only [malformed, false_or]

end Chunks

/-- A size line with an extension of 70 bytes, for a chunk of one byte, and the last
chunk. -/
def extendedBody : Bytes :=
  [49, 59] ++ List.replicate 70 97 ++ crlf ++ [120] ++ crlf ++ [48] ++ crlf ++ crlf

/-- The body is read in one piece, and refused when a read ends in its extension. -/
theorem chunked_cuts_differ :
    letI := Platform.bits64
    ∃ one other : List Bytes, one.flatten = other.flatten ∧
      ¬ Agree (Chunked.pushAll {} one) (Chunked.pushAll {} other) := by
  let _ := Platform.bits64
  refine ⟨[extendedBody], [extendedBody.take 70, extendedBody.drop 70], by simp, ?_⟩
  have whole : (Chunked.pushAll {} [extendedBody]).2 = .ok [120] := by decide +kernel
  have cut : (Chunked.pushAll {} [extendedBody.take 70, extendedBody.drop 70]).2 =
      .error (.malformed "a chunk size line") := by decide +kernel
  rintro (⟨body, -, other, -⟩ | ⟨⟨e, one⟩, -⟩)
  · rw [cut] at other
    cases other
  · rw [whole] at one
    cases one

/-- A cut near the beginning of the extension makes no difference. -/
theorem chunked_cuts_agree_iff_early :
    letI := Platform.bits64
    Agree (Chunked.pushAll {} [extendedBody])
      (Chunked.pushAll {} [extendedBody.take 40, extendedBody.drop 40]) := by
  let _ := Platform.bits64
  refine (chunked_cuts_agree_iff [extendedBody]
    [extendedBody.take 40, extendedBody.drop 40] (by simp)).mpr (.inr (iff_of_false ?_ ?_))
  · rintro ⟨_ | k, long⟩
    · revert long
      decide +kernel
    · rw [List.take_of_length_le (by simp)] at long
      revert long
      decide +kernel
  · rintro ⟨_ | _ | k, long⟩
    · revert long
      decide +kernel
    · revert long
      decide +kernel
    · rw [List.take_of_length_le (by simp)] at long
      revert long
      decide +kernel

end WindowMlHub
