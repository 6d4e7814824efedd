import WindowMlHub.DelimitedFrames
import WindowMlHub.LineProtocols
import WindowMlHub.CheckedConditions

/-!
# The HTTP a connector reads

The two parsers of `crates/connector/src/http.rs`: the head of a response and a
chunked body.  Both are handed what has arrived so far and keep what is not yet
whole.
-/

namespace WindowMlHub

open TextFormats CheckedConditions

/-- `MAX_HEAD_BYTES`. -/
def maxHeadBytes : Nat := 16 <<< 10

/-- `MAX_HEADERS`. -/
def maxHeaders : Nat := 64

/-- `MAX_CHUNK_BYTES`. -/
def maxChunkBytes : Nat := 4 <<< 20

inductive HttpError
  | malformed (what : String)
  | tooLarge (what : String)
  | status (code : Nat)
  deriving DecidableEq, Repr

/-- `to_ascii_lowercase`. -/
def lowercase (text : Text) : Text :=
  text.map Char.toLower

/-! ## The head -/

/-- A response's status and the headers the connector cares about. -/
structure ResponseHead where
  status : Nat
  contentType : Text := []
  chunked : Bool := false
  contentLength : Option Nat := none
  deriving DecidableEq, Repr

namespace ResponseHead

/-- The `match` over the name of a header. -/
def readHeader (head : ResponseHead) (name value : Text) : Except HttpError ResponseHead :=
  if name = "content-type".toList then
    .ok { head with contentType := value }
  else if name = "transfer-encoding".toList then
    .ok { head with
      chunked := ((lowercase value).splitOn ',').any fun e => trim e = "chunked".toList }
  else if name = "content-length".toList then do
    let length ← require (parseUnsigned (2 ^ 64 - 1) value) (.malformed "content-length")
    return { head with contentLength := some length }
  else
    .ok head

/-- The loop over the lines after the status line, about to look at the `n`-th. -/
def readHeaders : List Text → Nat → ResponseHead → Except HttpError ResponseHead
  | [], _, head => .ok head
  | line :: lines, n, head => do
      ensure (n < maxHeaders) (.tooLarge "the header count")
      let (name, value) ← require (splitOnce ':' line) (.malformed "a header without a colon")
      let head ← head.readHeader (lowercase (trim name)) (trim value)
      readHeaders lines (n + 1) head

/-- `ResponseHead::parse`: the head at the front of the buffer and its size, or
nothing while its blank line has not arrived. -/
def parse (buf : Bytes) : Except HttpError (Option (ResponseHead × Nat)) :=
  match find (crlf ++ crlf) buf with
  | none =>
      if maxHeadBytes < buf.length then .error (.tooLarge "the response head")
      else .ok none
  | some stop => do
      ensure (stop + 4 ≤ maxHeadBytes) (.tooLarge "the response head")
      let head ← require (fromUtf8 (buf.take stop)) (.malformed "head: not text")
      let lines := splitCrlf head
      let statusLine ← require lines.head? (.malformed "status line")
      let parts := splitn 3 ' ' statusLine
      ensure ("HTTP/1.".toList <+: parts.headD []) (.malformed "status line: not HTTP/1.x")
      let status ← require (parseUnsigned (2 ^ 16 - 1) (parts.tail.headD []))
        (.malformed "status line: code")
      let head ← readHeaders lines.tail 0 { status }
      return some (head, stop + 4)

/-- `is_protobuf`. -/
def isProtobuf (head : ResponseHead) : Bool :=
  (head.contentType.splitOn ';').head?.any fun t =>
    lowercase (trim t) = lowercase "application/protobuf".toList

end ResponseHead

/-! ## The body -/

/-- A chunked body, decoded as it arrives: the bytes not yet looked at, and how
many are still to come of the chunk being read. -/
structure Chunked where
  buf : Bytes := []
  left : Nat := 0
  done : Bool := false
  deriving DecidableEq, Repr

section Chunks

variable [Platform]

/-- The size a chunk's size line states. -/
def readSizeLine (line : Bytes) : Except HttpError Nat := do
  let line ← require (fromUtf8 line) (.malformed "a chunk size line")
  let sizeText := trim ((line.splitOn ';').headD [])
  let size ← require (fromStrRadix16 usizeMax sizeText) (.malformed "a chunk size")
  ensure (size ≤ maxChunkBytes) (.tooLarge "a chunk")
  return size

/-- The loop of `Chunked::push`. -/
def decodeChunks (buf : Bytes) (left : Nat) (out : Bytes) :
    Chunked × Except HttpError Bytes :=
  if _inChunk : 0 < left then
    let take := min left buf.length
    if _more : 0 < left - take then
      (⟨buf.drop take, left - take, false⟩, .ok (out ++ buf.take take))
    else decodeChunks (buf.drop take) (left - take) (out ++ buf.take take)
  -- Between chunks: a size line, or the line end after the last chunk.
  else if _ended : crlf <+: buf then decodeChunks (buf.drop 2) left out
  else
    match _found : find crlf buf with
    | none =>
        if 64 < buf.length then
          (⟨buf, left, false⟩, .error (.malformed "a chunk size line"))
        else (⟨buf, left, false⟩, .ok out)
    | some stop =>
        match readSizeLine (buf.take stop) with
        | .error e => (⟨buf, left, false⟩, .error e)
        | .ok 0 => (⟨buf.drop (stop + 2), left, true⟩, .ok out)
        | .ok (size + 1) => decodeChunks (buf.drop (stop + 2)) (size + 1) out
  termination_by buf.length
  decreasing_by
    · rw [List.length_drop]
      omega
    · have := _ended.length_le
      simp only [crlf, List.length_cons, List.length_nil] at this
      rw [List.length_drop]
      omega
    · have := find_le _found
      simp only [crlf, List.length_cons, List.length_nil] at this
      rw [List.length_drop]
      omega

/-- `Chunked::push`: the decoder afterwards, and the body bytes now available. -/
def Chunked.push (decoder : Chunked) (bytes : Bytes) : Chunked × Except HttpError Bytes :=
  if decoder.done then (decoder, .ok [])
  else decodeChunks (decoder.buf ++ bytes) decoder.left []

/-! ## What a decoder is still to be sent -/

/-- A size line for a chunk of so many bytes, as long as a decoder holds. -/
structure SizeLine (line : Bytes) (size : Nat) : Prop where
  read : readSizeLine line = .ok size
  single : 13 ∉ line
  short : line.length ≤ 63

/-- The rest of a chunked body, when so many bytes of a chunk are still to come,
and the content it carries. -/
inductive Incoming : Nat → Bytes → Bytes → Prop
  | data {part input content : Bytes} (nonempty : part ≠ []) (later : Incoming 0 input content) :
      Incoming part.length (part ++ input) (part ++ content)
  | separator {input content : Bytes} (later : Incoming 0 input content) :
      Incoming 0 (crlf ++ input) content
  | size {line input content : Bytes} {size : Nat} (stated : SizeLine line size)
      (positive : 0 < size) (later : Incoming size input content) :
      Incoming 0 (line ++ crlf ++ input) content
  | last {line : Bytes} (stated : SizeLine line 0) (trailer : Bytes) :
      Incoming 0 (line ++ crlf ++ trailer) []

theorem SizeLine.ne_nil {line : Bytes} {size : Nat} (stated : SizeLine line size) :
    line ≠ [] := by
  rintro rfl
  have read := stated.read
  rw [readSizeLine, ← utf8Bytes_nil, fromUtf8_utf8Bytes] at read
  cases read

theorem SizeLine.ne_crlf {line : Bytes} {size : Nat} (stated : SizeLine line size)
    (input later : Bytes) : crlf ++ later ≠ line ++ crlf ++ input := by
  obtain ⟨byte, rest, rfl⟩ := List.exists_cons_of_ne_nil stated.ne_nil
  intro same
  have first : 13 = byte := (List.cons.inj same).1
  exact stated.single (first ▸ List.mem_cons_self)

theorem SizeLine.find_eq {line buf later input : Bytes} {size stop : Nat}
    (stated : SizeLine line size) (found : find crlf buf = some stop)
    (whole : buf ++ later = line ++ crlf ++ input) :
    stop = line.length ∧ buf.take stop = line ∧ buf.drop (stop + 2) ++ later = input := by
  have here := find_append later found
  rw [whole, find_crlf input stated.single] at here
  obtain rfl := Option.some.inj here
  have within := find_le found
  simp only [crlf, List.length_cons, List.length_nil] at within
  have front := congrArg (List.take line.length) whole
  have back := congrArg (List.drop (line.length + 2)) whole
  rw [List.take_append_of_le_length (by omega), List.append_assoc, List.take_left'] at front
  · rw [List.drop_append_of_le_length (by omega), List.drop_left'] at back
    · exact ⟨rfl, front, back⟩
    · simp [crlf]
  · rfl

theorem SizeLine.length_le {line buf later input : Bytes} {size : Nat}
    (stated : SizeLine line size) (notFound : find crlf buf = none)
    (whole : buf ++ later = line ++ crlf ++ input) : buf.length ≤ 64 := by
  by_contra long
  have short := stated.short
  have enough : (line ++ crlf).length ≤ buf.length := by
    simp only [crlf, List.length_append, List.length_cons, List.length_nil]
    omega
  have front : line ++ crlf <+: buf :=
    List.prefix_of_prefix_length_le (whole ▸ List.prefix_append _ input)
      (List.prefix_append buf later) enough
  obtain ⟨rest, rfl⟩ := front
  rw [find_crlf rest stated.single] at notFound
  cases notFound

/-- A decoder that has nothing more to do with the bytes it holds. -/
def Chunked.Waits (decoder : Chunked) : Prop :=
  decoder.done ∨ 0 < decoder.left ∧ decoder.buf = [] ∨
    decoder.left = 0 ∧ find crlf decoder.buf = none

/-- What a decoder is still to be sent, and the content that is still to come out
of it. -/
def Chunked.Awaits (decoder : Chunked) (later content : Bytes) : Prop :=
  decoder.Waits ∧
    if decoder.done then content = []
    else Incoming decoder.left (decoder.buf ++ later) content

theorem Incoming.inChunk {left : Nat} {input content : Bytes} (positive : 0 < left)
    (incoming : Incoming left input content) :
    ∃ part later rest, input = part ++ later ∧ content = part ++ rest ∧
      part.length = left ∧ Incoming 0 later rest := by
  cases incoming with
  | @data part later rest _ incoming => exact ⟨part, later, rest, rfl, rfl, rfl, incoming⟩
  | separator => cases positive
  | size => cases positive
  | last => cases positive

theorem Incoming.between {input content : Bytes} (incoming : Incoming 0 input content) :
    (∃ later, input = crlf ++ later ∧ Incoming 0 later content) ∨
    (∃ line later size, SizeLine line size ∧ 0 < size ∧ input = line ++ crlf ++ later ∧
      Incoming size later content) ∨
    (∃ line trailer, SizeLine line 0 ∧ input = line ++ crlf ++ trailer ∧ content = []) := by
  generalize outside : 0 = left at incoming
  cases incoming with
  | data nonempty =>
      have := List.length_pos_of_ne_nil nonempty
      omega
  | separator later => exact .inl ⟨_, rfl, later⟩
  | size stated positive later => exact .inr (.inl ⟨_, _, _, stated, positive, rfl, later⟩)
  | last stated trailer => exact .inr (.inr ⟨_, trailer, stated, rfl, rfl⟩)

theorem Incoming.part {left : Nat} {part later content : Bytes} (short : part.length < left)
    (incoming : Incoming left (part ++ later) content) :
    ∃ rest, content = part ++ rest ∧ Incoming (left - part.length) later rest := by
  obtain ⟨whole, input, others, same, rfl, rfl, next⟩ := incoming.inChunk (by omega)
  obtain ⟨rest, rfl⟩ : part <+: whole :=
    List.prefix_of_prefix_length_le ⟨later, same⟩ (List.prefix_append whole input) short.le
  rw [List.append_assoc, List.append_cancel_left_eq] at same
  subst same
  refine ⟨rest ++ others, List.append_assoc .., ?_⟩
  rw [List.length_append] at short ⊢
  rw [Nat.add_sub_cancel_left]
  exact .data (List.ne_nil_of_length_pos (by omega)) next

theorem Incoming.length_le {buf later content : Bytes} (notEnded : ¬ crlf <+: buf)
    (notFound : find crlf buf = none) (incoming : Incoming 0 (buf ++ later) content) :
    buf.length ≤ 64 := by
  rcases incoming.between with ⟨input, same, _⟩ | ⟨line, _, _, stated, _, same, _⟩ |
    ⟨line, _, stated, same, _⟩
  · by_contra long
    have enough : crlf.length ≤ buf.length := by
      simp only [crlf, List.length_cons, List.length_nil]
      omega
    exact notEnded (List.prefix_of_prefix_length_le ⟨input, same.symm⟩
      (List.prefix_append buf later) enough)
  · exact stated.length_le notFound same
  · exact stated.length_le notFound same

theorem Incoming.sizeLine {buf later content : Bytes} {stop : Nat}
    (notEnded : ¬ crlf <+: buf) (found : find crlf buf = some stop)
    (incoming : Incoming 0 (buf ++ later) content) :
    (∃ size, 0 < size ∧ readSizeLine (buf.take stop) = .ok size ∧
      Incoming size (buf.drop (stop + 2) ++ later) content) ∨
    (readSizeLine (buf.take stop) = .ok 0 ∧ content = []) := by
  rcases incoming.between with ⟨input, same, _⟩ | ⟨line, _, size, stated, positive, same, next⟩ |
    ⟨line, _, stated, same, rfl⟩
  · have within := find_le found
    have enough : crlf.length ≤ buf.length := by omega
    exact absurd (List.prefix_of_prefix_length_le ⟨input, same.symm⟩
      (List.prefix_append buf later) enough) notEnded
  · obtain ⟨rfl, taken, rfl⟩ := stated.find_eq found same
    exact .inl ⟨size, positive, by rw [taken, stated.read], next⟩
  · obtain ⟨rfl, taken, rfl⟩ := stated.find_eq found same
    exact .inr ⟨by rw [taken, stated.read], rfl⟩

/-- The loop hands out content in order and then waits for the rest of it. -/
theorem decodeChunks_spec {buf later content : Bytes} {left : Nat} (out : Bytes)
    (incoming : Incoming left (buf ++ later) content) :
    ∃ decoder part rest, decodeChunks buf left out = (decoder, .ok (out ++ part)) ∧
      content = part ++ rest ∧ decoder.Awaits later rest := by
  fun_induction decodeChunks buf left out generalizing content with
  | case1 buf left out inChunk take =>
      have short : buf.length < left := by omega
      have all : take = buf.length := Nat.min_eq_right short.le
      obtain ⟨rest, rfl, next⟩ := incoming.part short
      rw [all, List.drop_length, List.take_length]
      exact ⟨_, buf, rest, rfl, rfl, .inr (.inl ⟨by simpa using short, rfl⟩), next⟩
  | case2 buf left out inChunk take last =>
      rename_i ih
      have arrived : left ≤ buf.length := by omega
      have all : take = left := Nat.min_eq_left arrived
      rw [all, Nat.sub_self] at ih ⊢
      obtain ⟨part, input, others, same, rfl, rfl, next⟩ := incoming.inChunk inChunk
      obtain ⟨held, rfl⟩ : part <+: buf :=
        List.prefix_of_prefix_length_le ⟨input, same.symm⟩ (List.prefix_append buf later)
          arrived
      rw [List.append_assoc, List.append_cancel_left_eq] at same
      subst same
      rw [List.take_left', List.drop_left'] at ih ⊢
      · obtain ⟨decoder, more, rest, decoded, rfl, awaits⟩ := ih next
        exact ⟨decoder, part ++ more, rest, by rw [decoded, List.append_assoc],
          (List.append_assoc ..).symm, awaits⟩
      all_goals rfl
  | case3 buf left out between ended ih =>
      obtain rfl : left = 0 := by omega
      obtain ⟨held, rfl⟩ := ended
      have dropped : (crlf ++ held).drop 2 = held := rfl
      rw [dropped] at ih ⊢
      rw [List.append_assoc] at incoming
      rcases incoming.between with ⟨input, same, next⟩ | ⟨line, _, _, stated, _, same, _⟩ |
        ⟨line, _, stated, same, _⟩
      · rw [List.append_cancel_left_eq] at same
        subst same
        exact ih next
      · exact absurd same (stated.ne_crlf _ _)
      · exact absurd same (stated.ne_crlf _ _)
  | case4 buf left out between notEnded notFound long =>
      obtain rfl : left = 0 := by omega
      have few : buf.length ≤ 64 := incoming.length_le notEnded notFound
      omega
  | case5 buf left out between notEnded notFound short =>
      obtain rfl : left = 0 := by omega
      exact ⟨⟨buf, 0, false⟩, [], content, by rw [List.append_nil], rfl,
        .inr (.inr ⟨rfl, notFound⟩), incoming⟩
  | case6 buf left out between notEnded stop found e read =>
      obtain rfl : left = 0 := by omega
      rcases incoming.sizeLine notEnded found with ⟨_, _, stated, _⟩ | ⟨stated, _⟩
      · rw [stated] at read
        cases read
      · rw [stated] at read
        cases read
  | case7 buf left out between notEnded stop found read =>
      obtain rfl : left = 0 := by omega
      rcases incoming.sizeLine notEnded found with ⟨size, positive, stated, _⟩ | ⟨_, rfl⟩
      · rw [stated] at read
        cases read
        cases positive
      · exact ⟨⟨buf.drop (stop + 2), 0, true⟩, [], [], by rw [List.append_nil], rfl,
          .inl rfl, rfl⟩
  | case8 buf left out between notEnded stop found size read ih =>
      obtain rfl : left = 0 := by omega
      rcases incoming.sizeLine notEnded found with ⟨_, _, stated, next⟩ | ⟨stated, _⟩
      · rw [stated] at read
        cases read
        exact ih next
      · rw [stated] at read
        cases read

theorem Chunked.push_spec {decoder : Chunked} {bytes later content : Bytes}
    (awaits : decoder.Awaits (bytes ++ later) content) :
    ∃ after part rest, decoder.push bytes = (after, .ok part) ∧ content = part ++ rest ∧
      after.Awaits later rest := by
  obtain ⟨waits, remaining⟩ := awaits
  unfold Chunked.push
  cases ended : decoder.done with
  | true =>
      rw [ended] at remaining
      exact ⟨decoder, [], [], rfl, remaining, waits, by rw [ended]; rfl⟩
  | false =>
      rw [ended, if_neg (by decide), ← List.append_assoc] at remaining
      exact decodeChunks_spec [] remaining

/-- A decoder that was sent everything has handed out everything. -/
theorem Chunked.Awaits.content_eq_nil {decoder : Chunked} {content : Bytes}
    (awaits : decoder.Awaits [] content) : content = [] := by
  obtain ⟨waits, remaining⟩ := awaits
  cases ended : decoder.done with
  | true => simpa [ended] using remaining
  | false =>
      rw [ended, if_neg (by decide), List.append_nil] at remaining
      rcases waits with done | ⟨inChunk, empty⟩ | ⟨between, notFound⟩
      · rw [ended] at done
        cases done
      · rw [empty] at remaining
        obtain ⟨part, later, _, same, _, length, _⟩ := remaining.inChunk inChunk
        obtain ⟨rfl, -⟩ := List.append_eq_nil_iff.mp same.symm
        exact absurd length (Nat.ne_of_lt inChunk)
      · rw [between] at remaining
        rcases remaining.between with ⟨input, same, _⟩ |
          ⟨line, input, _, stated, _, same, _⟩ | ⟨line, input, stated, same, _⟩
        · rw [same, find_front (List.prefix_append _ _)] at notFound
          cases notFound
        · rw [same, find_crlf _ stated.single] at notFound
          cases notFound
        · rw [same, find_crlf _ stated.single] at notFound
          cases notFound

end Chunks

end WindowMlHub
