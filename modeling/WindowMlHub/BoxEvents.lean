import WindowMlHub.HttpMessages

/-!
# The events of a box

`crates/connector/src/events.rs`: a response is read off a socket, its body is
decoded if it comes in chunks, and what is decoded is taken apart into frames.  A
read can end anywhere and carry any amount.  Whatever the box sends in a
well-formed response comes out as it was written, and nothing else does.

The socket is what its reads return, one after another; where the list ends it
has been closed, and a read returns no bytes.
-/

namespace WindowMlHub

open TextFormats CheckedConditions IncrementalReaders

/-- `MAX_BOX_FRAME_BYTES`. -/
def maxBoxFrameBytes : Nat := 1 <<< 20

/-- What a socket operation failed with. -/
inductive IoError
  | timedOut (doing : String)
  | failed
  deriving DecidableEq, Repr

inductive IngestError
  | io (e : IoError)
  | http (e : HttpError)
  | notProtobuf (got : Text)
  | frames (e : FrameError)
  | ended
  deriving DecidableEq, Repr

/-- What connecting to the box, writing the request and each read come to. -/
structure Connection where
  connected : Except IoError Unit
  requested : Except IoError Unit
  reads : List (Except IoError Bytes)

/-- An open stream of a box's frames. -/
structure Events [Platform] where
  socket : List (Except IoError Bytes)
  chunked : Option Chunked
  frames : FrameReader
  ready : List Bytes

theorem maxBoxFrameBytes_fits [Platform] : maxBoxFrameBytes + 10 ≤ usizeMax := by
  have wide := Platform.wide
  simp only [maxBoxFrameBytes]
  omega

namespace Events

variable [Platform]

/-- The frames that these body bytes complete are ready. -/
def addBody (events : Events) (body : Bytes) : Events × Except IngestError Unit :=
  if body = [] then (events, .ok ())
  else
    match events.frames.push body with
    | (frames, .error e) => ({ events with frames }, .error (.frames e))
    | (frames, .ok found) => ({ events with frames, ready := events.ready ++ found }, .ok ())

/-- `Events::feed`. -/
def feed (events : Events) (bytes : Bytes) : Events × Except IngestError Unit :=
  match events.chunked with
  | none => events.addBody bytes
  | some decoder =>
      match decoder.push bytes with
      | (decoder, .error e) => ({ events with chunked := some decoder }, .error (.http e))
      | (decoder, .ok body) => { events with chunked := some decoder }.addBody body

/-- What `Events::open` makes of a head, and of what came after it. -/
def start (parsed : ResponseHead) (body : Bytes) (socket : List (Except IoError Bytes)) :
    Except IngestError Events := do
  ensure (parsed.status = 200) (.http (.status parsed.status))
  ensure (parsed.isProtobuf = true) (.notProtobuf parsed.contentType)
  let events : Events := {
    socket
    chunked := if parsed.chunked then some {} else none
    frames := .new maxBoxFrameBytes maxBoxFrameBytes_fits
    ready := [] }
  match events.feed body with
  | (_, .error e) => .error e
  | (events, .ok ()) => .ok events

/-- The loop of `Events::open`: more is read until the head is whole. -/
def readHead (head : Bytes) (socket : List (Except IoError Bytes)) :
    Except IngestError Events :=
  match ResponseHead.parse head with
  | .error e => .error (.http e)
  | .ok (some (parsed, consumed)) => start parsed (head.drop consumed) socket
  | .ok none =>
      match socket with
      | [] => .error .ended
      | .error e :: _ => .error (.io e)
      | .ok [] :: _ => .error .ended
      | .ok (byte :: read) :: socket => readHead (head ++ byte :: read) socket

/-- `Events::open`. -/
def «open» (connection : Connection) : Except IngestError Events := do
  connection.connected.mapError .io
  connection.requested.mapError .io
  readHead [] connection.reads

@[simp]
theorem addBody_socket (events : Events) (body : Bytes) :
    (events.addBody body).1.socket = events.socket := by
  unfold addBody
  split
  · rfl
  · split <;> rfl

@[simp]
theorem feed_socket (events : Events) (bytes : Bytes) :
    (events.feed bytes).1.socket = events.socket := by
  unfold feed
  split
  · exact events.addBody_socket bytes
  · split
    · rfl
    · rw [addBody_socket]

/-- `Events::next_frame`: the next frame the box sent. -/
def nextFrame (events : Events) : Events × Except IngestError Bytes :=
  match events.ready with
  | frame :: ready => ({ events with ready }, .ok frame)
  | [] =>
      if events.chunked.any Chunked.done then (events, .error .ended)
      else
        match _reads : events.socket with
        | [] => (events, .error .ended)
        | .error e :: socket => ({ events with socket }, .error (.io e))
        | .ok [] :: socket => ({ events with socket }, .error .ended)
        | .ok (byte :: read) :: socket =>
            match _fed : { events with socket }.feed (byte :: read) with
            | (fed, .error e) => (fed, .error e)
            | (fed, .ok ()) => nextFrame fed
  termination_by events.socket.length
  decreasing_by
    have same := feed_socket { events with socket } (byte :: read)
    rw [_fed] at same
    dsimp only at same
    rw [same, _reads, List.length_cons]
    omega

/-- These frames come out one after another, and then the stream has ended. -/
def Yields (events : Events) : List Bytes → Prop
  | [] => ∃ after, events.nextFrame = (after, .error .ended)
  | frame :: frames =>
      ∃ after, events.nextFrame = (after, .ok frame) ∧ after.Yields frames

/-- The content that is still to come, when the socket will still deliver these
bytes. -/
def Expects (events : Events) (later content : Bytes) : Prop :=
  match events.chunked with
  | none => content = later
  | some decoder => decoder.Awaits later content

/-- The frames that are still to come out: those that are ready, and those that
are read off what is held back and the content still to come. -/
structure Holds (events : Events) (later : Bytes) (messages : List Bytes) : Prop where
  limit : events.frames.max = maxBoxFrameBytes
  waiting : readFrame maxBoxFrameBytes events.frames.unread = .ok none
  remaining : ∃ content others, events.Expects later content ∧
    Reads (frameItems maxBoxFrameBytes) (events.frames.unread ++ content) others [] ∧
    messages = events.ready ++ others

/-- Body bytes make the frames ready that they complete. -/
theorem addBody_spec {events : Events} {body content : Bytes} {others : List Bytes}
    (limit : events.frames.max = maxBoxFrameBytes)
    (waiting : readFrame maxBoxFrameBytes events.frames.unread = .ok none)
    (reads : Reads (frameItems maxBoxFrameBytes)
      (events.frames.unread ++ (body ++ content)) others []) :
    ∃ after found rest, events.addBody body = (after, .ok ()) ∧
      after.chunked = events.chunked ∧ after.frames.max = maxBoxFrameBytes ∧
      readFrame maxBoxFrameBytes after.frames.unread = .ok none ∧
      after.ready = events.ready ++ found ∧ others = found ++ rest ∧
      Reads (frameItems maxBoxFrameBytes) (after.frames.unread ++ content) rest [] := by
  unfold addBody
  by_cases empty : body = []
  · subst empty
    rw [if_pos rfl]
    exact ⟨events, [], others, rfl, rfl, limit, waiting, (List.append_nil _).symm, rfl, reads⟩
  rw [if_neg empty]
  have settled : Settles (frameItems maxBoxFrameBytes)
      (events.frames.unread ++ body ++ content) others [] none := by
    rw [List.append_assoc]
    exact ⟨reads, rfl⟩
  rcases pushed : events.frames.push body with ⟨frames, error | found⟩
  · obtain ⟨found, failed⟩ := FrameReader.push_error pushed
    rw [limit] at failed
    have := (settled.unique (failed.failed_append content)).2.2
    cases this
  · have some := FrameReader.push_ok pushed
    have kept : frames.max = maxBoxFrameBytes := by
      rw [← limit, ← FrameReader.push_max events.frames body, pushed]
    rw [limit] at some
    obtain ⟨rest, last, verdict, later⟩ :=
      exists_settles (frameItems maxBoxFrameBytes) (frames.unread ++ content)
    obtain ⟨rfl, rfl, rfl⟩ := settled.unique (some.resume later)
    exact ⟨_, found, rest, rfl, rfl, kept, some.stopped, rfl, rfl, later.reads⟩

/-- What arrives on the socket takes nothing away from what is to come out. -/
theorem feed_spec {events : Events} {bytes later : Bytes} {messages : List Bytes}
    (holds : events.Holds (bytes ++ later) messages) :
    ∃ after, events.feed bytes = (after, .ok ()) ∧ after.Holds later messages := by
  obtain ⟨limit, waiting, content, others, expects, reads, rfl⟩ := holds
  unfold feed
  cases chunked : events.chunked with
  | none =>
      rw [Expects, chunked] at expects
      dsimp only at expects
      subst expects
      obtain ⟨after, found, rest, added, same, keptLimit, keptWaiting, ready, rfl, more⟩ :=
        addBody_spec limit waiting reads
      refine ⟨after, added, keptLimit, keptWaiting, later, rest, ?_, more, ?_⟩
      · rw [Expects, same, chunked]
      · rw [ready, List.append_assoc]
  | some decoder =>
      rw [Expects, chunked] at expects
      dsimp only at expects
      obtain ⟨decoder', part, content', pushed, rfl, awaits⟩ := Chunked.push_spec expects
      obtain ⟨after, found, rest, added, same, keptLimit, keptWaiting, ready, rfl, more⟩ :=
        @addBody_spec _ { events with chunked := some decoder' } _ _ _ limit waiting reads
      simp only [pushed]
      refine ⟨after, added, keptLimit, keptWaiting, content', rest, ?_, more, ?_⟩
      · rw [Expects, same]
        exact awaits
      · rw [ready, List.append_assoc]

theorem Holds.messages_eq {events : Events} {later : Bytes} {messages : List Bytes}
    (holds : events.Holds later messages)
    (nothing : ∀ content, events.Expects later content → content = []) :
    messages = events.ready := by
  obtain ⟨-, waiting, content, others, expects, reads, rfl⟩ := holds
  obtain rfl := nothing content expects
  rw [List.append_nil] at reads
  have settled : Settles (frameItems maxBoxFrameBytes) events.frames.unread others [] none :=
    ⟨reads, rfl⟩
  have stopped : Settles (frameItems maxBoxFrameBytes) events.frames.unread []
      events.frames.unread none := ⟨.done _, waiting⟩
  obtain ⟨rfl, -, -⟩ := settled.unique stopped
  rw [List.append_nil]

/-- The reads that a socket is still to return, none of them empty. -/
structure Delivers (events : Events) (reads : List Bytes) : Prop where
  socket : events.socket = reads.map .ok
  nonempty : ∀ read ∈ reads, read ≠ []

theorem expects_done {events : Events} {later content : Bytes}
    (done : events.chunked.any Chunked.done = true) (expects : events.Expects later content) :
    content = [] := by
  unfold Expects at expects
  cases chunked : events.chunked with
  | none =>
      rw [chunked] at done
      cases done
  | some decoder =>
      rw [chunked] at done expects
      have ended : decoder.done = true := done
      have remaining := expects.2
      rwa [if_pos ended] at remaining

theorem expects_nil {events : Events} {content : Bytes}
    (expects : events.Expects [] content) : content = [] := by
  unfold Expects at expects
  cases chunked : events.chunked with
  | none => rwa [chunked] at expects
  | some decoder =>
      rw [chunked] at expects
      exact Chunked.Awaits.content_eq_nil expects

/-- The next frame that is to come out comes out, and after the last one the
stream has ended. -/
def ComesNext (events : Events) : List Bytes → Prop
  | [] => ∃ after, events.nextFrame = (after, .error .ended)
  | message :: messages => ∃ after reads, events.nextFrame = (after, .ok message) ∧
      after.Delivers reads ∧ after.Holds reads.flatten messages

theorem comesNext_of_ready {events : Events} {reads messages ready : List Bytes}
    {frame : Bytes} (delivers : events.Delivers reads)
    (holds : events.Holds reads.flatten messages) (isReady : events.ready = frame :: ready) :
    events.ComesNext messages := by
  obtain ⟨limit, waiting, content, others, expects, read, rfl⟩ := holds
  rw [isReady, List.cons_append]
  refine ⟨{ events with ready }, reads, ?_, ⟨delivers.socket, delivers.nonempty⟩,
    limit, waiting, content, others, expects, read, rfl⟩
  rw [nextFrame, isReady]

theorem nextFrame_done {events : Events} (isReady : events.ready = [])
    (done : events.chunked.any Chunked.done = true) :
    events.nextFrame = (events, .error .ended) := by
  rw [nextFrame, isReady]
  dsimp only
  rw [if_pos done]

theorem nextFrame_closed {events : Events} (isReady : events.ready = [])
    (closed : events.socket = []) : events.nextFrame = (events, .error .ended) := by
  rw [nextFrame, isReady]
  dsimp only
  split
  · rfl
  · split
    next => rfl
    all_goals simp_all

theorem nextFrame_feed {events after : Events} {byte : UInt8} {read : Bytes}
    {socket : List (Except IoError Bytes)} (isReady : events.ready = [])
    (going : ¬ events.chunked.any Chunked.done = true)
    (arrives : events.socket = .ok (byte :: read) :: socket)
    (fed : { events with socket }.feed (byte :: read) = (after, .ok ())) :
    events.nextFrame = after.nextFrame := by
  rw [nextFrame, isReady]
  dsimp only
  rw [if_neg going]
  split
  · simp_all
  · simp_all
  · simp_all
  next byte' read' socket' same =>
    obtain ⟨⟨rfl, rfl⟩, rfl⟩ : (byte = byte' ∧ read = read') ∧ socket = socket' := by
      simpa [arrives] using same
    rw [isReady] at fed
    split
    next result =>
      rw [fed] at result
      cases result
    next result =>
      rw [fed] at result
      cases result
      rfl

theorem nextFrame_spec {reads messages : List Bytes} {events : Events}
    (delivers : events.Delivers reads) (holds : events.Holds reads.flatten messages) :
    events.ComesNext messages := by
  induction reads generalizing events with
  | nil =>
      cases isReady : events.ready with
      | cons frame ready => exact comesNext_of_ready delivers holds isReady
      | nil =>
          obtain rfl : messages = [] :=
            (holds.messages_eq fun _ => expects_nil).trans isReady
          exact ⟨events, nextFrame_closed isReady delivers.socket⟩
  | cons read reads ih =>
      cases isReady : events.ready with
      | cons frame ready => exact comesNext_of_ready delivers holds isReady
      | nil =>
          by_cases done : events.chunked.any Chunked.done = true
          · obtain rfl : messages = [] :=
              (holds.messages_eq fun _ => expects_done done).trans isReady
            exact ⟨events, nextFrame_done isReady done⟩
          obtain ⟨byte, rest, rfl⟩ :=
            List.exists_cons_of_ne_nil (delivers.nonempty read List.mem_cons_self)
          have unread : { events with socket := reads.map .ok }.Holds
              (byte :: rest ++ reads.flatten) messages :=
            ⟨holds.limit, holds.waiting, holds.remaining⟩
          obtain ⟨after, fed, kept⟩ := feed_spec unread
          have socket := feed_socket { events with socket := reads.map .ok } (byte :: rest)
          rw [fed] at socket
          have next := ih ⟨socket, fun read member =>
            delivers.nonempty read (List.mem_cons_of_mem _ member)⟩ kept
          have same := nextFrame_feed isReady done delivers.socket fed
          cases messages with
          | nil => rwa [ComesNext, same]
          | cons message messages => rwa [ComesNext, same]

theorem yields_of_holds {messages reads : List Bytes} {events : Events}
    (delivers : events.Delivers reads) (holds : events.Holds reads.flatten messages) :
    events.Yields messages := by
  induction messages generalizing events reads with
  | nil => exact nextFrame_spec delivers holds
  | cons message messages ih =>
      obtain ⟨after, reads', next, delivers', holds'⟩ := nextFrame_spec delivers holds
      exact ⟨after, next, ih delivers' holds'⟩

end Events

/-- A well-formed response within the connector's bounds, with the frames of these
messages for its content. -/
structure HttpResponse.Carries (response : HttpResponse) (messages : List Bytes) : Prop where
  formed : response.WellFormed
  bounded : response.Bounded
  protobuf : response.SaysProtobuf
  frames : writeFrames messages maxBoxFrameBytes = .ok response.body.content

section Lossless

variable [Platform]

/-- A socket that returns these reads is opened and yields the messages, and then
it has ended. -/
def Ingests (reads messages : List Bytes) : Prop :=
  ∃ events, Events.open ⟨.ok (), .ok (), reads.map .ok⟩ = .ok events ∧
    events.Yields messages

variable {response : HttpResponse} {messages : List Bytes}

/-- A new stream expects the body of the response. -/
theorem HttpResponse.Carries.expects (carries : response.Carries messages)
    (text : response.IsText) {chunked : Bool}
    (framed : chunked = true ↔ ∃ field ∈ response.fields, field.Named "transfer-encoding")
    (socket : List (Except IoError Bytes)) (frames : FrameReader) (ready : List Bytes) :
    Events.Expects ⟨socket, if chunked then some {} else none, frames, ready⟩
      response.body.bytes response.body.content := by
  have body := carries.formed.body
  have extensions := text.extensions
  have bounds := carries.bounded.chunks
  cases kind : response.body with
  | raw data =>
      rw [kind] at body
      have notChunked : ¬ chunked = true := by
        rw [framed]
        rintro ⟨field, member, named⟩
        exact body.1 field member named
      rw [if_neg notChunked]
      rfl
  | chunked chunks last trailer =>
      rw [kind] at body extensions bounds
      obtain ⟨encoded, -, -, each, ⟨lastFormed, noData⟩, -⟩ := body
      rw [if_pos (framed.mpr encoded)]
      have sized : ∀ chunk ∈ chunks,
          SizeLine chunk.sizeLine chunk.data.length ∧ chunk.data ≠ [] := by
        intro chunk member
        have listed : chunk ∈ chunks ++ [last] := List.mem_append_left _ member
        exact ⟨(each chunk member).1.sizeLine (extensions chunk listed)
          (bounds chunk listed).1 (bounds chunk listed).2, (each chunk member).2⟩
      have lastListed : last ∈ chunks ++ [last] := by simp
      have ended := lastFormed.sizeLine (extensions last lastListed)
        (bounds last lastListed).1 (bounds last lastListed).2
      rw [noData] at ended
      exact ⟨.inr (.inr ⟨rfl, by decide⟩), BodyChunk.incoming_chunks _ sized ended⟩

/-- Once the head is read, what came with it is fed. -/
theorem start_spec (carries : response.Carries messages) (text : response.IsText)
    {parsed : ResponseHead} (status : parsed.status = 200)
    (protobuf : parsed.isProtobuf = true)
    (framed : parsed.chunked = true ↔
      ∃ field ∈ response.fields, field.Named "transfer-encoding")
    {reads : List Bytes} (nonempty : ∀ read ∈ reads, read ≠ []) {body : Bytes}
    (rest : response.body.bytes = body ++ reads.flatten) :
    ∃ events, Events.start parsed body (reads.map .ok) = .ok events ∧
      events.Delivers reads ∧ events.Holds reads.flatten messages := by
  have written := carries.frames
  obtain ⟨content, same, frames⟩ := reads_written (by decide) written
  rw [List.nil_append] at same
  rw [← same] at frames
  have expects := carries.expects text framed (reads.map .ok)
    (.new maxBoxFrameBytes maxBoxFrameBytes_fits) []
  rw [rest] at expects
  obtain ⟨events, fed, holds⟩ :=
    Events.feed_spec ⟨rfl, rfl, _, messages, expects, frames, rfl⟩
  have socket := congrArg (fun fed => fed.1.socket) fed
  rw [Events.feed_socket] at socket
  refine ⟨events, ?_, ⟨socket.symm, nonempty⟩, holds⟩
  rw [Events.start, ensure, if_pos status, ensure, if_pos protobuf]
  simp only [bind, Except.bind, fed]

/-- The head is read however it was cut, and then the body is fed. -/
theorem readHead_spec (carries : response.Carries messages) (text : response.IsText)
    (length : response.StatesLength64) {reads : List Bytes}
    (nonempty : ∀ read ∈ reads, read ≠ []) {front : Bytes}
    (segmented : front ++ reads.flatten = response.bytes) :
    ∃ events reads', Events.readHead front (reads.map .ok) = .ok events ∧
      events.Delivers reads' ∧ events.Holds reads'.flatten messages := by
  obtain ⟨early, whole⟩ := HttpResponse.parse_spec carries.formed text carries.bounded
    carries.protobuf length
  have finish {reads : List Bytes} (nonempty : ∀ read ∈ reads, read ≠ []) {body : Bytes}
      (rest : response.body.bytes = body ++ reads.flatten) :
      ∃ events reads', Events.readHead (response.head ++ body) (reads.map .ok) = .ok events ∧
        events.Delivers reads' ∧ events.Holds reads'.flatten messages := by
    obtain ⟨parsed, read, status, protobuf, framed⟩ := whole body
    obtain ⟨events, started, delivers, holds⟩ :=
      start_spec carries text status protobuf framed nonempty rest
    refine ⟨events, reads, ?_, delivers, holds⟩
    unfold Events.readHead
    rw [read]
    dsimp only
    rw [List.drop_left' rfl, started]
  induction reads generalizing front with
  | nil =>
      rw [List.flatten_nil, List.append_nil] at segmented
      subst segmented
      exact finish nonempty (List.append_nil _).symm
  | cons read reads ih =>
      rcases List.append_eq_append_iff.mp segmented with ⟨later, part, rest⟩ | ⟨body, rfl, rest⟩
      · by_cases last : later = []
        · subst last
          rw [List.append_nil] at part
          rw [← part, ← List.append_nil response.head]
          exact finish nonempty rest.symm
        · obtain ⟨byte, bytes, rfl⟩ :=
            List.exists_cons_of_ne_nil (nonempty read List.mem_cons_self)
          have longer : front ++ byte :: bytes ++ reads.flatten = response.bytes := by
            rw [← segmented, List.flatten_cons, List.append_assoc]
          obtain ⟨events, reads', opened, delivers, holds⟩ :=
            ih (fun read member => nonempty read (List.mem_cons_of_mem _ member)) longer
          refine ⟨events, reads', ?_, delivers, holds⟩
          rw [List.map_cons, Events.readHead, early front later part.symm last]
          exact opened
      · exact finish nonempty rest

/-- Ingest loses nothing.  When a well-formed response within the bounds carries
frames, what the connector reads of it as text is UTF-8 and a length it states
fits 64 bits, then however the socket cuts it into reads, the stream opens and
yields exactly the messages, in order, before it has ended. -/
theorem ingest_lossless {reads : List Bytes} (carries : response.Carries messages)
    (text : response.IsText) (length : response.StatesLength64)
    (segmented : reads.flatten = response.bytes) (nonempty : ∀ read ∈ reads, read ≠ []) :
    Ingests reads messages := by
  have whole : ([] : Bytes) ++ reads.flatten = response.bytes := segmented
  obtain ⟨events, reads', opened, delivers, holds⟩ :=
    readHead_spec carries text length nonempty whole
  refine ⟨events, ?_, Events.yields_of_holds delivers holds⟩
  rw [Events.open]
  simpa [Except.mapError, bind, Except.bind] using opened

end Lossless

/-! ## Runs -/

/-- The media type `application/protobuf`. -/
def protobufType : Text :=
  ['a', 'p', 'p', 'l', 'i', 'c', 'a', 't', 'i', 'o', 'n', '/', 'p', 'r', 'o', 't', 'o', 'b',
    'u', 'f']

/-- The header field of a box that understood the request. -/
def protobufField : HeaderField :=
  ⟨['C', 'o', 'n', 't', 'e', 'n', 't', '-', 'T', 'y', 'p', 'e'], asciiBytes protobufType⟩

theorem protobufField_wellFormed : protobufField.WellFormed where
  nonempty := by decide
  name := by simp [protobufField, IsTchar]
  value := by simp [protobufField, protobufType, asciiBytes, IsFieldByte]

theorem protobufType_ascii : ∀ c ∈ protobufType, Ascii c := by
  simp [protobufType, Ascii]

/-- A response that states its content type and one more field. -/
def plainResponse (field : HeaderField) (data : Bytes) : HttpResponse :=
  ⟨'1', asciiBytes ['O', 'K'], [protobufField, field], .raw data⟩

section Plain

variable {field : HeaderField} {data : Bytes}

/-- `HTTP/1.1 200 OK`. -/
def plainStatus : Bytes :=
  [72, 84, 84, 80, 47, 49, 46, 49, 32, 50, 48, 48, 32, 79, 75]

/-- `Content-Type:application/protobuf`. -/
def plainType : Bytes :=
  [67, 111, 110, 116, 101, 110, 116, 45, 84, 121, 112, 101, 58, 97, 112, 112, 108, 105,
    99, 97, 116, 105, 111, 110, 47, 112, 114, 111, 116, 111, 98, 117, 102]

theorem plainResponse_statusLine : (plainResponse field data).statusLine = plainStatus := by
  rw [HttpResponse.statusLine, utf8Bytes_ascii]
  · rfl
  · simp [HttpResponse.version, HttpResponse.okCode, plainResponse, Ascii]

theorem protobufField_line : protobufField.line = plainType := by
  rw [HeaderField.line, utf8Bytes_ascii]
  · rfl
  · simp [protobufField, Ascii]

theorem plainResponse_head (ascii : ∀ c ∈ field.name, Ascii c) :
    (plainResponse field data).head =
      plainStatus ++ crlf ++ (plainType ++ crlf ++
        (asciiBytes (field.name ++ [':']) ++ field.value ++ crlf)) ++ crlf := by
  have line : field.line = asciiBytes (field.name ++ [':']) ++ field.value := by
    rw [HeaderField.line, utf8Bytes_ascii]
    intro c member
    rcases List.mem_append.mp member with inName | colon
    · exact ascii c inName
    · obtain rfl := List.mem_singleton.mp colon
      decide
  rw [HttpResponse.head, plainResponse_statusLine]
  simp only [plainResponse, List.map_cons, List.map_nil, protobufField_line, line, endLines,
    List.flatMap_cons, List.flatMap_nil, List.append_nil]

theorem plainResponse_saysProtobuf (other : ¬ field.Named "content-type") :
    (plainResponse field data).SaysProtobuf := by
  refine ⟨⟨protobufField, List.mem_cons_self, rfl⟩, ?_⟩
  intro found member named
  rcases List.mem_cons.mp member with rfl | member
  · refine ⟨[], protobufType, [], [], nofun, nofun, rfl, .inl rfl, ?_⟩
    rw [List.append_nil, List.append_nil, List.nil_append, utf8Bytes_ascii protobufType_ascii]
    rfl
  · obtain rfl := List.mem_singleton.mp member
    exact absurd named other

theorem plainResponse_carries {messages : List Bytes} (formed : field.WellFormed)
    (named : ¬ field.Named "content-type" ∧ ¬ field.Named "transfer-encoding")
    (length : field.Named "content-length" →
      ∃ digits, digits ≠ [] ∧ (∀ c ∈ digits, c.isDigit = true) ∧
        Nat.ofDigitChars 10 digits 0 = data.length ∧ field.value = utf8Bytes digits)
    (ascii : ∀ c ∈ field.name, Ascii c) (short : field.name.length + field.value.length ≤ 64)
    (frames : writeFrames messages maxBoxFrameBytes = .ok data) :
    (plainResponse field data).Carries messages := by
  refine ⟨⟨rfl, ?_, ?_, ?_, ?_⟩, ⟨?_, ?_, nofun⟩,
    plainResponse_saysProtobuf named.1, frames⟩
  · simp [plainResponse, asciiBytes, IsFieldByte]
  · intro found member
    rcases List.mem_cons.mp member with rfl | member
    · exact protobufField_wellFormed
    · obtain rfl := List.mem_singleton.mp member
      exact formed
  · intro found member encoding
    rcases List.mem_cons.mp member with rfl | member
    · exact absurd encoding (by unfold HeaderField.Named; decide +kernel)
    · obtain rfl := List.mem_singleton.mp member
      exact named.2 encoding
  · intro found member stated
    rcases List.mem_cons.mp member with rfl | member
    · exact absurd stated (by unfold HeaderField.Named; decide +kernel)
    · obtain rfl := List.mem_singleton.mp member
      obtain ⟨digits, nonempty, digit, value, same⟩ := length stated
      refine ⟨[], digits, [], nofun, nofun, nonempty, digit, value, ?_⟩
      rw [List.nil_append, List.append_nil, same]
  · rw [plainResponse_head ascii]
    simp only [plainStatus, plainType, crlf, asciiBytes, maxHeadBytes, List.length_append,
      List.length_map, List.length_cons, List.length_nil]
    omega
  · simp [plainResponse, maxHeaders]

variable [Platform]

/-- A head that is refused is refused whatever follows it. -/
theorem not_ingests {response : HttpResponse} {messages : List Bytes} {stop : Nat}
    {e : HttpError} (found : find (crlf ++ crlf) response.head = some stop)
    (refused : ResponseHead.parse response.head = .error e) :
    ¬ Ingests [response.bytes] messages := by
  have within := find_le found
  have same : ResponseHead.parse response.bytes = .error e := by
    rw [← refused, HttpResponse.bytes, ResponseHead.parse, ResponseHead.parse,
      find_append _ found, found]
    dsimp only
    rw [List.take_append_of_le_length (by omega)]
  rintro ⟨events, opened, -⟩
  have waits : ResponseHead.parse [] = .ok none := rfl
  obtain ⟨byte, rest, some⟩ : ∃ byte rest, response.bytes = byte :: rest := by
    apply List.exists_cons_of_ne_nil
    intro empty
    rw [empty, waits] at same
    cases same
  rw [some] at opened same
  rw [Events.open] at opened
  simp only [Except.mapError, bind, Except.bind, List.map_cons, List.map_nil] at opened
  rw [Events.readHead, waits] at opened
  dsimp only at opened
  rw [Events.readHead, List.nil_append, same] at opened
  cases opened

end Plain

/-! ## What is refused -/

/-- A field with a byte that is not UTF-8. -/
def obsField : HeaderField :=
  ⟨['X'], [233]⟩

/-- A length of `2 ^ 64` bytes, in decimal. -/
def longDigits : Text :=
  ['1', '8', '4', '4', '6', '7', '4', '4', '0', '7', '3', '7', '0', '9', '5', '5', '1', '6',
    '1', '6']

/-- The field that states a length of `2 ^ 64` bytes. -/
def longField : HeaderField :=
  ⟨['C', 'o', 'n', 't', 'e', 'n', 't', '-', 'L', 'e', 'n', 'g', 't', 'h'],
    asciiBytes longDigits⟩

theorem writeFrames_empty (n : Nat) :
    writeFrames (List.replicate n []) maxBoxFrameBytes = .ok (List.replicate n 0) := by
  have all (out : Bytes) : (List.replicate n []).foldlM
      (fun out message => writeFrame message maxBoxFrameBytes out) out =
        .ok (out ++ List.replicate n 0) := by
    induction n generalizing out with
    | zero => simp [pure, Except.pure]
    | succ n ih =>
        have one : writeFrame [] maxBoxFrameBytes out = .ok (out ++ [0]) := by
          simp [writeFrame, writeVarint_small]
        rw [List.replicate_succ, List.foldlM_cons, one]
        simp only [bind, Except.bind, ih, List.replicate_succ, List.append_assoc,
          List.singleton_append]
  exact all []

theorem obsField_carries : (plainResponse obsField [1, 97]).Carries [[97]] := by
  refine plainResponse_carries ⟨by decide, by simp [obsField, IsTchar],
    by simp [obsField, IsFieldByte]⟩ ?_ ?_ (by simp [obsField, Ascii]) (by decide) ?_
  · unfold HeaderField.Named
    decide +kernel
  · have other : lowercase obsField.name ≠ "content-length".toList := by decide +kernel
    exact fun named => absurd named other
  · simp [writeFrames, writeFrame, writeVarint_small, maxBoxFrameBytes, bind, Except.bind,
      pure, Except.pure]

theorem longField_carries :
    (plainResponse longField (List.replicate (2 ^ 64) 0)).Carries
      (List.replicate (2 ^ 64) []) := by
  have ascii : ∀ c ∈ longDigits, Ascii c := by simp [longDigits, Ascii]
  refine plainResponse_carries ⟨by decide, by simp [longField, IsTchar],
    by simp [longField, longDigits, asciiBytes, IsFieldByte]⟩ ?_ ?_
    (by simp [longField, Ascii]) (by decide) (writeFrames_empty _)
  · unfold HeaderField.Named
    decide +kernel
  · intro _
    refine ⟨longDigits, by decide, by simp [longDigits], ?_, ?_⟩
    · rw [List.length_replicate]
      decide +kernel
    · rw [utf8Bytes_ascii ascii]
      rfl

theorem bytes_ne_nil (field : HeaderField) (data : Bytes) :
    ∀ read ∈ [(plainResponse field data).bytes], read ≠ [] := by
  intro read member
  obtain rfl := List.mem_singleton.mp member
  rw [HttpResponse.bytes, HttpResponse.head]
  simp [crlf]

/-- A response with a byte that is not UTF-8 in a header field is refused, and so is
one that states a length past 64 bits. -/
theorem ingest_refuses :
    letI := Platform.bits64
    ((plainResponse obsField [1, 97]).Carries [[97]] ∧
      (∀ read ∈ [(plainResponse obsField [1, 97]).bytes], read ≠ []) ∧
      ¬ Ingests [(plainResponse obsField [1, 97]).bytes] [[97]]) ∧
    ((plainResponse longField (List.replicate (2 ^ 64) 0)).Carries
        (List.replicate (2 ^ 64) []) ∧
      (∀ read ∈ [(plainResponse longField (List.replicate (2 ^ 64) 0)).bytes], read ≠ []) ∧
      ¬ Ingests [(plainResponse longField (List.replicate (2 ^ 64) 0)).bytes]
        (List.replicate (2 ^ 64) [])) := by
  let _ := Platform.bits64
  refine ⟨⟨obsField_carries, bytes_ne_nil _ _, ?_⟩, longField_carries, bytes_ne_nil _ _, ?_⟩
  · have ascii : ∀ c ∈ obsField.name, Ascii c := by simp [obsField, Ascii]
    apply @not_ingests _ _ _ 55 (.malformed "head: not text")
    · rw [plainResponse_head ascii]
      decide +kernel
    · rw [plainResponse_head ascii]
      decide +kernel
  · have ascii : ∀ c ∈ longField.name, Ascii c := by simp [longField, Ascii]
    apply @not_ingests _ _ _ 87 (.malformed "content-length")
    · rw [plainResponse_head ascii]
      decide +kernel
    · rw [plainResponse_head ascii]
      decide +kernel

/-- The field of a body in chunks. -/
def chunkedField : HeaderField :=
  ⟨['T', 'r', 'a', 'n', 's', 'f', 'e', 'r', '-', 'E', 'n', 'c', 'o', 'd', 'i', 'n', 'g'],
    asciiBytes ['c', 'h', 'u', 'n', 'k', 'e', 'd']⟩

/-- Three frames in two chunks, of which the first ends inside the second frame. -/
def chunkedResponse : HttpResponse :=
  { plainResponse chunkedField [] with
    body := .chunked
      [⟨['0', '4'], [], [2, 97, 98, 1]⟩, ⟨['0', '3'], [], [99, 1, 100]⟩] ⟨['0'], [], []⟩ [] }

/-- Its body on the wire. -/
def chunkedBody : Bytes :=
  [48, 52, 13, 10, 2, 97, 98, 1, 13, 10, 48, 51, 13, 10, 99, 1, 100, 13, 10, 48, 13, 10,
    13, 10]

theorem chunkedResponse_body : chunkedResponse.body.bytes = chunkedBody := by
  have first : utf8Bytes ['0', '4'] = [48, 52] := utf8Bytes_ascii (by simp [Ascii])
  have second : utf8Bytes ['0', '3'] = [48, 51] := utf8Bytes_ascii (by simp [Ascii])
  have last : utf8Bytes ['0'] = [48] := utf8Bytes_ascii (by simp [Ascii])
  simp [chunkedResponse, chunkedBody, ResponseBody.bytes, BodyChunk.bytes, BodyChunk.sizeLine,
    first, second, last, crlf, endLines]

theorem chunkedResponse_wellFormed : chunkedResponse.WellFormed := by
  have encoded : chunkedField.Named "transfer-encoding" := by
    unfold HeaderField.Named
    decide +kernel
  refine ⟨rfl, ?_, ?_, ⟨chunkedField, by simp [chunkedResponse, plainResponse], encoded⟩,
    ?_, ?_, ?_, ?_, nofun⟩
  · simp [chunkedResponse, plainResponse, asciiBytes, IsFieldByte]
  · intro field member
    rcases List.mem_cons.mp member with rfl | member
    · exact protobufField_wellFormed
    · obtain rfl := List.mem_singleton.mp member
      exact ⟨by decide, by simp [chunkedField, IsTchar],
        by simp [chunkedField, asciiBytes, IsFieldByte]⟩
  · intro field member named
    rcases List.mem_cons.mp member with rfl | member
    · exact absurd named (by unfold HeaderField.Named; decide +kernel)
    · obtain rfl := List.mem_singleton.mp member
      refine ⟨[], ['c', 'h', 'u', 'n', 'k', 'e', 'd'], [], nofun, nofun, by decide, ?_⟩
      exact (utf8Bytes_ascii (by simp [Ascii])).symm
  · intro field member stated
    rcases List.mem_cons.mp member with rfl | member
    · exact absurd stated (by unfold HeaderField.Named; decide +kernel)
    · obtain rfl := List.mem_singleton.mp member
      exact absurd stated (by unfold HeaderField.Named; decide +kernel)
  · intro chunk member
    rcases List.mem_cons.mp member with rfl | member
    · exact ⟨⟨by decide, by decide, .inl rfl⟩, by decide⟩
    · obtain rfl := List.mem_singleton.mp member
      exact ⟨⟨by decide, by decide, .inl rfl⟩, by decide⟩
  · exact ⟨⟨by decide, by decide, .inl rfl⟩, rfl⟩

theorem chunkedResponse_bounded : chunkedResponse.Bounded := by
  refine ⟨?_, by simp [chunkedResponse, plainResponse, maxHeaders], ?_⟩
  · change (plainResponse chunkedField []).head.length ≤ maxHeadBytes
    rw [plainResponse_head (by simp [chunkedField, Ascii])]
    decide +kernel
  · have ascii : ∀ chunk ∈ chunkedResponse.body.chunks, ∀ c ∈ chunk.digits, Ascii c := by
      simp [chunkedResponse, ResponseBody.chunks, Ascii]
    intro chunk member
    rw [BodyChunk.sizeLine, utf8Bytes_ascii (ascii chunk member)]
    revert chunk
    decide

theorem chunkedResponse_carries : chunkedResponse.Carries [[97, 98], [99], [100]] := by
  refine ⟨chunkedResponse_wellFormed, chunkedResponse_bounded,
    @plainResponse_saysProtobuf chunkedField [] ?_, ?_⟩
  · unfold HeaderField.Named
    decide +kernel
  · simp [chunkedResponse, ResponseBody.content, writeFrames, writeFrame, writeVarint_small,
      maxBoxFrameBytes, bind, Except.bind, pure, Except.pure]

theorem chunkedResponse_isText : chunkedResponse.IsText := by
  refine ⟨⟨['O', 'K'], ?_⟩, ?_, ?_⟩
  · exact (utf8Bytes_ascii (by simp [Ascii])).symm
  · intro field member
    rcases List.mem_cons.mp member with rfl | member
    · exact ⟨protobufType, (utf8Bytes_ascii protobufType_ascii).symm⟩
    · obtain rfl := List.mem_singleton.mp member
      exact ⟨['c', 'h', 'u', 'n', 'k', 'e', 'd'], (utf8Bytes_ascii (by simp [Ascii])).symm⟩
  · intro chunk member
    have none : chunk.extension = [] := by
      revert chunk
      decide
    exact ⟨[], none.trans utf8Bytes_nil.symm⟩

/-- A body in chunks in three reads: the head is cut off inside the size line of the first
chunk, and the second read ends inside a frame. -/
theorem ingest_lossless_chunked :
    letI := Platform.bits64
    Ingests [chunkedResponse.head ++ chunkedBody.take 1, (chunkedBody.drop 1).take 5,
      chunkedBody.drop 6] [[97, 98], [99], [100]] := by
  let _ := Platform.bits64
  apply ingest_lossless chunkedResponse_carries chunkedResponse_isText
  · exact fun _ => by decide
  · rw [HttpResponse.bytes, chunkedResponse_body]
    simp [chunkedBody]
  · intro read member
    rcases List.mem_cons.mp member with rfl | member
    · simp [chunkedBody]
    · revert read
      decide

end WindowMlHub
