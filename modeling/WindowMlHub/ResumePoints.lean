import WindowMlHub.StreamRestarts

/-!
# Where a reconnect resumes

A connector publishes the frames its box hands over, each once, and keeps the newest time
that any of them carries.  When it reconnects to the box it asks for a backfill from that
time on, with some slack.  The box's clock may have stepped back since: the backfill covers
what came after the frame published last exactly when no frame before it was later.
-/

namespace WindowMlHub

open HashTables

/-- `DEDUPE_FRAMES`. -/
def dedupeFrames : Nat := 4096

/-- `BACKFILL_SLACK`, in milliseconds. -/
def backfillSlackMs : Nat := 30 * 1000

/-- `hash`: FNV-1a. -/
def frameHash (bytes : Bytes) : UInt64 :=
  bytes.foldl (fun h b => (h ^^^ b.toUInt64) * 0x1000000001b3) 0xcbf29ce484222325

/-- `Served`, as far as publishing counts. -/
structure Served where
  published : Nat := 0
  duplicates : Nat := 0
  deriving DecidableEq, Repr

/-- `Serving`: a relay, the hashes of the frames it published recently, oldest first, and
the newest time published. -/
structure Serving where
  relay : Relay
  seen : List UInt64 := []
  seenSet : HashSet UInt64 := ∅
  published : Option Nat := none
  counts : Served := {}

/-- A frame the box handed over, with the nonce drawn for it and whether the client could
publish what was sealed. -/
structure Handover where
  nonce : Bytes
  frame : Bytes
  accepted : Bool

namespace Serving

/-- `Serving::new`. -/
def new (publisher : Identity) (key : Bytes) (channels : Channels) : Serving where
  relay := .new publisher key channels

/-- `remember`. -/
def remember (serving : Serving) (digest : UInt64) : Serving :=
  let seen := serving.seen ++ [digest]
  let seenSet := serving.seenSet.insert digest ()
  if dedupeFrames < seen.length then
    match seen with
    | [] => { serving with seen, seenSet }
    | gone :: seen => { serving with seen, seenSet := seenSet.erase gone }
  else { serving with seen, seenSet }

/-- The newest time published, when a frame with this time has been. -/
def newest (published : Option Nat) (atMs : Nat) : Nat :=
  published.elim atMs fun last => max last atMs

/-- What is kept of the time of a frame that was published. -/
def resumeAfter (serving : Serving) (frame : Bytes) : Serving :=
  match (readBoxFrame frame).atMs with
  | none => serving
  | some atMs => { serving with published := some (newest serving.published atMs) }

variable (primitives : StreamPrimitives)

/-- `publish`, and whether the frame was published by this call. -/
def publish (serving : Serving) (given : Handover) : Serving × Bool :=
  let digest := frameHash given.frame
  if digest ∈ serving.seenSet then
    ({ serving with counts.duplicates := serving.counts.duplicates + 1 }, false)
  else
    match serving.relay.frame primitives given.nonce given.frame with
    | (relay, .consumed) => ({ serving with relay }, false)
    | (relay, .unsealed _) => ({ serving with relay }, false)
    | (relay, .publishes _ _ _ _) =>
        if given.accepted then
          let serving := { serving with relay }.remember digest
          let counted :=
            { serving with counts.published := serving.counts.published + 1 }
          (counted.resumeAfter given.frame, true)
        else ({ serving with relay }, false)

/-- Frames handed over one after another, and those of them that were published. -/
def publishAll (serving : Serving) : List Handover → Serving × List Bytes
  | [] => (serving, [])
  | given :: later =>
      let (after, isPublished) := serving.publish primitives given
      let (final, others) := after.publishAll later
      (final, if isPublished then given.frame :: others else others)

end Serving

/-- `Connector::since`: how far back to ask the box to replay. -/
def backfillSince (published : Option Nat) (nowMs : Nat) : Option Nat :=
  published.map fun last => saturatingAdd (nowMs - last) backfillSlackMs

/-- The times of the frames that carry one. -/
def timesOfFrames (frames : List Bytes) : List Nat :=
  frames.filterMap fun frame => (readBoxFrame frame).atMs

namespace Serving

variable {primitives : StreamPrimitives} {serving : Serving}

@[simp]
theorem remember_published (digest : UInt64) :
    (serving.remember digest).published = serving.published := by
  unfold remember
  dsimp only
  split
  · split <;> rfl
  · rfl

/-- A call that published the frame has taken note of its time; any other has not. -/
theorem publish_published (given : Handover) :
    (serving.publish primitives given).1.published =
      if (serving.publish primitives given).2 then
        ((readBoxFrame given.frame).atMs.map (newest serving.published)).or serving.published
      else serving.published := by
  unfold publish
  dsimp only
  split
  · rfl
  · split
    · rfl
    · rfl
    · split
      · unfold resumeAfter
        cases (readBoxFrame given.frame).atMs with
        | none => simp
        | some atMs => simp
      · rfl

/-- The newest time is folded over the times of the frames published. -/
theorem publishAll_published (handed : List Handover) :
    (serving.publishAll primitives handed).1.published =
      (timesOfFrames (serving.publishAll primitives handed).2).foldl
        (fun published atMs => some (newest published atMs)) serving.published := by
  induction handed generalizing serving with
  | nil => rfl
  | cons given later ih =>
      have first := @publish_published primitives serving given
      rw [publishAll]
      dsimp only
      rw [ih, first]
      cases isPublished : (serving.publish primitives given).2 with
      | false => rfl
      | true =>
          simp only [if_true, timesOfFrames, List.filterMap_cons]
          cases (readBoxFrame given.frame).atMs with
          | none => rfl
          | some atMs => rfl

end Serving

/-- The newest of times, the last of which is known, is one of them and none is later. -/
theorem foldl_newest (published : Option Nat) (times : List Nat) (last : Nat) :
    ∃ newest, (times ++ [last]).foldl
        (fun published atMs => some (Serving.newest published atMs)) published = some newest ∧
      (newest = last ∨ newest ∈ times ∨ published = some newest) ∧
      last ≤ newest ∧ (∀ time ∈ times, time ≤ newest) ∧ ∀ time ∈ published, time ≤ newest := by
  induction times generalizing published with
  | nil =>
      cases published with
      | none => exact ⟨last, rfl, .inl rfl, le_rfl, by simp, by simp⟩
      | some before =>
          refine ⟨max before last, rfl, ?_, le_max_right _ _, by simp, by simp⟩
          rcases max_choice before last with same | same
          · exact .inr (.inr (by rw [same]))
          · exact .inl same
  | cons time times ih =>
      obtain ⟨newest, folded, among, above, others, started⟩ :=
        ih (some (Serving.newest published time))
      have first := started _ rfl
      refine ⟨newest, folded, ?_, above, ?_, ?_⟩
      · rcases among with isLast | member | same
        · exact .inl isLast
        · exact .inr (.inl (List.mem_cons_of_mem _ member))
        · cases published with
          | none =>
              obtain rfl : time = newest := Option.some.inj same
              exact .inr (.inl List.mem_cons_self)
          | some before =>
              obtain rfl : max before time = newest := Option.some.inj same
              rcases max_choice before time with isBefore | isTime
              · exact .inr (.inr (by rw [isBefore]))
              · exact .inr (.inl (by rw [isTime]; exact List.mem_cons_self))
      · intro other member
        rcases List.mem_cons.mp member with rfl | later
        · cases published with
          | none => exact first
          | some before => exact (le_max_right _ _).trans first
        · exact others other later
      · rintro before ⟨⟩
        exact (le_max_left _ _).trans first

/-- A backfill asked for at a time no earlier than that of the frame published last covers
what came after that frame if and only if no frame before it was later, or no time has
passed, or what was asked for is all that can be. -/
theorem resume_covers_iff (primitives : StreamPrimitives) (publisher : Identity) (key : Bytes)
    (channels : Channels) (handed : List Handover) (earlier : List Nat) (last nowMs : Nat)
    (times : timesOfFrames
      ((Serving.new publisher key channels).publishAll primitives handed).2 =
        earlier ++ [last])
    (since : last ≤ nowMs) :
    (∃ asked, backfillSince
        ((Serving.new publisher key channels).publishAll primitives handed).1.published nowMs =
          some asked ∧ saturatingAdd (nowMs - last) backfillSlackMs ≤ asked) ↔
      ∀ time ∈ earlier, time ≤ last ∨ nowMs = last ∨
        2 ^ 64 - 1 ≤ nowMs - time + backfillSlackMs := by
  obtain ⟨newest, folded, among, above, others, -⟩ := foldl_newest none earlier last
  rw [Serving.publishAll_published, times]
  change (∃ asked, backfillSince ((earlier ++ [last]).foldl _ none) nowMs = _ ∧ _) ↔ _
  rw [folded]
  simp only [backfillSince, Option.map_some, Option.some.injEq, exists_eq_left']
  unfold saturatingAdd
  constructor
  · intro covers time member
    have := others time member
    omega
  · intro covered
    rcases among with rfl | member | none
    · omega
    · have := covered newest member
      omega
    · cases none

/-- A frame without a kind, whose time is this number below 128. -/
def frameAt (atMs : UInt8) : Bytes :=
  [0xf0, 1, atMs]

/-- The frames of a box whose clock stepped back from 100 to 50. -/
def steppedBack : List Handover :=
  [⟨loneSealing.nonce, frameAt 100, true⟩, ⟨loneSealing.nonce, frameAt 50, true⟩]

/-- The connector asks for the slack alone, and what the box said from 50 to 70 is not in
it. -/
theorem resume_misses :
    ∃ (publisher : Identity) (key : Bytes) (channels : Channels) (handed : List Handover)
      (earlier : List Nat) (last nowMs : Nat),
      timesOfFrames
        ((Serving.new publisher key channels).publishAll restartPrimitives handed).2 =
          earlier ++ [last] ∧ last ≤ nowMs ∧
      ¬ ∃ asked, backfillSince
        ((Serving.new publisher key channels).publishAll restartPrimitives handed).1.published
          nowMs = some asked ∧ saturatingAdd (nowMs - last) backfillSlackMs ≤ asked := by
  refine ⟨identityOf 1, List.replicate 32 7, ⟨[5], [6]⟩, steppedBack, [100], 50, 70,
    by decide +kernel, by decide, ?_⟩
  have asks : backfillSince ((Serving.new (identityOf 1) (List.replicate 32 7)
      ⟨[5], [6]⟩).publishAll restartPrimitives steppedBack).1.published 70 = some 30000 := by
    decide +kernel
  rintro ⟨asked, isAsked, covers⟩
  rw [asks] at isAsked
  cases isAsked
  exact absurd covers (by decide)

/-- A clock that goes on is resumed from where it was. -/
theorem resume_covers_iff_on :
    ∃ asked, backfillSince ((Serving.new (identityOf 1) (List.replicate 32 7)
        ⟨[5], [6]⟩).publishAll restartPrimitives steppedBack.reverse).1.published 120 =
          some asked ∧ saturatingAdd (120 - 100) backfillSlackMs ≤ asked :=
  (resume_covers_iff restartPrimitives (identityOf 1) (List.replicate 32 7) ⟨[5], [6]⟩
    steppedBack.reverse [50] 100 120 (by decide +kernel) (by decide)).mpr (by decide)

end WindowMlHub
