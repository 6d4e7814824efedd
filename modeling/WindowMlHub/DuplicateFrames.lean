import WindowMlHub.ResumePoints

/-!
# Frames that were published already

A box replays what it said when a connector reconnects, so the connector keeps the hashes
of the frames that it published last, in order and as a set.  A frame is not published
again while its hash is among them; a frame that was not published, for whatever reason,
leaves no hash behind, and is treated the next time as it was the first.
-/

namespace WindowMlHub

open HashTables

/-- The frames published last. -/
def recentFrames (published : List Bytes) : List Bytes :=
  published.rtake dedupeFrames

theorem recentFrames_concat (published : List Bytes) (frame : Bytes) :
    recentFrames (published ++ [frame]) =
      if published.length < dedupeFrames then recentFrames published ++ [frame]
      else (recentFrames published).tail ++ [frame] := by
  unfold recentFrames List.rtake
  rw [List.length_append, List.length_singleton]
  split
  · next room =>
      have all : published.length + 1 - dedupeFrames = 0 := by omega
      have allBefore : published.length - dedupeFrames = 0 := by omega
      rw [all, allBefore, List.drop_zero, List.drop_zero]
  · next full =>
      have positive : 0 < dedupeFrames := by decide
      have oneMore : published.length + 1 - dedupeFrames =
          published.length - dedupeFrames + 1 := by omega
      rw [oneMore, List.tail_drop, List.drop_append_of_le_length (by omega)]

/-- A connector remembers the hashes of the frames published last, without repeats, in
their order and as a set. -/
structure Serving.Remembers (serving : Serving) (published : List Bytes) : Prop where
  seen_eq : serving.seen = (recentFrames published).map frameHash
  nodup : serving.seen.Nodup
  mem_iff : ∀ digest, digest ∈ serving.seenSet ↔ digest ∈ serving.seen
  length_le : serving.seen.length ≤ dedupeFrames

namespace Serving

variable {primitives : StreamPrimitives} {serving : Serving} {published : List Bytes}
  {given : Handover}

theorem Remembers.new (publisher : Identity) (key : Bytes) (channels : Channels) :
    (Serving.new publisher key channels).Remembers [] where
  seen_eq := rfl
  nodup := List.nodup_nil
  mem_iff digest := iff_of_false (AList.notMem_empty digest) (List.not_mem_nil)
  length_le := Nat.zero_le _

theorem Remembers.congr {other : Serving} (remembers : serving.Remembers published)
    (seen : other.seen = serving.seen) (seenSet : other.seenSet = serving.seenSet) :
    other.Remembers published where
  seen_eq := seen.trans remembers.seen_eq
  nodup := seen ▸ remembers.nodup
  mem_iff digest := by rw [seenSet, seen, remembers.mem_iff]
  length_le := seen ▸ remembers.length_le

/-- Remembering a hash forgets the oldest if there are too many. -/
theorem Remembers.remember (remembers : serving.Remembers published) {frame : Bytes}
    (new : frameHash frame ∉ serving.seenSet) :
    (serving.remember (frameHash frame)).Remembers (published ++ [frame]) := by
  obtain ⟨seenEq, nodup, memIff, lengthLe⟩ := remembers
  rw [memIff] at new
  have length : serving.seen.length = min published.length dedupeFrames := by
    rw [seenEq, List.length_map, recentFrames, List.rtake, List.length_drop]
    omega
  have longer : (serving.seen ++ [frameHash frame]).Nodup :=
    List.nodup_append.mpr ⟨nodup, List.nodup_singleton _, fun digest member other single => by
      rw [List.mem_singleton.mp single]
      rintro rfl
      exact new member⟩
  have positive : 0 < dedupeFrames := by decide
  unfold Serving.remember
  dsimp only
  split
  · next full =>
      rw [List.length_append, List.length_singleton] at full
      cases front : serving.seen with
      | nil =>
          rw [front] at full
          exact absurd full (by decide)
      | cons gone rest =>
          rw [front] at longer memIff
          rw [List.cons_append] at longer ⊢
          obtain ⟨goneOnly, restNodup⟩ := List.nodup_cons.mp longer
          have restEq : rest = ((recentFrames published).tail).map frameHash := by
            rw [List.map_tail, ← seenEq, front, List.tail_cons]
          refine ⟨?_, restNodup, fun digest => ?_, ?_⟩
          · rw [recentFrames_concat, if_neg (by omega), List.map_append, ← restEq]
            rfl
          · dsimp only
            rw [AList.mem_erase, AList.mem_insert, memIff]
            simp only [List.mem_cons, List.mem_append, List.not_mem_nil, or_false]
            constructor
            · rintro ⟨notGone, same | isGone | member⟩
              · exact .inr same
              · exact absurd isGone notGone
              · exact .inl member
            · intro member
              refine ⟨?_, ?_⟩
              · rintro rfl
                exact goneOnly (by simpa using member)
              · rcases member with earlier | same
                · exact .inr (.inr earlier)
                · exact .inl same
          · rw [front, List.length_cons] at lengthLe
            rw [List.length_append, List.length_singleton]
            exact lengthLe
  · next room =>
      rw [List.length_append, List.length_singleton] at room
      refine ⟨?_, longer, fun digest => ?_, ?_⟩
      · rw [recentFrames_concat, if_pos (by omega), List.map_append, ← seenEq]
        rfl
      · dsimp only
        rw [AList.mem_insert, memIff, List.mem_append, List.mem_singleton, or_comm]
      · rw [List.length_append, List.length_singleton]
        omega

theorem resumeAfter_seen (frame : Bytes) :
    (serving.resumeAfter frame).seen = serving.seen ∧
      (serving.resumeAfter frame).seenSet = serving.seenSet ∧
      (serving.resumeAfter frame).counts = serving.counts := by
  unfold resumeAfter
  split <;> exact ⟨rfl, rfl, rfl⟩

/-- What a call does with a frame: it is passed over for its hash, it is not published and
leaves no hash behind, or it is published and remembered. -/
inductive Published (primitives : StreamPrimitives) (serving : Serving) (given : Handover) :
    Serving × Bool → Prop
  | suppressed (known : frameHash given.frame ∈ serving.seenSet) :
      Published primitives serving given
        ({ serving with counts.duplicates := serving.counts.duplicates + 1 }, false)
  | unpublished {relay : Relay} {relaying : Relaying}
      (new : frameHash given.frame ∉ serving.seenSet)
      (relayed : serving.relay.frame primitives given.nonce given.frame = (relay, relaying))
      (failed : given.accepted = true → ∀ lane counter coalesce sealed,
        relaying ≠ .publishes lane counter coalesce sealed) :
      Published primitives serving given ({ serving with relay }, false)
  | published {relay : Relay} {lane : Lane} {counter : Nat} {coalesce sealed : Bytes}
      {after : Serving} (new : frameHash given.frame ∉ serving.seenSet)
      (relayed : serving.relay.frame primitives given.nonce given.frame =
        (relay, .publishes lane counter coalesce sealed))
      (accepted : given.accepted = true)
      (seen : after.seen = (serving.remember (frameHash given.frame)).seen)
      (seenSet : after.seenSet = (serving.remember (frameHash given.frame)).seenSet)
      (duplicates : after.counts.duplicates = serving.counts.duplicates) :
      Published primitives serving given (after, true)

theorem remember_relay (relay : Relay) (digest : UInt64) :
    ({ serving with relay }.remember digest).seen = (serving.remember digest).seen ∧
      ({ serving with relay }.remember digest).seenSet =
        (serving.remember digest).seenSet ∧
      ({ serving with relay }.remember digest).counts = serving.counts := by
  unfold remember
  dsimp only
  split
  · split <;> exact ⟨rfl, rfl, rfl⟩
  · exact ⟨rfl, rfl, rfl⟩

theorem publish_spec (primitives : StreamPrimitives) (serving : Serving) (given : Handover) :
    Published primitives serving given (serving.publish primitives given) := by
  unfold publish
  dsimp only
  split
  · next known => exact .suppressed known
  · next new =>
      split
      · next relay relayed => exact .unpublished new relayed (by simp)
      · next relay error relayed => exact .unpublished new relayed (by simp)
      · next relay lane counter coalesce sealed relayed =>
          split
          · next accepted =>
              obtain ⟨seen, seenSet, counts⟩ :=
                @remember_relay serving relay (frameHash given.frame)
              refine .published new relayed accepted ?_ ?_ ?_
              · rw [(resumeAfter_seen given.frame).1]
                exact seen
              · rw [(resumeAfter_seen given.frame).2.1]
                exact seenSet
              · rw [(resumeAfter_seen given.frame).2.2]
                have duplicates := congrArg (fun counts : Served => counts.duplicates) counts
                exact duplicates
          · next refused => exact .unpublished new relayed fun accepted => absurd accepted refused

theorem Remembers.publish (remembers : serving.Remembers published) (given : Handover) :
    (serving.publish primitives given).1.Remembers
      (if (serving.publish primitives given).2 then published ++ [given.frame]
        else published) := by
  have spec := publish_spec primitives serving given
  generalize serving.publish primitives given = result at spec
  cases spec with
  | suppressed => exact remembers.congr rfl rfl
  | unpublished => exact remembers.congr rfl rfl
  | published new relayed accepted seen seenSet _ =>
      exact (remembers.remember new).congr seen seenSet

theorem Remembers.publishAll (remembers : serving.Remembers published)
    (handed : List Handover) :
    (serving.publishAll primitives handed).1.Remembers
      (published ++ (serving.publishAll primitives handed).2) := by
  induction handed generalizing serving published with
  | nil => simpa [Serving.publishAll] using remembers
  | cons given later ih =>
      have rest := ih (@Remembers.publish primitives _ _ remembers given)
      rw [Serving.publishAll]
      dsimp only
      cases isPublished : (serving.publish primitives given).2 with
      | false => simpa [isPublished] using rest
      | true => simpa [isPublished] using rest

/-- The frame goes on a channel and can be sealed there, as things stand. -/
def Relays (primitives : StreamPrimitives) (serving : Serving) (given : Handover) : Prop :=
  ∃ lane counter coalesce sealed,
    (serving.relay.frame primitives given.nonce given.frame).2 =
      .publishes lane counter coalesce sealed

/-- How a connector that has published these frames treats the next.  It is published if
its hash is not that of one published recently, it can be relayed, and the client accepts
it; it is counted as a duplicate if its hash is among those; and if it was not published,
nothing is remembered of it: the next time it is treated as it was the first. -/
structure Suppresses (primitives : StreamPrimitives) (serving : Serving)
    (published : List Bytes) (given : Handover) : Prop where
  published_iff : (serving.publish primitives given).2 = true ↔
    frameHash given.frame ∉ (recentFrames published).map frameHash ∧
      serving.Relays primitives given ∧ given.accepted = true
  duplicate_iff : (serving.publish primitives given).1.counts.duplicates =
      serving.counts.duplicates + 1 ↔
    frameHash given.frame ∈ (recentFrames published).map frameHash
  not_again : given.frame ∈ recentFrames published →
    (serving.publish primitives given).2 = false
  forgotten : (serving.publish primitives given).2 = false →
    (serving.publish primitives given).1.seen = serving.seen ∧
      (serving.publish primitives given).1.seenSet = serving.seenSet
  again : (serving.publish primitives given).2 = false →
    frameHash given.frame ∉ (recentFrames published).map frameHash →
      ∀ handed : Handover, handed.frame = given.frame →
        (((serving.publish primitives given).1.publish primitives handed).2 = true ↔
          (serving.publish primitives given).1.Relays primitives handed ∧
            handed.accepted = true)

theorem Remembers.mem_seenSet (remembers : serving.Remembers published) (digest : UInt64) :
    digest ∈ serving.seenSet ↔ digest ∈ (recentFrames published).map frameHash := by
  rw [remembers.mem_iff, remembers.seen_eq]

theorem Remembers.published_iff (remembers : serving.Remembers published)
    (given : Handover) :
    (serving.publish primitives given).2 = true ↔
      frameHash given.frame ∉ (recentFrames published).map frameHash ∧
        serving.Relays primitives given ∧ given.accepted = true := by
  rw [← remembers.mem_seenSet]
  have spec := publish_spec primitives serving given
  generalize serving.publish primitives given = result at spec
  cases spec with
  | suppressed known => simp [known]
  | @unpublished relay relaying new relayed failed =>
      refine iff_of_false (by simp) ?_
      rintro ⟨-, ⟨lane, counter, coalesce, sealed, publishes⟩, accepted⟩
      rw [relayed] at publishes
      exact failed accepted lane counter coalesce sealed publishes
  | published new relayed accepted =>
      exact iff_of_true rfl ⟨new, ⟨_, _, _, _, congrArg Prod.snd relayed⟩, accepted⟩

theorem Remembers.suppresses (remembers : serving.Remembers published) (given : Handover) :
    serving.Suppresses primitives published given where
  published_iff := remembers.published_iff given
  duplicate_iff := by
    rw [← remembers.mem_seenSet]
    have spec := publish_spec primitives serving given
    generalize serving.publish primitives given = result at spec
    cases spec with
    | suppressed known => exact iff_of_true rfl known
    | unpublished new => exact iff_of_false (by simp) new
    | published new _ _ _ _ duplicates =>
        exact iff_of_false (by rw [duplicates]; omega) new
  not_again := by
    intro member
    rw [← Bool.not_eq_true, remembers.published_iff given]
    exact fun isPublished => isPublished.1 (List.mem_map_of_mem member)
  forgotten := by
    intro unpublished
    have spec := publish_spec primitives serving given
    generalize serving.publish primitives given = result at spec unpublished
    cases spec with
    | suppressed => exact ⟨rfl, rfl⟩
    | unpublished => exact ⟨rfl, rfl⟩
    | published => cases unpublished
  again := by
    intro unpublished new handed same
    have kept := @Remembers.publish primitives _ _ remembers given
    rw [unpublished, if_neg Bool.false_ne_true] at kept
    rw [kept.published_iff, same]
    exact and_iff_right new

end Serving

/-- Whatever frames a connector was handed and whichever the hub took: it remembers the
hashes of the last frames that it published, no more of them than the bound and none twice,
in order and as a set; and these alone keep it from publishing a frame. -/
theorem duplicates_suppressed (primitives : StreamPrimitives) (publisher : Identity)
    (key : Bytes) (channels : Channels) (handed : List Handover) :
    ((Serving.new publisher key channels).publishAll primitives handed).1.Remembers
        ((Serving.new publisher key channels).publishAll primitives handed).2 ∧
      ∀ given, ((Serving.new publisher key channels).publishAll primitives handed).1.Suppresses
        primitives ((Serving.new publisher key channels).publishAll primitives handed).2
          given := by
  have remembers := (@Serving.Remembers.publishAll primitives _ _
    (Serving.Remembers.new publisher key channels) handed)
  rw [List.nil_append] at remembers
  exact ⟨remembers, remembers.suppresses⟩

/-- A box's greeting: it is consumed. -/
def helloFrame : Bytes :=
  [0x12, 5, 104, 101, 108, 108, 111]

/-- A greeting leaves no hash behind, and is not published when it is handed over again
either. -/
theorem consumed_never_published :
    ∃ (publisher : Identity) (key : Bytes) (channels : Channels) (given : Handover),
      Relay.lane? given.frame = none ∧ given.accepted = true ∧
        frameHash given.frame ∉ ((Serving.new publisher key channels).publish
          restartPrimitives given).1.seenSet ∧
        (((Serving.new publisher key channels).publish restartPrimitives given).1.publish
          restartPrimitives given).2 = false :=
  ⟨identityOf 1, List.replicate 32 7, ⟨[5], [6]⟩, ⟨loneSealing.nonce, helloFrame, true⟩,
    by decide +kernel, rfl, by decide +kernel, by decide +kernel⟩

end WindowMlHub
