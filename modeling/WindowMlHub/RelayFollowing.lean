import WindowMlHub.RelayTallies
import WindowMlHub.RelayWakes

/-!
# Following a subscription through events

From the event that made a subscription on, the account of the subscription is
kept by every event: the pushed envelopes are what the stream's ring retained at
that time and then every publication on the stream.
-/

namespace WindowMlHub

open CheckedEvaluation HashTables

/-- These envelopes are the last that a ring has stamped, with none missing. -/
structure Ring.Newest (ring : Ring) (envs : List Envelope) : Prop where
  epoch_eq : ∀ env ∈ envs, env.epoch = ring.epoch
  seqs_eq : envs.map (·.seq) =
    List.range' (ring.seq + 1 - envs.length) envs.length
  length_le : envs.length ≤ ring.seq

/-- The envelopes are the last of the ring; without a ring there are none. -/
def Numbered (ring : Option Ring) (envs : List Envelope) : Prop :=
  match ring with
  | some ring => ring.Newest envs
  | none => envs = []

/-- The entries of a ring that a subscriber at this position has not had: a position in the
ring's epoch is where it has come to, any other is the start. -/
def Ring.retainedAfter (ring : Ring) (since : Option Position) : List Entry :=
  let current := since.filter fun position => position.epoch = ring.epoch
  ring.entries.filter fun entry => entry.seq > (current.map (·.seq)).getD 0

theorem Ring.retainedAfter_eq (ring : Ring) (since : Option Position) :
    ring.retainedAfter since =
      ring.entries.filter fun entry => entry.seq > ring.resumeAfter since := by
  have same : (((since.filter fun position => position.epoch = ring.epoch).map
      (·.seq)).getD 0) = ring.resumeAfter since := by
    cases since with
    | none => rfl
    | some position =>
        by_cases current : position.epoch = ring.epoch <;>
          simp [Ring.resumeAfter, Option.filter, current]
  simp only [Ring.retainedAfter, same]

/-- The envelopes that a new subscriber is sent first. -/
def backlog (key : StreamKey) (ring : Option Ring)
    (since : Option Position) : List Envelope :=
  match ring with
  | some ring => envelopesOf key ((ring.retainedAfter since).map (·.wire))
  | none => []

/-- The account of a connection's subscription is kept. -/
structure Conn.Followed (key : StreamKey) (given : List Frame)
    (pushed : List Envelope) (acct : Account) (c : Conn) : Prop where
  numbered : Numbered (acct.ring? key) pushed
  tallied : ∀ kind epoch,
    (∀ ring, acct.ring? key = some ring →
      ring.kind = kind ∧ ring.epoch = epoch) →
    ∃ tally last, tally.Explained pushed ∧
      Tallied key kind epoch given pushed c.out.items c.out.dropped tally last

/-- What an event offers to a connection outside streams is neither an envelope
of the stream nor a gap report. -/
def Event.Clear (id : ConnId) (key : StreamKey) (event : Event) : Prop :=
  ∀ frame, event = .frame id frame →
    frame.on? key = none ∧ frame.gap? = none

section Numbering

variable {ring next : Ring} {envs : List Envelope}

theorem Ring.Newest.increasing (newest : ring.Newest envs) :
    envs.Pairwise fun first second => first.seq < second.seq := by
  have sorted : (envs.map (·.seq)).Pairwise (· < ·) := by
    rw [newest.seqs_eq]
    exact List.pairwise_lt_range'
  exact List.pairwise_map.mp sorted

theorem Ring.Newest.bounds (newest : ring.Newest envs) {env : Envelope}
    (member : env ∈ envs) : 0 < env.seq ∧ env.seq ≤ ring.seq := by
  have inRange : env.seq ∈ envs.map (·.seq) := List.mem_map_of_mem member
  rw [newest.seqs_eq, List.mem_range'_1] at inRange
  have := newest.length_le
  omega

theorem Ring.Newest.of_trimmed (newest : ring.Newest envs)
    (trimmed : ring.Trimmed next) : next.Newest envs :=
  ⟨fun env member => (newest.epoch_eq env member).trans trimmed.epoch_eq.symm,
    trimmed.seq_eq ▸ newest.seqs_eq, trimmed.seq_eq ▸ newest.length_le⟩

theorem Ring.Newest.advance {env : Envelope} (newest : ring.Newest envs)
    (advanced : ring.Advanced env next) :
    next.Newest (envs ++ [ring.stamped env]) := by
  have length := newest.length_le
  refine ⟨fun other member => ?_, ?_, ?_⟩
  · rw [advanced.epoch_eq]
    rcases List.mem_append.mp member with old | new
    · exact newest.epoch_eq other old
    · rw [List.mem_singleton.mp new]
      rfl
  · have start : next.seq + 1 - (envs.length + 1) =
        ring.seq + 1 - envs.length := by
      rw [advanced.seq_eq]
      omega
    have last : ring.seq + 1 - envs.length + envs.length = ring.seq + 1 := by
      omega
    simp [newest.seqs_eq, start, List.range'_concat, last, Ring.stamped]
  · rw [advanced.seq_eq]
    simpa using length

theorem Ring.Fresh.newest (fresh : ring.Fresh) : ring.Newest [] :=
  ⟨by simp, by simp, by simp [fresh.seq_eq]⟩

/-- Numbers without a gap stay so when the small ones are taken away. -/
theorem map_filter_range' {α : Type} (number : α → Nat) (bound : Nat)
    (list : List α) (first : Nat)
    (numbered : list.map number = List.range' first list.length) :
    (list.filter fun entry => number entry > bound).map number =
      List.range'
        (first + list.length -
          (list.filter fun entry => number entry > bound).length)
        (list.filter fun entry => number entry > bound).length := by
  induction list generalizing first with
  | nil => rfl
  | cons entry list ih =>
      simp only [List.map_cons, List.length_cons, List.range'_succ,
        List.cons.injEq] at numbered
      obtain ⟨isFirst, later⟩ := numbered
      have rest := ih (first + 1) later
      have start : first + (list.length + 1) = first + 1 + list.length := by
        omega
      by_cases above : number entry > bound
      · have all : list.filter (fun entry => number entry > bound) = list := by
          rw [List.filter_eq_self]
          intro other member
          have inRange : number other ∈ list.map number :=
            List.mem_map_of_mem member
          rw [later, List.mem_range'_1] at inRange
          simp only [decide_eq_true_eq]
          omega
        rw [List.filter_cons_of_pos (by simpa using above), all]
        simp only [List.map_cons, List.length_cons, List.range'_succ, later,
          List.cons.injEq]
        have same : first + (list.length + 1) - (list.length + 1) = first := by
          omega
        rw [same]
        exact ⟨isFirst, rfl⟩
      · rw [List.filter_cons_of_neg (by simpa using above), List.length_cons,
          start]
        exact rest

/-- Entries of a ring are read back as the envelopes that they carry. -/
theorem Ring.Sourced.reads [Codec] {origins : Origins} {key : StreamKey}
    (sourced : ring.Sourced origins key) (entries : List Entry)
    (among : ∀ entry ∈ entries, entry ∈ ring.entries) :
    (envelopesOf key (entries.map (·.wire))).map (·.seq) = entries.map (·.seq) ∧
      (envelopesOf key (entries.map (·.wire))).map
        (fun env => Frame.of (.envelope env)) = entries.map (·.wire) ∧
      ∀ env ∈ envelopesOf key (entries.map (·.wire)), env.epoch = ring.epoch := by
  induction entries with
  | nil => simp
  | cons entry entries ih =>
      obtain ⟨_, env, carries, _⟩ := sourced.entries entry (among entry (by simp))
      obtain ⟨seqs, wires, epochs⟩ := ih fun other member => among other (by simp [member])
      rw [List.map_cons, ← List.singleton_append, envelopesOf_append,
        envelopesOf_single, carries.on_eq]
      refine ⟨?_, ?_, ?_⟩
      · simp [seqs, carries.seq_eq]
      · simp [wires, carries.wire_eq]
      · intro other member
        rcases List.mem_append.mp member with new | old
        · rw [List.mem_singleton.mp new]
          exact carries.epoch_eq
        · exact epochs other old

/-- What a ring retains after a position carries the ring's last numbers. -/
theorem Ring.newest_backlog [Codec] {origins : Origins} {key : StreamKey}
    (sound : ring.Sound) (sourced : ring.Sourced origins key)
    (since : Option Position) :
    ring.Newest (backlog key (some ring) since) ∧
      (backlog key (some ring) since).map (fun env => .of (.envelope env)) =
        (ring.retainedAfter since).map (·.wire) := by
  obtain ⟨seqs, wires, epochs⟩ := sourced.reads (ring.retainedAfter since)
    fun entry member => (List.mem_filter.mp member).1
  have lengthEq : (backlog key (some ring) since).length =
      (ring.retainedAfter since).length := by
    simpa [backlog] using congrArg List.length seqs
  have fewer : (ring.retainedAfter since).length ≤ ring.entries.length :=
    List.length_filter_le _ _
  have enough := sound.length_le_seq
  refine ⟨⟨epochs, ?_, ?_⟩, wires⟩
  · have numbers := map_filter_range' (fun entry : Entry => entry.seq)
      (ring.resumeAfter since) ring.entries _ sound.seqs_eq
    have last : ring.seq + 1 - ring.entries.length + ring.entries.length =
        ring.seq + 1 := by
      omega
    rw [last] at numbers
    rw [lengthEq]
    rw [← ring.retainedAfter_eq since] at numbers
    exact seqs.trans numbers
  · omega

end Numbering

/-! ## Events -/

section Events

variable [Codec] {limits : Limits} {origins : Origins} {acct acct' : Account}
  {fx fx' : Effects} {event : Event} {events : List Event} {id : ConnId}
  {c c' : Conn} {key : StreamKey} {given : List Frame} {pushed : List Envelope}

theorem Performs.tallied_away {queue final : Outbound} {ops : List QueueOp}
    {kind : Kind} {epoch : Nat} {tally : Tally} {last : Nat} (ok : queue.Ok)
    (performed : Performs limits queue ops final)
    (away : ∀ op ∈ ops, op.envelope? key = none ∧
      ∀ pushed, op.Fits key kind epoch pushed)
    (explained : tally.Explained pushed)
    (tallied : Tallied key kind epoch given pushed queue.items queue.dropped
      tally last) :
    ∃ tally', tally'.Explained pushed ∧
      Tallied key kind epoch given pushed final.items final.dropped tally'
        last := by
  have nothing : ops.filterMap (QueueOp.envelope? key) = [] :=
    List.filterMap_eq_nil_iff.mpr fun op member => (away op member).1
  have performs := performed.tallied ok
    (fun earlier op later split => (away op (by simp [split])).2 _)
    explained tallied
  simpa [nothing] using performs

/-- Nothing but a publication on the stream or the end of a subscription to it
concerns the stream. -/
theorem Event.ops_away (rings : acct.Sourced origins)
    (act : Act limits acct fx event acct' fx') (stamps : event.Stamps origins)
    (clear : event.Clear id key)
    (stays : ∀ since ring, event ≠ .subscribed id key since ring)
    (remains : event ≠ .unsubscribed id key)
    (silent : ∀ ring env, event ≠ .published key ring env)
    {kind : Kind} {epoch : Nat} (op : QueueOp) (among : op ∈ event.ops id c) :
    op.envelope? key = none ∧ ∀ pushed, op.Fits key kind epoch pushed := by
  have elsewhere {other : StreamKey} {otherKind : Kind} {otherEpoch : Nat}
      {entry : Entry} {env : Envelope} (differs : other ≠ key)
      (carries : entry.Carries other otherKind otherEpoch env) :
      QueueOp.envelope? key (.published other otherKind otherEpoch entry) =
          none ∧
        ∀ pushed, QueueOp.Fits key kind epoch pushed
          (.published other otherKind otherEpoch entry) :=
    ⟨Frame.on?_of_other carries.on_eq differs,
      fun _ => ⟨env, carries, fun same => (differs same).elim⟩⟩
  cases event with
  | quiet => simp [ops] at among
  | frame target sent =>
      simp only [ops] at among
      split at among
      · rename_i mine
        subst mine
        rw [List.mem_singleton.mp among]
        exact ⟨rfl, fun _ => clear sent rfl⟩
      · simp at among
  | published other ring env =>
      simp only [ops] at among
      split at among
      · rw [List.mem_singleton.mp among]
        obtain ⟨_, carries, _⟩ := stamps other ring env rfl
        exact elsewhere (fun same => silent ring env (by rw [same])) carries
      · simp at among
  | subscribed target other since ring =>
      simp only [ops] at among
      split at among
      · rename_i mine
        subst mine
        have differs : other ≠ key := fun same =>
          stays since ring (by rw [same])
        rcases List.mem_cons.mp among with rfl | later
        · exact ⟨rfl, fun _ => differs⟩
        rcases List.mem_append.mp later with backfilled | marker
        · cases ring with
          | none => simp [backfillOps] at backfilled
          | some ring =>
              obtain ⟨entry, entryMember, rfl⟩ := List.mem_map.mp backfilled
              obtain ⟨_, env, carries, _⟩ :=
                (rings other ring (act.ring_subscribed rfl).1).entries entry
                  (List.mem_filter.mp entryMember).1
              exact elsewhere differs carries
        · rw [List.mem_singleton.mp marker]
          exact ⟨rfl, fun _ => ⟨rfl, rfl⟩⟩
      · simp at among
  | unsubscribed target other =>
      simp only [ops] at among
      split at among
      · rename_i mine
        subst mine
        rw [List.mem_singleton.mp among]
        exact ⟨rfl, fun _ same => remains (by rw [same])⟩
      · simp at among
  | joined other conn role =>
      rw [List.mem_singleton.mp among]
      exact ⟨rfl, fun _ => ⟨rfl, rfl⟩⟩
  | left other principal role =>
      rw [List.mem_singleton.mp among]
      exact ⟨rfl, fun _ => ⟨rfl, rfl⟩⟩

/-- A publication on the stream is pushed to a subscriber. -/
theorem Passes.followed_published {ring : Ring} {env : Envelope}
    (act : Act limits acct fx (.published key ring env) acct' fx')
    (passes : Passes limits (.published key ring env) id c c')
    (ok : c.out.Ok) (hears : key ∈ c.subs)
    (stamps : Event.Stamps origins (.published key ring env))
    (followed : c.Followed key given pushed acct) :
    c'.Followed key given (pushed ++ [ring.stamped env]) acct' := by
  obtain ⟨origin, ring', found', advanced⟩ := act.ring_published rfl
  obtain ⟨_, carries, _⟩ := stamps key ring env rfl
  have newest : ring.Newest pushed := by
    have numbered := followed.numbered
    rcases origin with found | ⟨missing, fresh⟩
    · rw [found] at numbered
      exact numbered
    · rw [missing] at numbered
      rw [show pushed = [] from numbered]
      exact fresh.newest
  constructor
  · rw [found']
    exact newest.advance advanced
  intro kind epoch identified
  obtain ⟨kindEq, epochEq⟩ := identified ring' found'
  rw [advanced.kind_eq] at kindEq
  rw [advanced.epoch_eq] at epochEq
  obtain ⟨tally, last, explained, tallied⟩ := followed.tallied kind epoch (by
    intro before found
    rcases origin with same | ⟨missing, _⟩
    · rw [found] at same
      cases same
      exact ⟨kindEq, epochEq⟩
    · rw [found] at missing
      cases missing)
  have performs := passes.performs
  simp only [Event.ops, if_pos hears] at performs
  have mine : QueueOp.envelope? key
      (.published key ring.kind ring.epoch (ring.stamp env)) =
        some (ring.stamped env) := carries.on_eq
  obtain ⟨tally', explained', tallied'⟩ := performs.tallied ok
    (fun earlier op later split => by
      obtain ⟨rfl, rest⟩ : earlier = [] ∧ op = .published key ring.kind
          ring.epoch (ring.stamp env) := by
        cases earlier with
        | nil => exact ⟨rfl, (List.cons.inj split).1.symm⟩
        | cons first earlier => simp at split
      rw [rest]
      refine ⟨_, carries, fun _ => ⟨kindEq, epochEq, Nat.succ_pos _, ?_⟩⟩
      intro old member
      have bounds := newest.bounds (show old ∈ pushed by simpa using member)
      exact Nat.lt_succ_of_le bounds.2) explained tallied
  simp only [List.filterMap_cons, mine, List.filterMap_nil] at explained' tallied'
  exact ⟨tally', last, explained', tallied'⟩

/-- Any other event leaves the pushed envelopes as they are. -/
theorem Passes.followed_away (found : acct.conns.lookup id = some c)
    (act : Act limits acct fx event acct' fx')
    (passes : Passes limits event id c c') (ok : c.out.Ok)
    (hears : key ∈ c.subs) (rings : acct.Sourced origins)
    (stamps : event.Stamps origins) (clear : event.Clear id key)
    (stays : ∀ since ring, event ≠ .subscribed id key since ring)
    (remains : event ≠ .unsubscribed id key)
    (silent : ∀ ring env, event ≠ .published key ring env)
    (followed : c.Followed key given pushed acct) :
    c'.Followed key given pushed acct' := by
  have heard : ¬ acct.Unheard key := fun unheard => unheard id c found hears
  constructor
  · have numbered := followed.numbered
    rcases act.ring_kept key silent with
      ⟨gone, missing | unheard⟩ | ⟨ring, ring', before, after, trimmed⟩
    · rw [missing] at numbered
      rw [gone]
      exact numbered
    · exact (heard unheard).elim
    · rw [before] at numbered
      rw [after]
      exact numbered.of_trimmed trimmed
  intro kind epoch identified
  obtain ⟨tally, last, explained, tallied⟩ := followed.tallied kind epoch (by
    intro ring before
    obtain ⟨ring', after, precedes⟩ := act.ring_heard before heard
    rw [← precedes.kind_eq, ← precedes.epoch_eq]
    exact identified ring' after)
  obtain ⟨tally', explained', tallied'⟩ := passes.performs.tallied_away ok
    (Event.ops_away rings act stamps clear stays remains silent)
    explained tallied
  exact ⟨tally', last, explained', tallied'⟩

/-- What a subscription owes to an event. -/
theorem Passes.followed (found : acct.conns.lookup id = some c)
    (act : Act limits acct fx event acct' fx')
    (passes : Passes limits event id c c') (ok : c.out.Ok)
    (rings : acct.Sourced origins) (stamps : event.Stamps origins)
    (clear : event.Clear id key)
    (stays : ∀ since ring, event ≠ .subscribed id key since ring)
    (followed : key ∈ c.subs → c.Followed key given pushed acct)
    (hears : key ∈ c'.subs) :
    c'.Followed key given (pushed ++ (event.publication key).toList)
      acct' := by
  obtain ⟨before, remains⟩ : key ∈ c.subs ∧ event ≠ .unsubscribed id key := by
    have subs := (passes.subs_iff key).mp hears
    cases event with
    | subscribed target other since ring =>
        rcases subs with old | ⟨rfl, rfl⟩
        · exact ⟨old, by simp⟩
        · exact (stays since ring rfl).elim
    | unsubscribed target other =>
        refine ⟨subs.1, ?_⟩
        intro same
        cases same
        exact subs.2 ⟨rfl, rfl⟩
    | _ => exact ⟨subs, by simp⟩
  by_cases publishes : ∃ ring env, event = .published key ring env
  · obtain ⟨ring, env, rfl⟩ := publishes
    simpa [Event.publication] using
      passes.followed_published act ok before stamps (followed before)
  · push Not at publishes
    have nothing : event.publication key = none := by
      cases event with
      | published other ring env =>
          rw [Event.publication, if_neg]
          rintro rfl
          exact publishes ring env rfl
      | _ => rfl
    simpa [nothing] using passes.followed_away found act ok before rings stamps
      clear stays remains publishes (followed before)

/-- The queue holds no gap report. -/
def Conn.Gapless (c : Conn) : Prop :=
  ∀ frame ∈ c.out.loose, frame.gap? = none

theorem Conn.Sourced.foreign (sourced : c.Sourced origins acct)
    (directed : ∀ target env, origins.direct target env →
      ∃ principal, env.sentTo = some (.principal principal))
    {item : Item} (member : item ∈ c.out.items)
    (foreign : item.stream ≠ some key) : item.wire.on? key = none := by
  cases sourced.items item member with
  | @loose frame direct =>
      rw [Option.eq_none_iff_forall_ne_some]
      intro env mine
      obtain ⟨rfl, _, sentTo⟩ := Frame.on?_eq_some.mp mine
      obtain ⟨principal, addressed⟩ := directed _ env (direct env rfl)
      rw [addressed] at sentTo
      cases sentTo
  | published streamed carries published =>
      exact Frame.on?_of_other carries.on_eq
        fun same => foreign (congrArg some same)

theorem Conn.Sourced.legible (sourced : c.Sourced origins acct)
    (gapless : c.Gapless)
    (directed : ∀ target env, origins.direct target env →
      ∃ principal, env.sentTo = some (.principal principal))
    {kind : Kind} {epoch : Nat} {item : Item} (member : item ∈ c.out.items)
    (foreign : item.stream ≠ some key) : item.Legible key kind epoch := by
  refine ⟨fun mine => (foreign mine).elim,
    fun _ => sourced.foreign directed member foreign, ?_⟩
  cases sourced.items item member with
  | @loose frame direct =>
      apply gapless
      exact List.mem_map.mpr
        ⟨_, List.mem_filter.mpr ⟨member, by simp [Item.ofFrame]⟩, rfl⟩
  | published streamed carries published =>
      simp only [Item.ofEntry, carries.wire_eq]
      rfl

/-- What a purge leaves of the queue tells nothing of the stream. -/
theorem Perform.blank {middle : Outbound}
    (purge : Perform limits c.out (.purge key) middle) (sourced : c.Sourced origins acct)
    (gapless : c.Gapless)
    (directed : ∀ target env, origins.direct target env →
      ∃ principal, env.sentTo = some (.principal principal)) (kind : Kind) (epoch : Nat) :
    Tallied key kind epoch [] [] middle.items middle.dropped {} 0 := by
  have purged := purge.of_purge sourced.queue_ok
  have legible (item : Item) (member : item ∈ middle.items) :
      item.stream ≠ some key ∧ item.Legible key kind epoch := by
    rw [purged] at member
    obtain ⟨old, foreign⟩ := List.mem_filter.mp member
    have foreign : item.stream ≠ some key := by simpa using foreign
    exact ⟨foreign, sourced.legible gapless directed old foreign⟩
  have nothing : waiting key middle.items = [] := waiting_foreign
    (fun item member => (legible item member).2)
    (fun item member => (legible item member).1)
  refine ⟨fun item member => (legible item member).2, .start, ?_, ?_, ?_, ?_,
    ?_, fun _ => rfl⟩
  · simp [nothing]
  · simp [nothing]
  · simp [nothing]
  · simp
  · rw [purged]
    simp [Outbound.counted]

omit [Codec] in
/-- What a new subscription puts into the queue of its stream is its backlog. -/
theorem pushes_backfill (ring : Option Ring) (since : Option Position) :
    (backfillOps ring key since ++ [QueueOp.frame
      (.of (.backfilled (backfillMarker ring key since)))]).filterMap
        (QueueOp.envelope? key) = backlog key ring since := by
  cases ring with
  | none => rfl
  | some ring =>
      simp only [List.filterMap_append, backfillOps, backlog, envelopesOf,
        List.filterMap_map, ring.retainedAfter_eq since]
      exact List.append_nil _

/-- A new subscription starts with what the ring retains. -/
theorem Passes.followed_subscribed {since : Option Position}
    {ring : Option Ring}
    (act : Act limits acct fx (.subscribed id key since ring) acct' fx')
    (passes : Passes limits (.subscribed id key since ring) id c c')
    (sound : ∀ ring, acct.ring? key = some ring → ring.Sound)
    (rings : acct.Sourced origins) (sourced : c.Sourced origins acct)
    (gapless : c.Gapless)
    (directed : ∀ target env, origins.direct target env →
      ∃ principal, env.sentTo = some (.principal principal)) :
    c'.Followed key [] (backlog key ring since) acct' := by
  obtain ⟨before, after⟩ := act.ring_subscribed rfl
  have numbered : Numbered ring (backlog key ring since) := by
    cases ring with
    | none => rfl
    | some ring =>
        exact (Ring.newest_backlog (sound ring before) (rings key ring before)
          since).1
  refine ⟨by rw [after]; exact numbered, fun kind epoch identified => ?_⟩
  have performs := passes.performs
  simp only [Event.ops, if_true] at performs
  obtain ⟨middle, first, rest⟩ : ∃ middle,
      Perform limits c.out (.purge key) middle ∧
      Performs limits middle (backfillOps ring key since ++
        [.frame (.of (.backfilled (backfillMarker ring key since)))])
        c'.out := by
    cases performs with
    | next first rest => exact ⟨_, first, rest⟩
  have blank := first.blank sourced gapless directed kind epoch
  have pushes : _ = backlog key ring since := pushes_backfill ring since
  suffices fits : ∀ earlier op later, backfillOps ring key since ++
      [.frame (.of (.backfilled (backfillMarker ring key since)))] =
        earlier ++ op :: later → op.Fits key kind epoch
          ([] ++ earlier.filterMap (QueueOp.envelope? key)) by
    obtain ⟨tally, explained, tallied⟩ := rest.tallied
      (first.ok sourced.queue_ok) fits (by simp [Tally.Explained]) blank
    rw [pushes, List.nil_append] at explained tallied
    exact ⟨tally, 0, explained, tallied⟩
  intro earlier op later split
  have member : op ∈ backfillOps ring key since ++
      [.frame (.of (.backfilled (backfillMarker ring key since)))] := by
    rw [split]
    simp
  rcases List.mem_append.mp member with backfilled | marker
  · cases ring with
    | none => simp [backfillOps] at backfilled
    | some ring =>
        obtain ⟨entry, entryMember, rfl⟩ := List.mem_map.mp backfilled
        obtain ⟨_, env, carries, _⟩ := (rings key ring before).entries entry
          (List.mem_filter.mp entryMember).1
        have newest : ring.Newest (backlog key (some ring) since) := numbered
        have mine : QueueOp.envelope? key
            (.published key ring.kind ring.epoch entry) = some env :=
          carries.on_eq
        rw [split, List.filterMap_append, List.filterMap_cons, mine] at pushes
        obtain ⟨kindEq, epochEq⟩ := identified ring after
        refine ⟨env, carries, fun _ => ⟨kindEq, epochEq, ?_, ?_⟩⟩
        · refine (newest.bounds ?_).1
          rw [← pushes]
          simp
        · intro old oldMember
          have sorted := newest.increasing
          rw [← pushes, List.pairwise_append] at sorted
          exact sorted.2.2 old (by simpa using oldMember) env (by simp)
  · rw [List.mem_singleton.mp marker]
    exact ⟨rfl, rfl⟩

theorem Lives.rings_sourced (lives : Lives limits id acct c events acct' c')
    (rings : acct.Sourced origins)
    (stamps : ∀ event ∈ events, event.Stamps origins) :
    acct'.Sourced origins :=
  lives.preserves (fun now _ => now.Sourced origins)
    (fun _ _ act _ before => act.sourced before
      (fun _ _ _ absurdity => by cases absurdity))
    (fun event member _ _ _ _ _ _ _ _ act _ before =>
      act.sourced before (stamps event member)) rings

/-- What holds of markers, of presence and of the frames that events offer holds of all
frames in a queue that belong to no stream. -/
theorem Passes.forall_loose {Holds : Frame → Prop}
    (marker : ∀ marker, Holds (.of (.backfilled marker)))
    (presence : ∀ presence, Holds (.of (.presence presence)))
    (passes : Passes limits event id c c') (ok : c.out.Ok)
    (given : ∀ frame, event = .frame id frame → Holds frame)
    (before : ∀ frame ∈ c.out.loose, Holds frame) :
    ∀ frame ∈ c'.out.loose, Holds frame := by
  intro frame member
  rw [passes.performs.loose_eq ok] at member
  rcases List.mem_append.mp member with old | new
  · exact before frame old
  obtain ⟨op, among, isFrame⟩ := List.mem_filterMap.mp new
  cases op with
  | published => cases isFrame
  | purge => cases isFrame
  | frame sent =>
      obtain rfl : sent = frame := Option.some.inj isFrame
      cases event with
      | frame target offered =>
          simp only [Event.ops] at among
          split at among
          · rename_i mine
            cases mine
            cases List.mem_singleton.mp among
            exact given sent rfl
          · simp at among
      | subscribed target key since ring =>
          simp only [Event.ops] at among
          split at among
          · rcases List.mem_cons.mp among with purge | later
            · cases purge
            rcases List.mem_append.mp later with backfilled | isMarker
            · cases ring with
              | none => simp [backfillOps] at backfilled
              | some ring => simp [backfillOps] at backfilled
            · cases List.mem_singleton.mp isMarker
              exact marker _
          · simp at among
      | joined other conn role =>
          cases List.mem_singleton.mp among
          exact presence _
      | left other principal role =>
          cases List.mem_singleton.mp among
          exact presence _
      | _ => simp [Event.ops] at among

theorem Lives.forall_loose {Holds : Frame → Prop}
    (marker : ∀ marker, Holds (.of (.backfilled marker)))
    (presence : ∀ presence, Holds (.of (.presence presence)))
    (lives : Lives limits id acct c events acct' c') (ok : c.out.Ok)
    (given : ∀ event ∈ events, ∀ frame, event = .frame id frame → Holds frame)
    (before : ∀ frame ∈ c.out.loose, Holds frame) :
    ∀ frame ∈ c'.out.loose, Holds frame :=
  (lives.preserves (fun _ now => now.out.Ok ∧ ∀ frame ∈ now.out.loose, Holds frame)
    (fun _ _ _ passes before => ⟨passes.performs.ok before.1,
      passes.forall_loose marker presence before.1 (fun _ absurdity => by cases absurdity)
        before.2⟩)
    (fun event member _ _ _ _ _ _ _ _ _ passes before =>
      ⟨passes.performs.ok before.1,
        passes.forall_loose marker presence before.1 (given event member) before.2⟩)
    ⟨ok, before⟩).2

theorem Passes.gapless (passes : Passes limits event id c c')
    (ok : c.out.Ok)
    (clear : ∀ frame, event = .frame id frame → frame.gap? = none)
    (gapless : c.Gapless) : c'.Gapless :=
  passes.forall_loose (fun _ => rfl) (fun _ => rfl) ok clear gapless

theorem Lives.gapless (lives : Lives limits id acct c events acct' c')
    (ok : c.out.Ok)
    (clear : ∀ event ∈ events, ∀ frame, event = .frame id frame →
      frame.gap? = none) (gapless : c.Gapless) : c'.Gapless :=
  lives.forall_loose (fun _ => rfl) (fun _ => rfl) ok clear gapless

/-- A connection goes through events, and none of them renews the
subscription. -/
theorem Lives.followed (lives : Lives limits id acct c events acct' c')
    (rings : acct.Sourced origins) (ok : c.out.Ok)
    (stamps : ∀ event ∈ events, event.Stamps origins)
    (clear : ∀ event ∈ events, event.Clear id key)
    (stays : ∀ since ring, .subscribed id key since ring ∉ events)
    (followed : key ∈ c.subs → c.Followed key given pushed acct)
    (hears : key ∈ c'.subs) :
    c'.Followed key given
      (pushed ++ events.filterMap (Event.publication key)) acct' := by
  have quiet : Event.Stamps origins .quiet :=
    fun _ _ _ absurdity => by cases absurdity
  induction lives with
  | start found => simpa using followed hears
  | quiet lives act found passes ih =>
      have after := passes.followed lives.last act (lives.queue_ok ok)
        (lives.rings_sourced rings stamps) quiet
        (fun _ absurdity => by cases absurdity)
        (fun _ _ absurdity => by cases absurdity)
        (ih ok stamps clear stays followed) hears
      simpa [Event.publication] using after
  | @event _ _ _ _ _ events event _ _ lives act found passes ih =>
      have stampsBefore : ∀ event ∈ events, event.Stamps origins :=
        fun event member => stamps event (by simp [member])
      have after := passes.followed lives.last act (lives.queue_ok ok)
        (lives.rings_sourced rings stampsBefore)
        (stamps event (by simp)) (clear event (by simp))
        (fun since ring same => stays since ring (by simp [same]))
        (ih ok stampsBefore
          (fun event member => clear event (by simp [member]))
          (fun since ring member => stays since ring (by simp [member]))
          followed) hears
      have one : [event].filterMap (Event.publication key) =
          (event.publication key).toList := by
        cases found : event.publication key <;> simp [found]
      rw [List.filterMap_append, one, ← List.append_assoc]
      exact after

/-- The first of the events that a connection goes through. -/
theorem Lives.uncons
    (lives : Lives limits id acct c (event :: events) acct' c') :
    ∃ before after b b' fx fx', Lives limits id acct c [] before b ∧
      Act limits before fx event after fx' ∧ Passes limits event id b b' ∧
      Lives limits id after b' events acct' c' := by
  generalize all : event :: events = whole at lives
  induction lives generalizing events with
  | start => cases all
  | quiet lives act found passes ih =>
      obtain ⟨before, after, b, b', fx, fx', start, first, passed, rest⟩ :=
        ih all
      exact ⟨before, after, b, b', fx, fx', start, first, passed,
        .quiet rest act found passes⟩
  | @event _ _ _ _ _ earlier last _ _ lives act found passes ih =>
      cases earlier with
      | nil =>
          obtain ⟨rfl, rfl⟩ := List.cons.inj all
          exact ⟨_, _, _, _, _, _, lives, act, passes, .start found⟩
      | cons other earlier =>
          obtain ⟨rfl, rfl⟩ := List.cons.inj all
          obtain ⟨before, after, b, b', fx, fx', start, first, passed,
            rest⟩ := ih rfl
          exact ⟨before, after, b, b', fx, fx', start, first, passed,
            .event rest act found passes⟩

/-- A subscription is to a stream that has both ids, and stays so. -/
theorem Lives.subs_valid (lives : Lives limits id acct c events acct' c')
    (asked : ∀ key since ring, .subscribed id key since ring ∈ events →
      key.Valid limits)
    (valid : ∀ key ∈ c.subs, key.Valid limits) :
    ∀ key ∈ c'.subs, key.Valid limits := by
  refine lives.preserves
    (fun _ now => ∀ key ∈ now.subs, key.Valid limits) ?_ ?_ valid
  · intro _ _ _ _ _ _ _ _ _ passes before key member
    exact before key ((passes.subs_iff key).mp member)
  · intro event among _ _ _ _ _ _ _ _ _ passes before key member
    have subs := (passes.subs_iff key).mp member
    cases event with
    | subscribed target other since ring =>
        rcases subs with old | ⟨rfl, rfl⟩
        · exact before key old
        · exact asked key since ring among
    | unsubscribed target other => exact before key subs.1
    | _ => exact before key subs

end Events

end WindowMlHub
