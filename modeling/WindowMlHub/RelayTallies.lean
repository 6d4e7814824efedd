import WindowMlHub.RelayProvenance

/-!
# The account of one subscription

What a connection is sent of a stream since it subscribed, and what it is not
sent.  An envelope that is pushed waits in the queue until it is handed out, or
a later envelope with the same key supersedes it, or it is dropped to make room.
Dropped envelopes are pending until a gap reports them.  Only telemetry is ever
superseded or dropped.
-/

namespace WindowMlHub

open CheckedEvaluation HashTables

namespace Frame

/-- The envelope of a stream that a frame carries. -/
def on? (key : StreamKey) (frame : Frame) : Option Envelope :=
  frame.envelope?.filter fun env =>
    decide (env.sender = key.publisher) &&
      decide (env.sentTo = some (.channel key.channel))

/-- The report of telemetry dropped on a stream that a frame carries. -/
def gapOn? (key : StreamKey) (frame : Frame) : Option Gap :=
  frame.gap?.filter fun gap => decide (gap.stream = some key.toRef)

end Frame

/-- The envelopes of a stream among these frames. -/
def envelopesOf (key : StreamKey) (frames : List Frame) : List Envelope :=
  frames.filterMap (Frame.on? key)

/-- What has been handed out of a stream: its envelopes in the order of their
numbers, some of them right after the report of what was dropped since the last
one.  The index is the number handed out last, 0 when there is none. -/
inductive Relayed (key : StreamKey) :
    List Frame → List (List Envelope) → Nat → Prop
  | start : Relayed key [] [] 0
  | other {frames : List Frame} {reported : List (List Envelope)}
      {last : Nat} {frame : Frame} (relayed : Relayed key frames reported last)
      (noEnvelope : frame.on? key = none) (noGap : frame.gapOn? key = none) :
      Relayed key (frames ++ [frame]) reported last
  | envelope {frames : List Frame} {reported : List (List Envelope)}
      {last : Nat} {env : Envelope} (relayed : Relayed key frames reported last)
      (mine : Frame.on? key (.of (.envelope env)) = some env)
      (newer : last < env.seq) :
      Relayed key (frames ++ [.of (.envelope env)]) reported env.seq
  | gap {frames : List Frame} {reported : List (List Envelope)} {last : Nat}
      {env : Envelope} {lost : List Envelope}
      (relayed : Relayed key frames reported last)
      (mine : Frame.on? key (.of (.envelope env)) = some env)
      (newer : last < env.seq) (positive : 1 ≤ lost.length)
      (between : ∀ gone ∈ lost, last < gone.seq ∧ gone.seq < env.seq) :
      Relayed key
        (frames ++ [
          .of (.gap ⟨some key.toRef, env.epoch, lost.length, env.seq⟩),
          .of (.envelope env)])
        (reported ++ [lost]) env.seq

/-- The pushed envelopes of a subscription that are neither handed out nor
queued: those superseded, those that each gap has reported, and those dropped
since. -/
structure Tally where
  superseded : List Envelope := []
  reported : List (List Envelope) := []
  pending : List Envelope := []

/-- Every superseded envelope has a later one of the same non-empty key. -/
def Tally.Explained (tally : Tally) (pushed : List Envelope) : Prop :=
  ∀ old ∈ tally.superseded, ∃ new ∈ pushed, old.seq < new.seq ∧
    new.coalesce = old.coalesce ∧ old.coalesce ≠ []

/-- An item is this envelope of a stream. -/
structure Item.Bears (item : Item) (key : StreamKey) (kind : Kind)
    (epoch : Nat) (env : Envelope) : Prop where
  wire_eq : item.wire = .of (.envelope env)
  on_eq : item.wire.on? key = some env
  seq_eq : item.seq = env.seq
  epoch_eq : env.epoch = epoch
  itemEpoch_eq : item.epoch = epoch
  coalesce_eq : item.coalesce = env.coalesce
  telemetry_eq : item.telemetry = decide (kind = .telemetry)

/-- What the queue notes about an item tells whether it is an envelope of a
stream, and which. -/
structure Item.Legible (key : StreamKey) (kind : Kind) (epoch : Nat)
    (item : Item) : Prop where
  mine : item.stream = some key → ∃ env, item.Bears key kind epoch env
  foreign : item.stream ≠ some key → item.wire.on? key = none
  noGap : item.wire.gap? = none

/-- The envelopes of a stream that wait among these items. -/
def waiting (key : StreamKey) (items : List Item) : List Envelope :=
  envelopesOf key (items.map (·.wire))

/-- The account of a subscription: which frames were handed out since, which
envelopes were pushed, and what the queue holds. -/
structure Tallied (key : StreamKey) (kind : Kind) (epoch : Nat)
    (given : List Frame) (pushed : List Envelope) (items : List Item)
    (dropped : HashMap StreamKey Dropped) (tally : Tally) (last : Nat) :
    Prop where
  legible : ∀ item ∈ items, item.Legible key kind epoch
  relayed : Relayed key given tally.reported last
  balance : (envelopesOf key given ++ waiting key items ++
    tally.superseded ++ (tally.reported.flatten ++ tally.pending)).Perm pushed
  increasing : (waiting key items).Pairwise fun first second =>
    first.seq < second.seq
  newer : ∀ env ∈ waiting key items, last < env.seq
  between : ∀ gone ∈ tally.pending, last < gone.seq ∧
    ∀ env ∈ waiting key items, gone.seq < env.seq
  owed : dropped.lookup key =
    if tally.pending = [] then none else some ⟨epoch, tally.pending.length⟩
  spared : kind ≠ .telemetry → tally = {}

section Reading

variable {key : StreamKey} {kind : Kind} {epoch : Nat}

theorem Frame.on?_eq_some {frame : Frame} {env : Envelope} :
    frame.on? key = some env ↔ frame = .of (.envelope env) ∧
      env.sender = key.publisher ∧
      env.sentTo = some (.channel key.channel) := by
  have carried : frame.envelope? = some env ↔ frame = .of (.envelope env) := by
    constructor
    · intro carried
      unfold Frame.envelope? at carried
      split at carried
      · rw [Option.some.inj carried]
        rfl
      · cases carried
    · rintro rfl
      rfl
  simp [on?, Option.filter_eq_some_iff, carried]

theorem Frame.on?_of_envelope {frame : Frame}
    (noEnvelope : frame.envelope? = none) : frame.on? key = none := by
  simp [on?, noEnvelope]

theorem Frame.gapOn?_of_gap {frame : Frame} (noGap : frame.gap? = none) :
    frame.gapOn? key = none := by
  simp [gapOn?, noGap]

theorem Frame.on?_of_other {other : StreamKey} {frame : Frame}
    {env : Envelope} (theirs : frame.on? other = some env)
    (differs : other ≠ key) : frame.on? key = none := by
  obtain ⟨rfl, sender, sentTo⟩ := on?_eq_some.mp theirs
  rw [Option.eq_none_iff_forall_ne_some]
  intro env' mine
  obtain ⟨same, sender', sentTo'⟩ := on?_eq_some.mp mine
  cases same
  apply differs
  rw [sender] at sender'
  simp only [sentTo, Option.some.injEq, To.channel.injEq] at sentTo'
  cases other
  cases key
  simp_all

@[simp]
theorem envelopesOf_nil : envelopesOf key [] = [] := rfl

@[simp]
theorem envelopesOf_append (first second : List Frame) :
    envelopesOf key (first ++ second) =
      envelopesOf key first ++ envelopesOf key second :=
  List.filterMap_append

theorem envelopesOf_single (frame : Frame) :
    envelopesOf key [frame] = (frame.on? key).toList := by
  cases found : frame.on? key <;> simp [envelopesOf, found]

@[simp]
theorem waiting_nil : waiting key [] = [] := rfl

@[simp]
theorem waiting_append (first second : List Item) :
    waiting key (first ++ second) =
      waiting key first ++ waiting key second := by
  simp [waiting]

theorem waiting_cons (item : Item) (rest : List Item) :
    waiting key (item :: rest) =
      (item.wire.on? key).toList ++ waiting key rest := by
  rw [← List.singleton_append, waiting_append, waiting, List.map_singleton,
    envelopesOf_single]

theorem Relayed.last_mem {frames : List Frame}
    {reported : List (List Envelope)} {last : Nat}
    (relayed : Relayed key frames reported last) :
    last = 0 ∨ ∃ env ∈ envelopesOf key frames, env.seq = last := by
  induction relayed with
  | start => exact Or.inl rfl
  | other relayed noEnvelope noGap ih =>
      rcases ih with zero | ⟨env, member, seqEq⟩
      · exact Or.inl zero
      · exact Or.inr ⟨env, by simp [member], seqEq⟩
  | envelope relayed mine newer ih =>
      exact Or.inr ⟨_, by simp [envelopesOf, mine], rfl⟩
  | gap relayed mine newer positive between ih =>
      exact Or.inr ⟨_, by simp [envelopesOf, mine], rfl⟩

/-- The numbers of the envelopes handed out increase. -/
theorem Relayed.increasing {frames : List Frame}
    {reported : List (List Envelope)} {last : Nat}
    (relayed : Relayed key frames reported last) :
    (envelopesOf key frames).Pairwise (fun first second =>
      first.seq < second.seq) ∧ ∀ env ∈ envelopesOf key frames,
        env.seq ≤ last := by
  have extend {frames : List Frame} {last : Nat} {env : Envelope}
      (newer : last < env.seq)
      (before : (envelopesOf key frames).Pairwise (fun first second =>
        first.seq < second.seq) ∧ ∀ env ∈ envelopesOf key frames,
          env.seq ≤ last) :
      (envelopesOf key frames ++ [env]).Pairwise (fun first second =>
        first.seq < second.seq) ∧ ∀ other ∈ envelopesOf key frames ++ [env],
          other.seq ≤ env.seq := by
    refine ⟨List.pairwise_append.mpr ⟨before.1, by simp, ?_⟩, ?_⟩
    · intro other member last' isLast
      rw [List.mem_singleton.mp isLast]
      exact Nat.lt_of_le_of_lt (before.2 other member) newer
    · intro other member
      rcases List.mem_append.mp member with old | new
      · exact (Nat.lt_of_le_of_lt (before.2 other old) newer).le
      · rw [List.mem_singleton.mp new]
  induction relayed with
  | start => simp
  | other relayed noEnvelope noGap ih =>
      rw [envelopesOf_append, envelopesOf_single, noEnvelope]
      simpa using ih
  | envelope relayed mine newer ih =>
      rw [envelopesOf_append, envelopesOf_single, mine]
      exact extend newer ih
  | gap relayed mine newer positive between ih =>
      have noEnvelope (gap : Gap) :
          envelopesOf key [Frame.of (.gap gap)] = [] := rfl
      rw [← List.singleton_append, envelopesOf_append, envelopesOf_append,
        noEnvelope, List.nil_append, envelopesOf_single, mine]
      exact extend newer ih

theorem Item.legible_ofFrame {frame : Frame} (noEnvelope : frame.on? key = none)
    (noGap : frame.gap? = none) :
    (Item.ofFrame frame).Legible key kind epoch :=
  ⟨fun absurdity => (by cases absurdity), fun _ => noEnvelope, noGap⟩

theorem Entry.Carries.on_eq {entry : Entry} {env : Envelope}
    (carries : entry.Carries key kind epoch env) :
    entry.wire.on? key = some env :=
  Frame.on?_eq_some.mpr
    ⟨carries.wire_eq, carries.sender_eq, carries.sentTo_eq⟩

theorem Item.bears_ofEntry {entry : Entry} {env : Envelope}
    (carries : entry.Carries key kind epoch env) :
    (Item.ofEntry key kind epoch entry).Bears key kind epoch env :=
  ⟨carries.wire_eq, carries.on_eq, carries.seq_eq.symm, carries.epoch_eq, rfl,
    carries.coalesce_eq.symm, rfl⟩

theorem Item.legible_ofEntry {other : StreamKey} {otherKind : Kind}
    {otherEpoch : Nat} {entry : Entry} {env : Envelope}
    (carries : entry.Carries other otherKind otherEpoch env)
    (same : other = key → otherKind = kind ∧ otherEpoch = epoch) :
    (Item.ofEntry other otherKind otherEpoch entry).Legible key kind epoch := by
  refine ⟨fun mine => ?_, fun differs => ?_, ?_⟩
  · obtain rfl : other = key := Option.some.inj mine
    obtain ⟨rfl, rfl⟩ := same rfl
    exact ⟨env, bears_ofEntry carries⟩
  · exact Frame.on?_of_other carries.on_eq
      (fun mine => differs (congrArg some mine))
  · show entry.wire.gap? = none
    rw [carries.wire_eq]
    rfl

end Reading

/-! ## What the queue operations do to the account -/

section Operations

variable {key : StreamKey} {kind : Kind} {epoch : Nat} {given : List Frame}
  {pushed : List Envelope} {items before after : List Item} {item : Item}
  {dropped : HashMap StreamKey Dropped} {tally : Tally} {last : Nat}

theorem waiting_foreign
    (legible : ∀ item ∈ items, item.Legible key kind epoch)
    (foreign : ∀ item ∈ items, item.stream ≠ some key) :
    waiting key items = [] := by
  induction items with
  | nil => rfl
  | cons item items ih =>
      rw [waiting_cons, (legible item (by simp)).foreign
        (foreign item (by simp)), ih
          (fun other member => legible other (by simp [member]))
          (fun other member => foreign other (by simp [member]))]
      rfl

theorem Tallied.mem_pushed
    (tallied : Tallied key kind epoch given pushed items dropped tally last)
    {env : Envelope} (member : env ∈ waiting key items) : env ∈ pushed := by
  rw [← tallied.balance.mem_iff]
  simp [member]

theorem Tallied.last_lt
    (tallied : Tallied key kind epoch given pushed items dropped tally last)
    {env : Envelope} (positive : 0 < env.seq)
    (newest : ∀ old ∈ pushed, old.seq < env.seq) : last < env.seq := by
  rcases tallied.relayed.last_mem with rfl | ⟨old, member, rfl⟩
  · exact positive
  · apply newest
    rw [← tallied.balance.mem_iff]
    simp [member]

theorem Tallied.of_waiting_eq {items' : List Item}
    {dropped' : HashMap StreamKey Dropped}
    (tallied : Tallied key kind epoch given pushed items dropped tally last)
    (legible : ∀ item ∈ items', item.Legible key kind epoch)
    (same : waiting key items' = waiting key items)
    (sameDrops : dropped'.lookup key = dropped.lookup key) :
    Tallied key kind epoch given pushed items' dropped' tally last where
  legible := legible
  relayed := tallied.relayed
  balance := same ▸ tallied.balance
  increasing := same ▸ tallied.increasing
  newer := same ▸ tallied.newer
  between := same ▸ tallied.between
  owed := sameDrops.trans tallied.owed
  spared := tallied.spared

theorem Tallied.append
    (tallied : Tallied key kind epoch given pushed items dropped tally last)
    (legible : item.Legible key kind epoch)
    (foreign : item.stream ≠ some key) :
    Tallied key kind epoch given pushed (items ++ [item]) dropped tally
      last := by
  refine tallied.of_waiting_eq ?_ ?_ rfl
  · intro other member
    rcases List.mem_append.mp member with old | new
    · exact tallied.legible other old
    · rw [List.mem_singleton.mp new]
      exact legible
  · rw [waiting_append, waiting_cons, legible.foreign foreign]
    simp

/-- Another stream is purged. -/
theorem Tallied.purge {other : StreamKey}
    (tallied : Tallied key kind epoch given pushed items dropped tally last)
    (differs : other ≠ key) :
    Tallied key kind epoch given pushed
      (items.filter fun item => decide (item.stream ≠ some other))
      (dropped.erase other) tally last := by
  refine tallied.of_waiting_eq
    (fun item member => tallied.legible item (List.mem_filter.mp member).1)
    ?_ (by rw [HashMap.lookup_erase_eq, if_neg (Ne.symm differs)])
  have all := tallied.legible
  clear tallied
  induction items with
  | nil => rfl
  | cons item items ih =>
      have later := ih fun item member => all item (by simp [member])
      by_cases theirs : item.stream = some other
      · have foreign := (all item (by simp)).foreign
          (by simpa [theirs] using differs)
        simp [theirs, waiting_cons, foreign, ← later]
      · rw [List.filter_cons_of_pos (by simpa using theirs), waiting_cons,
          waiting_cons, later]

/-- An envelope of the stream is pushed, newer than all before. -/
theorem Tallied.push {env : Envelope}
    (tallied : Tallied key kind epoch given pushed items dropped tally last)
    (legible : item.Legible key kind epoch)
    (bears : item.Bears key kind epoch env) (positive : 0 < env.seq)
    (newest : ∀ old ∈ pushed, old.seq < env.seq) :
    Tallied key kind epoch given (pushed ++ [env]) (items ++ [item]) dropped
      tally last := by
  have appended : waiting key (items ++ [item]) = waiting key items ++ [env] := by
    rw [waiting_append, waiting_cons, bears.on_eq]
    simp
  refine ⟨?_, tallied.relayed, ?_, ?_, ?_, ?_, tallied.owed, tallied.spared⟩
  · intro other member
    rcases List.mem_append.mp member with old | new
    · exact tallied.legible other old
    · rw [List.mem_singleton.mp new]
      exact legible
  · rw [appended, List.perm_iff_count]
    intro probe
    have counts := tallied.balance.count_eq probe
    simp only [List.count_append] at counts ⊢
    omega
  · rw [appended, List.pairwise_append]
    refine ⟨tallied.increasing, by simp, ?_⟩
    intro old member new isNew
    rw [List.mem_singleton.mp isNew]
    exact newest old (tallied.mem_pushed member)
  · rw [appended]
    intro other member
    rcases List.mem_append.mp member with old | new
    · exact tallied.newer other old
    · rw [List.mem_singleton.mp new]
      exact tallied.last_lt positive newest
  · rw [appended]
    intro gone isPending
    obtain ⟨above, below⟩ := tallied.between gone isPending
    refine ⟨above, fun other member => ?_⟩
    rcases List.mem_append.mp member with old | new
    · exact below other old
    · rw [List.mem_singleton.mp new]
      apply newest
      rw [← tallied.balance.mem_iff]
      simp [isPending]

theorem Tallied.remove {dropped' : HashMap StreamKey Dropped}
    (tallied : Tallied key kind epoch given pushed (before ++ item :: after)
      dropped tally last) (foreign : item.stream ≠ some key)
    (sameDrops : dropped'.lookup key = dropped.lookup key) :
    Tallied key kind epoch given pushed (before ++ after) dropped' tally
      last := by
  refine tallied.of_waiting_eq ?_ ?_ sameDrops
  · intro other member
    apply tallied.legible
    rcases List.mem_append.mp member with old | new
    · simp [old]
    · simp [new]
  · rw [waiting_append, waiting_append, waiting_cons,
      (tallied.legible item (by simp)).foreign foreign]
    rfl

/-- A queued envelope of the stream is superseded. -/
theorem Tallied.supersede {env : Envelope}
    (tallied : Tallied key kind epoch given pushed (before ++ item :: after)
      dropped tally last) (bears : item.Bears key kind epoch env)
    (isTelemetry : item.telemetry = true) :
    Tallied key kind epoch given pushed (before ++ after) dropped
      { tally with superseded := tally.superseded ++ [env] } last := by
  have split : waiting key (before ++ item :: after) =
      waiting key before ++ env :: waiting key after := by
    rw [waiting_append, waiting_cons, bears.on_eq]
    rfl
  have sublist : (waiting key (before ++ after)).Sublist
      (waiting key (before ++ item :: after)) := by
    rw [split, waiting_append]
    exact (List.Sublist.refl _).append (List.sublist_cons_self _ _)
  refine ⟨?_, tallied.relayed, ?_, tallied.increasing.sublist sublist,
    fun other member => tallied.newer other (sublist.subset member),
    fun gone isPending => ⟨(tallied.between gone isPending).1,
      fun other member => (tallied.between gone isPending).2 other
        (sublist.subset member)⟩, tallied.owed, ?_⟩
  · intro other member
    apply tallied.legible
    rcases List.mem_append.mp member with old | new
    · simp [old]
    · simp [new]
  · rw [List.perm_iff_count]
    intro probe
    have counts := tallied.balance.count_eq probe
    rw [split] at counts
    simp only [waiting_append, List.count_append, List.count_cons,
      List.count_nil] at counts ⊢
    omega
  · intro noTelemetry
    have flag := bears.telemetry_eq
    simp [isTelemetry, noTelemetry] at flag

/-- The oldest telemetry is dropped, of whatever stream it is. -/
theorem Tallied.drop {stream : StreamKey}
    (tallied : Tallied key kind epoch given pushed (before ++ item :: after)
      dropped tally last)
    (oldest : ∀ other ∈ before, other.telemetry = false)
    (isTelemetry : item.telemetry = true)
    (belongs : item.stream = some stream) :
    ∃ tally', tally'.superseded = tally.superseded ∧
      Tallied key kind epoch given pushed (before ++ after)
        (Outbound.recordDrop dropped stream item.epoch) tally' last := by
  by_cases same : stream = key
  swap
  · refine ⟨tally, rfl, tallied.remove (by simpa [belongs] using same) ?_⟩
    rw [Outbound.recordDrop, HashMap.lookup_insert_eq, if_neg (Ne.symm same)]
  subst same
  obtain ⟨env, bears⟩ := (tallied.legible item (by simp)).mine belongs
  have streamed : kind = .telemetry := by
    simpa [isTelemetry] using bears.telemetry_eq
  -- nothing of the stream is older
  have noneBefore : waiting stream before = [] := by
    apply waiting_foreign (fun other member =>
      tallied.legible other (by simp [member]))
    intro other member theirs
    obtain ⟨_, otherBears⟩ :=
      (tallied.legible other (by simp [member])).mine theirs
    simpa [oldest other member, streamed] using otherBears.telemetry_eq
  have split : waiting stream (before ++ item :: after) =
      env :: waiting stream after := by
    rw [waiting_append, waiting_cons, bears.on_eq, noneBefore]
    rfl
  have remaining : waiting stream (before ++ after) = waiting stream after := by
    rw [waiting_append, noneBefore, List.nil_append]
  have increasing := tallied.increasing
  have newer := tallied.newer
  have between := tallied.between
  rw [split] at increasing newer between
  obtain ⟨first, increasing⟩ := List.pairwise_cons.mp increasing
  refine ⟨{ tally with pending := tally.pending ++ [env] }, rfl, ?_,
    tallied.relayed, ?_, ?_, ?_, ?_, ?_, ?_⟩
  · intro other member
    apply tallied.legible
    rcases List.mem_append.mp member with old | new
    · simp [old]
    · simp [new]
  · rw [remaining, List.perm_iff_count]
    intro probe
    have counts := tallied.balance.count_eq probe
    rw [split] at counts
    simp only [List.count_append, List.count_cons, List.count_nil] at counts ⊢
    omega
  · rw [remaining]
    exact increasing
  · rw [remaining]
    exact fun other member => newer other (List.mem_cons_of_mem _ member)
  · rw [remaining]
    intro gone isPending
    rcases List.mem_append.mp isPending with old | new
    · exact ⟨(between gone old).1, fun other member =>
        (between gone old).2 other (List.mem_cons_of_mem _ member)⟩
    · rw [List.mem_singleton.mp new]
      exact ⟨newer env List.mem_cons_self, first⟩
  · rw [Outbound.recordDrop, HashMap.lookup_insert_eq, if_pos rfl,
      tallied.owed, bears.itemEpoch_eq]
    by_cases nothing : tally.pending = []
    · simp [nothing]
    · simp [nothing]
  · exact fun noTelemetry => (noTelemetry streamed).elim

/-- An envelope of the stream is handed out, and with it the report of what was
dropped before. -/
theorem Tallied.hand {env : Envelope} {rest : List Item}
    {frames : List Frame} {reported : List (List Envelope)}
    {dropped' : HashMap StreamKey Dropped}
    (tallied : Tallied key kind epoch given pushed (item :: rest) dropped
      tally last)
    (bears : item.Bears key kind epoch env)
    (relayed : Relayed key (given ++ frames) reported env.seq)
    (handed : envelopesOf key frames = [env])
    (moved : reported.flatten = tally.reported.flatten ++ tally.pending)
    (cleared : dropped'.lookup key = none)
    (spared : kind ≠ .telemetry → reported = []) :
    Tallied key kind epoch (given ++ frames) pushed rest dropped'
      ⟨tally.superseded, reported, []⟩ env.seq := by
  have split : waiting key (item :: rest) = env :: waiting key rest := by
    rw [waiting_cons, bears.on_eq]
    rfl
  have increasing := tallied.increasing
  rw [split] at increasing
  obtain ⟨first, increasing⟩ := List.pairwise_cons.mp increasing
  refine ⟨fun other member => tallied.legible other (by simp [member]),
    relayed, ?_, increasing, first, by simp, by simpa using cleared, ?_⟩
  · rw [List.perm_iff_count]
    intro probe
    have counts := tallied.balance.count_eq probe
    rw [split] at counts
    simp only [envelopesOf_append, handed, moved, List.count_append,
      List.count_cons, List.count_nil] at counts ⊢
    omega
  · intro noTelemetry
    simp [tallied.spared noTelemetry, spared noTelemetry]

theorem StreamKey.toRef_injective {other : StreamKey}
    (same : other.toRef = key.toRef) : other = key := by
  cases other
  cases key
  simpa [toRef] using same

/-- Frames of other streams are handed out. -/
theorem Tallied.hand_foreign {rest : List Item}
    (tallied : Tallied key kind epoch given pushed (item :: rest) dropped
      tally last) (foreign : item.stream ≠ some key) :
    ∃ frames dropped',
      (∀ taken, (Outbound.handOut dropped (item :: taken)) =
        (frames ++ (Outbound.handOut dropped' taken).1,
          (Outbound.handOut dropped' taken).2)) ∧
      Tallied key kind epoch (given ++ frames) pushed rest dropped' tally
        last := by
  have legible := tallied.legible item (by simp)
  have extend {dropped' : HashMap StreamKey Dropped} {frames : List Frame}
      (relayed : Relayed key (given ++ frames) tally.reported last)
      (nothing : envelopesOf key frames = [])
      (sameDrops : dropped'.lookup key = dropped.lookup key) :
      Tallied key kind epoch (given ++ frames) pushed rest dropped' tally
        last := by
    have before := Tallied.remove (show Tallied key kind epoch given pushed
      ([] ++ item :: rest) dropped tally last from tallied) foreign sameDrops
    exact { before with
      relayed := relayed
      balance := by simpa [nothing] using before.balance }
  have noEnvelope := legible.foreign foreign
  cases owed : Outbound.owedGap dropped item with
  | none =>
      refine ⟨[item.wire], dropped, fun taken => ?_, extend
        (.other tallied.relayed noEnvelope
          (Frame.gapOn?_of_gap legible.noGap)) ?_ rfl⟩
      · simp [Outbound.handOut, owed]
      · rw [envelopesOf_single, noEnvelope]
        rfl
  | some pair =>
      obtain ⟨other, debt⟩ := pair
      have differs : key ≠ other := by
        rintro rfl
        unfold Outbound.owedGap at owed
        split at owed
        · obtain ⟨stream, belongs, found⟩ := Option.bind_eq_some_iff.mp owed
          obtain ⟨_, _, pairEq⟩ := Option.map_eq_some_iff.mp found
          cases pairEq
          exact foreign belongs
        · cases owed
      have noGap : (Outbound.gapBefore item other debt).gapOn? key = none := by
        have otherRef : other.toRef ≠ key.toRef := fun same =>
          differs (StreamKey.toRef_injective same).symm
        simp [Outbound.gapBefore, Frame.gapOn?, Frame.gap?, Frame.of, otherRef]
      refine ⟨[Outbound.gapBefore item other debt, item.wire],
        dropped.erase other, fun taken => ?_, extend ?_ ?_ ?_⟩
      · simp [Outbound.handOut, owed]
      · have first : Relayed key
            (given ++ [Outbound.gapBefore item other debt]) tally.reported
            last := .other tallied.relayed rfl noGap
        have both := first.other noEnvelope
          (Frame.gapOn?_of_gap legible.noGap)
        simpa using both
      · rw [← List.singleton_append, envelopesOf_append, envelopesOf_single,
          envelopesOf_single, noEnvelope]
        rfl
      · rw [HashMap.lookup_erase_eq, if_neg differs]

/-- The first item is handed out. -/
theorem Tallied.hand_first {rest : List Item}
    (tallied : Tallied key kind epoch given pushed (item :: rest) dropped
      tally last) :
    ∃ frames dropped' tally' last',
      (∀ taken, (Outbound.handOut dropped (item :: taken)) =
        (frames ++ (Outbound.handOut dropped' taken).1,
          (Outbound.handOut dropped' taken).2)) ∧
      tally'.superseded = tally.superseded ∧
      Tallied key kind epoch (given ++ frames) pushed rest dropped' tally'
        last' := by
  by_cases belongs : item.stream = some key
  swap
  · obtain ⟨frames, dropped', ran, later⟩ := tallied.hand_foreign belongs
    exact ⟨frames, dropped', tally, last, ran, rfl, later⟩
  obtain ⟨env, bears⟩ := (tallied.legible item (by simp)).mine belongs
  have first : env ∈ waiting key (item :: rest) := by
    simp [waiting_cons, bears.on_eq]
  have newer := tallied.newer env first
  have mine : Frame.on? key (.of (.envelope env)) = some env := by
    rw [← bears.wire_eq]
    exact bears.on_eq
  by_cases nothing : tally.pending = []
  · have free : dropped.lookup key = none := by simp [tallied.owed, nothing]
    have noGap : Outbound.owedGap dropped item = none := by
      simp [Outbound.owedGap, belongs, free]
    refine ⟨[item.wire], dropped, ⟨tally.superseded, tally.reported, []⟩,
      env.seq, fun taken => ?_, rfl, tallied.hand bears ?_ ?_ ?_ free
      fun noTelemetry => by rw [tallied.spared noTelemetry]⟩
    · simp [Outbound.handOut, noGap]
    · rw [bears.wire_eq]
      exact .envelope tallied.relayed mine newer
    · rw [envelopesOf_single, bears.on_eq]
      rfl
    · simp [nothing]
  · have debt : dropped.lookup key =
        some ⟨epoch, tally.pending.length⟩ := by
      simp [tallied.owed, nothing]
    have streamed : kind = .telemetry := by
      by_contra noTelemetry
      exact nothing (by rw [tallied.spared noTelemetry])
    have isTelemetry : item.telemetry = true := by
      simp [bears.telemetry_eq, streamed]
    have owed : Outbound.owedGap dropped item =
        some (key, ⟨epoch, tally.pending.length⟩) := by
      simp [Outbound.owedGap, isTelemetry, belongs, debt]
    have gapEq : Outbound.gapBefore item key ⟨epoch, tally.pending.length⟩ =
        .of (.gap ⟨some key.toRef, env.epoch, tally.pending.length,
          env.seq⟩) := by
      rw [Outbound.gapBefore, bears.seq_eq, bears.epoch_eq]
    refine ⟨[Outbound.gapBefore item key ⟨epoch, tally.pending.length⟩,
      item.wire], dropped.erase key,
      ⟨tally.superseded, tally.reported ++ [tally.pending], []⟩, env.seq,
      fun taken => ?_, rfl, tallied.hand bears ?_ ?_ ?_ ?_
        fun noTelemetry => (noTelemetry streamed).elim⟩
    · simp [Outbound.handOut, owed]
    · rw [gapEq, bears.wire_eq]
      refine .gap tallied.relayed mine newer
        (List.length_pos_of_ne_nil nothing) fun gone isPending => ?_
      obtain ⟨above, below⟩ := tallied.between gone isPending
      exact ⟨above, below env first⟩
    · rw [← List.singleton_append, envelopesOf_append, envelopesOf_single,
        envelopesOf_single, bears.on_eq]
      rfl
    · simp
    · rw [HashMap.lookup_erase_eq, if_pos rfl]

theorem Tallied.handOut {taken rest : List Item}
    (tallied : Tallied key kind epoch given pushed (taken ++ rest) dropped
      tally last) :
    ∃ tally' last', tally'.superseded = tally.superseded ∧
      Tallied key kind epoch (given ++ (Outbound.handOut dropped taken).1)
        pushed rest (Outbound.handOut dropped taken).2 tally' last' := by
  induction taken generalizing given dropped tally last with
  | nil => exact ⟨tally, last, rfl, by simpa [Outbound.handOut] using tallied⟩
  | cons item taken ih =>
      obtain ⟨frames, dropped', tally', last', ran, same, next⟩ :=
        tallied.hand_first
      obtain ⟨tally'', last'', same', final⟩ := ih next
      refine ⟨tally'', last'', same'.trans same, ?_⟩
      rw [ran taken, ← List.append_assoc]
      exact final

/-- An envelope of any stream is pushed. -/
theorem Tallied.enter {other : StreamKey} {otherKind : Kind}
    {otherEpoch : Nat} {entry : Entry} {env : Envelope}
    (tallied : Tallied key kind epoch given pushed items dropped tally last)
    (carries : entry.Carries other otherKind otherEpoch env)
    (mine : other = key → otherKind = kind ∧ otherEpoch = epoch ∧
      0 < env.seq ∧ ∀ old ∈ pushed, old.seq < env.seq) :
    Tallied key kind epoch given (pushed ++ (entry.wire.on? key).toList)
      (items ++ [.ofEntry other otherKind otherEpoch entry]) dropped tally
      last := by
  have legible := Item.legible_ofEntry carries
    (fun same => ⟨(mine same).1, (mine same).2.1⟩)
  by_cases same : other = key
  · subst same
    obtain ⟨rfl, rfl, positive, newest⟩ := mine rfl
    rw [carries.on_eq]
    exact tallied.push legible (Item.bears_ofEntry carries) positive newest
  · have foreign : (Item.ofEntry other otherKind otherEpoch entry).stream ≠
        some key := by
      simpa [Item.ofEntry] using same
    rw [Frame.on?_of_other carries.on_eq same]
    simpa using tallied.append legible foreign

end Operations

/-! ## Performing operations -/

namespace QueueOp

/-- The envelope of a stream that an operation pushes. -/
def envelope? (key : StreamKey) : QueueOp → Option Envelope
  | .published _ _ _ entry => entry.wire.on? key
  | _ => none

/-- An operation that may be performed while a subscription goes on: it pushes
envelopes in the order of their numbers, and does not purge the stream. -/
def Fits (key : StreamKey) (kind : Kind) (epoch : Nat)
    (pushed : List Envelope) : QueueOp → Prop
  | .frame sent => sent.on? key = none ∧ sent.gap? = none
  | .published other otherKind otherEpoch entry =>
      ∃ env, entry.Carries other otherKind otherEpoch env ∧
        (other = key → otherKind = kind ∧ otherEpoch = epoch ∧
          0 < env.seq ∧ ∀ old ∈ pushed, old.seq < env.seq)
  | .purge other => other ≠ key

end QueueOp

section Performing

variable [Codec] {limits : Limits} {queue next final : Outbound}
  {op : QueueOp} {ops : List QueueOp} {key : StreamKey} {kind : Kind}
  {epoch : Nat} {given : List Frame} {pushed : List Envelope} {tally : Tally}
  {last : Nat}

theorem Outbound.Drops.tallied {lost : List Item}
    (drops : Outbound.Drops queue lost next)
    (tallied : Tallied key kind epoch given pushed queue.items queue.dropped
      tally last) :
    ∃ tally', tally'.superseded = tally.superseded ∧
      Tallied key kind epoch given pushed next.items next.dropped tally'
        last := by
  induction drops generalizing tally with
  | done queue => exact ⟨tally, rfl, tallied⟩
  | next oldest isTelemetry stream rest ih =>
      obtain ⟨tally', same, dropped⟩ :=
        tallied.drop oldest isTelemetry stream
      obtain ⟨tally'', same', final⟩ := ih dropped
      exact ⟨tally'', same'.trans same, final⟩

omit [Codec] in
theorem Tally.Explained.mono {more : List Envelope}
    (explained : tally.Explained pushed) {tally' : Tally}
    (same : tally'.superseded = tally.superseded) :
    tally'.Explained (pushed ++ more) := by
  intro old member
  rw [same] at member
  obtain ⟨new, among, later⟩ := explained old member
  exact ⟨new, List.mem_append_left _ among, later⟩

omit [Codec] in
/-- Coalescing takes out an envelope of the same key, which the new one
explains. -/
theorem Outbound.Superseded.tallied {stream : StreamKey} {entry : Entry}
    {env : Envelope} {before after : List Item} {old : Item}
    {dropped : HashMap StreamKey Dropped}
    (superseded : Outbound.Superseded stream entry.coalesce old)
    (carries : entry.Carries stream kind epoch env)
    (mine : stream = key → ∀ old ∈ pushed, old.seq < env.seq)
    (explained : tally.Explained pushed)
    {kind' : Kind} {epoch' : Nat}
    (tallied : Tallied key kind' epoch' given pushed (before ++ old :: after)
      dropped tally last) :
    ∃ tally', tally'.Explained (pushed ++ (entry.wire.on? key).toList) ∧
      Tallied key kind' epoch' given pushed (before ++ after) dropped tally'
        last := by
  obtain ⟨isTelemetry, belongs, sameKey, hasKey⟩ := superseded
  by_cases same : stream = key
  · subst same
    obtain ⟨oldEnv, bears⟩ := (tallied.legible old (by simp)).mine belongs
    refine ⟨_, ?_, tallied.supersede bears isTelemetry⟩
    intro gone member
    rcases List.mem_append.mp member with earlier | new
    · exact explained.mono rfl gone earlier
    · rw [List.mem_singleton.mp new]
      refine ⟨env, by simp [carries.on_eq], ?_, ?_, ?_⟩
      · apply mine rfl
        apply tallied.mem_pushed
        simp [waiting_cons, bears.on_eq]
      · rw [carries.coalesce_eq, ← sameKey, bears.coalesce_eq]
      · rw [← bears.coalesce_eq, sameKey]
        exact hasKey
  · exact ⟨tally, explained.mono rfl,
      tallied.remove (by simpa [belongs] using same) rfl⟩

/-- One operation keeps the account. -/
theorem Perform.tallied (ok : queue.Ok)
    (performed : Perform limits queue op next)
    (fits : op.Fits key kind epoch pushed)
    (explained : tally.Explained pushed)
    (tallied : Tallied key kind epoch given pushed queue.items queue.dropped
      tally last) :
    ∃ tally', tally'.Explained (pushed ++ (op.envelope? key).toList) ∧
      Tallied key kind epoch given (pushed ++ (op.envelope? key).toList)
        next.items next.dropped tally' last := by
  cases op with
  | frame frame =>
      rw [performed.of_frame ok]
      have appended := tallied.append (Item.legible_ofFrame fits.1 fits.2)
        (by simp [Item.ofFrame])
      refine ⟨tally, ?_, ?_⟩
      · simpa [QueueOp.envelope?] using explained
      · simpa [QueueOp.envelope?, Outbound.counted] using appended
  | purge other =>
      rw [performed.of_purge ok]
      have purged := tallied.purge fits
      refine ⟨tally, ?_, ?_⟩
      · simpa [QueueOp.envelope?] using explained
      · simpa [QueueOp.envelope?, Outbound.counted] using purged
  | published other otherKind otherEpoch entry =>
      obtain ⟨env, carries, mine⟩ := fits
      obtain ⟨_, superseded, lost, publishes⟩ := performed.of_published ok
      -- what is left to do once there is room
      have finish {room : Outbound} {tally' : Tally} (roomOk : room.Ok)
          (result : (next, Except.ok ()) = room.push
            (.ofEntry other otherKind otherEpoch entry) limits)
          (explained' : tally'.Explained
            (pushed ++ (entry.wire.on? key).toList))
          (before : Tallied key kind epoch given pushed room.items
            room.dropped tally' last) :
          ∃ tally', tally'.Explained
              (pushed ++ (entry.wire.on? key).toList) ∧
            Tallied key kind epoch given
              (pushed ++ (entry.wire.on? key).toList) next.items next.dropped
              tally' last := by
        have appended := Outbound.push_of_ok roomOk
          (congrArg Prod.snd result).symm
        rw [← result] at appended
        simp only at appended
        rw [appended]
        exact ⟨tally', explained', before.enter carries mine⟩
      generalize result : (next, Except.ok ()) = pair at publishes
      cases publishes with
      | event isEvent => exact finish ok result (explained.mono rfl) tallied
      | fresh isTelemetry drops =>
          obtain ⟨tally', same, dropped⟩ := drops.tallied tallied
          exact finish (drops.ok ok) result (explained.mono same) dropped
      | @coalesced before after old _ dropped stream room lost isTelemetry
          belongs replaced drops =>
          obtain rfl : other = stream := Option.some.inj belongs
          have sublist : (before ++ after).Sublist
              (before ++ old :: after) :=
            (List.Sublist.refl _).append (List.sublist_cons_self _ _)
          obtain ⟨tally', explained', removed⟩ := replaced.tallied carries
            (fun same => (mine same).2.2.2) explained tallied
          obtain ⟨tally'', same, final⟩ := drops.tallied removed
          refine finish (drops.ok (ok.of_sublist sublist _)) result ?_ final
          intro gone member
          rw [same] at member
          exact explained' gone member

/-- Operations in turn keep the account. -/
theorem Performs.tallied (ok : queue.Ok)
    (performed : Performs limits queue ops final)
    (fits : ∀ earlier op later, ops = earlier ++ op :: later →
      op.Fits key kind epoch
        (pushed ++ earlier.filterMap (QueueOp.envelope? key)))
    (explained : tally.Explained pushed)
    (tallied : Tallied key kind epoch given pushed queue.items queue.dropped
      tally last) :
    ∃ tally',
      tally'.Explained (pushed ++ ops.filterMap (QueueOp.envelope? key)) ∧
      Tallied key kind epoch given
        (pushed ++ ops.filterMap (QueueOp.envelope? key)) final.items
        final.dropped tally' last := by
  induction performed generalizing pushed tally with
  | done => exact ⟨tally, by simpa using explained, by simpa using tallied⟩
  | @next _ _ _ op ops first rest ih =>
      have firstFits : op.Fits key kind epoch pushed := by
        simpa using fits [] op ops rfl
      obtain ⟨tally', explained', next⟩ :=
        first.tallied ok firstFits explained tallied
      have split : (op :: ops).filterMap (QueueOp.envelope? key) =
          (op.envelope? key).toList ++
            ops.filterMap (QueueOp.envelope? key) := by
        cases found : op.envelope? key <;> simp [found]
      rw [split, ← List.append_assoc]
      refine ih (first.ok ok) ?_ explained' next
      intro earlier other later opsEq
      have laterFits := fits (op :: earlier) other later (by rw [opsEq]; rfl)
      cases found : op.envelope? key <;>
        simpa [found] using laterFits

end Performing

end WindowMlHub
