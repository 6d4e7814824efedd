import WindowMlHub.RelayQueue

/-!
# What the queue operations do

A queue whose counters agree with its items is determined by its items and its
unreported drops.  On such queues no operation panics, and each has a closed
form in terms of the item list.
-/

namespace WindowMlHub

open CheckedEvaluation HashTables

theorem findIdx?_split {α : Type} {test : α → Bool} {list : List α}
    {position : Nat} (found : list.findIdx? test = some position) :
    ∃ before value after, list = before ++ value :: after ∧
      before.length = position ∧ test value = true ∧
        ∀ other ∈ before, test other = false := by
  obtain ⟨bound, holds, earlier⟩ := List.findIdx?_eq_some_iff_getElem.mp found
  refine ⟨list.take position, list[position], list.drop (position + 1),
    ?_, ?_, holds, ?_⟩
  · rw [List.getElem_cons_drop, List.take_append_drop]
  · exact List.length_take_of_le (Nat.le_of_lt bound)
  · intro other member
    obtain ⟨index, indexBound, rfl⟩ := List.mem_iff_getElem.mp member
    rw [List.length_take] at indexBound
    have smaller : index < position := by omega
    simpa using earlier index smaller

/-- A telemetry item belongs to a stream and is no session event. -/
def Item.Proper (item : Item) : Prop :=
  item.telemetry = true →
    item.sessionEvent = false ∧ ∃ key, item.stream = some key

theorem Item.proper_ofFrame (frame : Frame) : (ofFrame frame).Proper := by
  simp [Proper, ofFrame]

theorem Item.proper_ofEntry (stream : StreamKey) (kind : Kind) (epoch : Nat)
    (entry : Entry) : (ofEntry stream kind epoch entry).Proper := by
  simp +contextual [Proper, ofEntry]

namespace Outbound

variable [Codec]

/-- The queue with these items and counters that agree with them. -/
def counted (items : List Item) (dropped : HashMap StreamKey Dropped) :
    Outbound where
  items := items
  bytes := (items.map fun item => wireLen item.wire).sum
  sessionEvents := (items.map fun item => item.sessionEvent.toNat).sum
  telemetry := (items.map fun item => item.telemetry.toNat).sum
  dropped := dropped

/-- Counters agree with the items, and the items are proper. -/
structure Ok (queue : Outbound) : Prop where
  eq_counted : queue = counted queue.items queue.dropped
  proper : ∀ item ∈ queue.items, item.Proper

theorem Ok.of_counted {items : List Item}
    {dropped : HashMap StreamKey Dropped}
    (proper : ∀ item ∈ items, item.Proper) :
    (counted items dropped).Ok :=
  ⟨rfl, proper⟩

theorem ok_empty : ({} : Outbound).Ok :=
  ⟨rfl, by simp⟩

variable {limits : Limits} {queue : Outbound} {items before after : List Item}
  {item : Item} {dropped : HashMap StreamKey Dropped}

/-! ## Pushing -/

/-- A push is refused outright only for a session event past its bound. -/
def Refuses (limits : Limits) (queue : Outbound) (item : Item) : Prop :=
  item.sessionEvent = true ∧ queue.sessionEvents ≥ limits.queueSessionEvents

theorem push_counted_refused
    (refused : Refuses limits (counted items dropped) item) :
    (counted items dropped).push item limits =
      (counted items dropped, .error ⟨⟩) :=
  if_pos refused

theorem push_counted
    (accepted : ¬ Refuses limits (counted items dropped) item) :
    (counted items dropped).push item limits =
      (counted (items ++ [item]) dropped,
        if (counted (items ++ [item]) dropped).bytes > limits.queueBytes
          then .error ⟨⟩ else .ok ()) := by
  unfold Refuses at accepted
  rw [push, if_neg accepted]
  simp [counted]

theorem push_cases (ok : queue.Ok) (item : Item) (limits : Limits) :
    ((queue.push item limits).1 = queue ∧
        (queue.push item limits).2 = .error ⟨⟩ ∧
          item.sessionEvent = true) ∨
      (queue.push item limits).1 =
        counted (queue.items ++ [item]) queue.dropped := by
  rw [ok.eq_counted]
  by_cases refused :
      Refuses limits (counted queue.items queue.dropped) item
  · left
    rw [push_counted_refused refused]
    exact ⟨rfl, rfl, refused.1⟩
  · right
    rw [push_counted refused]
    rfl

theorem Ok.push (ok : queue.Ok) (limits : Limits) (proper : item.Proper) :
    (queue.push item limits).1.Ok := by
  rcases push_cases ok item limits with ⟨same, _⟩ | pushed
  · rw [same]
    exact ok
  · rw [pushed]
    apply Ok.of_counted
    intro other member
    rcases List.mem_append.mp member with old | new
    · exact ok.proper other old
    · rw [List.mem_singleton.mp new]
      exact proper

theorem push_of_ok (ok : queue.Ok)
    (succeeded : (queue.push item limits).2 = .ok ()) :
    (queue.push item limits).1 =
      counted (queue.items ++ [item]) queue.dropped := by
  rcases push_cases ok item limits with ⟨_, failed, _⟩ | pushed
  · simp [failed] at succeeded
  · exact pushed

theorem pushFrame_eq (ok : queue.Ok) (frame : Frame) (limits : Limits) :
    (queue.pushFrame frame limits).1 =
      counted (queue.items ++ [.ofFrame frame]) queue.dropped := by
  rcases push_cases ok (.ofFrame frame) limits with ⟨_, _, absurdity⟩ | pushed
  · simp [Item.ofFrame] at absurdity
  · exact pushed

theorem Ok.pushFrame (ok : queue.Ok) (frame : Frame) (limits : Limits) :
    (queue.pushFrame frame limits).1.Ok :=
  ok.push limits (Item.proper_ofFrame frame)

/-! ## Taking telemetry out -/

theorem removeAt_counted (before after : List Item)
    (dropped : HashMap StreamKey Dropped) (isTelemetry : item.telemetry = true)
    (noEvent : item.sessionEvent = false) :
    (counted (before ++ item :: after) dropped).removeAt before.length =
      .ok (counted (before ++ after) dropped, item) := by
  have bytes : (counted (before ++ item :: after) dropped).bytes =
      (counted (before ++ after) dropped).bytes + wireLen item.wire := by
    simp [counted]
    omega
  have telemetry : (counted (before ++ item :: after) dropped).telemetry =
      (counted (before ++ after) dropped).telemetry + 1 := by
    simp [counted, isTelemetry]
    omega
  unfold removeAt
  rw [bytes, telemetry]
  simp [counted, noEvent, List.eraseIdx_append_of_length_le]

/-- A queued telemetry envelope of the stream with the same non-empty key. -/
def Superseded (stream : StreamKey) (coalesce : Bytes) (item : Item) : Prop :=
  item.telemetry = true ∧ item.stream = some stream ∧
    item.coalesce = coalesce ∧ coalesce ≠ []

/-- Coalescing removes one superseded envelope, or nothing. -/
theorem supersede_cases (ok : queue.Ok) (stream : StreamKey)
    (coalesce : Bytes) :
    (queue.coalesceTarget stream coalesce = none ∧
        queue.supersede stream coalesce = .ok queue) ∨
      ∃ before item after, queue.items = before ++ item :: after ∧
        Superseded stream coalesce item ∧
        queue.coalesceTarget stream coalesce = some before.length ∧
        queue.supersede stream coalesce =
          .ok (counted (before ++ after) queue.dropped) := by
  unfold supersede
  cases target : queue.coalesceTarget stream coalesce with
  | none => exact Or.inl ⟨rfl, rfl⟩
  | some position =>
      right
      by_cases noKey : coalesce = []
      · simp [coalesceTarget, noKey] at target
      · rw [coalesceTarget, if_neg noKey] at target
        obtain ⟨before, item, after, split, rfl, holds, _⟩ :=
          findIdx?_split target
        simp only [Bool.and_eq_true, decide_eq_true_eq] at holds
        refine ⟨before, item, after, split,
          ⟨holds.1.1, holds.1.2, holds.2, noKey⟩, rfl, ?_⟩
        have noEvent := (ok.proper item (by simp [split]) holds.1.1).1
        have removed := removeAt_counted before after queue.dropped
          holds.1.1 noEvent
        rw [← split, ← ok.eq_counted] at removed
        simp [removed]

/-- Dropped telemetry after one more drop on `key`. -/
def recordDrop (dropped : HashMap StreamKey Dropped) (key : StreamKey)
    (epoch : Nat) : HashMap StreamKey Dropped :=
  dropped.insert key ⟨epoch, ((dropped.lookup key).getD {}).count + 1⟩

/-- The oldest telemetry items leave the queue one by one, each counted for
its stream. -/
inductive Drops : Outbound → List Item → Outbound → Prop
  | done (queue : Outbound) : Drops queue [] queue
  | next {before after : List Item} {item : Item} {key : StreamKey}
      {dropped : HashMap StreamKey Dropped} {lost : List Item}
      {final : Outbound}
      (oldest : ∀ other ∈ before, other.telemetry = false)
      (isTelemetry : item.telemetry = true)
      (stream : item.stream = some key)
      (rest : Drops
        (counted (before ++ after) (recordDrop dropped key item.epoch))
        lost final) :
      Drops (counted (before ++ item :: after) dropped) (item :: lost) final

theorem dropOldestTelemetry_cases (ok : queue.Ok) :
    (∀ item ∈ queue.items, item.telemetry = false) ∨
      ∃ before item after key, queue.items = before ++ item :: after ∧
        (∀ other ∈ before, other.telemetry = false) ∧
        item.telemetry = true ∧ item.stream = some key ∧
        queue.dropOldestTelemetry =
          .ok (counted (before ++ after)
            (recordDrop queue.dropped key item.epoch)) := by
  unfold dropOldestTelemetry
  cases found : queue.items.findIdx? (·.telemetry) with
  | none => exact Or.inl (by simpa using found)
  | some position =>
      right
      obtain ⟨before, item, after, split, rfl, isTelemetry, oldest⟩ :=
        findIdx?_split found
      obtain ⟨noEvent, key, stream⟩ :=
        ok.proper item (by simp [split]) isTelemetry
      refine ⟨before, item, after, key, split, oldest, isTelemetry, stream,
        ?_⟩
      have removed := removeAt_counted before after queue.dropped
        isTelemetry noEvent
      rw [← split, ← ok.eq_counted] at removed
      simp [removed, stream, recordDrop, counted]

theorem telemetry_eq_zero_of_forall (ok : queue.Ok)
    (none : ∀ item ∈ queue.items, item.telemetry = false) :
    queue.telemetry = 0 := by
  rw [ok.eq_counted]
  apply List.sum_eq_zero_iff_forall_eq_nat.mpr
  intro amount member
  obtain ⟨item, itemMember, rfl⟩ := List.mem_map.mp member
  simp [none item itemMember]

theorem Ok.of_sublist (ok : queue.Ok) (sublist : items.Sublist queue.items)
    (dropped : HashMap StreamKey Dropped) : (counted items dropped).Ok :=
  Ok.of_counted fun item member =>
    ok.proper item (sublist.subset member)

/-- The drop loop ends below its bound, which is positive. -/
theorem dropPast_spec (ok : queue.Ok) (bound : Nat) (positive : 0 < bound)
    (fuel : Nat) (enough : queue.telemetry < fuel) :
    ∃ lost final, dropPast bound fuel queue = .ok final ∧ final.Ok ∧
      Drops queue lost final ∧ final.telemetry < bound := by
  induction fuel generalizing queue with
  | zero => omega
  | succ fuel ih =>
      unfold dropPast
      by_cases full : queue.telemetry ≥ bound
      · rcases dropOldestTelemetry_cases ok with
          none | ⟨before, item, after, key, split, oldest, isTelemetry,
            stream, ran⟩
        · have := telemetry_eq_zero_of_forall ok none
          omega
        · have nextOk : (counted (before ++ after)
              (recordDrop queue.dropped key item.epoch)).Ok := by
            apply ok.of_sublist
            rw [split]
            exact (List.Sublist.refl before).append
              (List.sublist_cons_self item after)
          have fewer : (counted (before ++ after)
              (recordDrop queue.dropped key item.epoch)).telemetry < fuel := by
            have whole : queue.telemetry =
                (counted (before ++ item :: after) queue.dropped).telemetry := by
              rw [← split, ← ok.eq_counted]
            simp [counted, isTelemetry] at whole ⊢
            omega
          obtain ⟨lost, final, ranRest, finalOk, drops, below⟩ :=
            ih nextOk fewer
          refine ⟨item :: lost, final, ?_, finalOk, ?_, below⟩
          · rw [if_pos full, ran, ok_bind]
            exact ranRest
          · rw [ok.eq_counted, split]
            exact Drops.next oldest isTelemetry stream drops
      · exact ⟨[], queue, by simp [full], ok, Drops.done queue, by omega⟩

/-! ## Publishing -/

/-- A published item enters the queue.  A session event is pushed as it is;
telemetry first supersedes the queued envelope with its key, if there is one,
and then the oldest telemetry makes room. -/
inductive Publishes (limits : Limits) : Outbound → Item → Option Item →
    List Item → Outbound × Pushed → Prop
  | event {queue : Outbound} {item : Item}
      (isEvent : item.telemetry = false) :
      Publishes limits queue item none [] (queue.push item limits)
  | fresh {queue room : Outbound} {item : Item} {lost : List Item}
      (isTelemetry : item.telemetry = true) (drops : Drops queue lost room) :
      Publishes limits queue item none lost (room.push item limits)
  | coalesced {before after : List Item} {old item : Item}
      {dropped : HashMap StreamKey Dropped} {stream : StreamKey}
      {room : Outbound} {lost : List Item}
      (isTelemetry : item.telemetry = true)
      (belongs : item.stream = some stream)
      (superseded : Superseded stream item.coalesce old)
      (drops : Drops (counted (before ++ after) dropped) lost room) :
      Publishes limits (counted (before ++ old :: after) dropped) item
        (some old) lost (room.push item limits)

/-- Publishing into a well-formed queue does not panic. -/
theorem pushPublished_spec (ok : queue.Ok) (stream : StreamKey) (kind : Kind)
    (epoch : Nat) (entry : Entry) (limits : Limits) :
    ∃ superseded lost result,
      queue.pushPublished stream kind epoch entry limits = .ok result ∧
      result.1.Ok ∧
      Publishes limits queue (.ofEntry stream kind epoch entry) superseded
        lost result := by
  have proper := Item.proper_ofEntry stream kind epoch entry
  unfold pushPublished
  by_cases isTelemetry : kind = .telemetry
  · have flag : (Item.ofEntry stream kind epoch entry).telemetry = true := by
      simp [Item.ofEntry, isTelemetry]
    have positive : 0 < max limits.queueTelemetry 1 := by omega
    rcases supersede_cases ok stream
        (Item.ofEntry stream kind epoch entry).coalesce with
      ⟨_, kept⟩ | ⟨before, old, after, split, superseded, _, removed⟩
    · obtain ⟨lost, room, ran, roomOk, drops, _⟩ :=
        dropPast_spec ok _ positive _ (Nat.lt_succ_self _)
      refine ⟨none, lost, _, ?_, roomOk.push limits proper,
        .fresh flag drops⟩
      simp [isTelemetry] at kept ran ⊢
      simp [kept, ran]
    · have keptOk : (counted (before ++ after) queue.dropped).Ok := by
        apply ok.of_sublist
        rw [split]
        exact (List.Sublist.refl before).append (List.sublist_cons_self old after)
      obtain ⟨lost, room, ran, roomOk, drops, _⟩ :=
        dropPast_spec keptOk _ positive _ (Nat.lt_succ_self _)
      refine ⟨some old, lost, _, ?_, roomOk.push limits proper, ?_⟩
      · simp [isTelemetry] at removed ran ⊢
        simp [removed, ran]
      · rw [ok.eq_counted, split]
        exact .coalesced flag rfl superseded drops
  · have flag : (Item.ofEntry stream kind epoch entry).telemetry = false := by
      simp [Item.ofEntry, isTelemetry]
    exact ⟨none, [], _, by simp [isTelemetry], ok.push limits proper,
      .event flag⟩

/-- Only telemetry has left the list. -/
structure Thinned (items kept : List Item) : Prop where
  sublist : kept.Sublist items
  filter_eq : ∀ test : Item → Bool,
    (∀ item ∈ items, test item = true → item.telemetry = false) →
      kept.filter test = items.filter test

omit [Codec] in
theorem Thinned.refl (items : List Item) : Thinned items items :=
  ⟨List.Sublist.refl items, fun _ _ => rfl⟩

omit [Codec] in
theorem Thinned.trans {first second third : List Item}
    (earlier : Thinned first second) (later : Thinned second third) :
    Thinned first third := by
  refine ⟨later.sublist.trans earlier.sublist, ?_⟩
  intro test spares
  rw [later.filter_eq test fun item member =>
      spares item (earlier.sublist.subset member),
    earlier.filter_eq test spares]

omit [Codec] in
theorem Thinned.remove (isTelemetry : item.telemetry = true) :
    Thinned (before ++ item :: after) (before ++ after) := by
  refine ⟨(List.Sublist.refl before).append (List.sublist_cons_self item after),
    ?_⟩
  intro test spares
  have excluded : test item = false := by
    by_contra holds
    have := spares item (by simp) (by simpa using holds)
    simp [isTelemetry] at this
  simp [excluded]

theorem Drops.thinned {lost : List Item} {final : Outbound}
    (drops : Drops queue lost final) : Thinned queue.items final.items := by
  induction drops with
  | done queue => exact Thinned.refl _
  | next oldest isTelemetry stream rest ih =>
      exact (Thinned.remove isTelemetry).trans ih

theorem Drops.ok {lost : List Item} {final : Outbound}
    (drops : Drops queue lost final) (ok : queue.Ok) : final.Ok := by
  induction drops with
  | done queue => exact ok
  | next oldest isTelemetry stream rest ih =>
      exact ih (ok.of_sublist (Thinned.remove isTelemetry).sublist _)

/-- Publishing thins the queue of telemetry and then appends the item, unless
the push refused it. -/
theorem Publishes.items_eq {superseded : Option Item} {lost : List Item}
    {result : Outbound × Pushed} (ok : queue.Ok)
    (published : Publishes limits queue item superseded lost result) :
    ∃ kept, Thinned queue.items kept ∧
      (result.1.items = kept ++ [item] ∨
        result.1.items = kept ∧ result.2 = .error ⟨⟩) := by
  have finish : ∀ room : Outbound, room.Ok → Thinned queue.items room.items →
      ∃ kept, Thinned queue.items kept ∧
        ((room.push item limits).1.items = kept ++ [item] ∨
          (room.push item limits).1.items = kept ∧
            (room.push item limits).2 = .error ⟨⟩) := by
    intro room roomOk thinned
    refine ⟨room.items, thinned, ?_⟩
    rcases push_cases roomOk item limits with ⟨same, failed, _⟩ | pushed
    · exact Or.inr ⟨by rw [same], failed⟩
    · exact Or.inl (by rw [pushed]; rfl)
  cases published with
  | event isEvent => exact finish queue ok (Thinned.refl _)
  | fresh isTelemetry drops => exact finish _ (drops.ok ok) drops.thinned
  | @coalesced before after old _ _ _ _ _ isTelemetry belongs superseded
      drops =>
      have thinned : Thinned (before ++ old :: after) (before ++ after) :=
        Thinned.remove superseded.1
      exact finish _ (drops.ok (ok.of_sublist thinned.sublist _))
        (thinned.trans drops.thinned)

/-! ## Purging and taking -/

omit [Codec] in
theorem sum_filter_add (weight : Item → Nat) (test : Item → Prop)
    [DecidablePred test] (items : List Item) :
    (items.map weight).sum =
      ((items.filter fun item => decide (¬ test item)).map weight).sum +
        ((items.filter fun item => decide (test item)).map weight).sum := by
  induction items with
  | nil => rfl
  | cons item items ih =>
      by_cases holds : test item
      · simp [holds, ih]
        omega
      · simp [holds, ih]
        omega

theorem purgeStream_eq (ok : queue.Ok) (key : StreamKey) :
    queue.purgeStream key = .ok (counted
      (queue.items.filter fun item => decide (item.stream ≠ some key))
      (queue.dropped.erase key)) := by
  have split (weight : Item → Nat) :=
    sum_filter_add weight (fun item => item.stream = some key) queue.items
  unfold purgeStream
  rw [ok.eq_counted]
  simp only [counted, split, add_sub_right, ok_bind]
  rfl

theorem Ok.purged (ok : queue.Ok) (key : StreamKey) :
    (counted
      (queue.items.filter fun item => decide (item.stream ≠ some key))
      (queue.dropped.erase key)).Ok :=
  ok.of_sublist List.filter_sublist _

/-- The drops a stream still owes a report for when this item goes out. -/
def owedGap (dropped : HashMap StreamKey Dropped) (item : Item) :
    Option (StreamKey × Dropped) :=
  if item.telemetry then
    item.stream.bind fun key =>
      (dropped.lookup key).map fun owed => (key, owed)
  else
    none

/-- The report of dropped telemetry that goes out before `item`. -/
def gapBefore (item : Item) (key : StreamKey) (owed : Dropped) : Frame :=
  .of (.gap ⟨some key.toRef, owed.epoch, owed.count, item.seq⟩)

/-- The frames that go out with these items, and the drops left to report. -/
def handOut (dropped : HashMap StreamKey Dropped) :
    List Item → List Frame × HashMap StreamKey Dropped
  | [] => ([], dropped)
  | item :: rest =>
      match owedGap dropped item with
      | some (key, owed) =>
          let (frames, final) := handOut (dropped.erase key) rest
          (gapBefore item key owed :: item.wire :: frames, final)
      | none =>
          let (frames, final) := handOut dropped rest
          (item.wire :: frames, final)

theorem reportGap_counted (dropped : HashMap StreamKey Dropped)
    (stale rest : List Item) (proper : item.Proper) (out : List Frame) :
    reportGap { counted (item :: rest) dropped with
        items := stale
        bytes := (counted rest dropped).bytes
        sessionEvents := (counted rest dropped).sessionEvents } item out =
      match owedGap dropped item with
      | some (key, owed) =>
          .ok ({ counted rest (dropped.erase key) with items := stale },
            out ++ [gapBefore item key owed])
      | none => .ok ({ counted rest dropped with items := stale }, out) := by
  unfold reportGap owedGap
  cases flag : item.telemetry with
  | false => simp [counted, flag]
  | true =>
      obtain ⟨_, key, stream⟩ := proper flag
      cases owed : dropped.lookup key with
      | none => simp [counted, flag, stream, owed]
      | some found => simp [counted, flag, stream, owed, gapBefore]

theorem takeLoop_spec (budget : Nat) (items : List Item)
    (proper : ∀ item ∈ items, item.Proper)
    (dropped : HashMap StreamKey Dropped) (stale : List Item)
    (out : List Frame) (spent : Nat) :
    ∃ taken rest, items = taken ++ rest ∧
      takeLoop budget items { counted items dropped with items := stale }
          out spent =
        .ok (counted rest (handOut dropped taken).2,
          out ++ (handOut dropped taken).1) ∧
      (out = [] → items ≠ [] → taken ≠ []) := by
  induction items generalizing dropped out spent with
  | nil => exact ⟨[], [], rfl, by simp [takeLoop, handOut, counted], by simp⟩
  | cons item items ih =>
      have itemProper := proper item (by simp)
      by_cases exceeds : out ≠ [] ∧ spent + wireLen item.wire > budget
      · refine ⟨[], item :: items, rfl, ?_, fun empty => (exceeds.1 empty).elim⟩
        simp [takeLoop, exceeds, handOut, counted]
      · have bytes : (counted (item :: items) dropped).bytes =
            wireLen item.wire + (counted items dropped).bytes := by
          simp [counted]
        have events : (counted (item :: items) dropped).sessionEvents =
            item.sessionEvent.toNat +
              (counted items dropped).sessionEvents := by
          simp [counted]
        have report := reportGap_counted dropped stale items itemProper out
        have later := fun member mem => proper member (List.mem_cons_of_mem item mem)
        unfold takeLoop
        rw [if_neg exceeds]
        simp only [bytes, events, add_sub_left, ok_bind, report]
        cases owed : owedGap dropped item with
        | none =>
            obtain ⟨taken, rest, rfl, ran, _⟩ := ih later dropped
              (out ++ [item.wire]) (spent + wireLen item.wire)
            refine ⟨item :: taken, rest, rfl, ?_, by simp⟩
            simp only [ok_bind, ran, handOut, owed]
            simp
        | some pair =>
            obtain ⟨key, dropCount⟩ := pair
            obtain ⟨taken, rest, rfl, ran, _⟩ := ih later (dropped.erase key)
              (out ++ [gapBefore item key dropCount] ++ [item.wire])
              (spent + wireLen item.wire)
            refine ⟨item :: taken, rest, rfl, ?_, by simp⟩
            simp only [ok_bind, ran, handOut, owed]
            simp

theorem take_spec (ok : queue.Ok) (budget : Nat) :
    ∃ taken rest, queue.items = taken ++ rest ∧
      queue.take budget = .ok (counted rest (handOut queue.dropped taken).2,
        (handOut queue.dropped taken).1) ∧
      (counted rest (handOut queue.dropped taken).2).Ok ∧
      (queue.items ≠ [] → taken ≠ []) := by
  obtain ⟨taken, rest, split, ran, progress⟩ := takeLoop_spec budget
    queue.items ok.proper queue.dropped queue.items [] 0
  refine ⟨taken, rest, split, ?_, ?_, progress rfl⟩
  · have whole : { counted queue.items queue.dropped with
        items := queue.items } = queue := ok.eq_counted.symm
    rw [whole] at ran
    simpa [take] using ran
  · apply ok.of_sublist
    rw [split]
    exact List.sublist_append_right taken rest

end Outbound

end WindowMlHub
