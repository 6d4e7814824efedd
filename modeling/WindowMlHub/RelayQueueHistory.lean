import WindowMlHub.RelayAccountEvents

/-!
# What a queue holds after operations

The items of a queue fall into those that belong to no stream, which stay until
they are taken, and those of each stream, which a purge of the stream removes.
The lemmas here say what becomes of each part when operations are performed in
turn.
-/

namespace WindowMlHub

open CheckedEvaluation HashTables

namespace QueueOp

/-- The frame an operation queues outside every stream. -/
def frame? : QueueOp → Option Frame
  | .frame sent => some sent
  | _ => none

/-- The item an operation offers to the queue. -/
def item? : QueueOp → Option Item
  | .frame sent => some (.ofFrame sent)
  | .published key kind epoch entry => some (.ofEntry key kind epoch entry)
  | .purge _ => none

end QueueOp

@[simp]
theorem filterMap_frame?_backfillOps (ring : Option Ring) (key : StreamKey)
    (since : Option Position) :
    (backfillOps ring key since).filterMap QueueOp.frame? = [] := by
  cases ring with
  | none => rfl
  | some ring =>
      simp [backfillOps, List.filterMap_map, Function.comp_def,
        QueueOp.frame?]

namespace Outbound

/-- The queued frames that belong to no stream. -/
def loose (queue : Outbound) : List Frame :=
  (queue.items.filter fun item => decide (item.stream = none)).map (·.wire)

/-- The queued items of a stream. -/
def ofStream (queue : Outbound) (key : StreamKey) : List Item :=
  queue.items.filter fun item => decide (item.stream = some key)

theorem mem_ofStream {queue : Outbound} {key : StreamKey} {item : Item} :
    item ∈ queue.ofStream key ↔
      item ∈ queue.items ∧ item.stream = some key := by
  simp [ofStream]

end Outbound

namespace Outbound

theorem filterMap_wire {β : Type} (read : Frame → Option β)
    (items : List Item)
    (blind : ∀ item ∈ items, item.stream ≠ none → read item.wire = none) :
    (items.map (·.wire)).filterMap read =
      ((items.filter fun item => decide (item.stream = none)).map
        (·.wire)).filterMap read := by
  induction items with
  | nil => rfl
  | cons item items ih =>
      have later := ih fun other member =>
        blind other (List.mem_cons_of_mem _ member)
      by_cases isLoose : item.stream = none
      · simp only [List.map_cons, List.filterMap_cons, later, isLoose,
          decide_true, List.filter_cons_of_pos]
      · have unread := blind item List.mem_cons_self isLoose
        simp [isLoose, unread, later]

theorem filterMap_handOut {β : Type} (read : Frame → Option β)
    (blind : ∀ gap, read (.of (.gap gap)) = none)
    (dropped : HashMap StreamKey Dropped) (items : List Item) :
    (handOut dropped items).1.filterMap read =
      (items.map (·.wire)).filterMap read := by
  induction items generalizing dropped with
  | nil => rfl
  | cons item items ih =>
      unfold handOut
      cases owedGap dropped item with
      | none => simp only [List.map_cons, List.filterMap_cons, ih]
      | some pair =>
          have unread : read (gapBefore item pair.1 pair.2) = none := blind _
          simp only [List.map_cons, List.filterMap_cons, unread, ih]

theorem mem_handOut {dropped : HashMap StreamKey Dropped} {items : List Item}
    {item : Item} (member : item ∈ items) : item.wire ∈ (handOut dropped items).1 := by
  induction items generalizing dropped with
  | nil => cases member
  | cons first rest ih =>
      rcases List.mem_cons.mp member with rfl | later
      · unfold handOut
        cases owedGap dropped item <;> simp
      · unfold handOut
        cases owedGap dropped first <;> simp [ih later]

theorem Thinned.keeps {items kept : List Item} (thinned : Thinned items kept)
    {item : Item} (member : item ∈ items) (lasting : item.telemetry = false) :
    item ∈ kept := by
  have same := thinned.filter_eq (fun other => decide (other = item)) fun other _ isItem => by
    rw [of_decide_eq_true isItem, lasting]
  have among : item ∈ items.filter fun other => decide (other = item) :=
    List.mem_filter.mpr ⟨member, by simp⟩
  exact (List.mem_filter.mp (same ▸ among)).1

end Outbound

section Operations

variable [Codec] {limits : Limits} {queue next final : Outbound}
  {op : QueueOp} {ops : List QueueOp} {key : StreamKey}

theorem Perform.of_frame {frame : Frame} (ok : queue.Ok)
    (performed : Perform limits queue (.frame frame) next) :
    next = .counted (queue.items ++ [.ofFrame frame]) queue.dropped := by
  cases performed with
  | frame ran =>
      have pushed := Outbound.pushFrame_eq ok frame limits
      rw [ran] at pushed
      exact pushed

theorem Perform.of_purge (ok : queue.Ok)
    (performed : Perform limits queue (.purge key) next) :
    next = .counted
      (queue.items.filter fun item => decide (item.stream ≠ some key))
      (queue.dropped.erase key) := by
  cases performed with
  | purge ran =>
      rw [Outbound.purgeStream_eq ok] at ran
      exact (Except.ok.inj ran).symm

theorem Perform.of_published {kind : Kind} {epoch : Nat} {entry : Entry}
    (ok : queue.Ok)
    (performed : Perform limits queue (.published key kind epoch entry) next) :
    next.Ok ∧ ∃ superseded lost, Outbound.Publishes limits queue
      (.ofEntry key kind epoch entry) superseded lost (next, .ok ()) := by
  cases performed with
  | published ran =>
      obtain ⟨superseded, lost, result, ran', resultOk, publishes⟩ :=
        Outbound.pushPublished_spec ok key kind epoch entry limits
      rw [ran] at ran'
      cases ran'
      exact ⟨resultOk, superseded, lost, publishes⟩

theorem Perform.thinned {kind : Kind} {epoch : Nat} {entry : Entry}
    (ok : queue.Ok)
    (performed : Perform limits queue (.published key kind epoch entry) next) :
    ∃ kept, Outbound.Thinned queue.items kept ∧
      next.items = kept ++ [.ofEntry key kind epoch entry] := by
  obtain ⟨_, superseded, lost, publishes⟩ := performed.of_published ok
  obtain ⟨kept, thinned, appended | ⟨_, failed⟩⟩ := publishes.items_eq ok
  · exact ⟨kept, thinned, appended⟩
  · cases failed

theorem Perform.ok (ok : queue.Ok) (performed : Perform limits queue op next) :
    next.Ok := by
  cases op with
  | frame frame =>
      rw [performed.of_frame ok]
      have pushed := ok.pushFrame frame limits
      rw [Outbound.pushFrame_eq ok] at pushed
      exact pushed
  | published key kind epoch entry => exact (performed.of_published ok).1
  | purge key =>
      rw [performed.of_purge ok]
      exact ok.purged key

theorem Performs.ok (ok : queue.Ok)
    (performed : Performs limits queue ops final) : final.Ok := by
  induction performed with
  | done => exact ok
  | next first rest ih => exact ih (first.ok ok)

theorem Performs.of_append {later : List QueueOp}
    (performed : Performs limits queue (ops ++ later) final) :
    ∃ middle, Performs limits queue ops middle ∧
      Performs limits middle later final := by
  induction ops generalizing queue with
  | nil => exact ⟨queue, .done queue, performed⟩
  | cons op ops ih =>
      cases performed with
      | next first rest =>
          obtain ⟨middle, earlier, after⟩ := ih rest
          exact ⟨middle, .next first earlier, after⟩

/-- An item is in the queue after an operation because it was there before, and
not purged, or because the operation has queued it. -/
theorem Perform.mem_items (ok : queue.Ok)
    (performed : Perform limits queue op next) {item : Item}
    (member : item ∈ next.items) :
    item ∈ queue.items ∧ (∀ key, op = .purge key → item.stream ≠ some key) ∨
      op.item? = some item := by
  cases op with
  | frame frame =>
      rw [performed.of_frame ok] at member
      rcases List.mem_append.mp member with old | new
      · exact Or.inl ⟨old, fun _ absurdity => by cases absurdity⟩
      · exact Or.inr (congrArg some (List.mem_singleton.mp new).symm)
  | published key kind epoch entry =>
      obtain ⟨kept, thinned, appended⟩ := performed.thinned ok
      rw [appended] at member
      rcases List.mem_append.mp member with old | new
      · exact Or.inl ⟨thinned.sublist.subset old,
          fun _ absurdity => by cases absurdity⟩
      · exact Or.inr (congrArg some (List.mem_singleton.mp new).symm)
  | purge key =>
      rw [performed.of_purge ok] at member
      obtain ⟨old, different⟩ := List.mem_filter.mp member
      refine Or.inl ⟨old, fun other same => ?_⟩
      cases same
      simpa using different

theorem Performs.mem_items (ok : queue.Ok)
    (performed : Performs limits queue ops final) {item : Item}
    (member : item ∈ final.items) :
    item ∈ queue.items ∧ (∀ key, .purge key ∈ ops → item.stream ≠ some key) ∨
      ∃ op ∈ ops, op.item? = some item := by
  induction performed with
  | done => exact Or.inl ⟨member, by simp⟩
  | next first rest ih =>
      rcases ih (first.ok ok) member with ⟨middle, unpurged⟩ | ⟨op, among, new⟩
      · rcases first.mem_items ok middle with ⟨old, kept⟩ | new
        · refine Or.inl ⟨old, fun key purged => ?_⟩
          rcases List.mem_cons.mp purged with same | later
          · exact kept key same.symm
          · exact unpurged key later
        · exact Or.inr ⟨_, List.mem_cons_self, new⟩
      · exact Or.inr ⟨op, List.mem_cons_of_mem _ among, new⟩

/-- Frames outside every stream stay in the queue, in their order. -/
theorem Perform.loose_eq (ok : queue.Ok)
    (performed : Perform limits queue op next) :
    next.loose = queue.loose ++ op.frame?.toList := by
  cases op with
  | frame frame =>
      rw [performed.of_frame ok]
      simp [Outbound.loose, Outbound.counted, QueueOp.frame?, Item.ofFrame]
  | published key kind epoch entry =>
      obtain ⟨kept, thinned, appended⟩ := performed.thinned ok
      have same := thinned.filter_eq
        (fun item => decide (item.stream = none)) (by
          intro item member noStream
          by_contra isTelemetry
          obtain ⟨_, other, stream⟩ :=
            ok.proper item member (by simpa using isTelemetry)
          simp [stream] at noStream)
      simp [Outbound.loose, appended, same, QueueOp.frame?, Item.ofEntry]
  | purge key =>
      rw [performed.of_purge ok]
      have same : queue.items.filter (fun item =>
          decide (item.stream = none) && decide (item.stream ≠ some key)) =
            queue.items.filter fun item => decide (item.stream = none) := by
        apply List.filter_congr
        intro item _
        cases item.stream <;> simp
      simp only [Outbound.loose, Outbound.counted, List.filter_filter, same,
        QueueOp.frame?, Option.toList_none, List.append_nil]

theorem Performs.loose_eq (ok : queue.Ok)
    (performed : Performs limits queue ops final) :
    final.loose = queue.loose ++ ops.filterMap QueueOp.frame? := by
  induction performed with
  | done => simp
  | @next _ _ _ op _ first rest ih =>
      rw [ih (first.ok ok), first.loose_eq ok, List.filterMap_cons]
      cases op.frame? <;> simp

theorem Perform.keeps (ok : queue.Ok) (performed : Perform limits queue op next) {item : Item}
    (member : item ∈ queue.items) (lasting : item.telemetry = false)
    (unpurged : ∀ key, op = .purge key → item.stream ≠ some key) : item ∈ next.items := by
  cases op with
  | frame frame =>
      rw [performed.of_frame ok]
      exact List.mem_append_left _ member
  | published key kind epoch entry =>
      obtain ⟨kept, thinned, appended⟩ := performed.thinned ok
      rw [appended]
      exact List.mem_append_left _ (thinned.keeps member lasting)
  | purge key =>
      rw [performed.of_purge ok]
      exact List.mem_filter.mpr ⟨member, by simpa using unpurged key rfl⟩

theorem Performs.keeps (ok : queue.Ok) (performed : Performs limits queue ops final)
    {item : Item} (member : item ∈ queue.items) (lasting : item.telemetry = false)
    (unpurged : ∀ key, .purge key ∈ ops → item.stream ≠ some key) : item ∈ final.items := by
  induction performed with
  | done => exact member
  | next first rest ih =>
      refine ih (first.ok ok) (first.keeps ok member lasting fun key same => ?_)
        fun key later => unpurged key (List.mem_cons_of_mem _ later)
      exact unpurged key (same ▸ List.mem_cons_self)

theorem Perform.queues (ok : queue.Ok) (performed : Perform limits queue op next)
    {item : Item} (offered : op.item? = some item) : item ∈ next.items := by
  cases op with
  | frame frame =>
      rw [performed.of_frame ok]
      exact List.mem_append_right _ (List.mem_singleton.mpr (Option.some.inj offered).symm)
  | published key kind epoch entry =>
      obtain ⟨kept, thinned, appended⟩ := performed.thinned ok
      rw [appended]
      exact List.mem_append_right _ (List.mem_singleton.mpr (Option.some.inj offered).symm)
  | purge key => cases offered

theorem Performs.queues (ok : queue.Ok) (performed : Performs limits queue ops final)
    {item : Item} (among : op ∈ ops) (offered : op.item? = some item)
    (lasting : item.telemetry = false)
    (unpurged : ∀ key, .purge key ∈ ops → item.stream ≠ some key) : item ∈ final.items := by
  induction performed with
  | done => cases among
  | next first rest ih =>
      have later (key : StreamKey) (purged : QueueOp.purge key ∈ _) :=
        unpurged key (List.mem_cons_of_mem _ purged)
      rcases List.mem_cons.mp among with rfl | inRest
      · exact rest.keeps (first.ok ok) (first.queues ok offered) lasting later
      · exact ih (first.ok ok) inRest later

end Operations

end WindowMlHub
