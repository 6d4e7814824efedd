import WindowMlHub.ServerWriters
import Mathlib.Logic.Relation

/-!
# What a task that writes brings out

A task that writes can always go on by itself: from wherever it is, what the relay has
queued for its connection goes out in order, then the closing frame if there is one, and
no other call has to be made for that.
-/

namespace WindowMlHub

open CheckedEvaluation HashTables Relation

namespace WritingShard

/-- A step that the task of a connection takes, or a notification on its way to it. -/
def Goes [Codec] (budget : Nat) (id : ConnId) (shard next : WritingShard) : Prop :=
  ∃ move, (move = .notify id ∨ ∃ task, move = .write id task) ∧
    shard.step budget move = .ok next

/-- The handle and the task of a connection. -/
structure Staffed (shard : WritingShard) (id : ConnId) (handle : Handle) (writer : Writer) :
    Prop where
  found : shard.state.handles.lookup id = some handle
  writing : shard.writers.lookup id = some writer

section Going

variable [Codec] {start : Hub} {steps : List Step} {budget : Nat} {id : ConnId}
  {shard next later : WritingShard} {handle : Handle} {writer : Writer}

theorem Staffed.goes (staffed : shard.Staffed id handle writer) (move : WriterMove)
    (ran : shard.write budget id handle writer move = .ok next) : Goes budget id shard next := by
  refine ⟨.write id move, .inr ⟨move, rfl⟩, ?_⟩
  rw [WritingShard.step, staffed.found, staffed.writing]
  exact ran

omit [Codec] in
theorem Staffed.put (staffed : shard.Staffed id handle writer) (task : Writer) :
    (shard.put id task).Staffed id handle task :=
  ⟨staffed.found, AList.lookup_insert _⟩

omit [Codec] in
theorem staffed_putBoth (shard : WritingShard) (id : ConnId) (handle : Handle)
    (writer : Writer) : ((shard.putHandle id handle).put id writer).Staffed id handle writer :=
  ⟨AList.lookup_insert _, AList.lookup_insert _⟩

theorem Awake.along (awake : shard.Awake start steps) (startOk : start.Ok)
    (way : ReflTransGen (Goes budget id) shard later) :
    ∃ more, later.Awake start (steps ++ more) := by
  induction way with
  | refl => exact ⟨[], by rwa [List.append_nil]⟩
  | tail _ goes ih =>
      obtain ⟨more, before⟩ := ih
      obtain ⟨move, -, stepped⟩ := goes
      obtain ⟨next, last, ran, after, -⟩ := before.step startOk budget move
      obtain rfl := Except.ok.inj (stepped.symm.trans ran)
      exact ⟨more ++ last, List.append_assoc .. ▸ after⟩

/-- A task that drains takes all that the relay has for its connection. -/
theorem drains (budget : Nat) (ok : shard.state.hub.Ok)
    (staffed : shard.Staffed id handle writer) (draining : writer.phase = .draining) :
    ∃ later task, ReflTransGen (Goes budget id) shard later ∧ later.Staffed id handle task ∧
      task.phase = .drained ∧ later.state.hub.owed id = [] ∧
      task.relayed = writer.relayed ++ shard.state.hub.owed id := by
  generalize count : shard.state.hub.waiting id = waiting
  induction waiting using Nat.strong_induction_on generalizing shard writer with
  | _ waiting ih =>
      obtain ⟨hub, taken, took, taking⟩ := Hub.takeOutbound_taking ok id budget
      let fed := if taken.frames = [] then writer.fed else writer.fed ++ [.joined taken.frames]
      let phase : WriterPhase := if taken.more then .draining else .drained
      let task : Writer := { writer with phase, fed }
      let next : WritingShard := { shard with state := { shard.state with hub } }
      have goes : Goes budget id shard (next.put id task) := by
        refine staffed.goes (.take true) ?_
        simp [WritingShard.write, draining, took, next, task, phase, fed]
      have nextStaffed : (next.put id task).Staffed id handle task :=
        ⟨staffed.found, AList.lookup_insert _⟩
      have relayedEq : task.relayed = writer.relayed ++ taken.frames := by
        by_cases none : taken.frames = []
        · simp [task, fed, none, Writer.relayed]
        · simp [task, fed, none, Writer.relayed, SentMessage.relayed]
      by_cases more : taken.more = true
      · obtain ⟨later, last, way, lastStaffed, drained, empty, lastRelayed⟩ :=
          ih _ (count ▸ taking.fewer more) taking.ok nextStaffed (by simp [task, phase, more]) rfl
        refine ⟨later, last, .head goes way, lastStaffed, drained, empty, ?_⟩
        rw [lastRelayed, relayedEq, taking.owed_eq, List.append_assoc]
        rfl
      · have empty := taking.drained (by simpa using more)
        refine ⟨_, task, .single goes, nextStaffed, by simp [task, phase, more], empty, ?_⟩
        rw [relayedEq, taking.owed_eq, empty, List.append_nil]

/-- A task with nothing left to take flushes, and looks for a closing frame. -/
theorem rests (staffed : shard.Staffed id handle writer) (flushed : writer.phase = .flushed)
    (empty : writer.fed = []) :
    ∃ next handle' task, Goes budget id shard next ∧ next.Staffed id handle' task ∧
      next.state.hub = shard.state.hub ∧ task.fed = [] ∧ task.relayed = writer.relayed ∧
      handle'.closing = none ∧ (handle.closing = none → task.phase = .parked) ∧
      ∀ frame, handle.closing = some frame →
        task.phase = .ended ∧ task.sent = writer.sent ++ [.closing frame] := by
  cases closing : handle.closing with
  | none =>
      refine ⟨_, handle, { writer with phase := .parked }, staffed.goes (.look true) ?_,
        staffed.put _, rfl, empty, rfl, closing, fun _ => rfl, by simp⟩
      simp [WritingShard.write, flushed, closing]
  | some frame =>
      refine ⟨_, { handle with closing := none },
        { writer with phase := .ended, sent := writer.sent ++ [.closing frame] },
        staffed.goes (.look true) ?_, staffed_putBoth _ _ _ _, rfl, empty, ?_, rfl, by simp, ?_⟩
      · simp [WritingShard.write, flushed, closing]
      · simp [Writer.relayed, SentMessage.relayed]
      · rintro other ⟨rfl⟩
        exact ⟨rfl, rfl⟩

theorem flushes (staffed : shard.Staffed id handle writer) (drained : writer.phase = .drained) :
    ∃ next task, Goes budget id shard next ∧ next.Staffed id handle task ∧
      next.state.hub = shard.state.hub ∧ task.phase = .flushed ∧ task.fed = [] ∧
      task.sent = writer.sent ++ writer.fed ∧ task.relayed = writer.relayed := by
  refine ⟨_, { writer with
    phase := .flushed, fed := [], sent := writer.sent ++ writer.fed },
    staffed.goes (.flush true) ?_, staffed.put _, rfl, rfl, rfl, rfl, ?_⟩
  · simp [WritingShard.write, drained]
  · simp [Writer.relayed]

/-- A task that stirs wakes up. -/
theorem rouses (staffed : shard.Staffed id handle writer) (parked : writer.phase = .parked)
    (stirs : Stirs shard.waking id handle writer) :
    ∃ next handle', ReflTransGen (Goes budget id) shard next ∧
      next.Staffed id handle' { writer with phase := .draining } ∧
      next.state.hub = shard.state.hub ∧ handle'.closing = handle.closing := by
  have woken {shard : WritingShard} {handle : Handle}
      (staffed : shard.Staffed id handle writer) (notified : handle.notified = true) :
      ∃ next handle', ReflTransGen (Goes budget id) shard next ∧
        next.Staffed id handle' { writer with phase := .draining } ∧
        next.state.hub = shard.state.hub ∧ handle'.closing = handle.closing := by
    refine ⟨_, { handle with notified := false }, .single (staffed.goes .wake ?_),
      staffed_putBoth _ _ _ _, rfl, rfl⟩
    simp [WritingShard.write, parked, notified]
  rcases stirs with waiting | notified | draining
  · let told : WritingShard := { shard with
      state := shard.state.wake id, waking := shard.waking.erase id }
    have goes : Goes budget id shard told :=
      ⟨.notify id, .inl rfl, by rw [WritingShard.step, if_pos waiting]⟩
    have wakeEq : shard.state.wake id = { shard.state with
        handles := shard.state.handles.insert id { handle with notified := true } } := by
      rw [ShardState.wake, staffed.found]
    have toldStaffed : told.Staffed id { handle with notified := true } writer :=
      ⟨by simp only [told, wakeEq]; exact AList.lookup_insert _, staffed.writing⟩
    obtain ⟨next, handle', way, nextStaffed, hubEq, closing⟩ := woken toldStaffed rfl
    refine ⟨next, handle', .head goes way, nextStaffed, hubEq.trans ?_, closing⟩
    exact ShardState.wake_hub _ _
  · exact woken staffed notified
  · simp [parked] at draining

/-- What a task brings out: all that the relay had for its connection, and after that the
closing frame, if there is one. -/
structure BroughtOut (shard later : WritingShard) (id : ConnId) (handle : Handle)
    (writer task : Writer) : Prop where
  owed : later.state.hub.owed id = []
  fed : task.fed = []
  relayed : task.relayed = writer.relayed ++ shard.state.hub.owed id
  parked : handle.closing = none → task.phase = .parked
  closed : ∀ frame, handle.closing = some frame →
    task.phase = .ended ∧ task.sent.getLast? = some (.closing frame)

theorem settles (ok : shard.state.hub.Ok) (staffed : shard.Staffed id handle writer)
    (draining : writer.phase = .draining) :
    ∃ later handle' task, ReflTransGen (Goes budget id) shard later ∧
      later.Staffed id handle' task ∧ BroughtOut shard later id handle writer task := by
  obtain ⟨emptied, drained, way, drainedStaffed, isDrained, empty, relayed⟩ :=
    drains budget ok staffed draining
  obtain ⟨out, flushed, goes, outStaffed, outHub, isFlushed, noneFed, -, outRelayed⟩ :=
    flushes drainedStaffed isDrained
  obtain ⟨later, handle', task, last, lastStaffed, lastHub, fed, lastRelayed, -, parked, closed⟩ :=
    rests outStaffed isFlushed noneFed
  refine ⟨later, handle', task, (way.tail goes).tail last, lastStaffed, ?_, fed, ?_, parked,
    fun frame closing => ?_⟩
  · rw [lastHub, outHub]
    exact empty
  · rw [lastRelayed, outRelayed, relayed]
  · obtain ⟨ended, sent⟩ := closed frame closing
    exact ⟨ended, by simp [sent]⟩

theorem Awake.wakesUp (awake : shard.Awake start steps) (ok : start.Ok) (empty : start.accounts = ∅)
    (staffed : shard.Staffed id handle writer) (parked : writer.phase = .parked) :
    ∃ later handle' task, ReflTransGen (Goes budget id) shard later ∧
      later.Staffed id handle' task ∧ BroughtOut shard later id handle writer task := by
  by_cases stirs : Stirs shard.waking id handle writer
  · obtain ⟨next, between, way, nextStaffed, hubEq, closing⟩ := rouses staffed parked stirs
    obtain ⟨later, handle', task, rest, lastStaffed, out⟩ :=
      settles (hubEq ▸ awake.ok) nextStaffed rfl
    refine ⟨later, handle', task, way.trans rest, lastStaffed, out.owed, out.fed, ?_,
      fun none => out.parked (closing.trans none),
      fun frame some => out.closed frame (closing.trans some)⟩
    rw [out.relayed, hubEq]
    rfl
  · obtain ⟨unclosed, nothing⟩ := awake.idle ok empty staffed.found staffed.writing parked stirs
    have attends := awake.attends id handle writer staffed.found staffed.writing
    exact ⟨shard, handle, writer, .refl, staffed, nothing, attends.flushed (.inl parked),
      by rw [nothing, List.append_nil], fun _ => parked, by simp [unclosed]⟩

/-- A task that has flushed brings out what came in the meantime, or ends. -/
theorem Awake.looks (awake : shard.Awake start steps) (ok : start.Ok) (empty : start.accounts = ∅)
    (staffed : shard.Staffed id handle writer) (flushed : writer.phase = .flushed) :
    ∃ later handle' task, ReflTransGen (Goes budget id) shard later ∧
      later.Staffed id handle' task ∧ BroughtOut shard later id handle writer task := by
  have attends := awake.attends id handle writer staffed.found staffed.writing
  have noneFed := attends.flushed (.inr flushed)
  obtain ⟨next, between, task, goes, nextStaffed, hubEq, fed, relayed, unclosed, parked, closed⟩ :=
    rests staffed flushed noneFed
  cases closing : handle.closing with
  | none =>
      obtain ⟨more, nextAwake⟩ := awake.along ok (.single goes)
      obtain ⟨later, handle', last, rest, lastStaffed, out⟩ :=
        nextAwake.wakesUp ok empty nextStaffed (parked closing)
      refine ⟨later, handle', last, .head goes rest, lastStaffed, out.owed, out.fed, ?_,
        fun _ => out.parked unclosed, by simp [closing]⟩
      rw [out.relayed, relayed, hubEq]
  | some frame =>
      have nothing : shard.state.hub.owed id = [] := by
        have gone := attends.gone (by simp [closing])
        simp [Hub.owed, Hub.queue?, AList.lookup_eq_none.mpr gone]
      obtain ⟨ended, sent⟩ := closed frame closing
      refine ⟨next, between, task, .single goes, nextStaffed, hubEq ▸ nothing, fed, ?_,
        by simp [closing], fun other same => ?_⟩
      · rw [relayed, nothing, List.append_nil]
      · obtain rfl := Option.some.inj (closing.symm.trans same)
        exact ⟨ended, by simp [sent]⟩

/-- From wherever it is, a task that has not ended brings everything out. -/
theorem Awake.bringsOut (awake : shard.Awake start steps) (ok : start.Ok)
    (empty : start.accounts = ∅) (staffed : shard.Staffed id handle writer)
    (alive : writer.phase ≠ .ended) :
    ∃ later handle' task, ReflTransGen (Goes budget id) shard later ∧
      later.Staffed id handle' task ∧ BroughtOut shard later id handle writer task := by
  cases phase : writer.phase with
  | parked => exact awake.wakesUp ok empty staffed phase
  | draining => exact settles awake.ok staffed phase
  | drained =>
      obtain ⟨next, task, goes, nextStaffed, hubEq, flushed, -, -, relayed⟩ :=
        flushes staffed phase
      obtain ⟨more, nextAwake⟩ := awake.along ok (.single goes)
      obtain ⟨later, handle', last, rest, lastStaffed, out⟩ :=
        nextAwake.looks ok empty nextStaffed flushed
      refine ⟨later, handle', last, .head goes rest, lastStaffed, out.owed, out.fed, ?_,
        out.parked, out.closed⟩
      rw [out.relayed, relayed, hubEq]
  | flushed => exact awake.looks ok empty staffed phase
  | ended => exact absurd phase alive

end Going

end WritingShard

/-- In every run of a shard, and for every connection whose task has not ended, the task
alone can go on until the relay has nothing left for the connection: it has then written
all that was queued or owed, in order and after what it had written, its sink holds
nothing back, and if a closing frame was stored in its handle then that was the last that it
wrote. -/
theorem writers_bring_out [Codec] (limits : Limits) (seed : UInt64) (shard : UInt16)
    (hub : Hub) (accepted : Hub.withIdSpace limits seed shard = .ok hub) (budget : Nat)
    (moves : List WritingMove) :
    ∃ final, (WritingShard.mk { hub } [] ∅).run budget moves = .ok final ∧
      ∀ id handle writer, final.Staffed id handle writer → writer.phase ≠ .ended →
        ∃ later handle' task,
          Relation.ReflTransGen (WritingShard.Goes budget id) final later ∧
          later.Staffed id handle' task ∧
          WritingShard.BroughtOut final later id handle writer task := by
  obtain ⟨ok, -, empty, -⟩ := ok_withIdSpace accepted
  obtain ⟨final, steps, ran, awake, -⟩ := (WritingShard.awake_start ok).runs ok budget moves
  exact ⟨final, ran, fun id handle writer staffed alive =>
    awake.bringsOut ok empty staffed alive⟩

/-- The task of a connection that was just admitted brings out the welcome. -/
theorem writers_bring_out_welcome :
    let arrival : HelloArrival :=
      ⟨.stored, [9], { protocol := 1, principal := [1], role := 2 }, 0, 0, .unknown⟩
    ∃ final later task,
      (WritingShard.mk { hub := ⟨{}, ∅, ∅, 1, 7, 0⟩ } [] ∅).run 100 [.connect arrival true] =
        .ok final ∧ Relation.ReflTransGen (WritingShard.Goes 100 1) final later ∧
      later.writers.lookup 1 = some task ∧ task.relayed.length = 1 ∧ task.phase = .parked := by
  intro arrival
  obtain ⟨final, ran, out⟩ :=
    writers_bring_out {} 7 0 ⟨{}, ∅, ∅, 1, 7, 0⟩ rfl 100 [.connect arrival true]
  have facts : (match (WritingShard.mk { hub := ⟨{}, ∅, ∅, 1, 7, 0⟩ } [] ∅).run 100
        [.connect arrival true] with
      | .error _ => none
      | .ok (final : WritingShard) => some ((final.state.handles.lookup 1).map (·.closing),
          (final.writers.lookup 1).map fun writer => (writer.phase, writer.relayed),
          (final.state.hub.owed 1).length)) =
      some (some none, some (.parked, []), 1) := by decide +kernel
  rw [ran] at facts
  simp only [Option.some.injEq, Prod.mk.injEq, Option.map_eq_some_iff] at facts
  obtain ⟨⟨handle, found, unclosed⟩, ⟨writer, writing, parked, nothing⟩, one⟩ := facts
  obtain ⟨later, handle', task, way, staffed, brought⟩ :=
    out 1 handle writer ⟨found, writing⟩ (by simp [parked])
  refine ⟨final, later, task, ran, way, staffed.writing, ?_, brought.parked unclosed⟩
  rw [brought.relayed, nothing, List.nil_append, one]

end WindowMlHub
