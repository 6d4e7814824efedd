import Mathlib

/-!
# Programs that run interleaved

A program calls operations on a shared state one after another, and what it does
next depends on their replies.  Any number of tasks may be started at any time,
and whichever task is scheduled performs its next operation.  A run keeps the
history of all operations with the task that performed each.

A guard says of every operation of a program that it is allowed after what the
program did before.  Guards are about one program on its own; in a run they hold
of every task at every point of the history.
-/

namespace InterleavedPrograms

/-- A program that calls operations and continues with their replies. -/
inductive Prog (Op : Type) (Reply : Op → Type) (α : Type)
  | done (result : α)
  | call (op : Op) (next : Reply op → Prog Op Reply α)

/-- An operation with its reply. -/
abbrev Event (Op : Type) (Reply : Op → Type) := Σ op, Reply op

namespace Prog

section Sequential

variable {Op : Type} {Reply : Op → Type} {α β : Type}

/-- One program after another. -/
def bind : Prog Op Reply α → (α → Prog Op Reply β) → Prog Op Reply β
  | done result, later => later result
  | call op next, later => call op fun reply => (next reply).bind later

instance : Monad (Prog Op Reply) where
  pure := done
  bind := bind

/-- A single operation. -/
def perform (op : Op) : Prog Op Reply (Reply op) :=
  call op done

@[simp]
theorem pure_eq_done (result : α) :
    (pure result : Prog Op Reply α) = done result :=
  rfl

@[simp]
theorem done_bind (result : α) (later : α → Prog Op Reply β) :
    (done result >>= later) = later result :=
  rfl

@[simp]
theorem call_bind (op : Op) (next : Reply op → Prog Op Reply α)
    (later : α → Prog Op Reply β) :
    (call op next >>= later) = call op fun reply => next reply >>= later :=
  rfl

/-- The program goes through these events and has the rest still to do. -/
inductive Steps : Prog Op Reply α → List (Event Op Reply) →
    Prog Op Reply α → Prop
  | refl (program : Prog Op Reply α) : Steps program [] program
  | call {op : Op} {next : Reply op → Prog Op Reply α} {reply : Reply op}
      {events : List (Event Op Reply)} {rest : Prog Op Reply α}
      (later : Steps (next reply) events rest) :
      Steps (.call op next) (⟨op, reply⟩ :: events) rest

theorem Steps.snoc {program : Prog Op Reply α}
    {events : List (Event Op Reply)} {op : Op}
    {next : Reply op → Prog Op Reply α}
    (steps : Steps program events (.call op next)) (reply : Reply op) :
    Steps program (events ++ [⟨op, reply⟩]) (next reply) := by
  generalize target : Prog.call op next = rest at steps
  induction steps with
  | refl program =>
      subst target
      exact .call (.refl _)
  | call later ih => exact .call (ih target)

theorem Steps.of_perform {op : Op} {later : Reply op → Prog Op Reply β}
    {events : List (Event Op Reply)} {result : β}
    (steps : Steps (perform op >>= later) events (done result)) :
    ∃ reply rest, events = ⟨op, reply⟩ :: rest ∧
      Steps (later reply) rest (done result) := by
  cases steps with
  | call rest => exact ⟨_, _, rfl, rest⟩

theorem Steps.of_bind {first : Prog Op Reply α} {later : α → Prog Op Reply β}
    {events : List (Event Op Reply)} {result : β}
    (steps : Steps (first >>= later) events (done result)) :
    ∃ value earlier rest, events = earlier ++ rest ∧
      Steps first earlier (done value) ∧
        Steps (later value) rest (done result) := by
  induction first generalizing events with
  | done value => exact ⟨value, [], events, rfl, .refl _, steps⟩
  | call op next ih =>
      cases steps with
      | call rest =>
          obtain ⟨value, earlier, final, rfl, before, after⟩ := ih _ rest
          exact ⟨value, _ :: earlier, final, rfl, .call before, after⟩

/-- Every operation of the program is allowed after what came before it. -/
def Guards (allowed : List (Event Op Reply) → Op → Prop) :
    List (Event Op Reply) → Prog Op Reply α → Prop
  | _, done _ => True
  | past, call op next => allowed past op ∧
      ∀ reply, Guards allowed (past ++ [⟨op, reply⟩]) (next reply)

variable {allowed : List (Event Op Reply) → Op → Prop}
  {past : List (Event Op Reply)}

theorem guards_done (result : α) :
    Guards allowed past (done result : Prog Op Reply α) := by
  simp [Guards]

theorem Guards.perform {op : Op} {later : Reply op → Prog Op Reply β}
    (mayPerform : allowed past op)
    (guards : ∀ reply, Guards allowed (past ++ [⟨op, reply⟩]) (later reply)) :
    Guards allowed past (Prog.perform op >>= later) :=
  ⟨mayPerform, guards⟩

theorem Guards.bind {first : Prog Op Reply α} {later : α → Prog Op Reply β}
    (guards : Guards allowed past first)
    (laterGuards : ∀ events result, Steps first events (done result) →
      Guards allowed (past ++ events) (later result)) :
    Guards allowed past (first >>= later) := by
  induction first generalizing past with
  | done result => simpa using laterGuards [] result (.refl _)
  | call op next ih =>
      rw [call_bind]
      refine ⟨guards.1, fun reply => ih reply (guards.2 reply) ?_⟩
      intro events result steps
      have whole := laterGuards (⟨op, reply⟩ :: events) result (.call steps)
      simpa using whole

theorem Guards.of_steps {program rest : Prog Op Reply α}
    (guards : Guards allowed past program)
    {before after : List (Event Op Reply)} {event : Event Op Reply}
    (steps : Steps program (before ++ event :: after) rest) :
    allowed (past ++ before) event.1 := by
  induction before generalizing past program with
  | nil =>
      cases steps with
      | call later => simpa using guards.1
  | cons first before ih =>
      cases steps with
      | call later => simpa using ih (guards.2 _) later

end Sequential

end Prog

/-! ## Tasks -/

/-- A task and what it has still to do. -/
structure Task (Job Op : Type) (Reply : Op → Type) (α : Type) where
  job : Job
  rest : Prog Op Reply α

section Concurrent

variable {Job Op State α : Type} {Reply : Op → Type}

/-- Operations performed in turn. -/
inductive Performs (perform : (op : Op) → State → Reply op → State → Prop)
    (start : State) : List (Event Op Reply) → State → Prop
  | start : Performs perform start [] start
  | snoc {events : List (Event Op Reply)} {state state' : State} {op : Op}
      {reply : Reply op} (earlier : Performs perform start events state)
      (performed : perform op state reply state') :
      Performs perform start (events ++ [⟨op, reply⟩]) state'

/-- The state in which an operation of the sequence was performed. -/
theorem Performs.at_split
    {perform : (op : Op) → State → Reply op → State → Prop}
    {start state : State} {before after : List (Event Op Reply)}
    {event : Event Op Reply}
    (performed : Performs perform start (before ++ event :: after) state) :
    ∃ middle next, Performs perform start before middle ∧
      perform event.1 middle event.2 next := by
  induction after using List.reverseRecOn generalizing state with
  | nil =>
      generalize whole : before ++ [event] = events at performed
      cases performed with
      | start => simp at whole
      | snoc earlier last =>
          obtain ⟨rfl, isLast⟩ := List.append_inj' whole rfl
          cases isLast
          exact ⟨_, _, earlier, last⟩
  | append_singleton after last ih =>
      rw [← List.cons_append, ← List.append_assoc] at performed
      generalize whole : (before ++ event :: after) ++ [last] = events
        at performed
      cases performed with
      | start => simp at whole
      | snoc earlier _ =>
          obtain ⟨same, _⟩ := List.append_inj' whole rfl
          rw [← same] at earlier
          exact ih earlier

/-- Tasks are started, and perform their operations in any order. -/
inductive Run (program : Job → Prog Op Reply α)
    (perform : (op : Op) → State → Reply op → State → Prop) (start : State) :
    List (Task Job Op Reply α) → List (Nat × Event Op Reply) → State → Prop
  | start : Run program perform start [] [] start
  | spawn {tasks : List (Task Job Op Reply α)}
      {history : List (Nat × Event Op Reply)} {state : State}
      (earlier : Run program perform start tasks history state) (job : Job) :
      Run program perform start (tasks ++ [⟨job, program job⟩]) history state
  | step {tasks : List (Task Job Op Reply α)}
      {history : List (Nat × Event Op Reply)} {state state' : State}
      {index : Nat} {job : Job} {op : Op}
      {next : Reply op → Prog Op Reply α} {reply : Reply op}
      (earlier : Run program perform start tasks history state)
      (running : tasks[index]? = some ⟨job, .call op next⟩)
      (performed : perform op state reply state') :
      Run program perform start (tasks.set index ⟨job, next reply⟩)
        (history ++ [(index, ⟨op, reply⟩)]) state'

/-- What one task did. -/
def eventsOf (index : Nat) (history : List (Nat × Event Op Reply)) :
    List (Event Op Reply) :=
  history.filterMap fun entry =>
    if entry.1 = index then some entry.2 else none

@[simp]
theorem eventsOf_append (index : Nat)
    (earlier later : List (Nat × Event Op Reply)) :
    eventsOf index (earlier ++ later) =
      eventsOf index earlier ++ eventsOf index later := by
  simp [eventsOf]

@[simp]
theorem eventsOf_single (index other : Nat) (event : Event Op Reply) :
    eventsOf index [(other, event)] = if other = index then [event] else [] := by
  by_cases same : other = index <;> simp [eventsOf, same]

theorem mem_eventsOf {index : Nat} {history : List (Nat × Event Op Reply)}
    {event : Event Op Reply} :
    event ∈ eventsOf index history ↔ (index, event) ∈ history := by
  simp only [eventsOf, List.mem_filterMap]
  constructor
  · rintro ⟨⟨other, found⟩, member, same⟩
    split at same
    next here =>
      cases same
      exact here ▸ member
    next => cases same
  · intro member
    exact ⟨(index, event), member, if_pos rfl⟩

variable {program : Job → Prog Op Reply α}
  {perform : (op : Op) → State → Reply op → State → Prop}
  {start state : State} {tasks : List (Task Job Op Reply α)}
  {history : List (Nat × Event Op Reply)}

theorem Run.performs (run : Run program perform start tasks history state) :
    Performs perform start (history.map (·.2)) state := by
  induction run with
  | start => exact .start
  | spawn earlier job ih => exact ih
  | step earlier running performed ih =>
      rw [List.map_append]
      exact .snoc ih performed

theorem Run.index_lt (run : Run program perform start tasks history state)
    {entry : Nat × Event Op Reply} (member : entry ∈ history) :
    entry.1 < tasks.length := by
  induction run with
  | start => cases member
  | spawn earlier job ih =>
      rw [List.length_append]
      exact Nat.lt_add_right _ (ih member)
  | step earlier running performed ih =>
      rw [List.length_set]
      rcases List.mem_append.mp member with old | new
      · exact ih old
      · rw [List.mem_singleton.mp new]
        exact (List.getElem?_eq_some_iff.mp running).1

/-- Every task has gone through its own part of the history. -/
theorem Run.steps (run : Run program perform start tasks history state)
    {index : Nat} {task : Task Job Op Reply α}
    (found : tasks[index]? = some task) :
    (program task.job).Steps (eventsOf index history) task.rest := by
  induction run generalizing task with
  | start => simp at found
  | @spawn tasks history state earlier job ih =>
      rw [List.getElem?_append] at found
      split at found
      next old => exact ih found
      next new =>
        -- a new task has done nothing, because no entry names its index
        have fresh : eventsOf index history = [] := by
          rw [eventsOf, List.filterMap_eq_nil_iff]
          intro entry member
          rw [if_neg]
          rintro rfl
          exact new (earlier.index_lt member)
        obtain ⟨at_, isNew⟩ := List.getElem?_eq_some_iff.mp found
        simp only [List.getElem_singleton] at isNew
        rw [fresh, ← isNew]
        exact .refl _
  | @step tasks history state state' stepped job op next reply earlier running
      performed ih =>
      rw [eventsOf_append, eventsOf_single]
      by_cases same : stepped = index
      · subst same
        rw [List.getElem?_set_self (List.getElem?_eq_some_iff.mp running).1]
          at found
        cases found
        simpa using (ih running).snoc reply
      · rw [List.getElem?_set_ne same] at found
        simpa [same] using ih found

theorem Run.allowed {allowed : Job → List (Event Op Reply) → Op → Prop}
    (guards : ∀ job, Prog.Guards (allowed job) [] (program job))
    (run : Run program perform start tasks history state) {index : Nat}
    {event : Event Op Reply} {before after : List (Nat × Event Op Reply)}
    (split : history = before ++ (index, event) :: after) :
    ∃ task, tasks[index]? = some task ∧
      allowed task.job (eventsOf index before) event.1 := by
  have member : (index, event) ∈ history := by simp [split]
  obtain ⟨task, found⟩ : ∃ task, tasks[index]? = some task :=
    ⟨_, List.getElem?_eq_getElem (run.index_lt member)⟩
  refine ⟨task, found, ?_⟩
  have steps := run.steps found
  rw [split, ← List.singleton_append, ← List.append_assoc, eventsOf_append,
    eventsOf_append, eventsOf_single, if_pos rfl, List.append_assoc,
    List.singleton_append] at steps
  simpa using (guards task.job).of_steps steps

end Concurrent

end InterleavedPrograms
