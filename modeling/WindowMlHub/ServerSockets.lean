import WindowMlHub.StrangerPacing

/-!
# Sockets that are not authenticated

`serve` and the opening of `connection` in the hub's `lib.rs`: every socket takes a place
among all sockets and a place among the unauthenticated ones, and gives them back however
it ends.  One that ends without having authenticated, and without having become a pairing,
is charged to the strangers before it gives its place back, and the accept loop waits out
their debt before it goes on with the next one.

The accept loop and the tasks of the sockets take their steps in any order, with any time
passing between them.  What the gate of arrivals answers is part of a step.
-/

namespace WindowMlHub

/-- `NO_HELLO_US`. -/
def noHelloUs : Nat := 50

/-- `REFUSED_HELLO_US`. -/
def refusedHelloUs : Nat := 190

/-- How far the task of a socket has come. -/
inductive SocketStage
  /-- its hello is awaited -/
  | reading
  /-- it offered a pairing when there were too many -/
  | refused
  /-- it sent a hello, which is verified or was not accepted -/
  | verifying
  | pairing
  | connected
  /-- `connection` returns: its `Stranger` is about to be dropped -/
  | departing
  /-- charged, with the place of its `Stranger` still held -/
  | charged
  /-- without a `Stranger`, with its place among all sockets still held -/
  | released
  | ended
  deriving DecidableEq, Repr

/-- The task of a socket, with the cost that its `Stranger` carries. -/
structure SocketTask where
  stage : SocketStage := .reading
  costUs : Nat := noHelloUs
  bounded : costUs ≤ refusedHelloUs := by decide
  deriving DecidableEq, Repr

namespace SocketTask

/-- It holds a place among the unauthenticated. -/
def isPending (task : SocketTask) : Bool :=
  match task.stage with
  | .reading | .refused | .verifying | .pairing | .departing | .charged => true
  | .connected | .released | .ended => false

/-- The cost that it carries is still to be charged. -/
def isOwing (task : SocketTask) : Bool :=
  match task.stage with
  | .reading | .refused | .verifying | .pairing | .departing => true
  | .connected | .charged | .released | .ended => false

def isPairing (task : SocketTask) : Bool :=
  task.stage = .pairing

/-- It holds a place among all sockets. -/
def isLive (task : SocketTask) : Bool :=
  task.stage ≠ .ended

/-- The same costs, further on. -/
def onward (task : SocketTask) (stage : SocketStage) : SocketTask :=
  { task with stage }

end SocketTask

/-- The accept loop. -/
inductive AcceptPhase
  /-- parked in `accept` -/
  | listening
  /-- a socket came, and strangers owe nothing -/
  | ready
  /-- a socket came, and is left alone up to then -/
  | pacing (stop : Nat)
  /-- the socket has a place among all sockets -/
  | permitted
  deriving DecidableEq, Repr

structure SocketLimits where
  maxSockets : Nat
  maxPendingSockets : Nat
  maxPairingSockets : Nat
  /-- hellos are verified: `Auth::Keys` -/
  verifies : Bool
  deriving DecidableEq, Repr

/-- The accept loop, the places that are free, and the tasks of the sockets. -/
structure SocketServer where
  limits : SocketLimits
  strangers : Strangers
  freeSockets : Nat
  freePending : Nat
  freePairing : Nat
  tasks : List SocketTask := []
  phase : AcceptPhase := .listening
  clock : Nat
  deriving DecidableEq, Repr

/-- What the task of a socket does next. -/
inductive TaskMove
  /-- it reads a hello -/
  | hello
  /-- it reads an offer of a pairing -/
  | offer
  /-- the hello is accepted and the relay admits the connection -/
  | admitted
  /-- `connection` returns -/
  | leave
  /-- its `Stranger` is dropped -/
  | charge
  /-- the place of the `Stranger` is given back -/
  | release
  /-- the place among all sockets is given back -/
  | finish
  deriving DecidableEq, Repr

inductive SocketMove
  /-- a socket comes, and the loop asks how long to wait -/
  | accept
  /-- the loop takes a place among all sockets for it -/
  | permit
  /-- the gate answers, and the task of the socket is spawned -/
  | spawn (admitted : Bool)
  | task (index : Nat) (move : TaskMove)
  deriving DecidableEq, Repr

namespace SocketServer

/-- As `serve` starts. -/
def start (limits : SocketLimits) (budget : StrangerBudget) (now : Nat) : SocketServer where
  limits := limits
  strangers := .new budget now
  freeSockets := limits.maxSockets
  freePending := limits.maxPendingSockets
  freePairing := limits.maxPairingSockets
  clock := now

/-- A task goes on like this. -/
def put (server : SocketServer) (index : Nat) (task : SocketTask) : SocketServer :=
  { server with tasks := server.tasks.set index task }

/-- A step of a task. -/
def advance (server : SocketServer) (index : Nat) (task : SocketTask) (move : TaskMove) :
    SocketServer :=
  match task.stage, move with
  | .reading, .hello =>
      if server.limits.verifies then
        server.put index { stage := .verifying, costUs := refusedHelloUs }
      else
        server.put index (task.onward .verifying)
  | .reading, .offer =>
      if server.freePairing = 0 then
        server.put index (task.onward .refused)
      else
        { server.put index { stage := .pairing, costUs := 0 } with
          freePairing := server.freePairing - 1 }
  -- settled, so that dropping its `Stranger` charges nothing
  | .verifying, .admitted =>
      { server.put index { stage := .connected, costUs := 0 } with
        freePending := server.freePending + 1 }
  | .reading, .leave | .refused, .leave | .verifying, .leave =>
      server.put index (task.onward .departing)
  | .pairing, .leave =>
      { server.put index (task.onward .departing) with
        freePairing := server.freePairing + 1 }
  | .connected, .leave => server.put index (task.onward .released)
  | .departing, .charge =>
      { server.put index (task.onward .charged) with
        strangers :=
          if task.costUs > 0 then server.strangers.charge task.costUs server.clock
          else server.strangers }
  | .charged, .release =>
      { server.put index (task.onward .released) with
        freePending := server.freePending + 1 }
  | .released, .finish =>
      { server.put index (task.onward .ended) with freeSockets := server.freeSockets + 1 }
  | _, _ => server

/-- The loop need not wait any longer with the socket that came. -/
def goesOn (server : SocketServer) : Bool :=
  match server.phase with
  | .listening | .permitted => false
  | .ready => true
  | .pacing stop => stop ≤ server.clock

/-- What happens at the time of the clock. -/
def handle (server : SocketServer) : SocketMove → SocketServer
  | .accept =>
      if server.phase = .listening then
        match server.strangers.wait server.clock with
        | (none, strangers) => { server with strangers, phase := .ready }
        | (some micros, strangers) =>
            { server with strangers, phase := .pacing (server.clock + 1000 * micros) }
      else server
  | .permit =>
      if server.goesOn then
        if server.freeSockets = 0 then { server with phase := .listening }
        else { server with freeSockets := server.freeSockets - 1, phase := .permitted }
      else server
  | .spawn admitted =>
      if server.phase = .permitted then
        if admitted ∧ server.freePending ≠ 0 then
          { server with
            freePending := server.freePending - 1
            tasks := server.tasks ++ [{}]
            phase := .listening }
        else
          { server with freeSockets := server.freeSockets + 1, phase := .listening }
      else server
  | .task index move =>
      match server.tasks[index]? with
      | some task => server.advance index task move
      | none => server

/-- Time passes. -/
def pass (server : SocketServer) (elapsed : Nat) : SocketServer :=
  { server with clock := server.clock + elapsed }

/-- Some time later, something happens. -/
def step (server : SocketServer) (moved : Nat × SocketMove) : SocketServer :=
  (server.pass moved.1).handle moved.2

def run (server : SocketServer) (moves : List (Nat × SocketMove)) : SocketServer :=
  moves.foldl step server

/-- What the tasks weigh together. -/
def tally (server : SocketServer) (weight : SocketTask → Nat) : Nat :=
  (server.tasks.map weight).sum

variable {server after : SocketServer} {index : Nat} {task next : SocketTask}

theorem tally_put (weight : SocketTask → Nat) (found : server.tasks[index]? = some task) :
    (server.put index next).tally weight + weight task = server.tally weight + weight next := by
  unfold tally put
  dsimp only
  generalize server.tasks = tasks at found
  induction tasks generalizing index with
  | nil => simp at found
  | cons first rest ih =>
      cases index with
      | zero =>
          obtain rfl : first = task := by simpa using found
          simp only [List.set_cons_zero, List.map_cons, List.sum_cons]
          omega
      | succ index =>
          have later := @ih index (by simpa using found)
          simp only [List.set_cons_succ, List.map_cons, List.sum_cons]
          omega

/-- What is charged for a task once its `Stranger` is dropped. -/
def billUs (task : SocketTask) : Nat :=
  if task.isOwing then 0 else task.costUs

/-- A task went from here to there: the places keep up with it, and what it carries is
charged as it leaves the strangers. -/
structure Moves (server after : SocketServer) (index : Nat) (task next : SocketTask) :
    Prop where
  tasks : after.tasks = server.tasks.set index next
  limits : after.limits = server.limits
  phase : after.phase = server.phase
  clock : after.clock = server.clock
  sockets : after.freeSockets + next.isLive.toNat = server.freeSockets + task.isLive.toNat
  pending : after.freePending + next.isPending.toNat =
    server.freePending + task.isPending.toNat
  pairing : after.freePairing + next.isPairing.toNat =
    server.freePairing + task.isPairing.toNat
  charged : (after.strangers = server.strangers ∧ billUs next = billUs task ∧
      next.isOwing.toNat ≤ task.isOwing.toNat) ∨
    (after.strangers = server.strangers.charge task.costUs server.clock ∧
      billUs next = billUs task + task.costUs ∧ task.isOwing.toNat = next.isOwing.toNat + 1)

theorem advance_moves (found : server.tasks[index]? = some task) (move : TaskMove) :
    ∃ next, Moves server (server.advance index task move) index task next := by
  fun_cases advance server index task move
  case case11 departing _ =>
    refine ⟨_, ⟨rfl, rfl, rfl, rfl, ?_, ?_, ?_, ?_⟩⟩
    · simp +zetaDelta [SocketTask.isLive, SocketTask.onward, put, departing]
    · simp +zetaDelta [SocketTask.isPending, SocketTask.onward, put, departing]
    · simp +zetaDelta [SocketTask.isPairing, SocketTask.onward, put, departing]
    by_cases costs : task.costUs > 0
    · refine .inr ⟨if_pos costs, ?_, ?_⟩
      · simp [billUs, SocketTask.isOwing, SocketTask.onward, departing]
      · simp [SocketTask.isOwing, SocketTask.onward, departing]
    · refine .inl ⟨if_neg costs, ?_, ?_⟩
      · have free : task.costUs = 0 := by omega
        simp [billUs, SocketTask.onward, free]
      · simp [SocketTask.isOwing, SocketTask.onward]
  case case14 =>
    refine ⟨_, ⟨?_, rfl, rfl, rfl, rfl, rfl, rfl, .inl ⟨rfl, rfl, le_rfl⟩⟩⟩
    obtain ⟨inside, at_index⟩ := List.getElem?_eq_some_iff.mp found
    rw [← at_index, List.set_getElem_self]
  -- no other step charges anything
  all_goals
    refine ⟨_, ⟨rfl, rfl, rfl, rfl, ?_, ?_, ?_, .inl ⟨rfl, ?_, ?_⟩⟩⟩ <;>
      simp_all +zetaDelta [SocketTask.isLive, SocketTask.isPending, SocketTask.isPairing,
        SocketTask.isOwing, SocketTask.onward, billUs, put, Nat.sub_one_add_one]

theorem tally_moves (moves : Moves server after index task next)
    (found : server.tasks[index]? = some task) (weight : SocketTask → Nat) :
    after.tally weight + weight task = server.tally weight + weight next := by
  have put : (server.put index next).tally weight + weight task =
      server.tally weight + weight next := tally_put weight found
  unfold tally at put ⊢
  rwa [moves.tasks]

theorem tally_append (weight : SocketTask → Nat) :
    tally { server with tasks := server.tasks ++ [task] } weight =
      server.tally weight + weight task := by
  simp [tally]

/-- Every place is free or held. -/
structure Places (server : SocketServer) : Prop where
  sockets : server.freeSockets + server.tally (·.isLive.toNat) +
    (if server.phase = .permitted then 1 else 0) = server.limits.maxSockets
  pending : server.freePending + server.tally (·.isPending.toNat) =
    server.limits.maxPendingSockets
  pairing : server.freePairing + server.tally (·.isPairing.toNat) =
    server.limits.maxPairingSockets

theorem places_start (limits : SocketLimits) (budget : StrangerBudget) (now : Nat) :
    (start limits budget now).Places :=
  ⟨by simp [start, tally], by simp [start, tally], by simp [start, tally]⟩

theorem Places.moves (places : server.Places) (found : server.tasks[index]? = some task)
    (moves : Moves server after index task next) : after.Places := by
  have tallies := tally_moves moves found
  obtain ⟨sockets, pending, pairing⟩ := places
  refine ⟨?_, ?_, ?_⟩
  · have held := tallies (·.isLive.toNat)
    have given := moves.sockets
    rw [moves.phase, moves.limits]
    omega
  · have held := tallies (·.isPending.toNat)
    have given := moves.pending
    rw [moves.limits]
    omega
  · have held := tallies (·.isPairing.toNat)
    have given := moves.pairing
    rw [moves.limits]
    omega

theorem Places.handle (places : server.Places) (move : SocketMove) :
    (server.handle move).Places := by
  obtain ⟨sockets, pending, pairing⟩ := places
  fun_cases SocketServer.handle server move
  case case1 listening _ _ =>
    rw [if_neg (by simp [listening])] at sockets
    exact ⟨sockets, pending, pairing⟩
  case case2 listening _ _ _ =>
    rw [if_neg (by simp [listening])] at sockets
    exact ⟨sockets, pending, pairing⟩
  case case4 goes _ =>
    rw [if_neg (by rintro permitted; simp [goesOn, permitted] at goes)] at sockets
    exact ⟨sockets, pending, pairing⟩
  case case5 goes room =>
    rw [if_neg (by rintro permitted; simp [goesOn, permitted] at goes)] at sockets
    refine ⟨?_, pending, pairing⟩
    change server.freeSockets - 1 + server.tally _ + 1 = server.limits.maxSockets
    omega
  case case7 admitted permitted goes =>
    rw [if_pos permitted] at sockets
    obtain ⟨-, room⟩ := goes
    refine ⟨?_, ?_, ?_⟩
    · change server.freeSockets + tally { server with tasks := _ } _ + 0 = _
      rw [tally_append]
      exact (Nat.add_assoc ..).symm.trans sockets
    · change server.freePending - 1 + tally { server with tasks := _ } _ = _
      rw [tally_append]
      change _ + (_ + 1) = server.limits.maxPendingSockets
      omega
    · change server.freePairing + tally { server with tasks := _ } _ = _
      rwa [tally_append]
  case case8 admitted permitted _ =>
    rw [if_pos permitted] at sockets
    refine ⟨?_, pending, pairing⟩
    change server.freeSockets + 1 + server.tally _ + 0 = server.limits.maxSockets
    omega
  case case10 index move task found =>
    obtain ⟨next, moves⟩ := advance_moves found move
    exact Places.moves ⟨sockets, pending, pairing⟩ found moves
  -- nothing happens
  all_goals exact ⟨sockets, pending, pairing⟩

theorem Places.run (places : server.Places) (moves : List (Nat × SocketMove)) :
    (server.run moves).Places := by
  induction moves generalizing server with
  | nil => exact places
  | cons moved later ih =>
      have passed : (server.pass moved.1).Places :=
        ⟨places.sockets, places.pending, places.pairing⟩
      exact ih (passed.handle moved.2)

@[simp]
theorem handle_limits (server : SocketServer) (move : SocketMove) :
    (server.handle move).limits = server.limits := by
  fun_cases SocketServer.handle server move
  case case10 index move task found =>
    obtain ⟨next, moves⟩ := advance_moves found move
    exact moves.limits
  all_goals rfl

@[simp]
theorem run_limits (server : SocketServer) (moves : List (Nat × SocketMove)) :
    (server.run moves).limits = server.limits := by
  induction moves generalizing server with
  | nil => rfl
  | cons moved later ih => exact (ih _).trans (handle_limits _ _)

end SocketServer

namespace StrangerBudget

/-- What one reading of the clock may leave uncredited, in billionths of a microsecond. -/
def roundingLoss (budget : StrangerBudget) : Nat :=
  1000 * budget.usPerSecond + 1000000000

/-- What one stranger may take from the budget, with the reading of the clock that its
charge comes with. -/
def strangerCost (budget : StrangerBudget) : Nat :=
  1000000000 * refusedHelloUs + budget.roundingLoss

/-- What strangers may owe when so many of them may be there at once. -/
def debtLimit (budget : StrangerBudget) (maxPending : Nat) : Nat :=
  budget.strangerCost * (maxPending + 1) + budget.roundingLoss

end StrangerBudget

namespace Strangers

variable {strangers : Strangers} {now : Nat}

/-- The balance in billionths of a microsecond, with what was earned since it was read. -/
def standing (strangers : Strangers) (now : Nat) : Int :=
  1000000000 * strangers.balanceUs +
    (strangers.budget.usPerSecond * (now - strangers.readAt) : Nat)

theorem le_earnedIn (budget : StrangerBudget) (gap : Nat) :
    budget.usPerSecond * gap ≤ 1000000000 * earnedIn budget gap + budget.roundingLoss ∨
      earnedIn budget gap = 2 ^ 63 - 1 := by
  have whole : budget.usPerSecond * gap ≤
      1000 * (gap / 1000 * budget.usPerSecond) + 1000 * budget.usPerSecond := by
    calc budget.usPerSecond * gap
        ≤ budget.usPerSecond * (1000 * (gap / 1000) + 1000) :=
          Nat.mul_le_mul_left _ (by omega)
      _ = 1000 * (gap / 1000 * budget.usPerSecond) + 1000 * budget.usPerSecond := by ring
  unfold earnedIn StrangerBudget.roundingLoss
  omega

theorem le_refill (inRange : -maxI64 ≤ strangers.balanceUs) :
    min 0 (strangers.standing now - strangers.budget.roundingLoss) ≤
      1000000000 * (strangers.refill now).balanceUs := by
  have earned := le_earnedIn strangers.budget (now - strangers.readAt)
  simp only [standing, refill, saturateI64, clampUs, maxI64] at inRange ⊢
  omega

theorem refill_le (inRange : -maxI64 ≤ strangers.balanceUs) :
    1000000000 * (strangers.refill now).balanceUs ≤ strangers.standing now := by
  have earned := strangers.budget.income.credit_le (now - strangers.readAt)
  change 1000000000 * earnedIn strangers.budget (now - strangers.readAt) ≤ _ at earned
  change _ ≤ strangers.budget.usPerSecond * _ at earned
  simp only [standing, refill, saturateI64, clampUs, maxI64] at inRange ⊢
  omega

theorem refill_floor : min 0 strangers.balanceUs ≤ (strangers.refill now).balanceUs := by
  simp only [refill, saturateI64, clampUs, maxI64]
  omega

theorem refill_inRange (inRange : -maxI64 + refusedHelloUs ≤ strangers.balanceUs) :
    -maxI64 + refusedHelloUs ≤ (strangers.refill now).balanceUs := by
  have floor : min 0 strangers.balanceUs ≤ (strangers.refill now).balanceUs :=
    strangers.refill_floor
  unfold maxI64 refusedHelloUs at inRange ⊢
  omega

theorem charge_balance {costUs : Nat} (small : costUs ≤ refusedHelloUs)
    (inRange : -maxI64 + refusedHelloUs ≤ (strangers.refill now).balanceUs) :
    (strangers.charge costUs now).balanceUs = (strangers.refill now).balanceUs - costUs := by
  have below : (strangers.refill now).balanceUs ≤ maxI64 := by
    simp only [refill, saturateI64, clampUs, maxI64]
    omega
  simp only [charge, saturateI64, clampUs, maxI64, refusedHelloUs] at *
  omega

theorem wait_covers {micros : Nat} (owed : (strangers.wait now).1 = some micros)
    (small : (strangers.refill now).debtUs * 1000000 ≤ 2 ^ 64 - 1) :
    0 ≤ 1000000000 * (strangers.refill now).balanceUs +
      (strangers.budget.usPerSecond * (1000 * micros) : Nat) := by
  obtain ⟨paced, -, rounded⟩ := of_wait_eq_some owed
  have enough := le_divCeil_mul ((strangers.refill now).debtUs * 1000000) paced
  rw [min_eq_left small] at rounded
  rw [← rounded] at enough
  have scaled : strangers.budget.usPerSecond * (1000 * micros) =
      1000 * (micros * strangers.budget.usPerSecond) := by ring
  unfold debtUs at enough
  omega

theorem standing_of_read (read : strangers.readAt = now) :
    strangers.standing now = 1000000000 * strangers.balanceUs := by
  simp [standing, read]

theorem standing_refill :
    (strangers.refill now).standing now = 1000000000 * (strangers.refill now).balanceUs :=
  standing_of_read rfl

theorem standing_later (read : strangers.readAt ≤ now) (elapsed : Nat) :
    strangers.standing (now + elapsed) =
      strangers.standing now + (strangers.budget.usPerSecond * elapsed : Nat) := by
  unfold standing
  rw [Nat.sub_add_comm read, Nat.mul_add]
  omega

end Strangers

/-- What a phase of the loop tells of the headroom: a socket is let in only where all
strangers that may be there are covered. -/
def AcceptPhase.Covers (budget : StrangerBudget) (places clock : Nat) (headroom : Int) :
    AcceptPhase → Prop
  | .listening => -(budget.strangerCost * (places + 1) : Nat) ≤ headroom
  | .ready | .permitted => -(budget.strangerCost * places : Nat) ≤ headroom
  | .pacing stop =>
      -(budget.debtLimit places : Int) ≤ headroom ∧
        -(budget.strangerCost * places : Nat) ≤
          headroom + (budget.usPerSecond * (stop - clock) : Nat)

namespace AcceptPhase.Covers

variable {budget : StrangerBudget} {places clock : Nat} {headroom after : Int}
  {phase : AcceptPhase}

theorem debtLimit_le (covers : phase.Covers budget places clock headroom) :
    -(budget.debtLimit places : Int) ≤ headroom := by
  unfold StrangerBudget.debtLimit
  rw [Nat.mul_succ]
  cases phase with
  | listening =>
      unfold Covers at covers
      rw [Nat.mul_succ] at covers
      omega
  | ready | permitted =>
      unfold Covers at covers
      omega
  | pacing stop =>
      have floor := covers.1
      unfold StrangerBudget.debtLimit at floor
      rwa [Nat.mul_succ] at floor

/-- A stranger that is charged leaves the others covered. -/
theorem of_le (covers : phase.Covers budget places clock headroom)
    (kept : min headroom (-(budget.strangerCost * places : Nat)) ≤ after) :
    phase.Covers budget places clock after := by
  have limit : budget.strangerCost * places ≤ budget.debtLimit places := by
    unfold StrangerBudget.debtLimit
    rw [Nat.mul_succ]
    omega
  cases phase with
  | listening =>
      unfold Covers at covers ⊢
      rw [Nat.mul_succ] at covers ⊢
      omega
  | ready | permitted =>
      unfold Covers at covers ⊢
      omega
  | pacing stop =>
      unfold Covers at covers ⊢
      omega

theorem later (covers : phase.Covers budget places clock headroom) (elapsed : Nat) :
    phase.Covers budget places (clock + elapsed)
      (headroom + (budget.usPerSecond * elapsed : Nat)) := by
  cases phase with
  | listening | ready | permitted =>
      unfold Covers at covers ⊢
      omega
  | pacing stop =>
      have sum : budget.usPerSecond * (stop - clock) ≤
          budget.usPerSecond * elapsed + budget.usPerSecond * (stop - (clock + elapsed)) := by
        rw [← Nat.mul_add]
        exact Nat.mul_le_mul_left _ (by omega)
      unfold Covers at covers ⊢
      omega

end AcceptPhase.Covers

namespace SocketServer

variable {server after : SocketServer} {index : Nat} {task next : SocketTask}
  {budget : StrangerBudget} {opened : Nat}

/-- How many strangers are still to be charged. -/
def owing (server : SocketServer) : Nat :=
  server.tally (·.isOwing.toNat)

/-- What strangers have been charged, in microseconds. -/
def billed (server : SocketServer) : Nat :=
  server.tally billUs

/-- What would be left if all strangers ended at once, each with a reading of the clock. -/
def headroom (server : SocketServer) : Int :=
  server.strangers.standing server.clock -
    (server.strangers.budget.strangerCost * server.owing : Nat)

theorem Places.owing_le (places : server.Places) :
    server.owing ≤ server.limits.maxPendingSockets := by
  have fewer : server.owing ≤ server.tally (·.isPending.toNat) := by
    refine List.sum_le_sum fun task _ => ?_
    unfold SocketTask.isOwing SocketTask.isPending
    cases task.stage <;> decide
  have pending := places.pending
  omega

/-- The debt is bounded, and the books are kept. -/
structure Afloat (budget : StrangerBudget) (opened : Nat) (server : SocketServer) : Prop where
  places : server.Places
  sameBudget : server.strangers.budget = budget
  since : opened ≤ server.strangers.readAt
  read : server.strangers.readAt ≤ server.clock
  floor : -(budget.debtLimit server.limits.maxPendingSockets : Int) ≤
    1000000000 * server.strangers.balanceUs
  ledger : 1000000000 * server.strangers.balanceUs + (1000000000 * server.billed : Nat) ≤
    1000000000 * budget.burstUs +
      (budget.usPerSecond * (server.strangers.readAt - opened) : Nat)
  covers : server.phase.Covers budget server.limits.maxPendingSockets server.clock
    server.headroom

theorem afloat_start (limits : SocketLimits) (budget : StrangerBudget) (now : Nat) :
    Afloat budget now (start limits budget now) := by
  have clamped : clampUs budget.burstUs ≤ budget.burstUs := by
    unfold clampUs
    omega
  have nonneg : 0 ≤ clampUs budget.burstUs := by
    unfold clampUs maxI64
    omega
  refine ⟨places_start .., rfl, le_rfl, le_rfl, ?_, ?_, ?_⟩
  · change _ ≤ 1000000000 * clampUs budget.burstUs
    omega
  · change 1000000000 * clampUs budget.burstUs + (0 : Nat) ≤ _
    omega
  · change _ ≤ (Strangers.new budget now).standing now - (budget.strangerCost * 0 : Nat)
    have read : (Strangers.new budget now).readAt = now := rfl
    rw [Strangers.standing_of_read read]
    change _ ≤ 1000000000 * clampUs budget.burstUs - _
    omega

theorem headroom_pass (read : server.strangers.readAt ≤ server.clock) (elapsed : Nat) :
    (server.pass elapsed).headroom =
      server.headroom + (server.strangers.budget.usPerSecond * elapsed : Nat) := by
  have later := Strangers.standing_later read elapsed
  unfold headroom
  change server.strangers.standing (server.clock + elapsed) -
    (server.strangers.budget.strangerCost * server.owing : Nat) = _
  omega

theorem Afloat.pass (afloat : Afloat budget opened server) (elapsed : Nat) :
    Afloat budget opened (server.pass elapsed) := by
  obtain ⟨places, rfl, since, read, floor, ledger, covers⟩ := afloat
  refine ⟨⟨places.sockets, places.pending, places.pairing⟩, rfl, since,
    Nat.le_add_right_of_le read, floor, ledger, ?_⟩
  rw [headroom_pass read]
  exact covers.later elapsed

theorem Afloat.inRange (afloat : Afloat budget opened server)
    (small : budget.debtLimit server.limits.maxPendingSockets ≤ 1000 * (2 ^ 64 - 1)) :
    -maxI64 + refusedHelloUs ≤ server.strangers.balanceUs := by
  have floor := afloat.floor
  unfold maxI64 refusedHelloUs
  omega

/-- What a reading of the clock leaves of the balance, and in the books. -/
theorem Afloat.refills (afloat : Afloat budget opened server)
    (small : budget.debtLimit server.limits.maxPendingSockets ≤ 1000 * (2 ^ 64 - 1)) :
    min 0 (server.strangers.standing server.clock - budget.roundingLoss) ≤
        1000000000 * (server.strangers.refill server.clock).balanceUs ∧
      1000000000 * (server.strangers.refill server.clock).balanceUs +
          (1000000000 * server.billed : Nat) ≤
        1000000000 * budget.burstUs + (budget.usPerSecond * (server.clock - opened) : Nat) := by
  have inRange := afloat.inRange small
  obtain ⟨-, rfl, since, read, floor, ledger, -⟩ := afloat
  have inRange' : -maxI64 ≤ server.strangers.balanceUs := by omega
  have least := @Strangers.le_refill _ server.clock inRange'
  have most := @Strangers.refill_le _ server.clock inRange'
  refine ⟨least, ?_⟩
  have split : server.strangers.budget.usPerSecond * (server.clock - opened) =
      server.strangers.budget.usPerSecond * (server.clock - server.strangers.readAt) +
        server.strangers.budget.usPerSecond * (server.strangers.readAt - opened) := by
    rw [← Nat.mul_add]
    congr 1
    omega
  unfold Strangers.standing at most
  omega

private theorem charge_leaves {standing balance : Int} {cost others capacity rounding : Nat}
    (bounded : cost ≤ refusedHelloUs)
    (room : others + (1000000000 * refusedHelloUs + rounding) ≤ capacity)
    (least : min 0 (standing - rounding) ≤ 1000000000 * balance) :
    min (standing - (others + (1000000000 * refusedHelloUs + rounding) : Nat)) (-capacity) ≤
      1000000000 * (balance - cost) - others := by
  unfold refusedHelloUs at *
  omega

/-- A stranger is charged no more than was set aside for it. -/
theorem Afloat.charge (afloat : Afloat budget opened server)
    (small : budget.debtLimit server.limits.maxPendingSockets ≤ 1000 * (2 ^ 64 - 1))
    (places : after.Places) (limits : after.limits = server.limits)
    (phase : after.phase = server.phase) (clock : after.clock = server.clock)
    (charged : after.strangers = server.strangers.charge task.costUs server.clock)
    (bills : after.billed = server.billed + task.costUs)
    (owes : server.owing = after.owing + 1) : Afloat budget opened after := by
  obtain ⟨least, most⟩ := afloat.refills small
  have inRange := afloat.inRange small
  have pending := afloat.places.owing_le
  obtain ⟨-, rfl, since, read, floor, ledger, covers⟩ := afloat
  have bounded := task.bounded
  have balance : after.strangers.balanceUs =
      (server.strangers.refill server.clock).balanceUs - task.costUs := by
    rw [charged]
    exact Strangers.charge_balance bounded (Strangers.refill_inRange inRange)
  have readNow : after.strangers.readAt = after.clock := by
    rw [charged, clock]
    rfl
  have sameBudget : after.strangers.budget = server.strangers.budget := by
    rw [charged]
    rfl
  have setAside : server.strangers.budget.strangerCost * server.owing =
      server.strangers.budget.strangerCost * after.owing +
        (1000000000 * refusedHelloUs + server.strangers.budget.roundingLoss) := by
    rw [owes, Nat.mul_succ, Nat.add_left_cancel_iff, StrangerBudget.strangerCost]
  have cost := Nat.mul_le_mul_left server.strangers.budget.strangerCost pending
  rw [setAside] at cost
  have kept : min server.headroom (-(server.strangers.budget.strangerCost *
      server.limits.maxPendingSockets : Nat)) ≤ after.headroom := by
    unfold headroom
    rw [Strangers.standing_of_read readNow, sameBudget, balance, setAside]
    exact charge_leaves bounded cost least
  have covered := covers.of_le kept
  refine ⟨places, sameBudget, ?_, readNow.le, ?_, ?_, ?_⟩
  · rw [readNow, clock]
    omega
  · have limit := covered.debtLimit_le
    unfold headroom at limit
    rw [Strangers.standing_of_read readNow] at limit
    rw [limits]
    omega
  · rw [readNow, clock, balance, bills]
    omega
  · rwa [phase, limits, clock]

/-- A task's step. -/
theorem Afloat.moves (afloat : Afloat budget opened server)
    (small : budget.debtLimit server.limits.maxPendingSockets ≤ 1000 * (2 ^ 64 - 1))
    (found : server.tasks[index]? = some task)
    (moves : Moves server after index task next) : Afloat budget opened after := by
  have owes := tally_moves moves found (·.isOwing.toNat)
  have bills := tally_moves moves found billUs
  have places := afloat.places.moves found moves
  rcases moves.charged with ⟨same, bill, fewer⟩ | ⟨charged, bill, one⟩
  · obtain ⟨-, rfl, since, read, floor, ledger, covers⟩ := afloat
    have fewer : after.owing ≤ server.owing := by
      unfold owing
      omega
    have billed : after.billed = server.billed := by
      unfold billed
      omega
    have kept : server.headroom ≤ after.headroom := by
      unfold headroom
      rw [same, moves.clock]
      have cost := Nat.mul_le_mul_left server.strangers.budget.strangerCost fewer
      omega
    refine ⟨places, same ▸ rfl, same ▸ since, ?_, ?_, ?_, ?_⟩
    · rwa [same, moves.clock]
    · rwa [same, moves.limits]
    · rwa [same, billed]
    · rw [moves.phase, moves.limits, moves.clock]
      exact covers.of_le ((min_le_left ..).trans kept)
  · refine afloat.charge small places moves.limits moves.phase moves.clock charged ?_ ?_
    · unfold billed
      omega
    · unfold owing
      omega

/-- The clock is read for the strangers in a phase that the new headroom covers. -/
theorem Afloat.reread (afloat : Afloat budget opened server)
    (small : budget.debtLimit server.limits.maxPendingSockets ≤ 1000 * (2 ^ 64 - 1))
    (listening : server.phase = .listening) {phase : AcceptPhase} (outside : phase ≠ .permitted)
    (covers : phase.Covers budget server.limits.maxPendingSockets server.clock
      (1000000000 * (server.strangers.refill server.clock).balanceUs -
        (budget.strangerCost * server.owing : Nat))) :
    Afloat budget opened
      { server with strangers := server.strangers.refill server.clock, phase } := by
  obtain ⟨-, most⟩ := afloat.refills small
  obtain ⟨⟨sockets, pending, pairing⟩, rfl, since, read, floor, ledger, -⟩ := afloat
  have shallower := @Strangers.refill_floor server.strangers server.clock
  refine ⟨⟨?_, pending, pairing⟩, rfl, since.trans read, le_rfl, ?_, most, ?_⟩
  · rw [if_neg (by simp [listening])] at sockets
    rwa [if_neg outside]
  · change _ ≤ 1000000000 * (server.strangers.refill server.clock).balanceUs
    change -(server.strangers.budget.debtLimit server.limits.maxPendingSockets : Int) ≤ _
    omega
  · change phase.Covers _ _ _ ((server.strangers.refill server.clock).standing server.clock -
      (server.strangers.budget.strangerCost * server.owing : Nat))
    rwa [Strangers.standing_refill]

theorem Afloat.wait_small (afloat : Afloat budget opened server)
    (small : budget.debtLimit server.limits.maxPendingSockets ≤ 1000 * (2 ^ 64 - 1)) :
    (server.strangers.refill server.clock).debtUs * 1000000 ≤ 2 ^ 64 - 1 := by
  have floor := afloat.floor
  have shallower := @Strangers.refill_floor server.strangers server.clock
  unfold Strangers.debtUs
  omega

private theorem waiting_owes {standing balance : Int} {others capacity cost rounding : Nat}
    (room : others ≤ capacity)
    (covers : -((capacity + cost : Nat) : Int) ≤ standing - others)
    (least : min 0 (standing - rounding) ≤ balance) :
    -((capacity + cost + rounding : Nat) : Int) ≤ balance - others := by
  omega

/-- The loop asks how long to wait with the socket that came. -/
theorem Afloat.accept (afloat : Afloat budget opened server) (paced : budget.usPerSecond ≠ 0)
    (small : budget.debtLimit server.limits.maxPendingSockets ≤ 1000 * (2 ^ 64 - 1)) :
    Afloat budget opened (server.handle .accept) := by
  by_cases listening : server.phase = .listening
  swap
  · rwa [handle, if_neg listening]
  have least := (afloat.refills small).1
  have room := Nat.mul_le_mul_left budget.strangerCost afloat.places.owing_le
  have covers := afloat.covers
  have sameBudget := afloat.sameBudget
  have paced' : server.strangers.budget.usPerSecond ≠ 0 := sameBudget ▸ paced
  have state := @Strangers.wait_state _ server.clock paced'
  rw [listening] at covers
  unfold AcceptPhase.Covers headroom at covers
  rw [sameBudget, Nat.mul_succ] at covers
  rw [handle, if_pos listening]
  cases answer : server.strangers.wait server.clock with
  | mk owed strangers =>
      rw [answer] at state
      obtain rfl : strangers = server.strangers.refill server.clock := state
      have said : (server.strangers.wait server.clock).1 = owed := by rw [answer]
      cases owed with
      | none =>
          refine afloat.reread small listening (by decide) ?_
          have solvent := (Strangers.wait_eq_none_iff paced').mp said
          change -((budget.strangerCost * server.limits.maxPendingSockets : Nat) : Int) ≤ _
          omega
      | some micros =>
          refine afloat.reread small listening (by simp) ⟨?_, ?_⟩
          · unfold StrangerBudget.debtLimit
            rw [Nat.mul_succ]
            exact waiting_owes room covers least
          · have enough := Strangers.wait_covers said (afloat.wait_small small)
            rw [sameBudget] at enough
            rw [Nat.add_sub_cancel_left]
            omega

theorem Afloat.goesOn (afloat : Afloat budget opened server) (goes : server.goesOn) :
    -((budget.strangerCost * server.limits.maxPendingSockets : Nat) : Int) ≤
      server.headroom := by
  have covers := afloat.covers
  unfold SocketServer.goesOn at goes
  cases phase : server.phase with
  | listening | permitted => simp [phase] at goes
  | ready =>
      rw [phase] at covers
      exact covers
  | pacing stop =>
      rw [phase] at covers goes
      have ended : stop ≤ server.clock := of_decide_eq_true goes
      have covered := covers.2
      rw [Nat.sub_eq_zero_of_le ended, Nat.mul_zero] at covered
      omega

theorem Afloat.handle (afloat : Afloat budget opened server) (paced : budget.usPerSecond ≠ 0)
    (small : budget.debtLimit server.limits.maxPendingSockets ≤ 1000 * (2 ^ 64 - 1))
    (move : SocketMove) : Afloat budget opened (server.handle move) := by
  have places := afloat.places.handle move
  cases move with
  | accept => exact afloat.accept paced small
  | permit =>
      by_cases goes : server.goesOn
      swap
      · rwa [SocketServer.handle, if_neg goes]
      have covered := afloat.goesOn goes
      rw [SocketServer.handle, if_pos goes] at places ⊢
      split at places
      · next full =>
          rw [if_pos full]
          refine { afloat with places, covers := ?_ }
          change -((budget.strangerCost * (server.limits.maxPendingSockets + 1) : Nat) : Int) ≤ _
          rw [Nat.mul_succ]
          change _ ≤ server.headroom
          omega
      · next room =>
          rw [if_neg room]
          exact { afloat with places, covers := covered }
  | spawn admitted =>
      by_cases permitted : server.phase = .permitted
      swap
      · rwa [SocketServer.handle, if_neg permitted]
      have covered := afloat.covers
      rw [permitted] at covered
      change -((budget.strangerCost * server.limits.maxPendingSockets : Nat) : Int) ≤ _ at covered
      rw [SocketServer.handle, if_pos permitted] at places ⊢
      split at places
      · next goes =>
          rw [if_pos goes]
          refine { afloat with places, ledger := ?_, covers := ?_ }
          · have ledger := afloat.ledger
            unfold billed at ledger ⊢
            change _ + ((1000000000 * tally { server with tasks := _ } _ : Nat) : Int) ≤ _
            rwa [tally_append]
          · change -((budget.strangerCost * (server.limits.maxPendingSockets + 1) : Nat) : Int) ≤ _
            unfold headroom owing at covered ⊢
            change _ ≤ server.strangers.standing server.clock -
              ((server.strangers.budget.strangerCost *
                tally { server with tasks := _ } _ : Nat) : Int)
            rw [tally_append]
            change _ ≤ _ - ((server.strangers.budget.strangerCost * (_ + 1) : Nat) : Int)
            rw [Nat.mul_succ, Nat.mul_succ, afloat.sameBudget]
            rw [afloat.sameBudget] at covered
            omega
      · next refused =>
          rw [if_neg refused]
          refine { afloat with places, covers := ?_ }
          change -((budget.strangerCost * (server.limits.maxPendingSockets + 1) : Nat) : Int) ≤ _
          rw [Nat.mul_succ]
          change _ ≤ server.headroom
          omega
  | task index move =>
      rw [SocketServer.handle]
      split
      · next task found =>
          obtain ⟨next, moves⟩ := advance_moves found move
          exact afloat.moves small found moves
      · exact afloat

theorem Afloat.run (afloat : Afloat budget opened server) (paced : budget.usPerSecond ≠ 0)
    (small : budget.debtLimit server.limits.maxPendingSockets ≤ 1000 * (2 ^ 64 - 1))
    (moves : List (Nat × SocketMove)) : Afloat budget opened (server.run moves) := by
  induction moves generalizing server with
  | nil => exact afloat
  | cons moved later ih =>
      refine ih ((afloat.pass moved.1).handle paced small moved.2) ?_
      rw [step, handle_limits]
      exact small

end SocketServer

open SocketServer

/-- However the loop and the tasks take their turns, every place is free or held, so that
no more sockets than there are places are open, unauthenticated or pairing, and what ends
leaves nothing held. -/
theorem sockets_keep_places (limits : SocketLimits) (budget : StrangerBudget) (opened : Nat)
    (moves : List (Nat × SocketMove)) :
    let server := (start limits budget opened).run moves
    server.freeSockets + server.tally (·.isLive.toNat) +
        (if server.phase = .permitted then 1 else 0) = limits.maxSockets ∧
      server.freePending + server.tally (·.isPending.toNat) = limits.maxPendingSockets ∧
      server.freePairing + server.tally (·.isPairing.toNat) = limits.maxPairingSockets := by
  obtain ⟨sockets, pending, pairing⟩ := (places_start limits budget opened).run moves
  rw [run_limits] at sockets pending pairing
  exact ⟨sockets, pending, pairing⟩

/-- Whatever strangers come and go, they never owe more than is the cost of one more than
may be there at once, and so what they are charged in all is bounded by the burst, the rate
and that debt. -/
theorem stranger_debt_bounded (limits : SocketLimits) (budget : StrangerBudget)
    (opened : Nat) (moves : List (Nat × SocketMove)) (paced : budget.usPerSecond ≠ 0)
    (small : budget.debtLimit limits.maxPendingSockets ≤ 1000 * (2 ^ 64 - 1)) :
    let server := (start limits budget opened).run moves
    1000000000 * server.strangers.debtUs ≤ budget.debtLimit limits.maxPendingSockets ∧
      1000000000 * server.billed ≤ 1000000000 * budget.burstUs +
        budget.usPerSecond * (server.clock - opened) +
        budget.debtLimit limits.maxPendingSockets := by
  have afloat := (afloat_start limits budget opened).run paced small moves
  obtain ⟨-, -, -, read, floor, ledger, -⟩ := afloat
  rw [run_limits] at floor
  change -(budget.debtLimit limits.maxPendingSockets : Int) ≤ _ at floor
  have later := Nat.mul_le_mul_left budget.usPerSecond (Nat.sub_le_sub_right read opened)
  refine ⟨?_, ?_⟩
  · unfold Strangers.debtUs
    omega
  · omega

/-- One place for strangers at the default budget: a hello is refused and charged. -/
theorem stranger_debt_bounded_refused :
    let limits : SocketLimits := ⟨1, 1, 0, true⟩
    let moves : List (Nat × SocketMove) := [(0, .accept), (0, .permit), (0, .spawn true),
      (5, .task 0 .hello), (5, .task 0 .leave), (5, .task 0 .charge)]
    let server := (start limits .default 0).run moves
    server.billed = 190 ∧
      1000000000 * server.billed ≤ 1000000000 * StrangerBudget.default.burstUs +
        StrangerBudget.default.usPerSecond * (server.clock - 0) +
        StrangerBudget.default.debtLimit limits.maxPendingSockets :=
  ⟨by decide +kernel, (stranger_debt_bounded ⟨1, 1, 0, true⟩ .default 0 _ (by decide)
    (by decide +kernel)).2⟩

end WindowMlHub
