import WindowMlHub.PairingSlots

/-!
# Sockets that wait for a pairing

A socket offers a pairing, holds its slot, polls for the answer and ends; it gives its
slot up when its peer goes or its time is over.  Any number of such tasks run at once,
and devices that are paired already read offers and put answers back.  The steps of the
tasks interleave in any order, with any time passing between them.

A slot is known by its hash alone, and it expires on its own clock, a little before the
task that holds it stops polling.  A task so owns what it collects and forgets as long
as nobody else opens a slot under its hash while it runs.
-/

namespace WindowMlHub

open HashTables

/-- Where a `pairing_socket` task is. -/
inductive SocketPhase
  | starting
  /-- its offer was accepted, and it tells its peer so -/
  | holding
  /-- about to compare the clock with its deadline -/
  | polling (deadline : Nat)
  | collecting (deadline : Nat)
  /-- asleep until the next poll, or until its peer is heard of -/
  | waiting (deadline : Nat)
  /-- past its deadline, with the slot still to be given up -/
  | leaving
  | ended
  deriving DecidableEq, Repr

structure PairingSocket where
  codeHash : Bytes
  offer : Bytes
  phase : SocketPhase := .starting
  deriving DecidableEq, Repr

namespace PairingSocket

/-- The call of the slots that comes next, given whether the peer is still there. -/
def request (socket : PairingSocket) (peer : Bool) : Option SlotCall :=
  match socket.phase with
  | .starting => some (.offer socket.codeHash socket.offer)
  | .holding => if peer then none else some (.forget socket.codeHash)
  | .polling _ => none
  | .collecting _ => some (.collect socket.codeHash)
  | .waiting _ => if peer then none else some (.forget socket.codeHash)
  | .leaving => some (.forget socket.codeHash)
  | .ended => none

/-- Where the task goes next, given the clock and what the slots replied. -/
def advance (socket : PairingSocket) (now : Nat) (peer : Bool)
    (reply : Option SlotReply) : SocketPhase :=
  match socket.phase with
  | .starting => if reply = some .done then .holding else .ended
  | .holding => if peer then .polling (now + slotLifetime) else .ended
  | .polling deadline => if now < deadline then .collecting deadline else .leaving
  | .collecting deadline =>
      match reply with
      | some (.bytes _) => .ended
      | _ => .waiting deadline
  | .waiting deadline => if peer then .polling deadline else .ended
  | .leaving => .ended
  | .ended => .ended

/-- The task has had a slot and has not ended. -/
def Active (socket : PairingSocket) : Prop :=
  socket.phase ≠ .starting ∧ socket.phase ≠ .ended

instance (socket : PairingSocket) : Decidable socket.Active :=
  inferInstanceAs (Decidable (_ ∧ _))

end PairingSocket

/-- The slots, and the tasks that offer pairings. -/
structure PairingWorld where
  slots : Slots := {}
  sockets : List PairingSocket

/-- Who makes the next step: a task, whose peer is there or not, or a device that reads
an offer or answers it. -/
inductive PairingMove
  | socket (index : Nat) (peer : Bool)
  | fetch (codeHash : Bytes)
  | answer (codeHash answer : Bytes)
  deriving DecidableEq, Repr

/-- A call of the slots, with the task that made it. -/
structure PairingEvent where
  socket : Option Nat
  step : SlotStep

/-- The answer that a task sends to its peer: the one it collected. -/
def PairingEvent.sent (event : PairingEvent) : Option Bytes :=
  match event.socket, event.step.call, event.step.reply with
  | some _, .collect _, .bytes answer => some answer
  | _, _, _ => none

namespace PairingWorld

/-- The call that a move makes, if any. -/
def request (world : PairingWorld) : PairingMove → Option SlotCall
  | .socket index peer =>
      (world.sockets[index]?).bind fun socket => socket.request peer
  | .fetch codeHash => some (.offered codeHash)
  | .answer codeHash answer => some (.answer codeHash answer)

/-- The task behind a move. -/
def mover : PairingMove → Option Nat
  | .socket index _ => some index
  | _ => none

/-- The call of a move as it is made. -/
def event? (world : PairingWorld) (move : PairingMove) (now : Nat) :
    Option PairingEvent :=
  (world.request move).map fun call => ⟨mover move, world.slots.step call now⟩

/-- The slots after a move. -/
def slotsAfter (world : PairingWorld) (move : PairingMove) (now : Nat) : Slots :=
  ((world.event? move now).map fun event => event.step.after).getD world.slots

/-- The tasks after a move. -/
def socketsAfter (world : PairingWorld) (move : PairingMove) (now : Nat) :
    List PairingSocket :=
  match move with
  | .socket index peer =>
      let reply := (world.event? move now).map fun event => event.step.reply
      world.sockets.modify index fun socket =>
        { socket with phase := socket.advance now peer reply }
  | _ => world.sockets

def move (world : PairingWorld) (move : PairingMove) (now : Nat) : PairingWorld where
  slots := world.slotsAfter move now
  sockets := world.socketsAfter move now

end PairingWorld

/-- One move of a run. -/
structure PairingStep where
  before : PairingWorld
  move : PairingMove
  now : Nat

/-- The moves of a run, each with the world it was made in. -/
def PairingWorld.run (world : PairingWorld) :
    List (PairingMove × Nat) → List PairingStep
  | [] => []
  | (move, now) :: rest => ⟨world, move, now⟩ :: (world.move move now).run rest

/-- The calls made in a run. -/
def eventsOf (steps : List PairingStep) : List PairingEvent :=
  steps.filterMap fun step => step.before.event? step.move step.now

/-- The slots would take this offer. -/
structure Slots.Accepts (slots : Slots) (codeHash offer : Bytes) (now : Nat) : Prop where
  wide : codeHash.length = 32
  small : offer.length ≤ maxOfferBytes
  free : slots.live now codeHash = none
  room : (slots.forgetExpired now).held < maxSlots

/-- A task whose offer the slots take is the only one under its hash: no other task
that had a slot under it is still running. -/
def PairingStep.Exclusive (step : PairingStep) : Prop :=
  ∀ index peer socket, step.move = .socket index peer →
    step.before.sockets[index]? = some socket → socket.phase = .starting →
    step.before.slots.Accepts socket.codeHash socket.offer step.now →
    ∀ other otherSocket, other ≠ index →
      step.before.sockets[other]? = some otherSocket →
      otherSocket.codeHash = socket.codeHash → ¬ otherSocket.Active

/-- A slot as the calls before explain it, opened by the offer of this task. -/
def OwnedBy (past : List PairingEvent) (index : Nat) (codeHash : Bytes) (slot : Slot) :
    Prop :=
  ∃ earlier opening later, past = earlier ++ opening :: later ∧
    opening.socket = some index ∧ Opening codeHash slot opening.step ∧
    Untouched codeHash slot (later.map (·.step))

/-- What a call of a task may touch, given the calls before it: the answer it sends was
put into the slot that its own offer opened, and a slot it removes is its own. -/
structure Owns (past : List PairingEvent) (event : PairingEvent) (index : Nat) : Prop where
  sent : ∀ answer, event.sent = some answer → ∃ codeHash slot,
    event.step.call = .collect codeHash ∧ slot.answer = some answer ∧
      OwnedBy past index codeHash slot
  removed : ∀ codeHash slot, event.step.ends codeHash = true →
    event.step.before.opened.lookup codeHash = some slot →
      OwnedBy past index codeHash slot

/-! ## Who opened a slot last -/

/-- The task behind the latest call that opened a slot under a hash. -/
def lastOpener (codeHash : Bytes) (past : List PairingEvent) : Option Nat :=
  past.foldl (fun opener event =>
    if (event.step.opens codeHash).isSome then event.socket else opener) none

section Ownership

variable {past : List PairingEvent} {event : PairingEvent} {codeHash : Bytes}

theorem lastOpener_snoc_opens (opens : (event.step.opens codeHash).isSome) :
    lastOpener codeHash (past ++ [event]) = event.socket := by
  simp [lastOpener, opens]

theorem lastOpener_snoc_of_not_opens (opens : event.step.opens codeHash = none) :
    lastOpener codeHash (past ++ [event]) = lastOpener codeHash past := by
  simp [lastOpener, opens]

theorem lastOpener_append {later : List PairingEvent}
    (notOpened : ∀ event ∈ later, event.step.opens codeHash = none) :
    lastOpener codeHash (past ++ later) = lastOpener codeHash past := by
  induction later generalizing past with
  | nil => rw [List.append_nil]
  | cons event later ih =>
      have first := notOpened event (by simp)
      have rest : lastOpener codeHash ((past ++ [event]) ++ later) =
          lastOpener codeHash (past ++ [event]) :=
        ih fun other member => notOpened other (List.mem_cons_of_mem _ member)
      rw [lastOpener_snoc_of_not_opens first, List.append_assoc] at rest
      exact rest

theorem lastOpener_split {later : List PairingEvent}
    (opens : (event.step.opens codeHash).isSome)
    (notOpened : ∀ event ∈ later, event.step.opens codeHash = none) :
    lastOpener codeHash (past ++ event :: later) = event.socket := by
  have split : past ++ event :: later = (past ++ [event]) ++ later := by simp
  rw [split, lastOpener_append notOpened, lastOpener_snoc_opens opens]

theorem OwnedBy.lastOpener_eq {index : Nat} {slot : Slot}
    (owned : OwnedBy past index codeHash slot) : lastOpener codeHash past = some index := by
  obtain ⟨earlier, opening, later, rfl, whose, opened, untouched⟩ := owned
  have opens : (opening.step.opens codeHash).isSome := by
    simp [opened.opens]
  have notOpened : ∀ event ∈ later, event.step.opens codeHash = none :=
    fun event member => untouched.not_opened _ (List.mem_map_of_mem member)
  rw [lastOpener_split opens notOpened, whose]

theorem Explains.ownedBy {index : Nat} {slot : Slot}
    (explained : Explains (past.map (·.step)) codeHash slot)
    (opener : lastOpener codeHash past = some index) :
    OwnedBy past index codeHash slot := by
  obtain ⟨earlier, opening, later, split, opened, untouched⟩ := explained
  obtain ⟨earlierEvents, rest, rfl, rfl, restEq⟩ := List.map_eq_append_iff.mp split
  obtain ⟨openingEvent, laterEvents, rfl, rfl, rfl⟩ := List.map_eq_cons_iff.mp restEq
  have opens : (openingEvent.step.opens codeHash).isSome := by
    simp [opened.opens]
  have notOpened : ∀ event ∈ laterEvents, event.step.opens codeHash = none :=
    fun event member => untouched.not_opened _ (List.mem_map_of_mem member)
  rw [lastOpener_split opens notOpened] at opener
  exact ⟨earlierEvents, openingEvent, laterEvents, rfl, opener, opened,
    untouched⟩

end Ownership

/-! ## What a move does -/

/-- A slot that a call did not open was there before the call. -/
theorem Slots.lookup_of_not_opens {slots : Slots} {call : SlotCall} {now : Nat}
    {codeHash : Bytes} {slot : Slot} (opens : (slots.step call now).opens codeHash = none)
    (found : (slots.step call now).after.opened.lookup codeHash = some slot) :
    ∃ old, slots.opened.lookup codeHash = some old := by
  have trimmed {old : Slot}
      (live : (slots.forgetExpired now).opened.lookup codeHash = some old) :
      ∃ old, slots.opened.lookup codeHash = some old := by
    rw [lookup_forgetExpired] at live
    exact ⟨old, (live_eq_some_iff.mp live).1⟩
  have effect := apply_effect slots now call
  unfold Slots.step at opens found
  generalize slots.apply now call = result at effect opens found
  dsimp only at found
  cases effect with
  | refused call error after same =>
      rcases same with rfl | rfl
      · exact ⟨slot, found⟩
      · exact trimmed found
  | opened hash offer wide small free room =>
      have differs : codeHash ≠ hash := by
        rintro rfl
        simp [SlotStep.opens] at opens
      rw [HashMap.lookup_insert_eq, if_neg differs] at found
      exact trimmed found
  | found hash old live => exact trimmed found
  | answered hash answer old small live first =>
      rw [HashMap.lookup_insert_eq] at found
      split at found
      next same =>
        rw [same]
        exact ⟨old, (live_eq_some_iff.mp live).1⟩
      next differs => exact trimmed found
  | collected hash answer old live given =>
      rw [HashMap.lookup_erase_eq] at found
      split at found
      · cases found
      · exact trimmed found
  | forgot hash wide =>
      rw [HashMap.lookup_erase_eq] at found
      split at found
      · cases found
      · exact ⟨slot, found⟩
  | ignored hash odd => exact ⟨slot, found⟩

theorem Slots.opens_offer {slots : Slots} {codeHash offer : Bytes} {now : Nat}
    (taken : (slots.step (.offer codeHash offer) now).reply = .done) :
    (slots.step (.offer codeHash offer) now).opens codeHash = some offer := by
  unfold Slots.step at taken ⊢
  dsimp only at taken
  simp [SlotStep.opens, taken]

/-- A call that opened a slot is an offer that the slots take. -/
theorem Slots.accepts_of_opens {slots : Slots} {call : SlotCall} {now : Nat}
    {codeHash : Bytes} (opens : (slots.step call now).opens codeHash ≠ none) :
    ∃ offer, call = .offer codeHash offer ∧ slots.Accepts codeHash offer now ∧
      (slots.step call now).reply = .done := by
  have effect := apply_effect slots now call
  unfold Slots.step at opens ⊢
  generalize slots.apply now call = result at effect opens ⊢
  cases effect with
  | refused call error after same =>
      cases call <;> exact absurd rfl opens
  | opened hash offer wide small free room =>
      have same : hash = codeHash := by
        by_contra differs
        simp [SlotStep.opens, differs] at opens
      subst same
      exact ⟨offer, rfl, ⟨wide, small, free, room⟩, rfl⟩
  | found hash old live => exact absurd rfl opens
  | answered hash answer old small live first => exact absurd rfl opens
  | collected hash answer old live given => exact absurd rfl opens
  | forgot hash wide => exact absurd rfl opens
  | ignored hash odd => exact absurd rfl opens

namespace PairingSocket

variable {socket : PairingSocket} {now : Nat} {peer : Bool} {reply : Option SlotReply}

theorem active_advance
    (active : PairingSocket.Active { socket with phase := socket.advance now peer reply }) :
    socket.Active ∨ socket.phase = .starting ∧ reply = some .done := by
  obtain ⟨codeHash, offer, phase⟩ := socket
  cases phase with
  | starting =>
      right
      refine ⟨rfl, ?_⟩
      by_contra refused
      exact active.2 (by simp [advance, refused])
  | ended => exact absurd rfl active.2
  | _ => exact .inl (by simp [Active])

/-- Every call but the offer is made by a task that had a slot. -/
theorem request_active {call : SlotCall} (requested : socket.request peer = some call) :
    (socket.phase = .starting ∧ call = .offer socket.codeHash socket.offer) ∨
      socket.Active ∧ (call = .collect socket.codeHash ∨ call = .forget socket.codeHash) := by
  obtain ⟨codeHash, offer, phase⟩ := socket
  cases phase with
  | starting =>
      obtain rfl := Option.some.inj requested
      exact .inl ⟨rfl, rfl⟩
  | ended => cases requested
  | polling => cases requested
  | collecting =>
      obtain rfl := Option.some.inj requested
      exact .inr ⟨by simp [Active], .inl rfl⟩
  | leaving =>
      obtain rfl := Option.some.inj requested
      exact .inr ⟨by simp [Active], .inr rfl⟩
  | holding =>
      cases peer with
      | true => cases requested
      | false =>
          obtain rfl := Option.some.inj requested
          exact .inr ⟨by simp [Active], .inr rfl⟩
  | waiting =>
      cases peer with
      | true => cases requested
      | false =>
          obtain rfl := Option.some.inj requested
          exact .inr ⟨by simp [Active], .inr rfl⟩

end PairingSocket

namespace PairingWorld

variable {world : PairingWorld} {move : PairingMove} {now : Nat} {event : PairingEvent}

theorem event?_eq_some (made : world.event? move now = some event) :
    ∃ call, world.request move = some call ∧
      event = ⟨mover move, world.slots.step call now⟩ := by
  obtain ⟨call, requested, rfl⟩ := Option.map_eq_some_iff.mp made
  exact ⟨call, requested, rfl⟩

theorem event?_socket {index : Nat} (made : world.event? move now = some event)
    (whose : event.socket = some index) :
    ∃ peer socket call, move = .socket index peer ∧
      world.sockets[index]? = some socket ∧ socket.request peer = some call ∧
      event = ⟨some index, world.slots.step call now⟩ := by
  obtain ⟨call, requested, rfl⟩ := event?_eq_some made
  cases move with
  | socket other peer =>
      obtain rfl : other = index := Option.some.inj whose
      obtain ⟨socket, found, asked⟩ := Option.bind_eq_some_iff.mp requested
      exact ⟨peer, socket, call, rfl, found, asked, rfl⟩
  | fetch codeHash => cases whose
  | answer codeHash answer => cases whose

theorem socket_of_opens {codeHash : Bytes} (made : world.event? move now = some event)
    (opens : event.step.opens codeHash ≠ none) :
    ∃ index peer socket, move = .socket index peer ∧ event.socket = some index ∧
      world.sockets[index]? = some socket ∧ socket.phase = .starting ∧
      socket.codeHash = codeHash ∧ world.slots.Accepts codeHash socket.offer now := by
  obtain ⟨call, requested, rfl⟩ := event?_eq_some made
  obtain ⟨offer, rfl, accepts, -⟩ := Slots.accepts_of_opens opens
  cases move with
  | socket index peer =>
      obtain ⟨socket, found, asked⟩ := Option.bind_eq_some_iff.mp requested
      rcases PairingSocket.request_active asked with ⟨starting, same⟩ | ⟨-, wrong | wrong⟩
      · obtain ⟨rfl, rfl⟩ := SlotCall.offer.inj same
        exact ⟨index, peer, socket, rfl, rfl, found, starting, rfl, accepts⟩
      · cases wrong
      · cases wrong
  | fetch codeHash => cases requested
  | answer codeHash answer => cases requested

/-- Every slot whose task still runs was opened last by that task. -/
structure Attributed (past : List PairingEvent) (world : PairingWorld) : Prop where
  kept : world.slots.Kept (past.map (·.step))
  opener : ∀ {index socket slot}, world.sockets[index]? = some socket → socket.Active →
    world.slots.opened.lookup socket.codeHash = some slot →
      lastOpener socket.codeHash past = some index

/-- A task that has a slot after a move is one that had it before the move, or that
opened it with the move. -/
theorem active_move {index : Nat} {socket : PairingSocket}
    (found : (world.move move now).sockets[index]? = some socket) (active : socket.Active) :
    ∃ before, world.sockets[index]? = some before ∧ before.codeHash = socket.codeHash ∧
      (before.Active ∨ ∃ event, world.event? move now = some event ∧
        event.socket = some index ∧ event.step.opens socket.codeHash ≠ none) := by
  cases move with
  | fetch codeHash => exact ⟨socket, found, rfl, .inl active⟩
  | answer codeHash answer => exact ⟨socket, found, rfl, .inl active⟩
  | socket moved peer =>
      change (world.sockets.modify moved _)[index]? = some socket at found
      rw [List.getElem?_modify] at found
      obtain ⟨before, foundBefore, same⟩ := Option.map_eq_some_iff.mp found
      refine ⟨before, foundBefore, ?_⟩
      by_cases own : moved = index
      · subst own
        rw [if_pos rfl] at same
        subst same
        refine ⟨rfl, ?_⟩
        rcases PairingSocket.active_advance active with was | ⟨starting, done⟩
        · exact .inl was
        · right
          obtain ⟨event, made, replied⟩ := Option.map_eq_some_iff.mp done
          obtain ⟨call, requested, rfl⟩ := event?_eq_some made
          obtain ⟨own, found, asked⟩ := Option.bind_eq_some_iff.mp requested
          obtain rfl := Option.some.inj (foundBefore.symm.trans found)
          refine ⟨_, made, rfl, ?_⟩
          rcases PairingSocket.request_active asked with ⟨-, rfl⟩ | ⟨was, -⟩
          · change (world.slots.step _ now).reply = .done at replied
            change SlotStep.opens before.codeHash (world.slots.step _ now) ≠ none
            rw [Slots.opens_offer replied]
            exact Option.some_ne_none _
          · exact absurd starting was.1
      · rw [if_neg own] at same
        obtain rfl := same
        exact ⟨rfl, .inl active⟩

theorem slots_move_of_made (made : world.event? move now = some event) :
    (world.move move now).slots = event.step.after := by
  simp [PairingWorld.move, slotsAfter, made]

theorem slots_move_of_quiet (quiet : world.event? move now = none) :
    (world.move move now).slots = world.slots := by
  simp [PairingWorld.move, slotsAfter, quiet]

theorem sent_collect {slots : Slots} {codeHash answer : Bytes} {index : Nat}
    (sent : PairingEvent.sent ⟨some index, slots.step (.collect codeHash) now⟩ =
      some answer) :
    (slots.apply now (.collect codeHash)).2 = .bytes answer := by
  unfold PairingEvent.sent Slots.step at sent
  dsimp only at sent
  split at sent
  next replied =>
    obtain rfl := Option.some.inj sent
    simp_all
  · cases sent

/-- A slot ends by the call that names its hash. -/
theorem call_of_ends {step : SlotStep} {codeHash : Bytes}
    (ends : step.ends codeHash = true) :
    step.call = .collect codeHash ∨ step.call = .forget codeHash := by
  obtain ⟨before, call, now, reply, after⟩ := step
  cases call with
  | collect hash =>
      cases reply with
      | bytes answer => exact .inl (congrArg _ (of_decide_eq_true ends))
      | done => cases ends
      | refused error => cases ends
  | forget hash =>
      cases reply with
      | done => exact .inr (congrArg _ (of_decide_eq_true ends))
      | bytes answer => cases ends
      | refused error => cases ends
  | offer hash offer => cases reply <;> cases ends
  | offered hash => cases reply <;> cases ends
  | answer hash answer => cases reply <;> cases ends

namespace Attributed

variable {past : List PairingEvent}

theorem of_starting {sockets : List PairingSocket}
    (starting : ∀ socket ∈ sockets, socket.phase = .starting) :
    Attributed [] { sockets := sockets } where
  kept := Slots.kept_empty
  opener found active _ :=
    absurd (starting _ (List.mem_of_getElem? found)) active.1

theorem move_quiet (attributed : world.Attributed past)
    (quiet : world.event? move now = none) :
    (world.move move now).Attributed past where
  kept := by
    rw [slots_move_of_quiet quiet]
    exact attributed.kept
  opener {index socket slot} found active lookup := by
    rw [slots_move_of_quiet quiet] at lookup
    obtain ⟨before, foundBefore, sameHash, was | ⟨event, made, -⟩⟩ := active_move found active
    · rw [← sameHash] at lookup ⊢
      exact attributed.opener foundBefore was lookup
    · rw [quiet] at made
      cases made

/-- What a move with a call preserves. -/
theorem move_made (attributed : world.Attributed past)
    (exclusive : PairingStep.Exclusive ⟨world, move, now⟩)
    (made : world.event? move now = some event) :
    (world.move move now).Attributed (past ++ [event]) where
  kept := by
    rw [slots_move_of_made made, List.map_append]
    obtain ⟨call, -, rfl⟩ := event?_eq_some made
    exact attributed.kept.apply call now
  opener {index socket slot} found active lookup := by
    rw [slots_move_of_made made] at lookup
    obtain ⟨before, foundBefore, sameHash, origin⟩ := active_move found active
    by_cases opens : event.step.opens socket.codeHash = none
    · rw [lastOpener_snoc_of_not_opens opens]
      rcases origin with was | ⟨other, madeOther, -, otherOpens⟩
      · obtain ⟨call, -, rfl⟩ := event?_eq_some made
        obtain ⟨old, there⟩ := Slots.lookup_of_not_opens opens lookup
        rw [← sameHash] at there ⊢
        exact attributed.opener foundBefore was there
      · obtain rfl := Option.some.inj (made.symm.trans madeOther)
        exact absurd opens otherOpens
    · rw [lastOpener_snoc_opens (Option.isSome_iff_ne_none.mpr opens)]
      obtain ⟨mover, peer, opening, rfl, whose, foundOpening, starting, hashEq, accepts⟩ :=
        socket_of_opens made opens
      rw [whose]
      by_contra differs
      have other : index ≠ mover := fun same => differs (by rw [same])
      rcases origin with was | ⟨again, madeAgain, whoseAgain, -⟩
      · refine exclusive mover peer opening rfl foundOpening starting ?_ index before other
          foundBefore (sameHash.trans hashEq.symm) was
        rw [hashEq]
        exact accepts
      · obtain rfl := Option.some.inj (made.symm.trans madeAgain)
        exact differs (whose.symm.trans whoseAgain)

theorem after_move (attributed : world.Attributed past)
    (exclusive : PairingStep.Exclusive ⟨world, move, now⟩) :
    (world.move move now).Attributed (past ++ (world.event? move now).toList) := by
  cases made : world.event? move now with
  | none => simpa using attributed.move_quiet made
  | some event => exact attributed.move_made exclusive made

theorem owned {index : Nat} {socket : PairingSocket} {slot : Slot}
    (attributed : world.Attributed past) (found : world.sockets[index]? = some socket)
    (active : socket.Active)
    (lookup : world.slots.opened.lookup socket.codeHash = some slot) :
    OwnedBy past index socket.codeHash slot :=
  (attributed.kept.explained lookup).ownedBy (attributed.opener found active lookup)

theorem owns {index : Nat} (attributed : world.Attributed past)
    (made : world.event? move now = some event) (whose : event.socket = some index) :
    Owns past event index := by
  obtain ⟨peer, socket, call, rfl, found, asked, rfl⟩ := event?_socket made whose
  rcases PairingSocket.request_active asked with ⟨starting, rfl⟩ | ⟨active, rfl | rfl⟩
  · refine ⟨fun answer sent => ?_, fun codeHash slot ends _ => ?_⟩
    · cases sent
    · cases ends
  · refine ⟨fun answer sent => ?_, fun codeHash slot ends lookup => ?_⟩
    · obtain ⟨slot, live, given⟩ := collect_live (sent_collect sent)
      exact ⟨_, slot, rfl, given, attributed.owned found active (live_eq_some_iff.mp live).1⟩
    · obtain rfl : socket.codeHash = codeHash := by simpa [Slots.step] using call_of_ends ends
      exact attributed.owned found active lookup
  · refine ⟨fun answer sent => ?_, fun codeHash slot ends lookup => ?_⟩
    · cases sent
    · obtain rfl : socket.codeHash = codeHash := by simpa [Slots.step] using call_of_ends ends
      exact attributed.owned found active lookup

end Attributed

/-- Every call of a task, in a run in which tasks of one hash do not overlap. -/
theorem run_owns {past : List PairingEvent} (attributed : world.Attributed past)
    (moves : List (PairingMove × Nat))
    (exclusive : ∀ step ∈ world.run moves, step.Exclusive) (number : Nat)
    (step : PairingStep) (found : (world.run moves)[number]? = some step)
    (made : step.before.event? step.move step.now = some event) {index : Nat}
    (whose : event.socket = some index) :
    Owns (past ++ eventsOf ((world.run moves).take number)) event index := by
  induction moves generalizing world past number with
  | nil => cases found
  | cons entry rest ih =>
      obtain ⟨move, now⟩ := entry
      cases number with
      | zero =>
          obtain rfl := Option.some.inj found
          simpa [eventsOf] using attributed.owns made whose
      | succ number =>
          have first := exclusive ⟨world, move, now⟩ (by simp [run])
          have later := ih (attributed.after_move first)
            (fun step member => exclusive step (by simp [run, member])) number found
          have split : (world.event? move now).toList ++
                eventsOf (((world.move move now).run rest).take number) =
              eventsOf ((world.run ((move, now) :: rest)).take (number + 1)) := by
            simp only [run, eventsOf, List.take_succ_cons, List.filterMap_cons]
            cases world.event? move now <;> rfl
          rwa [List.append_assoc, split] at later

end PairingWorld

theorem PairingWorld.codeHash_move (world : PairingWorld) (move : PairingMove) (now : Nat) :
    (world.move move now).sockets.map (·.codeHash) = world.sockets.map (·.codeHash) := by
  cases move with
  | fetch codeHash => rfl
  | answer codeHash answer => rfl
  | socket index peer =>
      apply List.ext_getElem?
      intro other
      change ((world.sockets.modify index _).map _)[other]? = _
      rw [List.getElem?_map, List.getElem?_modify, List.getElem?_map]
      cases world.sockets[other]? with
      | none => rfl
      | some socket =>
          by_cases own : index = other
          · simp [own]
          · simp [own]

/-- Tasks with different hashes never meet. -/
theorem PairingWorld.exclusive_of_nodup (world : PairingWorld)
    (different : (world.sockets.map (·.codeHash)).Nodup) (moves : List (PairingMove × Nat)) :
    ∀ step ∈ world.run moves, step.Exclusive := by
  induction moves generalizing world with
  | nil => simp [run]
  | cons entry rest ih =>
      obtain ⟨move, now⟩ := entry
      intro step member
      rcases List.mem_cons.mp member with rfl | later
      · intro index peer socket _ found _ _ other otherSocket differs foundOther sameHash
        have mine : (world.sockets.map (·.codeHash))[index]? = some socket.codeHash := by
          simp [found]
        have theirs : (world.sockets.map (·.codeHash))[other]? = some socket.codeHash := by
          simp [foundOther, sameHash]
        have bound := (List.getElem?_eq_some_iff.mp theirs).1
        have same := (List.getElem?_inj bound different).mp (theirs.trans mine.symm)
        exact absurd same differs
      · exact ih (world.move move now) (by rwa [codeHash_move]) step later

/-- Ownership of pairing slots.  In every interleaving of tasks that offer pairings with
devices that read and answer them, at any times, in which an offer is taken only while
no other task that had a slot under its hash still runs: the answer a task sends to its
peer was put into the slot that its own offer opened, and no task collects or forgets
a slot that another one opened. -/
theorem pairing_sockets_own_slots (sockets : List PairingSocket)
    (starting : ∀ socket ∈ sockets, socket.phase = .starting)
    (moves : List (PairingMove × Nat))
    (exclusive : ∀ step ∈ PairingWorld.run { sockets := sockets } moves, step.Exclusive)
    (number : Nat) (step : PairingStep)
    (found : (PairingWorld.run { sockets := sockets } moves)[number]? = some step)
    (event : PairingEvent) (made : step.before.event? step.move step.now = some event)
    (index : Nat) (whose : event.socket = some index) :
    Owns (eventsOf ((PairingWorld.run { sockets := sockets } moves).take number)) event
      index :=
  PairingWorld.run_owns (PairingWorld.Attributed.of_starting starting) moves exclusive number
    step found made whose

theorem pairing_sockets_own_slots_answered :
    let sockets := [⟨List.replicate 32 7, [1], .starting⟩,
      ⟨List.replicate 32 8, [3], .starting⟩]
    let moves := [(.socket 0 true, 0), (.socket 1 true, 2), (.socket 0 true, 5),
      (.answer (List.replicate 32 7) [2], 6), (.socket 0 true, 7), (.socket 0 true, 8)]
    let steps := PairingWorld.run { sockets := sockets } moves
    ∃ step event, steps[5]? = some step ∧
      step.before.event? step.move step.now = some event ∧ event.sent = some [2] ∧
      Owns (eventsOf (steps.take 5)) event 0 := by
  intro sockets moves steps
  refine ⟨_, _, rfl, rfl, by decide +kernel, ?_⟩
  exact pairing_sockets_own_slots sockets (by decide) moves
    (PairingWorld.exclusive_of_nodup _ (by decide) moves) 5 _ rfl _ rfl 0 rfl

/-- The slot of a task expires ten minutes after its offer, but the task polls for ten
minutes from the moment its peer was told.  Another task offers under the same hash in
between, and the first one collects the answer to the second one's offer. -/
theorem pairing_socket_collects_another :
    let codeHash := List.replicate 32 7
    let sockets := [⟨codeHash, [1], .starting⟩, ⟨codeHash, [3], .starting⟩]
    let moves := [(.socket 0 true, 0), (.socket 0 true, 5), (.socket 0 true, 6),
      (.socket 0 true, 7), (.socket 1 true, slotLifetime),
      (.answer codeHash [2], slotLifetime + 1), (.socket 0 true, slotLifetime + 2),
      (.socket 0 true, slotLifetime + 3), (.socket 0 true, slotLifetime + 4)]
    let steps := PairingWorld.run { sockets := sockets } moves
    ∃ step event, steps[8]? = some step ∧
      step.before.event? step.move step.now = some event ∧ event.socket = some 0 ∧
      event.sent = some [2] ∧ ¬ Owns (eventsOf (steps.take 8)) event 0 := by
  intro codeHash sockets moves steps
  refine ⟨_, _, rfl, rfl, rfl, by decide +kernel, fun owns => ?_⟩
  obtain ⟨hash, slot, called, -, owned⟩ := owns.sent [2] (by decide +kernel)
  obtain rfl : codeHash = hash := SlotCall.collect.inj called
  have second : lastOpener codeHash (eventsOf (steps.take 8)) = some 1 := by
    decide +kernel
  rw [owned.lastOpener_eq] at second
  exact absurd second (by decide)

end WindowMlHub
