import WindowMlHub.RelayRuns

/-!
# The close cascade

Every call of the relay ends in `finish`, which takes the connections to close off a stack.
Forgetting one of them tells the others, whose queues may overflow then, so the stack grows
while it is worked off.  Still the loop ends: a connection is forgotten once, and what it
adds is bounded by the connections that are left.  Whoever was on the stack at any time is
unknown afterwards.
-/

namespace WindowMlHub

open CheckedEvaluation HashTables

/-- What the loop of `finish` goes on with. -/
structure CloseState where
  hub : Hub
  fx : Effects
  closed : List (ConnId × Frame)

namespace CloseState

/-- The entry is passed over: its connection is closed already, or not known. -/
def Passes (state : CloseState) (conn : ConnId) : Prop :=
  state.closed.any (fun entry => entry.1 = conn) = true ∨ conn ∉ state.hub.connAccount

instance (state : CloseState) (conn : ConnId) : Decidable (state.Passes conn) :=
  inferInstanceAs (Decidable (_ ∨ _))

variable [Codec]

/-- One round of the loop of `finish`, unless it is over. -/
def round (order : HashOrder) (state : CloseState) : Option CloseState :=
  match state.fx.close with
  | [] => none
  | (conn, frame) :: rest =>
      let fx := { state.fx with close := rest }
      if state.Passes conn then
        some { state with fx }
      else
        let forgot := state.hub.forget order conn fx
        some ⟨forgot.1, forgot.2, state.closed ++ [(conn, frame)]⟩

/-- The rounds of the loop lead from one state to another. -/
abbrev Rounds (order : HashOrder) : CloseState → CloseState → Prop :=
  Relation.ReflTransGen fun state next => state.round order = some next

variable {order : HashOrder} {state next middle final : CloseState} {start : Hub}

theorem round_cases (rounds : state.round order = some next) :
    ∃ conn frame rest, state.fx.close = (conn, frame) :: rest ∧
      (state.Passes conn ∧ next = { state with fx := { state.fx with close := rest } } ∨
        ¬ state.Passes conn ∧ next =
          ⟨(state.hub.forget order conn { state.fx with close := rest }).1,
            (state.hub.forget order conn { state.fx with close := rest }).2,
            state.closed ++ [(conn, frame)]⟩) := by
  unfold round at rounds
  split at rounds
  · cases rounds
  · next conn frame rest top =>
      refine ⟨conn, frame, rest, top, ?_⟩
      split at rounds
      · next passes => exact .inl ⟨passes, (Option.some.inj rounds).symm⟩
      · next acts => exact .inr ⟨acts, (Option.some.inj rounds).symm⟩

theorem finishLoop_eq (order : HashOrder) (fuel : Nat) (state : CloseState) :
    Hub.finishLoop order (fuel + 1) state.hub state.fx state.closed =
      match state.round order with
      | none => .ok (state.hub, state.fx, state.closed)
      | some next => Hub.finishLoop order fuel next.hub next.fx next.closed := by
  rw [Hub.finishLoop, round]
  cases state.fx.close with
  | nil => rfl
  | cons entry rest =>
      dsimp only
      by_cases passes : state.Passes entry.1
      · rw [if_pos passes]
        exact if_pos passes
      · rw [if_neg passes]
        exact if_neg passes

end CloseState

/-! ## What forgetting adds -/

section Pushing

variable [Codec] {hub : Hub} {account : AccountId} {fx : Effects}

theorem Hub.enqueue_close (hub : Hub) (account : AccountId) (conn : ConnId) (frame : Frame)
    (fx : Effects) : fx.close <:+ (hub.enqueue account conn frame fx).2.close := by
  unfold enqueue
  split
  · exact List.suffix_rfl
  · split
    · exact List.suffix_rfl
    · next c _ =>
        dsimp only
        unfold Conn.settle
        split
        · unfold Conn.arm
          dsimp only
          split
          · exact List.suffix_rfl
          · unfold Effects.wakeUp
            split <;> exact List.suffix_rfl
        · exact List.suffix_cons _ _

theorem Hub.enqueueAll_close (account : AccountId) (frame : Frame) (others : List ConnId)
    (hub : Hub) (fx : Effects) :
    fx.close <:+ (enqueueAll account frame others hub fx).2.close := by
  induction others generalizing hub fx with
  | nil => exact List.suffix_rfl
  | cons other rest ih => exact (hub.enqueue_close account other frame fx).trans (ih _ _)

theorem Hub.forget_close (order : HashOrder) (hub : Hub) (conn : ConnId) (fx : Effects) :
    fx.close <:+ (hub.forget order conn fx).2.close := by
  unfold forget
  split
  · exact List.suffix_rfl
  · dsimp only
    split
    · exact List.suffix_rfl
    · split
      · exact List.suffix_rfl
      · exact enqueueAll_close _ _ _ _ fx

end Pushing

/-! ## What the rounds keep -/

namespace CloseState

/-- What holds in every round, from a hub: each connection closed was one that it knew, is
closed once, and is all that is not known any more. -/
structure Keeps [Codec] (start : Hub) (state : CloseState) : Prop where
  ok : state.hub.Ok
  nodup : (state.closed.map Prod.fst).Nodup
  known : ∀ entry ∈ state.closed, entry.1 ∈ start.connAccount
  lookup_eq : ∀ id, state.hub.connAccount.lookup id =
    if id ∈ state.closed.map Prod.fst then none else start.connAccount.lookup id

variable [Codec] {order : HashOrder} {state next middle final : CloseState} {start : Hub}

theorem Keeps.of_ok (ok : start.Ok) (fx : Effects) : Keeps start ⟨start, fx, []⟩ where
  ok := ok
  nodup := List.nodup_nil
  known := by simp
  lookup_eq := by simp

theorem Keeps.passes_iff (keeps : Keeps start state) {conn : ConnId} :
    state.Passes conn ↔ conn ∉ state.hub.connAccount := by
  refine or_iff_right_of_imp fun again => ?_
  obtain ⟨entry, member, same⟩ := List.any_eq_true.mp again
  rw [← AList.lookup_eq_none, keeps.lookup_eq, if_pos]
  rw [← of_decide_eq_true same]
  exact List.mem_map_of_mem member

/-- A round either drops the top entry, which names nobody that is known, or forgets one
connection more. -/
theorem Keeps.round (keeps : Keeps start state) (rounds : state.round order = some next) :
    Keeps start next ∧
      (next.fx.close.length +
          HashMap.len next.hub.connAccount * HashMap.len next.hub.connAccount <
        state.fx.close.length +
          HashMap.len state.hub.connAccount * HashMap.len state.hub.connAccount) ∧
      ∀ entry ∈ state.fx.close,
        entry ∈ next.fx.close ∨ entry.1 ∉ next.hub.connAccount := by
  obtain ⟨conn, frame, rest, top, ⟨passes, rfl⟩ | ⟨acts, rfl⟩⟩ := round_cases rounds
  · refine ⟨⟨keeps.ok, keeps.nodup, keeps.known, keeps.lookup_eq⟩, ?_, ?_⟩
    · rw [top, List.length_cons]
      dsimp only
      omega
    · intro entry member
      rw [top] at member
      rcases List.mem_cons.mp member with rfl | later
      · exact .inr (keeps.passes_iff.mp passes)
      · exact .inl later
  · have present : conn ∈ state.hub.connAccount := by
      by_contra absent
      exact acts (.inr absent)
    obtain ⟨account, known⟩ := HashMap.exists_lookup_of_mem present
    have sameWake : ({ state.fx with close := rest } : Effects).wake =
        ({ state.fx with close := rest } : Effects).wake := rfl
    obtain ⟨hub, fx, principal, role, forgot, forgets, -, -, grown⟩ :=
      Hub.forget_spec order keeps.ok known sameWake (fun _ _ => Iff.rfl)
    have suffix := Hub.forget_close order state.hub conn { state.fx with close := rest }
    rw [forgot] at suffix ⊢
    have gone : conn ∉ hub.connAccount := by
      rw [forgets.connAccount_eq, AList.mem_erase]
      exact fun still => still.1 rfl
    have fewer := HashMap.len_erase_of_mem present
    rw [← forgets.connAccount_eq] at fewer
    have startLookup := keeps.lookup_eq conn
    have once : conn ∉ state.closed.map Prod.fst := by
      intro again
      rw [if_pos again, known] at startLookup
      cases startLookup
    rw [if_neg once, known] at startLookup
    refine ⟨⟨forgets.ok, ?_, ?_, ?_⟩, ?_, ?_⟩
    · rw [List.map_append, List.nodup_append]
      refine ⟨keeps.nodup, by simp, ?_⟩
      intro id isClosed other single
      obtain rfl : other = conn := by simpa using single
      rintro rfl
      exact once isClosed
    · intro entry member
      rcases List.mem_append.mp member with earlier | last
      · exact keeps.known entry earlier
      · obtain rfl := List.mem_singleton.mp last
        exact HashMap.mem_of_lookup startLookup.symm
    · intro id
      rw [forgets.connAccount_eq, HashMap.lookup_erase_eq, keeps.lookup_eq]
      by_cases same : id = conn
      · simp [same]
      · rw [if_neg same, List.map_append]
        simp only [List.mem_append, List.map_cons, List.map_nil, List.mem_singleton, same,
          or_false]
    · rw [top, List.length_cons]
      dsimp only at grown ⊢
      rw [← fewer]
      have square : (HashMap.len hub.connAccount + 1) * (HashMap.len hub.connAccount + 1) =
          HashMap.len hub.connAccount * HashMap.len hub.connAccount +
            2 * HashMap.len hub.connAccount + 1 := by ring
      rw [square]
      omega
    · intro entry member
      rw [top] at member
      rcases List.mem_cons.mp member with rfl | later
      · exact .inr gone
      · exact .inl (suffix.subset later)

theorem Keeps.rounds (keeps : Keeps start state) (rounds : Rounds order state next) :
    Keeps start next := by
  induction rounds with
  | refl => exact keeps
  | tail _ last ih => exact (ih.round last).1

/-- Whoever is on the stack stays on it, or is not known any more. -/
theorem Keeps.stays (keeps : Keeps start state) (rounds : Rounds order state next) :
    ∀ entry ∈ state.fx.close, entry ∈ next.fx.close ∨ entry.1 ∉ next.hub.connAccount := by
  induction rounds with
  | refl => exact fun _ member => .inl member
  | @tail middle next earlier last ih =>
      obtain ⟨kept, -, on⟩ := (keeps.rounds earlier).round last
      intro entry member
      rcases ih entry member with still | gone
      · exact on entry still
      · refine .inr ?_
        rw [← AList.lookup_eq_none, (keeps.rounds earlier).lookup_eq] at gone
        obtain ⟨conn, frame, rest, -, ⟨-, rfl⟩ | ⟨-, rfl⟩⟩ := round_cases last
        · rw [← AList.lookup_eq_none, kept.lookup_eq]
          exact gone
        · rw [← AList.lookup_eq_none, kept.lookup_eq]
          by_cases closed : entry.1 ∈ middle.closed.map Prod.fst
          · simp [List.map_append, closed]
          · rw [if_neg closed] at gone
            rw [gone, ite_self]

/-- The loop comes to an end, in no more rounds than it may make. -/
theorem Keeps.ends (keeps : Keeps start state) {fuel : Nat}
    (enough : state.fx.close.length +
      HashMap.len state.hub.connAccount * HashMap.len state.hub.connAccount < fuel) :
    ∃ final, Rounds order state final ∧ final.fx.close = [] ∧
      Hub.finishLoop order fuel state.hub state.fx state.closed =
        .ok (final.hub, final.fx, final.closed) := by
  induction fuel generalizing state with
  | zero => exact absurd enough (Nat.not_lt_zero _)
  | succ fuel ih =>
      rw [finishLoop_eq]
      cases here : state.round order with
      | none =>
          refine ⟨state, .refl, ?_, rfl⟩
          unfold CloseState.round at here
          split at here
          · assumption
          · dsimp only at here
            split at here <;> cases here
      | some next =>
          obtain ⟨kept, less, -⟩ := keeps.round here
          obtain ⟨final, rounds, worked, ran⟩ := ih kept (by omega)
          exact ⟨final, .head here rounds, worked, ran⟩

theorem Rounds.to_end (rounds : Rounds order state middle) (ends : Rounds order state final)
    (worked : final.fx.close = []) : Rounds order middle final := by
  have unique : Relator.RightUnique fun state next : CloseState =>
      state.round order = some next := by
    intro state next other first second
    exact Option.some.inj (first.symm.trans second)
  rcases rounds.total_of_right_unique unique ends with on | back
  · exact on
  · rcases back.cases_head with same | ⟨next, step, -⟩
    · rw [same]
    · simp [round, worked] at step

end CloseState

/-- The frames that these actions close a connection with. -/
def closeFrames (conn : ConnId) (actions : List Action) : List Frame :=
  actions.filterMap fun
    | .close closed frame => if closed = conn then some frame else none
    | .wake _ => none

theorem closeFrames_actionsOf {wake : List ConnId} {closed : List (ConnId × Frame)}
    (nodup : (closed.map Prod.fst).Nodup) {conn : ConnId} {frame : Frame}
    (member : (conn, frame) ∈ closed) :
    closeFrames conn (Hub.actionsOf wake closed) = [frame] := by
  have wakes (woken : List ConnId) : closeFrames conn (woken.map .wake) = [] := by
    simp [closeFrames]
  have closes : closeFrames conn (closed.map fun entry => .close entry.1 entry.2) =
      [frame] := by
    induction closed with
    | nil => cases member
    | cons entry rest ih =>
        obtain ⟨notAgain, restNodup⟩ := List.nodup_cons.mp nodup
        rcases List.mem_cons.mp member with rfl | later
        · have others : closeFrames conn (rest.map fun entry => .close entry.1 entry.2) =
              [] := by
            refine List.filterMap_eq_nil_iff.mpr fun action isClose => ?_
            obtain ⟨other, otherMember, rfl⟩ := List.mem_map.mp isClose
            refine if_neg fun same => notAgain ?_
            have again : other.1 ∈ rest.map Prod.fst := List.mem_map_of_mem otherMember
            rwa [same] at again
          simpa [closeFrames] using others
        · have differs : entry.1 ≠ conn := by
            rintro same
            exact notAgain (same ▸ List.mem_map_of_mem later)
          simpa [closeFrames, differs] using ih restNodup later
  unfold closeFrames at wakes closes ⊢
  rw [Hub.actionsOf, List.filterMap_append, wakes, closes, List.nil_append]

/-- What `finish` comes to from this hub and this stack: it works the stack off, forgets
connections that were known, each of them once and with the frame of the entry that it acted
on, and knows nobody any more that was on the stack in any round. -/
structure Hub.Cascades [Codec] (order : HashOrder) (hub : Hub) (fx : Effects)
    (final : CloseState) : Prop where
  rounds : CloseState.Rounds order ⟨hub, fx, []⟩ final
  worked_off : final.fx.close = []
  finishes : hub.finish order fx =
    .ok (final.hub, actionsOf final.fx.wake final.closed)
  nodup : (final.closed.map Prod.fst).Nodup
  known : ∀ entry ∈ final.closed, entry.1 ∈ hub.connAccount
  closes : ∀ entry ∈ final.closed,
    closeFrames entry.1 (actionsOf final.fx.wake final.closed) = [entry.2]
  forgotten_iff : ∀ conn ∈ hub.connAccount,
    conn ∉ final.hub.connAccount ↔ conn ∈ final.closed.map Prod.fst
  unknown : ∀ middle, CloseState.Rounds order ⟨hub, fx, []⟩ middle →
    ∀ entry ∈ middle.fx.close, entry.1 ∉ final.hub.connAccount

/-- A hub whose tables agree closes whatever it is told to close. -/
theorem Hub.Ok.cascades [Codec] {hub : Hub} (ok : hub.Ok) (order : HashOrder)
    (fx : Effects) : ∃ final, hub.Cascades order fx final := by
  have keeps := CloseState.Keeps.of_ok ok fx
  obtain ⟨final, rounds, workedOff, looped⟩ := @CloseState.Keeps.ends _ order _ _ keeps
    (fx.close.length + HashMap.len hub.connAccount * HashMap.len hub.connAccount + 1)
      (Nat.lt_succ_self _)
  have kept := keeps.rounds rounds
  refine ⟨final, rounds, workedOff, ?_, kept.nodup, kept.known, fun entry member =>
    closeFrames_actionsOf kept.nodup member, fun conn known => ?_, ?_⟩
  · dsimp only at looped
    simp [Hub.finish, looped]
  · rw [← AList.lookup_eq_none, kept.lookup_eq]
    obtain ⟨account, found⟩ := HashMap.exists_lookup_of_mem known
    simp [found]
  · intro middle toMiddle entry member
    rcases (keeps.rounds toMiddle).stays (toMiddle.to_end rounds workedOff) entry member with
      still | gone
    · rw [workedOff] at still
      cases still
    · exact gone

/-- Closing ends, from every state that a relay can be in and for every stack of connections
to close, whether they repeat or are not known. -/
theorem close_cascade_ends [Codec] (limits : Limits) (seed : UInt64) (shard : UInt16)
    (start : Hub) (accepted : Hub.withIdSpace limits seed shard = .ok start)
    (calls : List (HashOrder × Call)) :
    ∃ steps, start.run calls = .ok steps ∧
      ∀ order fx, ∃ final, (finalHub start steps).Cascades order fx final := by
  obtain ⟨startOk, -⟩ := ok_withIdSpace accepted
  obtain ⟨steps, hub, ran, run⟩ := exists_run startOk calls
  refine ⟨steps, ran, fun order fx => ?_⟩
  rw [run.finalHub_eq]
  exact (run.forall_steps startOk).1.cascades order fx

/-- A connection that is listed twice, and one that nobody has. -/
theorem close_cascade_ends_twice :
    ∃ start steps final, Hub.withIdSpace {} 7 0 = .ok start ∧
      start.run [
        (.stored, .connect [9] { protocol := 1, principal := [1], role := 2 }
          0 0 .unknown)] = .ok steps ∧
      (finalHub start steps).Cascades .stored
        { close := [(1, fellBehind), (7, fellBehind), (1, errorFrame .limit 0 "")] } final := by
  obtain ⟨steps, ran, cascades⟩ := close_cascade_ends {} 7 0
    ⟨{}, ∅, ∅, 1, 7, 0⟩ rfl [
      (.stored, .connect [9] { protocol := 1, principal := [1], role := 2 }
        0 0 .unknown)]
  obtain ⟨final, cascade⟩ := cascades .stored
    { close := [(1, fellBehind), (7, fellBehind), (1, errorFrame .limit 0 "")] }
  exact ⟨_, steps, final, rfl, ran, cascade⟩

end WindowMlHub
