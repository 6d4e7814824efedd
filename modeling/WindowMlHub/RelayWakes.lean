import WindowMlHub.RelayPublications
import WindowMlHub.RelayQueueHistory

/-!
# Waking connections

The relay asks the server to take from a connection's queue by a wake, and does
not ask again until the queue has been seen empty.  A connection whose queue is
not empty is armed, a wake goes out exactly when a connection becomes armed, and
none goes out for a connection that is closed.
-/

namespace WindowMlHub

open CheckedEvaluation HashTables

/-- How many wakes for a connection a call returned. -/
def Step.wakes (step : Step) (id : ConnId) : Nat :=
  step.reply.actions.count (.wake id)

/-- How many wakes for a connection these calls returned. -/
def wakesOf (id : ConnId) (steps : List Step) : Nat :=
  (steps.map fun step => step.wakes id).sum

/-- A take that reported the queue empty. -/
def Step.Drains (step : Step) (id : ConnId) : Prop :=
  (∃ budget, step.call = .takeOutbound id budget) ∧
    ∃ taken, step.reply = .taken taken ∧ taken.more = false

/-- The call admitted the connection. -/
def Step.Admits (step : Step) (id : ConnId) : Prop :=
  ∃ actions, step.reply = .admitted id actions

/-- The call takes from the connection's queue. -/
def Step.Takes (step : Step) (id : ConnId) : Prop :=
  ∃ budget, step.call = .takeOutbound id budget

section Waking

variable [Codec] {limits : Limits} {acct acct' : Account} {fx fx' : Effects}
  {events : List Event} {id : ConnId} {c c' : Conn}

theorem Acts.wake_nodup (acts : Acts limits acct fx events acct' fx')
    (nodup : fx.wake.Nodup) : fx'.wake.Nodup := by
  induction acts with
  | done => exact nodup
  | quiet _ act ih => exact act.wake_nodup (ih nodup)
  | event _ act ih => exact act.wake_nodup (ih nodup)

/-- Who is to be woken is there, unless it has left. -/
theorem Acts.wake_live (acts : Acts limits acct fx events acct' fx')
    (stays : ∀ principal role, .left id principal role ∉ events)
    (live : id ∈ fx.wake → id ∈ acct.conns) (woken : id ∈ fx'.wake) :
    id ∈ acct'.conns := by
  have step {before after : Account} {fx₁ fx₂ : Effects} {event : Event}
      (act : Act limits before fx₁ event after fx₂)
      (notLeft : ∀ principal role, event ≠ .left id principal role)
      (liveBefore : id ∈ fx₁.wake → id ∈ before.conns)
      (wokenAfter : id ∈ fx₂.wake) : id ∈ after.conns := by
    rcases act.wake_live id wokenAfter with old | new
    · obtain ⟨old, found⟩ := HashMap.exists_lookup_of_mem (liveBefore old)
      obtain ⟨new, found', _⟩ := act.kept found notLeft
      exact HashMap.mem_of_lookup found'
    · exact new
  induction acts with
  | done => exact live woken
  | quiet _ act ih =>
      exact step act (fun _ _ absurdity => by cases absurdity)
        (ih stays live) woken
  | event _ act ih =>
      exact step act
        (fun principal role isLeft => stays principal role (by simp [isLeft]))
        (ih (fun principal role member =>
          stays principal role (by simp [member])) live) woken

theorem Lives.armed_of_nil (lives : Lives limits id acct c [] acct' c') :
    c'.armed = c.armed := by
  generalize none : [] = events at lives
  induction lives with
  | start => rfl
  | quiet _ _ _ passes ih =>
      rw [← ih none]
      simpa [Event.ops] using passes.armed_eq
  | event => simp at none

omit [Codec] in
/-- What an event does to a queue ends with a push, but for the purge when a
subscription ends. -/
theorem Event.ops_cases (event : Event) (id : ConnId) (c : Conn) :
    event.ops id c = [] ∨
      (∃ earlier op, event.ops id c = earlier ++ [op] ∧ op.pushes = true) ∨
      ∃ key, event = .unsubscribed id key ∧ event.ops id c = [.purge key] := by
  have last (op : QueueOp) (pushes : op.pushes = true) :
      ∃ earlier last, [op] = earlier ++ [last] ∧ last.pushes = true :=
    ⟨[], op, rfl, pushes⟩
  cases event with
  | quiet => exact Or.inl rfl
  | frame target sent =>
      simp only [ops]
      split
      · exact Or.inr (Or.inl (last _ rfl))
      · exact Or.inl rfl
  | published key ring env =>
      simp only [ops]
      split
      · exact Or.inr (Or.inl (last _ rfl))
      · exact Or.inl rfl
  | subscribed target key since ring =>
      simp only [ops]
      split
      · exact Or.inr (Or.inl ⟨.purge key :: backfillOps ring key since, _,
          rfl, rfl⟩)
      · exact Or.inl rfl
  | unsubscribed target key =>
      simp only [ops]
      split
      · rename_i mine
        exact Or.inr (Or.inr ⟨key, by rw [mine], rfl⟩)
      · exact Or.inl rfl
  | joined other conn role => exact Or.inr (Or.inl (last _ rfl))
  | left other principal role => exact Or.inr (Or.inl (last _ rfl))

/-- After a push the queue is not empty. -/
theorem Performs.items_ne_nil {queue final : Outbound} {ops : List QueueOp}
    {op : QueueOp} (performed : Performs limits queue (ops ++ [op]) final)
    (ok : queue.Ok) (pushes : op.pushes = true) : final.items ≠ [] := by
  induction ops generalizing queue with
  | nil =>
      cases performed with
      | next first rest =>
          cases rest with
          | done =>
              cases op with
              | frame frame => simp [first.of_frame ok, Outbound.counted]
              | published key kind epoch entry =>
                  obtain ⟨kept, _, appended⟩ := first.thinned ok
                  simp [appended]
              | purge key => cases pushes
  | cons first ops ih =>
      cases performed with
      | next first rest => exact ih rest (first.ok ok)

/-- A connection whose queue is not empty is armed. -/
structure Conn.Alert (c : Conn) : Prop where
  queue_ok : c.out.Ok
  armed : c.out.items ≠ [] → c.armed = true

theorem Passes.alert {event : Event} (passes : Passes limits event id c c')
    (alert : c.Alert) : c'.Alert := by
  refine ⟨passes.performs.ok alert.queue_ok, fun waiting => ?_⟩
  obtain ⟨item, member⟩ := List.exists_mem_of_ne_nil _ waiting
  rw [passes.armed_eq]
  rcases event.ops_cases id c with nothing | ⟨earlier, op, pushed, pushes⟩ |
    ⟨key, _, purged⟩
  · rcases passes.performs.mem_items alert.queue_ok member with
      ⟨old, _⟩ | ⟨op, among, _⟩
    · rw [alert.armed (List.ne_nil_of_mem old), Bool.true_or]
    · simp [nothing] at among
  · simp [pushed, pushes]
  · rcases passes.performs.mem_items alert.queue_ok member with
      ⟨old, _⟩ | ⟨op, among, offered⟩
    · rw [alert.armed (List.ne_nil_of_mem old), Bool.true_or]
    · rw [purged, List.mem_singleton] at among
      rw [among] at offered
      cases offered

theorem Lives.alert (lives : Lives limits id acct c events acct' c')
    (alert : c.Alert) : c'.Alert :=
  lives.preserves (fun _ now => now.Alert)
    (fun _ _ _ passes before => passes.alert before)
    (fun _ _ _ _ _ _ _ _ _ _ _ passes before => passes.alert before) alert

theorem Lives.queue_ok (lives : Lives limits id acct c events acct' c')
    (ok : c.out.Ok) : c'.out.Ok :=
  lives.preserves (fun _ now => now.out.Ok)
    (fun _ _ _ passes before => passes.performs.ok before)
    (fun _ _ _ _ _ _ _ _ _ _ _ passes before => passes.performs.ok before) ok

theorem Passes.of_nothing {event : Event}
    (passes : Passes limits event id c c')
    (nothing : event.ops id c = []) :
    c'.out = c.out ∧ c'.armed = c.armed := by
  obtain ⟨_, _, _, performs, armed⟩ := passes
  rw [nothing] at performs armed
  exact ⟨performs.of_nil, by simpa using armed⟩

/-- A connection that was asleep before events, of which only the first can end a
subscription, is still asleep or has something to take. -/
theorem Lives.asleep_or (lives : Lives limits id acct c events acct' c')
    (ok : c.out.Ok) (asleep : c.armed = false)
    (first : ∀ earlier target key, (earlier ++ [.unsubscribed target key]) <+:
      events → earlier = []) :
    c'.armed = false ∨ c'.out.items ≠ [] := by
  induction lives with
  | start => exact Or.inl asleep
  | quiet lives act found passes ih =>
      obtain ⟨queueEq, armedEq⟩ := passes.of_nothing rfl
      rw [queueEq, armedEq]
      exact ih ok asleep first
  | @event _ _ _ _ _ events event _ _ lives act found passes ih =>
      have before := ih ok asleep fun earlier target key initial =>
        first earlier target key (initial.trans (List.prefix_append _ _))
      rcases event.ops_cases id _ with nothing | ⟨earlier, op, pushed, pushes⟩ |
        ⟨key, isUnsubscribed, purged⟩
      · obtain ⟨queueEq, armedEq⟩ := passes.of_nothing nothing
        rw [queueEq, armedEq]
        exact before
      · have performs := passes.performs
        rw [pushed] at performs
        exact Or.inr (performs.items_ne_nil (lives.queue_ok ok) pushes)
      · left
        obtain rfl := first events id key (by rw [isUnsubscribed])
        rw [passes.armed_eq, purged, lives.armed_of_nil, asleep]
        rfl

theorem Lives.loose_extend
    (lives : Lives limits id acct c events acct' c') (ok : c.out.Ok) :
    c.out.loose <+: c'.out.loose := by
  have step {event : Event} {old new : Conn}
      (passes : Passes limits event id old new)
      (holds : old.out.Ok ∧ c.out.loose <+: old.out.loose) :
      new.out.Ok ∧ c.out.loose <+: new.out.loose := by
    refine ⟨passes.performs.ok holds.1, holds.2.trans ?_⟩
    rw [passes.performs.loose_eq holds.1]
    exact List.prefix_append _ _
  exact (lives.preserves
    (fun _ now => now.out.Ok ∧ c.out.loose <+: now.out.loose)
    (fun _ _ _ passes holds => step passes holds)
    (fun _ _ _ _ _ _ _ _ _ _ _ passes holds => step passes holds)
    ⟨ok, List.prefix_refl _⟩).2

end Waking

/-! ## One call -/

section Calls

variable [Codec] {step : Step} {account : AccountId} {id : ConnId}
  {c c' : Conn}

theorem Acted.wake_alive {order : HashOrder} {hub hub' : Hub} {call : Call}
    {reply : Reply} {head : List Event} {mid : Account} {fx : Effects}
    {left : List (ConnId × Frame)} {wake : List ConnId}
    (acted : Acted order hub call reply hub' account head mid fx left wake)
    (woken : .wake id ∈ reply.actions) :
    id ∈ (hub'.record account).conns := by
  rw [acted.actions_eq, Hub.wake_mem_actionsOf] at woken
  obtain ⟨woken, remains⟩ := woken
  obtain ⟨tail, fx', tailActs, departures, _, wakeEq⟩ :=
    acted.settles.tail_acts
  rw [← wakeEq] at woken
  apply tailActs.wake_live _ _ woken
  · intro principal role member
    obtain ⟨entry, entryMember, _, _, isLeft⟩ := departures.of_mem member
    cases isLeft
    exact remains entry entryMember rfl
  · intro wokenBefore
    by_cases leaves : ∃ principal role, .left id principal role ∈ head
    · obtain ⟨principal, role, member⟩ := leaves
      obtain ⟨_, heads, _⟩ := acted
      cases heads with
      | closed asleep =>
          simp only [List.mem_singleton, Event.left.injEq] at member
          exact (asleep (member.1 ▸ wokenBefore)).elim
      | received found routed =>
          exact (routed.no_join.2 _ _ _ member).elim
      | _ => simp at member
    · push Not at leaves
      exact acted.settles.head_acts.wake_live leaves (by simp) wokenBefore

/-- A call returns at most one wake for a connection. -/
theorem Effect.wakes_le
    (effect : Effect step.order step.before step.call step.reply step.after)
    (id : ConnId) : step.wakes id ≤ 1 := by
  unfold Step.wakes
  cases effect with
  | idle unknown same noActions noFrames noAdmission => simp [noActions]
  | took account conn acct c taken rest took =>
      simp [took.reply_eq, Reply.actions]
  | acted account head mid fx left wake acted =>
      obtain ⟨tail, fx', tailActs, _, _, wakeEq⟩ := acted.settles.tail_acts
      have nodup : wake.Nodup := by
        rw [← wakeEq]
        exact tailActs.wake_nodup
          (acted.settles.head_acts.wake_nodup List.nodup_nil)
      rw [acted.actions_eq, Hub.actionsOf, List.count_append]
      have closes : (left.map fun entry => Action.close entry.1
          entry.2).count (.wake id) = 0 := by
        rw [List.count_eq_zero]
        simp
      rw [closes, Nat.add_zero]
      apply List.nodup_iff_count_le_one.mp
      exact (nodup.filter _).map fun first second same => by
        cases same
        rfl

theorem Effect.wakes_of_gone (ok' : step.after.Ok)
    (effect : Effect step.order step.before step.call step.reply step.after)
    (gone : id ∉ step.after.connAccount) : step.wakes id = 0 := by
  unfold Step.wakes
  rw [List.count_eq_zero]
  intro woken
  cases effect with
  | idle unknown same noActions noFrames noAdmission => simp [noActions] at woken
  | took account conn acct c taken rest took =>
      simp [took.reply_eq, Reply.actions] at woken
  | acted account head mid fx left wake acted =>
      exact gone (HashMap.mem_of_lookup
        ((ok'.mem_record_iff account id).mp (acted.wake_alive woken)))

/-- What a call other than a take means for a connection that is there after
it: it is woken when it becomes armed. -/
inductive Rouses (step : Step) (account : AccountId) (id : ConnId)
    (c' : Conn) : Prop
  | rest (found : step.before.conn? account id = some c')
      (silent : step.wakes id = 0)
  | lived (c : Conn) (found : step.before.conn? account id = some c)
      (grows : c.armed = true → c'.armed = true)
      (sleeps : c.out.Ok → c.armed = false → c'.out.items = [] →
        c'.armed = false)
      (wakes : step.wakes id =
        if c.armed = false ∧ c'.armed = true then 1 else 0)
  | born (new : id = step.before.nextConn) (waiting : c'.out.items ≠ [])
      (armed : c'.armed = true) (woken : step.wakes id = 1)

theorem Fate.rouses
    (fate : Fate step.order step.before step.call step.reply step.after
      account id c')
    (effect : Effect step.order step.before step.call step.reply step.after)
    (others : ¬ step.Takes id) : Rouses step account id c' := by
  have le := effect.wakes_le id
  have pos (woken : .wake id ∈ step.reply.actions) : step.wakes id = 1 := by
    have := List.count_pos_iff.mpr woken
    unfold Step.wakes at le ⊢
    omega
  cases fate with
  | rest found same others unnamed =>
      refine .rest found (List.count_eq_zero.mpr fun woken => ?_)
      exact unnamed _ woken rfl
  | took acct c taken rest took after same =>
      exact (others took.call_eq).elim
  | lived head tail fx c lived =>
      refine .lived c lived.there
        lived.lives.armed (fun ok asleep empty => ?_) ?_
      · refine (lived.lives.asleep_or ok asleep ?_).resolve_right
          (fun waiting => waiting empty)
        intro earlier target key initial
        have notLast : .unsubscribed target key ∉ tail := by
          intro member
          obtain ⟨_, _, _, absurdity⟩ := lived.departures _ member
          cases absurdity
        have member := (List.mem_append.mp
          (initial.subset (List.mem_append_right earlier
            (List.mem_singleton.mpr rfl)))).resolve_right notLast
        obtain ⟨rfl, _⟩ := lived.heads.unsubscribed_eq member
        obtain ⟨rest, split⟩ := initial
        cases earlier with
        | nil => rfl
        | cons first earlier =>
            simp only [List.cons_append, List.nil_append, List.cons.injEq,
              List.append_assoc] at split
            exact (notLast (split.2 ▸ by simp)).elim
      · split
        · rename_i rises
          exact pos (lived.wake_iff.mpr rises)
        · rename_i level
          exact List.count_eq_zero.mpr (mt lived.wake_iff.mp level)
  | born hello conn mid tail born =>
      refine .born born.id_eq ?_ (born.lives.armed born.newcomer.armed)
        (pos born.woken)
      obtain ⟨welcome, queueEq⟩ := born.newcomer.queue_eq
      have greeted := born.lives.loose_extend born.newcomer.queue_ok
      have welcomed : .of (.welcome welcome) ∈ c'.out.loose := by
        apply greeted.subset
        rw [queueEq]
        simp [Outbound.loose, Outbound.counted, Item.ofFrame]
      intro empty
      simp [Outbound.loose, empty] at welcomed

theorem Effect.gone_stays (ok : step.before.Ok)
    (ok' : step.after.Ok)
    (effect : Effect step.order step.before step.call step.reply step.after)
    (old : id < step.before.nextConn) (gone : id ∉ step.before.connAccount) :
    id ∉ step.after.connAccount := by
  intro known
  obtain ⟨account, known⟩ := HashMap.exists_lookup_of_mem known
  obtain ⟨acct, c, found, connFound⟩ := ok'.exists_conn known
  have alive : step.after.conn? account id = some c := by
    rw [Hub.conn?_eq, Hub.record_of_lookup found]
    exact connFound
  obtain ⟨before, foundBefore⟩ := effect.was_there ok ok' alive old
  exact gone (HashMap.mem_of_lookup (ok.known_of_conn? foundBefore))

end Calls

/-! ## Over a run -/

/-- A wake for the connection has been returned that no take has answered by
reporting the queue empty. -/
def Outstanding (id : ConnId) (steps : List Step) : Prop :=
  ∃ earlier step later, steps = earlier ++ step :: later ∧
    .wake id ∈ step.reply.actions ∧ ∀ other ∈ later, ¬ other.Drains id

section Runs

variable [Codec] {start hub : Hub} {steps : List Step} {account : AccountId}
  {id : ConnId} {c : Conn}

omit [Codec] in
theorem Outstanding.append {step : Step} (outstanding : Outstanding id steps)
    (undrained : ¬ step.Drains id) : Outstanding id (steps ++ [step]) := by
  obtain ⟨earlier, waking, later, rfl, woken, none⟩ := outstanding
  refine ⟨earlier, waking, later ++ [step], by simp, woken, ?_⟩
  intro other member
  rcases List.mem_append.mp member with old | new
  · exact none other old
  · rw [List.mem_singleton.mp new]
    exact undrained

omit [Codec] in
theorem Outstanding.of_wake {step : Step} (woken : step.wakes id = 1) :
    Outstanding id (steps ++ [step]) :=
  ⟨steps, step, [], rfl, List.count_pos_iff.mp (by
    unfold Step.wakes at woken
    omega), by simp⟩

/-- In every run a connection with a frame in its queue is armed, and one that
is armed has a wake outstanding. -/
theorem Run.alert (ok : start.Ok)
    (nobody : ∀ account id c, start.conn? account id ≠ some c)
    (run : Run start steps hub)
    (found : hub.conn? account id = some c) :
    c.Alert ∧ (c.armed = true → Outstanding id steps) := by
  refine run.induct (fun steps hub => ∀ {c},
    hub.conn? account id = some c →
      c.Alert ∧ (c.armed = true → Outstanding id steps)) ok
    (fun found => (nobody _ _ _ found).elim) ?_ found
  intro earlier step run beforeOk afterOk effect member before c' found'
  have fate := effect.fate beforeOk afterOk found'
  by_cases takes : step.Takes id
  · obtain ⟨budget, isTake⟩ := takes
    cases fate with
    | rest found same others unnamed =>
        exact (others (by rw [isTake]; rfl)).elim
    | took acct c taken rest took after same =>
        have foundBefore := took.there
        obtain ⟨alert, outstanding⟩ := before foundBefore
        subst after
        refine ⟨⟨alert.queue_ok.of_sublist (by rw [took.split]; simp) _, ?_⟩,
          fun armed => ?_⟩
        · intro waiting
          simpa [Outbound.counted] using waiting
        · have remaining : rest ≠ [] := by simpa using armed
          have waiting : c.out.items ≠ [] := by simp [took.split, remaining]
          refine (outstanding (alert.armed waiting)).append ?_
          rintro ⟨_, taken', isTaken, noMore⟩
          rw [took.reply_eq] at isTaken
          cases isTaken
          simp [remaining] at noMore
    | lived head tail fx c lived =>
        have heads := lived.heads
        rw [isTake] at heads
        cases heads
    | born hello conn mid tail born =>
        obtain ⟨_, _, _, isConnect⟩ := born.call_eq
        rw [isTake] at isConnect
        cases isConnect
  · have undrained : ¬ step.Drains id := fun drains => takes drains.1
    have alert : c'.Alert := by
      cases fate with
      | rest found same others unnamed => exact (before found).1
      | took acct c taken rest took after same =>
          exact (takes took.call_eq).elim
      | lived head tail fx c lived =>
          exact lived.lives.alert
            (before lived.there).1
      | born hello conn mid tail born =>
          exact born.lives.alert ⟨born.newcomer.queue_ok,
            fun _ => born.newcomer.armed⟩
    refine ⟨alert, fun armed => ?_⟩
    cases fate.rouses effect takes with
    | rest found silent => exact ((before found).2 armed).append undrained
    | lived c found grows sleeps wakes =>
        by_cases asleep : c.armed = false
        · exact .of_wake (by rw [wakes, if_pos ⟨asleep, armed⟩])
        · exact ((before found).2 (by simpa using asleep)).append undrained
    | born new waiting armed woken => exact .of_wake woken

/-- An admission gives out the next id and takes from no queue. -/
theorem Step.Admits.spec {step : Step}
    (effect : Effect step.order step.before step.call step.reply step.after)
    (admits : step.Admits id) :
    id = step.before.nextConn ∧ id < step.after.nextConn ∧
      ¬ step.Takes id := by
  obtain ⟨actions, isAdmitted⟩ := admits
  cases effect with
  | idle unknown same noActions noFrames noAdmission =>
      rw [isAdmitted] at noAdmission
      cases noAdmission
  | took account conn acct c taken rest took =>
      have isTaken := took.reply_eq
      rw [isAdmitted] at isTaken
      cases isTaken
  | acted account head mid fx left wake acted =>
      obtain ⟨_, heads, _, _, _, nextEq⟩ := acted
      rw [isAdmitted] at heads nextEq
      generalize isCall : step.call = call at heads
      cases heads with
      | joined newcomer =>
          refine ⟨rfl, by rw [nextEq]; exact Nat.lt_succ_self _, ?_⟩
          rintro ⟨budget, isTake⟩
          rw [isTake] at isCall
          cases isCall

/-- A connection that is there after its admission has been woken. -/
theorem Step.Admits.woken {step : Step} (ok : step.before.Ok)
    (ok' : step.after.Ok)
    (effect : Effect step.order step.before step.call step.reply step.after)
    (admits : step.Admits id)
    (found : step.after.conn? account id = some c) :
    c.armed = true ∧ step.wakes id = 1 := by
  obtain ⟨new, _, untaken⟩ := admits.spec effect
  have unknown {before : Conn}
      (foundBefore : step.before.conn? account id = some before) :
      False := by
    have fresh := ok.fresh id
      (HashMap.mem_of_lookup (ok.known_of_conn? foundBefore))
    rw [new] at fresh
    exact Nat.lt_irrefl _ fresh
  cases (effect.fate ok ok' found).rouses effect untaken with
  | rest foundBefore silent => exact (unknown foundBefore).elim
  | lived before foundBefore grows sleeps wakes =>
      exact (unknown foundBefore).elim
  | born new waiting armed woken => exact ⟨armed, woken⟩

/-- The wakes for one connection since some call, as long as nobody takes from
its queue: at most one, and none yet if it is asleep or not admitted. -/
structure Restrained (hub : Hub) (id : ConnId) (wakes : Nat) : Prop where
  le_one : wakes ≤ 1
  asleep : ∀ account c, hub.conn? account id = some c → c.armed = false →
    wakes = 0
  unborn : hub.nextConn ≤ id → wakes = 0

theorem Restrained.step {step : Step} {wakes : Nat} (ok : step.before.Ok)
    (ok' : step.after.Ok)
    (effect : Effect step.order step.before step.call step.reply step.after)
    (untaken : ¬ step.Takes id)
    (restrained : Restrained step.before id wakes) :
    Restrained step.after id (wakes + step.wakes id) := by
  by_cases known : id ∈ step.after.connAccount
  · obtain ⟨account, known⟩ := HashMap.exists_lookup_of_mem known
    obtain ⟨acct, c, found, connFound⟩ := ok'.exists_conn known
    have alive : step.after.conn? account id = some c := by
      rw [Hub.conn?_eq, Hub.record_of_lookup found]
      exact connFound
    have only {other : AccountId} {c' : Conn}
        (otherFound : step.after.conn? other id = some c') : c' = c := by
      obtain rfl : other = account := Option.some.inj
        ((ok'.known_of_conn? otherFound).symm.trans known)
      exact Option.some.inj (otherFound.symm.trans alive)
    have born : id < step.after.nextConn :=
      ok'.fresh id (HashMap.mem_of_lookup known)
    suffices wakes + step.wakes id ≤ 1 ∧
        (c.armed = false → wakes + step.wakes id = 0) by
      refine ⟨this.1, fun other c' otherFound asleep => ?_, fun unborn => ?_⟩
      · rw [only otherFound] at asleep
        exact this.2 asleep
      · exact (Nat.not_le.mpr born unborn).elim
    have le := restrained.le_one
    cases (effect.fate ok ok' alive).rouses effect untaken with
    | rest foundBefore silent =>
        rw [silent]
        exact ⟨le, fun asleep => restrained.asleep account c foundBefore asleep⟩
    | lived before foundBefore grows sleeps woken =>
        rw [woken]
        by_cases asleep : before.armed = false
        · have none := restrained.asleep account before foundBefore asleep
          rw [none]
          cases c.armed <;> simp [asleep]
        · have armed := grows (by simpa using asleep)
          simp [asleep, armed, le]
    | born new waiting armed woken =>
        have none := restrained.unborn (by rw [new])
        simp [none, woken, armed]
  · have silent := effect.wakes_of_gone ok' known
    rw [silent, Nat.add_zero]
    refine ⟨restrained.le_one, fun account c found => ?_, fun unborn =>
      restrained.unborn (effect.nextConn_le.trans unborn)⟩
    exact (known (HashMap.mem_of_lookup (ok'.known_of_conn? found))).elim

/-- From an admission or a take that found the queue empty until the next take,
at most one wake goes out. -/
theorem Run.wakes_le {first : Step} {between later : List Step}
    (ok : start.Ok)
    (run : Run start (first :: (between ++ later)) hub)
    (opens : first.Admits id ∨ first.Drains id)
    (untaken : ∀ step ∈ between, ¬ step.Takes id) :
    wakesOf id (first :: between) ≤ 1 := by
  obtain ⟨rfl, firstRun, rest⟩ := run.uncons
  obtain ⟨middle, betweenRun, _⟩ := rest.split
  obtain ⟨_, afterOk, effect⟩ := (firstRun.forall_steps ok).2 first (by simp)
  have initial : Restrained first.after id (first.wakes id) := by
    rcases opens with admits | drains
    · obtain ⟨_, born, _⟩ := admits.spec effect
      refine ⟨effect.wakes_le id, fun account c found asleep => ?_,
        fun unborn => (Nat.not_le.mpr born unborn).elim⟩
      obtain ⟨armed, _⟩ := admits.woken ok afterOk effect found
      rw [asleep] at armed
      cases armed
    · obtain ⟨_, taken, isTaken, _⟩ := drains
      have silent : first.wakes id = 0 := by
        simp [Step.wakes, isTaken, Reply.actions]
      rw [silent]
      exact ⟨Nat.zero_le _, fun _ _ _ _ => rfl, fun _ => rfl⟩
  have final := betweenRun.induct
    (fun steps hub => Restrained hub id (first.wakes id + wakesOf id steps))
    afterOk (by simpa [wakesOf] using initial) (by
      intro earlier step _ beforeOk afterOk effect member restrained
      have next := restrained.step beforeOk afterOk effect
        (untaken step member)
      simpa [wakesOf, Nat.add_assoc] using next)
  simpa [wakesOf] using final.le_one

/-- While nobody takes from an empty queue and it stays empty, the connection
is asleep. -/
theorem Run.asleep {first : Step} (ok : start.Ok)
    (run : Run start (first :: steps) hub) (drains : first.Drains id)
    (untaken : ∀ step ∈ steps, ¬ step.Takes id)
    (empty : ∀ step ∈ first :: steps, ∀ c,
      step.after.conn? account id = some c → c.out.items = [])
    (found : hub.conn? account id = some c) : c.armed = false := by
  obtain ⟨rfl, firstRun, rest⟩ := run.uncons
  obtain ⟨_, afterOk, effect⟩ := (firstRun.forall_steps ok).2 first (by simp)
  refine rest.induct (fun _ hub => ∀ {c}, hub.conn? account id = some c →
    c.armed = false) afterOk ?_ ?_ found
  · intro c found
    obtain ⟨⟨budget, isTake⟩, taken, isTaken, noMore⟩ := drains
    cases effect.fate ok afterOk found with
    | rest foundBefore same others unnamed =>
        exact (others (by rw [isTake]; rfl)).elim
    | took acct before items rest took after same =>
        have isTaken' := took.reply_eq
        rw [isTaken] at isTaken'
        cases isTaken'
        rw [after]
        exact noMore
    | lived head tail fx before lived =>
        have heads := lived.heads
        rw [isTake] at heads
        cases heads
    | born hello conn mid tail born =>
        obtain ⟨_, _, _, isConnect⟩ := born.call_eq
        rw [isTake] at isConnect
        cases isConnect
  · intro earlier step _ beforeOk afterOk effect member before c found
    have noItems := empty step (List.mem_cons_of_mem _ member) c found
    cases (effect.fate beforeOk afterOk found).rouses effect
      (untaken step member) with
    | rest foundBefore silent => exact before foundBefore
    | lived old foundBefore grows sleeps wakes =>
        have oldFound := foundBefore
        rw [Hub.conn?_eq] at oldFound
        exact sleeps ((beforeOk.record_ok account).1.queue_ok oldFound)
          (before foundBefore) noItems
    | born new waiting armed woken => exact (waiting noItems).elim

/-- A call that closes a connection does not wake it, and its id is never used
again. -/
theorem Effect.closes {step : Step} {frame : Frame} (ok : step.before.Ok)
    (effect : Effect step.order step.before step.call step.reply step.after)
    (closed : .close id frame ∈ step.reply.actions) :
    id ∉ step.after.connAccount ∧ id < step.after.nextConn := by
  cases effect with
  | idle unknown same noActions noFrames noAdmission =>
      simp [noActions] at closed
  | took account conn acct c taken rest took =>
      simp [took.reply_eq, Reply.actions] at closed
  | acted account head mid fx left wake acted =>
      have actionsKnown := acted.actions_known ok closed
      rw [acted.actions_eq] at closed
      simp only [Hub.actionsOf, List.mem_append, List.mem_map] at closed
      rcases closed with ⟨_, _, absurdity⟩ | ⟨entry, member, same⟩
      · cases absurdity
      cases same
      refine ⟨acted.settles.left_gone entry member, ?_⟩
      rcases actionsKnown with known | ⟨actions, admitted⟩
      · have fresh := ok.fresh _ (HashMap.mem_of_lookup known)
        rw [acted.nextConn_eq]
        exact Nat.lt_of_lt_of_le fresh (Nat.le_add_right _ _)
      · exact (Step.Admits.spec (.acted account head mid fx left wake acted)
          ⟨actions, admitted⟩).2.1

/-- A connection that a call admits, and does not close, is there after it. -/
theorem Effect.admits_alive {step : Step}
    (effect : Effect step.order step.before step.call step.reply step.after)
    (admits : step.Admits id)
    (unclosed : ∀ frame, .close id frame ∉ step.reply.actions) :
    ∃ account c, step.after.conn? account id = some c := by
  obtain ⟨actions, isAdmitted⟩ := admits
  cases effect with
  | idle unknown same noActions noFrames noAdmission =>
      rw [isAdmitted] at noAdmission
      cases noAdmission
  | took account conn acct c taken rest took =>
      have isTaken := took.reply_eq
      rw [isAdmitted] at isTaken
      cases isTaken
  | acted account head mid fx left wake acted =>
      have headActs := acted.settles.head_acts
      obtain ⟨tail, fx', tailActs, departures, _⟩ := acted.settles.tail_acts
      have member : id ∈ mid.conns := by
        have heads := acted.heads
        rw [isAdmitted] at heads
        generalize step.call = call at heads
        cases heads with
        | joined newcomer => exact headActs.joined_mem rfl
      have remains : id ∈ (step.after.record account).conns := by
        refine tailActs.mem_conns (fun principal role isLeft => ?_) member
        obtain ⟨entry, entryMember, _, _, same⟩ := departures.of_mem isLeft
        cases same
        apply unclosed entry.2
        rw [acted.actions_eq]
        simp only [Hub.actionsOf, List.mem_append, List.mem_map]
        exact Or.inr ⟨entry, entryMember, rfl⟩
      obtain ⟨c, found⟩ := HashMap.exists_lookup_of_mem remains
      exact ⟨account, c, by rw [Hub.conn?_eq]; exact found⟩

/-- After its close no wake goes out for a connection. -/
theorem Run.wakes_of_closed {first : Step} {frame : Frame} (ok : start.Ok)
    (run : Run start (first :: steps) hub)
    (closed : .close id frame ∈ first.reply.actions) :
    first.wakes id = 0 ∧ ∀ step ∈ steps, step.wakes id = 0 := by
  obtain ⟨rfl, firstRun, rest⟩ := run.uncons
  obtain ⟨_, afterOk, effect⟩ := (firstRun.forall_steps ok).2 first (by simp)
  obtain ⟨gone, old⟩ := effect.closes ok closed
  refine ⟨effect.wakes_of_gone afterOk gone, ?_⟩
  refine (rest.induct (fun steps hub => (id ∉ hub.connAccount ∧
    id < hub.nextConn) ∧ ∀ step ∈ steps, step.wakes id = 0) afterOk
    ⟨⟨gone, old⟩, by simp⟩ ?_).2
  rintro earlier step _ beforeOk afterOk effect _ ⟨⟨gone, old⟩, silent⟩
  have goneAfter := effect.gone_stays beforeOk afterOk old gone
  refine ⟨⟨goneAfter, Nat.lt_of_lt_of_le old effect.nextConn_le⟩, ?_⟩
  intro other member
  rcases List.mem_append.mp member with among | last
  · exact silent other among
  · rw [List.mem_singleton.mp last]
    exact effect.wakes_of_gone afterOk goneAfter

end Runs

/-- The wakes of a run are neither lost nor repeated. -/
structure WakesSound (start : Hub) (steps : List Step) : Prop where
  armed : ∀ account id c,
    (finalHub start steps).conn? account id = some c →
      c.out.items ≠ [] → c.armed = true
  /-- a frame is never left queued without a wake outstanding -/
  outstanding : ∀ account id c,
    (finalHub start steps).conn? account id = some c →
      c.out.items ≠ [] → Outstanding id steps
  /-- from an admission, or a take that found the queue empty, to the next
  take -/
  at_most_one : ∀ id earlier first between later,
    steps = earlier ++ first :: (between ++ later) →
      first.Admits id ∨ first.Drains id →
      (∀ step ∈ between, ¬ step.Takes id) →
        wakesOf id (first :: between) ≤ 1
  /-- the admission itself makes the queue non-empty -/
  admission : ∀ id earlier first later,
    steps = earlier ++ first :: later → first.Admits id →
      (∀ frame, .close id frame ∉ first.reply.actions) →
        first.wakes id = 1
  /-- the first call after a take to make the queue non-empty -/
  first_frame : ∀ account id c earlier first between step later,
    steps = earlier ++ first :: (between ++ step :: later) →
      first.Drains id →
      (∀ other ∈ between ++ [step], ¬ other.Takes id) →
      (∀ other ∈ first :: between, ∀ c,
        other.after.conn? account id = some c → c.out.items = []) →
      step.after.conn? account id = some c → c.out.items ≠ [] →
        step.wakes id = 1
  closed : ∀ id frame earlier step later,
    steps = earlier ++ step :: later →
      .close id frame ∈ step.reply.actions →
        step.wakes id = 0 ∧ ∀ other ∈ later, other.wakes id = 0

/-- No run loses a wake. -/
theorem relay_no_lost_wakes [Codec] (limits : Limits) (seed : UInt64)
    (shard : UInt16) (start : Hub)
    (accepted : Hub.withIdSpace limits seed shard = .ok start)
    (calls : List (HashOrder × Call)) :
    ∃ steps, start.run calls = .ok steps ∧ WakesSound start steps := by
  obtain ⟨ok, _, empty, _⟩ := ok_withIdSpace accepted
  obtain ⟨steps, hub, ran, run⟩ := exists_run ok calls
  have nobody := Hub.conn?_empty empty
  refine ⟨steps, ran, ?_, ?_, ?_, ?_, ?_, ?_⟩
  · rw [run.finalHub_eq]
    intro account id c found waiting
    exact (run.alert ok nobody found).1.armed waiting
  · rw [run.finalHub_eq]
    intro account id c found waiting
    obtain ⟨alert, outstanding⟩ := run.alert ok nobody found
    exact outstanding (alert.armed waiting)
  · rintro id earlier first between later rfl opens untaken
    obtain ⟨middle, earlierRun, rest⟩ := run.split
    exact rest.wakes_le (earlierRun.forall_steps ok).1 opens untaken
  · rintro id earlier first later rfl admits unclosed
    obtain ⟨middle, earlierRun, rest⟩ := run.split
    obtain ⟨rfl, firstRun, _⟩ := rest.uncons
    have beforeOk := (earlierRun.forall_steps ok).1
    obtain ⟨_, afterOk, effect⟩ :=
      (firstRun.forall_steps beforeOk).2 first (by simp)
    obtain ⟨account, c, found⟩ := effect.admits_alive admits unclosed
    exact (admits.woken beforeOk afterOk effect found).2
  · rintro account id c earlier first between step later rfl drains untaken
      emptied found waiting
    obtain ⟨middle, earlierRun, rest⟩ := run.split
    obtain ⟨_, windowRun, rest⟩ := Run.split
      (show Run middle ((first :: between) ++ step :: later) hub from rest)
    obtain ⟨rfl, stepRun, _⟩ := rest.uncons
    have middleOk := (earlierRun.forall_steps ok).1
    have beforeOk := (windowRun.forall_steps middleOk).1
    obtain ⟨_, afterOk, effect⟩ :=
      (stepRun.forall_steps beforeOk).2 step (by simp)
    have emptyBefore {before : Conn}
        (foundBefore : step.before.conn? account id = some before) :
        before.out.items = [] := by
      obtain ⟨last, member, same⟩ := windowRun.exists_last (by simp)
      exact emptied last member before (by rw [same]; exact foundBefore)
    cases (effect.fate beforeOk afterOk found).rouses effect
      (untaken step (by simp)) with
    | rest foundBefore silent => exact (waiting (emptyBefore foundBefore)).elim
    | lived before foundBefore grows sleeps wakes =>
        have asleep := windowRun.asleep middleOk drains
          (fun other member => untaken other (by simp [member])) emptied
          foundBefore
        have alert := ((earlierRun.append windowRun).append stepRun).alert ok
          nobody found
        rw [wakes, if_pos ⟨asleep, alert.1.armed waiting⟩]
    | born new waiting armed woken => exact woken
  · rintro id frame earlier step later rfl closed
    obtain ⟨middle, earlierRun, rest⟩ := run.split
    exact rest.wakes_of_closed (earlierRun.forall_steps ok).1 closed

/-- A peer connects, takes its greeting and is answered. -/
theorem relay_no_lost_wakes_ping :
    ∃ start steps, Hub.withIdSpace {} 7 0 = .ok start ∧
      start.run [
        (.stored, .connect [9] { protocol := 1, principal := [1], role := 2 }
          0 0 .unknown),
        (.stored, .takeOutbound 1 1000),
        (.stored, .receive 1 (.of (.ping 3)))] = .ok steps ∧
      WakesSound start steps := by
  obtain ⟨steps, ran, sound⟩ := relay_no_lost_wakes {} 7 0
    ⟨{}, ∅, ∅, 1, 7, 0⟩ rfl [
      (.stored, .connect [9] { protocol := 1, principal := [1], role := 2 }
        0 0 .unknown),
      (.stored, .takeOutbound 1 1000),
      (.stored, .receive 1 (.of (.ping 3)))]
  exact ⟨_, steps, rfl, ran, sound⟩

end WindowMlHub
