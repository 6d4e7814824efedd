import WindowMlHub.ProtobufLengths
import WindowMlHub.RelayCalls

/-!
# Runs of the relay

A run is a sequence of calls on a relay that was just made, each with the
iteration orders it happens to see.  No run panics; the tables agree after every
call; and a call about one account leaves every other account as it was.
-/

namespace WindowMlHub

open CheckedEvaluation HashTables

/-- One call of a run, with the hub before and after it. -/
structure Step where
  before : Hub
  order : HashOrder
  call : Call
  reply : Reply
  after : Hub

/-- Make these calls one after another. -/
def Hub.run [Codec] (hub : Hub) :
    List (HashOrder × Call) → Checked (List Step)
  | [] => .ok []
  | (order, call) :: rest => do
      let (next, reply) ← hub.apply order call
      let later ← next.run rest
      return ⟨hub, order, call, reply, next⟩ :: later

/-- The hub after these steps. -/
def finalHub (hub : Hub) (steps : List Step) : Hub :=
  (steps.getLast?.map Step.after).getD hub

/-- The steps lead from one hub to another. -/
inductive Run [Codec] (start : Hub) : List Step → Hub → Prop
  | start : Run start [] start
  | call {steps : List Step} {hub next : Hub} {order : HashOrder}
      {call : Call} {reply : Reply} (earlier : Run start steps hub)
      (ran : hub.apply order call = .ok (next, reply)) :
      Run start (steps ++ [⟨hub, order, call, reply, next⟩]) next

section Running

variable [Codec] {start hub : Hub} {steps : List Step}

theorem Run.finalHub_eq (run : Run start steps hub) :
    finalHub start steps = hub := by
  cases run with
  | start => rfl
  | call earlier ran => simp [finalHub]

theorem Run.cons {order : HashOrder} {call : Call} {reply : Reply}
    {next : Hub} (ran : start.apply order call = .ok (next, reply))
    (later : Run next steps hub) :
    Run start (⟨start, order, call, reply, next⟩ :: steps) hub := by
  induction later with
  | start => exact .call .start ran
  | call earlier last ih => exact .call ih last

theorem Run.of_nil (run : Run start [] hub) : hub = start := by
  generalize none : [] = steps at run
  cases run with
  | start => rfl
  | call => simp at none

theorem Run.unsnoc {step : Step} (run : Run start (steps ++ [step]) hub) :
    Run start steps step.before ∧ step.after = hub ∧
      step.before.apply step.order step.call = .ok (step.after, step.reply) := by
  generalize all : steps ++ [step] = whole at run
  cases run with
  | start => simp at all
  | call earlier ran =>
      obtain ⟨rfl, last⟩ := List.append_inj' all rfl
      cases last
      exact ⟨earlier, rfl, ran⟩

theorem Run.exists_last (run : Run start steps hub) (some : steps ≠ []) :
    ∃ step ∈ steps, step.after = hub := by
  cases run with
  | start => exact (some rfl).elim
  | call earlier ran =>
      exact ⟨_, List.mem_append_right _ (List.mem_singleton.mpr rfl), rfl⟩

theorem Run.append {middle : Hub} {later : List Step}
    (first : Run start steps middle) (second : Run middle later hub) :
    Run start (steps ++ later) hub := by
  induction second with
  | start => simpa using first
  | call earlier ran ih =>
      rw [← List.append_assoc]
      exact .call ih ran

theorem Run.split {earlier later : List Step}
    (run : Run start (earlier ++ later) hub) :
    ∃ middle, Run start earlier middle ∧ Run middle later hub := by
  induction later using List.reverseRecOn generalizing hub with
  | nil => exact ⟨hub, by simpa using run, .start⟩
  | append_singleton later step ih =>
      rw [← List.append_assoc] at run
      obtain ⟨before, rfl, ran⟩ := run.unsnoc
      obtain ⟨middle, first, second⟩ := ih before
      exact ⟨middle, first, .call second ran⟩

theorem Run.uncons {step : Step} (run : Run start (step :: steps) hub) :
    step.before = start ∧ Run start [step] step.after ∧
      Run step.after steps hub := by
  obtain ⟨middle, first, rest⟩ :=
    Run.split (show Run start ([step] ++ steps) hub from run)
  obtain ⟨none, rfl, _⟩ :=
    Run.unsnoc (show Run start ([] ++ [step]) middle from first)
  exact ⟨none.of_nil, first, rest⟩

/-- The hub of a fresh relay is in good order. -/
theorem ok_withIdSpace {limits : Limits} {seed : UInt64} {shard : UInt16}
    (accepted : Hub.withIdSpace limits seed shard = .ok hub) :
    hub.Ok ∧ hub.limits = limits ∧ hub.accounts = ∅ ∧ hub.connAccount = ∅ := by
  unfold Hub.withIdSpace at accepted
  split at accepted
  · cases accepted
  split at accepted
  · cases accepted
  split at accepted
  · cases accepted
  cases accepted
  refine ⟨⟨?_, ?_, ?_, ?_, ?_⟩, rfl, rfl, rfl⟩
  · intro account acct found
    simp at found
  · intro account acct found
    simp at found
  · simp
  · intro account acct found
    simp at found
  · intro id member
    exact (AList.notMem_empty id member).elim

theorem Hub.run_calls {calls : List (HashOrder × Call)}
    (ran : start.run calls = .ok steps) :
    steps.map (fun step => (step.order, step.call)) = calls := by
  induction calls generalizing start steps with
  | nil =>
      cases ran
      rfl
  | cons entry rest ih =>
      obtain ⟨order, call⟩ := entry
      simp only [run, bind_eq_ok] at ran
      obtain ⟨⟨next, reply⟩, _, later, restRan, done⟩ := ran
      cases done
      rw [List.map_cons, ih restRan]

theorem Hub.forall_calls {calls : List (HashOrder × Call)}
    {Holds : Call → Prop} (ran : start.run calls = .ok steps)
    (all : ∀ entry ∈ calls, Holds entry.2) :
    ∀ step ∈ steps, Holds step.call := by
  intro step member
  rw [← run_calls ran] at all
  exact all (step.order, step.call) (List.mem_map.mpr ⟨step, member, rfl⟩)

theorem exists_run (ok : start.Ok) (calls : List (HashOrder × Call)) :
    ∃ steps hub, start.run calls = .ok steps ∧ Run start steps hub := by
  induction calls generalizing start with
  | nil => exact ⟨[], start, rfl, .start⟩
  | cons entry rest ih =>
      obtain ⟨order, call⟩ := entry
      obtain ⟨reply, next, ran, nextOk, _⟩ :=
        Hub.apply_spec order ok call
      obtain ⟨steps, hub, restRan, run⟩ := ih nextOk
      exact ⟨_, hub, by simp [Hub.run, ran, restRan], run.cons ran⟩

theorem Effect.limits_eq {order : HashOrder} {hub' : Hub} {call : Call}
    {reply : Reply} (effect : Effect order hub call reply hub') :
    hub'.limits = hub.limits := by
  cases effect with
  | idle unknown same noActions noFrames noAdmission => rw [same]
  | took account conn acct c taken rest took => rw [took.hub_eq]; rfl
  | acted account head mid fx left wake acted =>
      exact acted.settles.beside.limits_eq

theorem Run.forall_steps (ok : start.Ok) (run : Run start steps hub) :
    hub.Ok ∧ ∀ step ∈ steps, step.before.Ok ∧ step.after.Ok ∧
      Effect step.order step.before step.call step.reply step.after := by
  induction run with
  | start => exact ⟨ok, by simp⟩
  | call earlier ran ih =>
      obtain ⟨hubOk, all⟩ := ih
      obtain ⟨reply, next, ranAgain, nextOk, effect⟩ :=
        Hub.apply_spec _ hubOk _
      rw [ran] at ranAgain
      cases ranAgain
      refine ⟨nextOk, ?_⟩
      intro step member
      rcases List.mem_append.mp member with old | new
      · exact all step old
      · rw [List.mem_singleton.mp new]
        exact ⟨hubOk, nextOk, effect⟩

theorem Run.limits_eq (ok : start.Ok) (run : Run start steps hub) :
    hub.limits = start.limits := by
  induction run with
  | start => rfl
  | call earlier ran ih =>
      obtain ⟨hubOk, _⟩ := earlier.forall_steps ok
      obtain ⟨_, _, ranAgain, _, effect⟩ := Hub.apply_spec _ hubOk _
      rw [ran] at ranAgain
      cases ranAgain
      exact effect.limits_eq.trans ih

theorem Run.induct (Holds : List Step → Hub → Prop) (ok : start.Ok)
    (run : Run start steps hub) (initial : Holds [] start)
    (kept : ∀ earlier step, Run start earlier step.before →
      step.before.Ok → step.after.Ok →
      Effect step.order step.before step.call step.reply step.after →
      step ∈ steps → Holds earlier step.before →
      Holds (earlier ++ [step]) step.after) :
    Holds steps hub := by
  induction run with
  | start => exact initial
  | @call steps hub next order call reply earlier ran ih =>
      obtain ⟨hubOk, nextOk, effect⟩ := ((Run.call earlier ran).forall_steps
        ok).2 ⟨hub, order, call, reply, next⟩ (by simp)
      exact kept steps ⟨hub, order, call, reply, next⟩ earlier hubOk nextOk
        effect (by simp) (ih fun earlier step run beforeOk afterOk effect
          member => kept earlier step run beforeOk afterOk effect
            (List.mem_append_left _ member))

end Running

/-! ## Referential integrity -/

/-- An account has as many principals online as connections. -/
theorem Account.Ok.len_online_eq [Codec] {limits : Limits} {acct : Account}
    (ok : acct.Ok limits) :
    HashMap.len acct.online = HashMap.len acct.conns := by
  apply Nat.le_antisymm
  · -- the connections behind the principals are different
    have nodup : (acct.online.entries.map fun entry => entry.2.1).Nodup := by
      apply List.Nodup.map_on _ acct.online.nodupKeys.nodup
      rintro ⟨p, id, role⟩ first ⟨q, other, otherRole⟩ second same
      simp only at same
      subst same
      obtain ⟨c, found, principal⟩ :=
        ok.conn_of_online (HashMap.lookup_of_mem_entries first)
      obtain ⟨d, foundAgain, principalAgain⟩ :=
        ok.conn_of_online (HashMap.lookup_of_mem_entries second)
      obtain rfl : c = d := Option.some.inj (found.symm.trans foundAgain)
      obtain rfl : p = q := principal.symm.trans principalAgain
      have lookups := (HashMap.lookup_of_mem_entries first).symm.trans
        (HashMap.lookup_of_mem_entries second)
      rw [Option.some.inj lookups]
    have subset : (acct.online.entries.map fun entry => entry.2.1) ⊆
        acct.conns.keys := by
      intro id member
      obtain ⟨entry, entryMember, rfl⟩ := List.mem_map.mp member
      obtain ⟨c, found, _⟩ :=
        ok.conn_of_online (HashMap.lookup_of_mem_entries entryMember)
      exact HashMap.mem_of_lookup found
    simpa [HashMap.len, AList.keys, List.keys] using
      (List.subperm_of_subset nodup subset).length_le
  · have nodup :
        (acct.conns.entries.map fun entry => entry.2.principal).Nodup := by
      apply List.Nodup.map_on _ acct.conns.nodupKeys.nodup
      rintro ⟨id, c⟩ first ⟨other, d⟩ second same
      have found := HashMap.lookup_of_mem_entries first
      have foundAgain := HashMap.lookup_of_mem_entries second
      obtain rfl := ok.eq_of_principal foundAgain found same
      rw [Option.some.inj (found.symm.trans foundAgain)]
    have subset : (acct.conns.entries.map fun entry => entry.2.principal) ⊆
        acct.online.keys := by
      intro principal member
      obtain ⟨entry, entryMember, rfl⟩ := List.mem_map.mp member
      obtain ⟨role, online⟩ :=
        ok.online_of_conn (HashMap.lookup_of_mem_entries entryMember)
      exact HashMap.mem_of_lookup online
    simpa [HashMap.len, AList.keys, List.keys] using
      (List.subperm_of_subset nodup subset).length_le

/-- The tables of the relay name each other exactly: which account a connection
belongs to, who is online, who subscribes to what, and that nothing empty is
kept. -/
structure Hub.Integral (hub : Hub) : Prop where
  account_iff : ∀ conn account,
    hub.connAccount.lookup conn = some account ↔
      ∃ acct, hub.accounts.lookup account = some acct ∧ conn ∈ acct.conns
  online_entry : ∀ account acct, hub.accounts.lookup account = some acct →
    ∀ conn c, acct.conns.lookup conn = some c →
      ∃ role, acct.online.lookup c.principal = some (conn, role)
  online_len : ∀ account acct, hub.accounts.lookup account = some acct →
    HashMap.len acct.online = HashMap.len acct.conns
  subscriber_iff : ∀ account acct,
    hub.accounts.lookup account = some acct → ∀ conn key,
      (∃ stream, acct.streams.lookup key = some stream ∧
          stream.key = key ∧ conn ∈ stream.subscribers) ↔
        ∃ c, acct.conns.lookup conn = some c ∧ key ∈ c.subs
  stream_used : ∀ account acct, hub.accounts.lookup account = some acct →
    ∀ key stream, acct.streams.lookup key = some stream →
      stream.ring ≠ none ∨ stream.subscribers ≠ ∅
  account_used : ∀ account acct, hub.accounts.lookup account = some acct →
    acct.conns ≠ ∅ ∨ acct.streams ≠ ∅

theorem Hub.Ok.integral [Codec] {hub : Hub} (ok : hub.Ok) :
    hub.Integral where
  account_iff := ok.known_iff
  online_entry _ _ found _ _ connFound :=
    (ok.account_ok found).online_of_conn connFound
  online_len _ _ found := (ok.account_ok found).len_online_eq
  subscriber_iff account acct found conn key := by
    have acctOk := ok.account_ok found
    constructor
    · rintro ⟨stream, streamFound, _, subscribed⟩
      obtain ⟨c, connFound⟩ := HashMap.exists_lookup_of_mem
        (acctOk.subscriber_known streamFound conn subscribed)
      exact ⟨c, connFound, (acctOk.subs_iff connFound key).mpr
        ⟨stream, streamFound, subscribed⟩⟩
    · rintro ⟨c, connFound, member⟩
      obtain ⟨stream, streamFound, subscribed⟩ :=
        (acctOk.subs_iff connFound key).mp member
      exact ⟨stream, streamFound, acctOk.key_eq streamFound, subscribed⟩
  stream_used account acct found key stream streamFound := by
    rcases ok.account_tidy found key stream streamFound with
      hasRing | ⟨conn, subscribed⟩
    · exact Or.inl hasRing
    · exact Or.inr (HashMap.ne_empty_of_mem subscribed)
  account_used account acct found := by
    rcases ok.inhabited found with ⟨conn, member⟩ | ⟨key, member⟩
    · exact Or.inl (HashMap.ne_empty_of_mem member)
    · exact Or.inr (HashMap.ne_empty_of_mem member)

/-- Any calls can be made on a fresh relay: none of them panics, and after each
of them the tables name each other exactly. -/
theorem relay_referential_integrity [Codec] (limits : Limits)
    (seed : UInt64) (shard : UInt16) (start : Hub)
    (accepted : Hub.withIdSpace limits seed shard = .ok start)
    (calls : List (HashOrder × Call)) :
    ∃ steps, start.run calls = .ok steps ∧
      ∀ step ∈ steps, step.after.Integral := by
  obtain ⟨ok, _⟩ := ok_withIdSpace accepted
  obtain ⟨steps, hub, ran, run⟩ := exists_run ok calls
  refine ⟨steps, ran, ?_⟩
  intro step member
  exact ((run.forall_steps ok).2 step member).2.1.integral

/-- A client connects to a relay with the default limits and leaves again. -/
theorem relay_referential_integrity_default :
    ∃ start steps, Hub.withIdSpace {} 7 0 = .ok start ∧
      start.run [
        (.stored, .connect [9] { protocol := 1, principal := [1], role := 2 }
          0 0 .unknown),
        (.stored, .close 1 none)] = .ok steps ∧
      ∀ step ∈ steps, step.after.Integral := by
  obtain ⟨steps, ran, integral⟩ := relay_referential_integrity {} 7 0
    ⟨{}, ∅, ∅, 1, 7, 0⟩ rfl [
      (.stored, .connect [9] { protocol := 1, principal := [1], role := 2 }
        0 0 .unknown),
      (.stored, .close 1 none)]
  exact ⟨_, steps, rfl, ran, integral⟩

/-! ## Account isolation -/

/-- The connection an action is about. -/
def Action.conn : Action → ConnId
  | .wake conn => conn
  | .close conn _ => conn

/-- A step that concerns one account only: every other account's record, and so
every other account's connections and queues, are as they were, and the actions
name connections of this account. -/
structure Step.Isolated (step : Step) (account : AccountId) : Prop where
  others : ∀ other, other ≠ account →
    step.after.accounts.lookup other = step.before.accounts.lookup other
  actions : ∀ action ∈ step.reply.actions,
    step.before.connAccount.lookup action.conn = some account ∨
      ∃ actions, step.reply = .admitted action.conn actions
  queues : ∀ other conn,
    step.after.conn? other conn ≠ step.before.conn? other conn →
      other = account

theorem Hub.mem_actionsOf {action : Action} {wake : List ConnId}
    {left : List (ConnId × Frame)} (member : action ∈ actionsOf wake left) :
    action.conn ∈ wake ∨ ∃ entry ∈ left, entry.1 = action.conn := by
  rcases List.mem_append.mp member with woken | closed
  · obtain ⟨conn, connMember, rfl⟩ := List.mem_map.mp woken
    exact Or.inl (List.mem_filter.mp connMember).1
  · obtain ⟨entry, entryMember, rfl⟩ := List.mem_map.mp closed
    exact Or.inr ⟨entry, entryMember, rfl⟩

section Isolation

variable [Codec] {order : HashOrder} {hub hub' : Hub} {call : Call}
  {reply : Reply} {account : AccountId}

/-- Everybody a call's events name belonged to the account or was admitted. -/
theorem Acted.actions_known (ok : hub.Ok) {head : List Event}
    {mid : Account} {fx : Effects} {left : List (ConnId × Frame)}
    {wake : List ConnId}
    (acted : Acted order hub call reply hub' account head mid fx left wake)
    {action : Action} (member : action ∈ reply.actions) :
    hub.connAccount.lookup action.conn = some account ∨
      ∃ actions, reply = .admitted action.conn actions := by
  have start : Acts.Confined (fun id =>
      hub.connAccount.lookup id = some account ∨
        ∃ actions, reply = .admitted id actions) (hub.record account) {} :=
    ⟨fun id known => Or.inl ((ok.mem_record_iff account id).mp known),
      fun id doomed => by simp [Doomed] at doomed,
      fun id woken => by simp at woken⟩
  have confined := acted.settles.head_acts.confined start (by
    intro id c role joined
    obtain ⟨_, heads, _⟩ := acted
    cases heads with
    | joined newcomer =>
        obtain ⟨rfl, _⟩ := by simpa using joined
        exact Or.inr ⟨_, rfl⟩
    | received found routed => exact (routed.no_join.1 id c role joined).elim
    | _ => simp at joined)
  obtain ⟨events, fx', tail, departures, _, wakeEq⟩ := acted.settles.tail_acts
  have final := tail.confined confined (by
    intro id c role joined
    obtain ⟨_, _, _, _, absurdity⟩ := departures.of_mem joined
    cases absurdity)
  rw [acted.actions_eq] at member
  rcases Hub.mem_actionsOf member with woken | ⟨entry, entryMember, same⟩
  · exact final.wake _ (wakeEq ▸ woken)
  · rw [← same]
    exact confined.conns _ (acted.settles.left_known entry entryMember)

theorem Effect.isolated (ok : hub.Ok)
    (effect : Effect order hub call reply hub')
    (about : call.account? hub = some account) :
    Step.Isolated ⟨hub, order, call, reply, hub'⟩ account := by
  have queues (others : ∀ other, other ≠ account →
      hub'.accounts.lookup other = hub.accounts.lookup other)
      (other : AccountId) (conn : ConnId)
      (changed : hub'.conn? other conn ≠ hub.conn? other conn) :
      other = account := by
    by_contra differs
    exact changed (by rw [Hub.conn?, Hub.conn?, others other differs])
  cases effect with
  | idle unknown same noActions noFrames noAdmission =>
      subst same
      exact ⟨fun _ _ => rfl, by simp [noActions],
        fun _ _ changed => (changed rfl).elim⟩
  | took other conn acct c taken rest took =>
      obtain ⟨budget, rfl⟩ := took.call_eq
      obtain rfl : other = account := by
        simpa [Call.account?, Call.conn?, took.known] using about
      have others : ∀ another, another ≠ other →
          hub'.accounts.lookup another = hub.accounts.lookup another := by
        rw [took.hub_eq]
        exact (hub.within_setAccount other _).others
      refine ⟨others, ?_, queues others⟩
      rw [took.reply_eq]
      simp [Reply.actions]
  | acted other head mid fx left wake acted =>
      obtain rfl : other = account :=
        Option.some.inj (acted.about.symm.trans about)
      exact ⟨acted.settles.beside.others,
        fun action member => acted.actions_known ok member,
        queues acted.settles.beside.others⟩

end Isolation

/-- In every run, a call about one account leaves every other account as it
was, and names only connections of that account. -/
theorem relay_account_isolation [Codec] (limits : Limits) (seed : UInt64)
    (shard : UInt16) (start : Hub)
    (accepted : Hub.withIdSpace limits seed shard = .ok start)
    (calls : List (HashOrder × Call)) :
    ∃ steps, start.run calls = .ok steps ∧
      ∀ step ∈ steps, ∀ account,
        step.call.account? step.before = some account →
          step.Isolated account := by
  obtain ⟨ok, _⟩ := ok_withIdSpace accepted
  obtain ⟨steps, hub, ran, run⟩ := exists_run ok calls
  refine ⟨steps, ran, ?_⟩
  intro step member account about
  obtain ⟨beforeOk, _, effect⟩ := (run.forall_steps ok).2 step member
  exact effect.isolated beforeOk about

/-- The same principal connects to two accounts of a relay. -/
theorem relay_account_isolation_two_accounts :
    ∃ start steps, Hub.withIdSpace {} 7 0 = .ok start ∧
      start.run [
        (.stored, .connect [8] { protocol := 1, principal := [1], role := 2 }
          0 0 .unknown),
        (.stored, .connect [9] { protocol := 1, principal := [1], role := 2 }
          0 0 .unknown)] = .ok steps ∧
      ∀ step ∈ steps, ∀ account,
        step.call.account? step.before = some account →
          step.Isolated account := by
  obtain ⟨steps, ran, isolated⟩ := relay_account_isolation {} 7 0
    ⟨{}, ∅, ∅, 1, 7, 0⟩ rfl [
      (.stored, .connect [8] { protocol := 1, principal := [1], role := 2 }
        0 0 .unknown),
      (.stored, .connect [9] { protocol := 1, principal := [1], role := 2 }
        0 0 .unknown)]
  exact ⟨_, steps, rfl, ran, isolated⟩

end WindowMlHub
