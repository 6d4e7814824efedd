import WindowMlHub.RelayBounds
import WindowMlHub.RelayLives

/-!
# The bounds of the queues

A push over a bound closes its connection, so the queue of whoever is still
connected after a call went through pushes that all stayed within their bounds.
Only the greeting is queued without a check: the `Welcome`, and one `Presence`
for every connection the account has already.
-/

namespace WindowMlHub

open CheckedEvaluation HashTables

/-- A queue within its bounds. -/
structure Outbound.Within (limits : Limits) (queue : Outbound) : Prop where
  bytes_le : queue.bytes ≤ limits.queueBytes
  sessionEvents_le : queue.sessionEvents ≤ limits.queueSessionEvents
  telemetry_le : queue.telemetry ≤ max limits.queueTelemetry 1

section Operations

variable [Codec] {limits : Limits} {queue next final : Outbound}
  {op : QueueOp} {ops : List QueueOp}

namespace Outbound

/-- A push that went through respects the bounds, if telemetry had room. -/
theorem within_push {item : Item}
    (events : queue.sessionEvents ≤ limits.queueSessionEvents)
    (telemetry : queue.telemetry + item.telemetry.toNat ≤
      max limits.queueTelemetry 1)
    (ran : queue.push item limits = (next, .ok ())) : next.Within limits := by
  unfold push at ran
  split at ran
  · cases ran
  next accepted =>
    simp only [Prod.mk.injEq] at ran
    obtain ⟨rfl, answer⟩ := ran
    refine ⟨?_, ?_, telemetry⟩
    · split at answer
      · cases answer
      next fits => exact Nat.le_of_not_lt fits
    · rw [not_and] at accepted
      cases flag : item.sessionEvent with
      | false => exact events
      | true =>
          have room := accepted flag
          simp only [Bool.toNat_true]
          omega

theorem removeAt_counts {position : Nat} {item : Item}
    (ran : queue.removeAt position = .ok (next, item)) :
    next.sessionEvents = queue.sessionEvents ∧
      next.telemetry ≤ queue.telemetry := by
  simp only [removeAt, bind_eq_ok] at ran
  obtain ⟨found, _, bytes, _, telemetry, subtracted, done⟩ := ran
  cases done
  exact ⟨rfl, le_of_sub subtracted⟩

theorem supersede_counts {stream : StreamKey} {coalesce : Bytes}
    (ran : queue.supersede stream coalesce = .ok next) :
    next.sessionEvents = queue.sessionEvents := by
  unfold supersede at ran
  split at ran
  · simp only [bind_eq_ok] at ran
    obtain ⟨⟨removed, item⟩, removing, done⟩ := ran
    cases done
    exact (removeAt_counts removing).1
  · cases ran
    rfl

theorem dropOldestTelemetry_counts
    (ran : queue.dropOldestTelemetry = .ok next) :
    next.sessionEvents = queue.sessionEvents := by
  unfold dropOldestTelemetry at ran
  split at ran
  · cases ran
    rfl
  · simp only [bind_eq_ok] at ran
    obtain ⟨⟨removed, item⟩, removing, key, _, done⟩ := ran
    cases done
    exact (removeAt_counts removing).1

theorem dropPast_counts {bound fuel : Nat}
    (ran : dropPast bound fuel queue = .ok final) :
    final.sessionEvents = queue.sessionEvents ∧ final.telemetry < bound := by
  induction fuel generalizing queue with
  | zero => cases ran
  | succ fuel ih =>
      unfold dropPast at ran
      split at ran
      · simp only [bind_eq_ok] at ran
        obtain ⟨dropped, dropping, ran⟩ := ran
        obtain ⟨events, below⟩ := ih ran
        exact ⟨events.trans (dropOldestTelemetry_counts dropping), below⟩
      next below =>
        cases ran
        exact ⟨rfl, Nat.lt_of_not_le below⟩

theorem Within.pushFrame {frame : Frame} (within : queue.Within limits)
    (ran : queue.pushFrame frame limits = (next, .ok ())) :
    next.Within limits :=
  within_push within.sessionEvents_le
    (show queue.telemetry + (Item.ofFrame frame).telemetry.toNat ≤ _ from
      within.telemetry_le) ran

theorem Within.pushPublished {key : StreamKey} {kind : Kind} {epoch : Nat}
    {entry : Entry} (within : queue.Within limits)
    (ran : queue.pushPublished key kind epoch entry limits =
      .ok (next, .ok ())) :
    next.Within limits := by
  simp only [Outbound.pushPublished] at ran
  split at ran
  next event =>
    refine within_push within.sessionEvents_le ?_ (Except.ok.inj ran)
    simpa [Item.ofEntry, event] using within.telemetry_le
  next telemetry =>
    simp only [bind_eq_ok] at ran
    obtain ⟨superseded, superseding, room, dropping, ran⟩ := ran
    obtain ⟨events, below⟩ := dropPast_counts dropping
    refine within_push ?_ ?_ (Except.ok.inj ran)
    · rw [events, supersede_counts superseding]
      exact within.sessionEvents_le
    · have flag := Bool.toNat_le
        (Item.ofEntry key kind epoch entry).telemetry
      omega

theorem Within.purgeStream {key : StreamKey} (within : queue.Within limits)
    (ran : queue.purgeStream key = .ok next) : next.Within limits := by
  simp only [Outbound.purgeStream, bind_eq_ok] at ran
  obtain ⟨bytes, fewerBytes, events, fewerEvents, telemetry, fewerTelemetry,
    done⟩ := ran
  cases done
  exact ⟨(le_of_sub fewerBytes).trans within.bytes_le,
    (le_of_sub fewerEvents).trans within.sessionEvents_le,
    (le_of_sub fewerTelemetry).trans within.telemetry_le⟩

theorem Within.of_taken {taken rest : List Item} (ok : queue.Ok)
    (within : queue.Within limits) (split : queue.items = taken ++ rest)
    (dropped : HashMap StreamKey Dropped) :
    (counted rest dropped).Within limits := by
  obtain ⟨bytes, events, telemetry⟩ := within
  rw [ok.eq_counted, split] at bytes events telemetry
  simp only [counted, List.map_append, List.sum_append] at bytes events telemetry
  exact ⟨by simp only [counted]; omega, by simp only [counted]; omega,
    by simp only [counted]; omega⟩

end Outbound

theorem Perform.within (performed : Perform limits queue op next)
    (within : queue.Within limits) : next.Within limits := by
  cases performed with
  | frame ran => exact within.pushFrame ran
  | published ran => exact within.pushPublished ran
  | purge ran => exact within.purgeStream ran

theorem Performs.within (performed : Performs limits queue ops final)
    (within : queue.Within limits) : final.Within limits := by
  induction performed with
  | done => exact within
  | next first rest ih => exact ih (first.within within)

end Operations

/-! ## Who is connected -/

/-- A presence notice the relay can send: of a principal it admitted, with a
chain it presents. -/
structure Limits.Presents (limits : Limits) (notice : Presence) : Prop where
  principal_le : notice.principal.length ≤ limits.maxIdBytes
  role : ∃ role : Role, notice.role = role.toInt
  chain : ∃ chain, notice.chain = presentable chain

/-- A connection that was admitted and whose queue is within its bounds. -/
structure Conn.Modest (limits : Limits) (c : Conn) : Prop where
  principal_le : c.principal.length ≤ limits.maxIdBytes
  chain : ∃ chain, c.chain = presentable chain
  queue : c.out.Within limits

/-- The `Welcome` of a connect, and a presence notice of the largest size for
every other connection that the account can have, fit in a queue. -/
def Hub.Greets [Codec] (hub : Hub) (largest : Nat) : Call → Prop
  | .connect _ _ nowMs _ revoker =>
      wireLen (.of (.welcome (hub.welcome nowMs revoker))) +
        (hub.limits.maxConnectionsPerAccount - 1) * largest ≤
          hub.limits.queueBytes
  | _ => True

section Greeting

variable [Codec] {order : HashOrder} {hub hub' : Hub} {account : AccountId}
  {id : ConnId} {c c' : Conn} {acct acct' : Account} {events : List Event}
  {limits : Limits}

theorem Lives.modest (lives : Lives limits id acct c events acct' c')
    (modest : c.Modest limits) : c'.Modest limits := by
  refine lives.preserves (fun _ now => now.Modest limits) ?_ ?_ modest
  · intro _ _ _ _ _ _ _ _ _ passes before
    exact ⟨passes.principal_eq ▸ before.principal_le,
      passes.chain_eq ▸ before.chain, passes.performs.within before.queue⟩
  · intro _ _ _ _ _ _ _ _ _ _ _ passes before
    exact ⟨passes.principal_eq ▸ before.principal_le,
      passes.chain_eq ▸ before.chain, passes.performs.within before.queue⟩

/-- The greeting of a newcomer fits in its queue. -/
theorem Hub.greeting_within (ok : hub.Ok)
    (each : ∀ id c, hub.conn? account id = some c → c.Modest hub.limits)
    {largest : Nat} (largestPresence : ∀ notice, hub.limits.Presents notice →
      wireLen (.of (.presence notice)) ≤ largest)
    {others : Nat} (room : HashMap.len (hub.record account).conns ≤ others)
    (welcome : Frame)
    (fits : wireLen welcome + others * largest ≤ hub.limits.queueBytes) :
    (Outbound.counted ((welcome :: snapshot order (hub.record account)).map
      .ofFrame) ∅).Within hub.limits := by
  have notices : ∀ frame ∈ snapshot order (hub.record account),
      wireLen frame ≤ largest := by
    intro frame member
    obtain ⟨⟨principal, conn, role⟩, entry, rfl⟩ := List.mem_map.mp member
    obtain ⟨c, found, rfl⟩ := (ok.record_ok account).1.conn_of_online
      (HashMap.lookup_of_mem_entries (order.online.mem_list.mp entry))
    have modest := each conn c (by rw [hub.conn?_eq]; exact found)
    refine largestPresence _ ⟨modest.principal_le, ⟨role, rfl⟩, ?_⟩
    simpa [found] using modest.chain
  have count : (snapshot order (hub.record account)).length =
      HashMap.len (hub.record account).conns := by
    rw [← (ok.record_ok account).1.len_online_eq]
    simp [snapshot, order.online.length_list, HashMap.len, AList.keys,
      List.keys]
  have total : ((snapshot order (hub.record account)).map wireLen).sum ≤
      others * largest := by
    calc ((snapshot order (hub.record account)).map wireLen).sum
        ≤ ((snapshot order (hub.record account)).map wireLen).length *
            largest := by
          apply List.sum_le_card_nsmul
          intro length member
          obtain ⟨frame, frameMember, rfl⟩ := List.mem_map.mp member
          exact notices frame frameMember
      _ ≤ others * largest := by
          rw [List.length_map, count]
          exact Nat.mul_le_mul_right _ room
  refine ⟨?_, ?_, ?_⟩
  · simp only [Outbound.counted, List.map_map, List.map_cons, List.sum_cons]
    have same : (fun item : Item => wireLen item.wire) ∘ Item.ofFrame =
        wireLen := rfl
    rw [same]
    simp only [Item.ofFrame]
    omega
  · simp [Outbound.counted, Function.comp_def, Item.ofFrame]
  · simp [Outbound.counted, Function.comp_def, Item.ofFrame]

/-- Whoever joined and is still there has lived through the departures. -/
theorem Hub.Settles.newcomer_lives {conn : Conn} {role : Role} {mid : Account}
    {fx : Effects} {left : List (ConnId × Frame)} {wake : List ConnId}
    (settles : hub.Settles account [.joined id conn role] mid fx left hub' wake)
    (new : id ∉ (hub.record account).conns)
    (found : hub'.conn? account id = some c') :
    ∃ acct tail, Lives hub.limits id acct conn tail (hub'.record account) c' := by
  obtain ⟨tail, fx', tailActs, departures, noClose, _⟩ := settles.tail_acts
  rw [hub'.conn?_eq] at found
  have spared : ¬ Doomed fx' id := by simp [Doomed, noClose]
  rcases (settles.head_acts.trans tailActs).lives found spared with
    ⟨old, lives, _⟩ |
    ⟨earlier, joined, joinedRole, later, before, mid', _, _, split, _, _,
      lives, _⟩
  · exact (new (HashMap.mem_of_lookup lives.first)).elim
  · cases earlier with
    | nil =>
        simp only [List.cons_append, List.nil_append, List.cons.injEq,
          Event.joined.injEq] at split
        obtain ⟨⟨_, rfl, _⟩, _⟩ := split
        exact ⟨mid', later, lives⟩
    | cons first earlier =>
        simp only [List.cons_append, List.nil_append, List.cons.injEq] at split
        have member : .joined id joined joinedRole ∈ tail := by
          rw [split.2]
          simp
        obtain ⟨_, _, _, _, absurdity⟩ := departures.of_mem member
        cases absurdity

/-- The connection a `connect` admitted, if it is still there. -/
theorem Hub.connect_newcomer (ok : hub.Ok) {hello : Hello}
    {nowMs monoMs : Nat} {revoker : Revoker} {actions : List Action}
    (ran : hub.connect order account hello nowMs monoMs revoker =
      .ok (hub', .ok (id, actions)))
    (found : hub'.conn? account id = some c') :
    hub.refuseHello account hello = none ∧
      ∃ acct tail, Lives hub.limits id acct
        (hub.newcomer order account hello nowMs revoker) tail
        (hub'.record account) c' := by
  have checked {base : Hub} (baseOk : base.Ok)
      (offline : hello.principal ∉ (base.record account).online)
      (ran : base.connectChecked order account hello nowMs monoMs revoker =
        .ok (hub', .ok (id, actions))) :
      ∃ acct tail, Lives base.limits id acct
        (base.newcomer order account hello nowMs revoker) tail
        (hub'.record account) c' := by
    obtain ⟨_, mid, fx, left, wake, again, settles, _⟩ :=
      connectChecked_admits order baseOk offline nowMs monoMs revoker
    rw [ran] at again
    cases again
    refine settles.newcomer_lives ?_ found
    rw [baseOk.mem_record_iff]
    intro known
    exact Nat.lt_irrefl _ (baseOk.fresh _ (HashMap.mem_of_lookup known))
  unfold connect at ran
  split at ran
  · cases ran
  next passed =>
    have offline := offline_of_refuseHello passed
    refine ⟨passed, ?_⟩
    split at ran
    · exact checked ok offline ran
    next acct present =>
      simp only at ran
      split at ran
      · cases ran
      · have record := record_of_lookup present
        have rated : (hub.setAccount account { acct with
            rate := acct.rate.refill monoMs hub.limits.accountBytesPerSecond
              hub.limits.accountBurstBytes }).record account =
            { acct with
              rate := acct.rate.refill monoMs hub.limits.accountBytesPerSecond
                hub.limits.accountBurstBytes } :=
          record_of_lookup (hub.within_setAccount account _).record
        rw [record] at offline
        obtain ⟨before, tail, lives⟩ :=
          checked (ok.with_rate present _) (by rw [rated]; exact offline) ran
        refine ⟨before, tail, ?_⟩
        have same : (hub.setAccount account { acct with
            rate := acct.rate.refill monoMs hub.limits.accountBytesPerSecond
              hub.limits.accountBurstBytes }).newcomer order account hello
                nowMs revoker =
            hub.newcomer order account hello nowMs revoker := by
          unfold newcomer
          rw [rated, record]
          rfl
        rw [same] at lives
        exact lives

omit [Codec] in
theorem Hub.principal_le_of_refuseHello {hello : Hello}
    (passed : hub.refuseHello account hello = none) :
    hello.principal.length ≤ hub.limits.maxIdBytes := by
  unfold refuseHello at passed
  split at passed
  · cases passed
  split at passed
  · cases passed
  next good =>
    simp only [not_or, not_lt] at good
    exact good.2.2.1

/-- Every connection is one that was admitted, with a queue within its
bounds. -/
def Hub.Modest (hub : Hub) : Prop :=
  ∀ account id c, hub.conn? account id = some c → c.Modest hub.limits

/-- No call leaves a queue past its bounds. -/
theorem Hub.Modest.apply {call : Call} {reply : Reply} (modest : hub.Modest)
    (ok : hub.Ok) (ok' : hub'.Ok)
    (effect : Effect order hub call reply hub')
    (ran : hub.apply order call = .ok (hub', reply)) {largest : Nat}
    (largestPresence : ∀ notice, hub.limits.Presents notice →
      wireLen (.of (.presence notice)) ≤ largest)
    (greets : hub.Greets largest call) : hub'.Modest := by
  intro account id c' found
  rw [effect.limits_eq]
  cases effect.fate ok ok' found with
  | rest found => exact modest account id c' found
  | took acct c taken rest took after =>
      have queueOk := (ok.account_ok took.found).queue_ok took.connFound
      obtain ⟨principal, chain, queue⟩ := modest account id c took.there
      rw [after]
      exact ⟨principal, chain, queue.of_taken queueOk took.split _⟩
  | lived head tail fx c lived =>
      exact lived.lives.modest (modest account id c lived.there)
  | born hello conn mid tail born =>
      obtain ⟨nowMs, monoMs, revoker, rfl⟩ := born.call_eq
      obtain ⟨actions, rfl⟩ := born.reply_eq
      simp only [Hub.apply, bind_eq_ok] at ran
      obtain ⟨⟨connected, answer⟩, connecting, ran⟩ := ran
      cases answer with
      | error frame => cases ran
      | ok admission =>
          cases ran
          obtain ⟨passed, acct, tail, lives⟩ := connect_newcomer ok connecting
            found
          refine lives.modest ⟨principal_le_of_refuseHello passed, ⟨_, rfl⟩, ?_⟩
          refine greeting_within ok (fun id c => modest account id c)
            largestPresence ?_ _ greets
          obtain ⟨_, room⟩ := room_of_refuseHello passed
          unfold record
          cases present : hub.accounts.lookup account with
          | none => exact Nat.zero_le _
          | some acct => exact Nat.le_sub_one_of_lt (room acct present)

end Greeting

/-! ## All bounds together -/

/-- The counters of a connection's queue are the sums over its items, and they
and the subscriptions are within their bounds. -/
structure Conn.Bounded [Codec] (limits : Limits) (c : Conn) : Prop where
  bytes_eq : c.out.bytes = (c.out.items.map fun item => wireLen item.wire).sum
  bytes_le : c.out.bytes ≤ limits.queueBytes
  sessionEvents_eq : c.out.sessionEvents =
    (c.out.items.map fun item => item.sessionEvent.toNat).sum
  sessionEvents_le : c.out.sessionEvents ≤ limits.queueSessionEvents
  telemetry_eq : c.out.telemetry =
    (c.out.items.map fun item => item.telemetry.toNat).sum
  telemetry_le : c.out.telemetry ≤ max limits.queueTelemetry 1
  subs_le : HashMap.len c.subs ≤ limits.maxSubscriptionsPerConnection

/-- A ring within the capacity of its kind that counts its bytes right. -/
structure Ring.Bounded [Codec] (limits : Limits) (ring : Ring) : Prop where
  length_le : ring.entries.length ≤ limits.ringCapacity ring.kind
  bytes_eq : ring.bytes = (ring.entries.map fun entry => wireLen entry.wire).sum

/-- An account whose connections and rings are within their bounds, as are
their numbers and the bytes of all rings together. -/
structure Account.Bounded [Codec] (limits : Limits) (acct : Account) :
    Prop where
  conn : ∀ id c, acct.conns.lookup id = some c → c.Bounded limits
  ring : ∀ key stream ring, acct.streams.lookup key = some stream →
    stream.ring = some ring → ring.Bounded limits
  ringBytes_eq : acct.ringBytes = HashMap.total Stream.ringBytes acct.streams
  ringBytes_le : acct.ringBytes ≤ limits.accountRingBytes
  streams_le : HashMap.len acct.streams ≤ limits.maxStreamsPerAccount
  conns_le : HashMap.len acct.conns ≤ limits.maxConnectionsPerAccount

/-- Everything in the relay is within its bounds. -/
structure Hub.Bounded [Codec] (limits : Limits) (hub : Hub) : Prop where
  account : ∀ account acct, hub.accounts.lookup account = some acct →
    acct.Bounded limits
  accounts_le : HashMap.len hub.accounts ≤ limits.maxAccounts

section Bounds

variable [Codec] {start hub : Hub} {steps : List Step}

theorem Hub.bounded (ok : hub.Ok) (thrifty : hub.Thrifty)
    (modest : hub.Modest) : hub.Bounded hub.limits := by
  refine ⟨fun account acct found => ?_, thrifty.accounts_le⟩
  have acctOk := ok.account_ok found
  have within := thrifty.each found
  refine ⟨fun id c connFound => ?_, fun key stream ring streamFound ringFound =>
    ?_, acctOk.ringBytes_eq, within.ringBytes_le, within.streams_le,
    within.conns_le⟩
  · have counts := (acctOk.queue_ok connFound).eq_counted
    have queue := (modest account id c (by
      rw [hub.conn?_eq, record_of_lookup found]
      exact connFound)).queue
    exact ⟨congrArg Outbound.bytes counts, queue.bytes_le,
      congrArg Outbound.sessionEvents counts, queue.sessionEvents_le,
      congrArg Outbound.telemetry counts, queue.telemetry_le,
      within.subs_le connFound⟩
  · have ringOk := acctOk.ring_ok_of_lookup streamFound ringFound
    exact ⟨ringOk.length_le_capacity, ringOk.bytes_eq⟩

/-- The bounds hold after a run. -/
theorem Run.bounded (run : Run start steps hub) (ok : start.Ok)
    (empty : start.accounts = ∅)
    (capped : 0 < start.limits.maxConnectionsPerAccount) {largest : Nat}
    (largestPresence : ∀ notice, start.limits.Presents notice →
      wireLen (.of (.presence notice)) ≤ largest)
    (greets : ∀ step ∈ steps, start.Greets largest step.call) :
    hub.Thrifty ∧ hub.Modest := by
  induction run with
  | start =>
      refine ⟨⟨?_, fun found => ?_⟩, fun account id c found => ?_⟩
      · simp [empty, HashMap.len]
      · simp [empty] at found
      · exact (Hub.conn?_empty empty account id c found).elim
  | @call steps hub next order call reply earlier ran ih =>
      obtain ⟨thrifty, modest⟩ := ih fun step member =>
        greets step (List.mem_append_left _ member)
      obtain ⟨hubOk, nextOk, effect⟩ := ((Run.call earlier ran).forall_steps
        ok).2 ⟨hub, order, call, reply, next⟩ (by simp)
      have limitsEq := earlier.limits_eq ok
      have greeting : hub.Greets largest call := by
        have first := greets ⟨hub, order, call, reply, next⟩ (by simp)
        cases call with
        | connect account hello nowMs monoMs revoker =>
            simp only [Hub.Greets, Hub.welcome, limitsEq] at first ⊢
            exact first
        | _ => trivial
      rw [← limitsEq] at largestPresence
      exact ⟨Hub.apply_thrifty order hubOk thrifty
          (fun _ _ _ _ _ _ => limitsEq ▸ capped) ran,
        modest.apply hubOk nextOk effect ran largestPresence greeting⟩

end Bounds

/-- Under limits with which a `Welcome` and all but one of an account's largest
presence notices fit in a queue, and by which an account may have a connection,
everything in the relay is within its bounds after every call of every run.  The
first connection of an account is admitted without its number being checked. -/
theorem relay_resources_bounded [Codec] (limits : Limits) (seed : UInt64)
    (shard : UInt16) (start : Hub)
    (accepted : Hub.withIdSpace limits seed shard = .ok start)
    (capped : 0 < limits.maxConnectionsPerAccount) (largest : Nat)
    (largestPresence : ∀ notice, limits.Presents notice →
      wireLen (.of (.presence notice)) ≤ largest)
    (calls : List (HashOrder × Call))
    (greets : ∀ entry ∈ calls, start.Greets largest entry.2) :
    ∃ steps, start.run calls = .ok steps ∧
      ∀ step ∈ steps, step.after.Bounded limits := by
  obtain ⟨ok, rfl, empty, _⟩ := ok_withIdSpace accepted
  obtain ⟨steps, hub, ran, run⟩ := exists_run ok calls
  refine ⟨steps, ran, ?_⟩
  have stepGreets := Hub.forall_calls ran greets
  intro step member
  obtain ⟨earlier, later, rfl⟩ := List.append_of_mem member
  have assoc : earlier ++ step :: later = (earlier ++ [step]) ++ later := by
    simp
  rw [assoc] at run
  obtain ⟨middle, untilStep, _⟩ := run.split
  obtain ⟨_, rfl, _⟩ := untilStep.unsnoc
  obtain ⟨thrifty, modest⟩ := untilStep.bounded ok empty capped largestPresence
    fun other among => stepGreets other (by
      rw [assoc]
      exact List.mem_append_left _ among)
  have bounded := Hub.bounded (untilStep.forall_steps ok).1 thrifty modest
  rw [untilStep.limits_eq ok] at bounded
  exact bounded

namespace Protobuf

theorem repeated_certificate_le (chain : List Certificate) :
    repeated certificate chain ≤ 33 * chain.length +
      (chain.map fun certificate =>
        certificate.body.length + certificate.signature.length).sum := by
  induction chain with
  | nil => simp [repeated]
  | cons first rest ih =>
      have whole := delimited_le (certificate first)
      have body := bytes_le first.body
      have signature := bytes_le first.signature
      simp only [repeated, certificate, List.map_cons, List.sum_cons,
        List.length_cons] at ih whole ⊢
      omega

/-- With ids of at most 64 bytes no presence notice takes more than this. -/
theorem presence_le (limits : Limits) (short : limits.maxIdBytes = 64)
    (notice : Presence) (presents : limits.Presents notice) :
    wireLen (.of (.presence notice)) ≤ 2400 := by
  obtain ⟨principalLe, ⟨role, _⟩, ⟨chain, chainEq⟩⟩ := presents
  have principal := bytes_le notice.principal
  have role := enum_le notice.role
  have online : bool notice.online ≤ 2 := by
    unfold bool
    split <;> omega
  have certificates := repeated_certificate_le notice.chain
  have few : 33 * notice.chain.length + (notice.chain.map fun certificate =>
      certificate.body.length + certificate.signature.length).sum ≤ 2266 := by
    rw [chainEq, presentable]
    by_cases large : chain.length > 2 ∨ (chain.map fun certificate =>
        certificate.body.length + certificate.signature.length).sum >
          maxPresenceChainBytes
    · simp only [large, if_true]
      simp
    · simp only [large, if_false]
      simp only [maxPresenceChainBytes] at large
      omega
  have inner := delimited_le (presence notice)
  have outer := varint_le (delimited (presence notice))
  change varint (delimited (presence notice)) + delimited (presence notice) ≤
    2400
  unfold presence at *
  omega

end Protobuf

/-- A device connects. -/
def oneConnects : List (HashOrder × Call) :=
  [(.stored, .connect [9] { protocol := 1, principal := [1], role := 2 } 0 0
    .unknown)]

/-- Under limits by which an account may have no connection, it has one. -/
theorem relay_connection_past_cap :
    ∃ start steps,
      Hub.withIdSpace { maxConnectionsPerAccount := 0 } 7 0 = .ok start ∧
      (∀ notice, start.limits.Presents notice →
        wireLen (.of (.presence notice)) ≤ 2400) ∧
      (∀ entry ∈ oneConnects, start.Greets 2400 entry.2) ∧
      start.run oneConnects = .ok steps ∧
      ∃ step ∈ steps, ¬ step.after.Bounded { maxConnectionsPerAccount := 0 } := by
  have accepted : Hub.withIdSpace { maxConnectionsPerAccount := 0 } 7 0 =
      .ok ⟨{ maxConnectionsPerAccount := 0 }, ∅, ∅, 1, 7, 0⟩ := rfl
  obtain ⟨ok, -, -, -⟩ := ok_withIdSpace accepted
  obtain ⟨steps, hub, ran, -⟩ := exists_run ok oneConnects
  obtain ⟨step, member, holds⟩ : ∃ step ∈ steps,
      (step.after.accounts.lookup [9]).any
        (fun acct => decide (HashMap.len acct.conns = 1)) = true :=
    holds_of_check ran (by decide +kernel)
  obtain ⟨acct, found, counted⟩ := (Option.any_eq_true _ _).mp holds
  have one : HashMap.len acct.conns = 1 := of_decide_eq_true counted
  refine ⟨_, steps, accepted, Protobuf.presence_le _ rfl, ?_, ran, step, member,
    fun bounded => ?_⟩
  · intro entry member
    obtain rfl := List.mem_singleton.mp member
    change _ ≤ _
    decide +kernel
  · have most := (bounded.account [9] acct found).conns_le
    rw [one] at most
    exact absurd most (by decide)

/-- A connection is admitted under the default limits. -/
theorem relay_resources_bounded_default :
    ∃ start steps, Hub.withIdSpace {} 7 0 = .ok start ∧
      start.run oneConnects = .ok steps ∧
      ∀ step ∈ steps, step.after.Bounded {} := by
  obtain ⟨steps, ran, bounded⟩ := relay_resources_bounded {} 7 0
    ⟨{}, ∅, ∅, 1, 7, 0⟩ rfl (by decide) 2400
    (Protobuf.presence_le {} rfl) oneConnects (by
      intro entry member
      obtain rfl := List.mem_singleton.mp member
      change _ ≤ _
      decide +kernel)
  exact ⟨_, steps, rfl, ran, bounded⟩

end WindowMlHub
