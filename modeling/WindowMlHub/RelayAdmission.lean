import WindowMlHub.RelayClosing

/-!
# Admitting a connection

`connect`: a new connection finds the greeting and one presence notice for every
principal online in its queue, and all others are told about it.
-/

namespace WindowMlHub

open CheckedEvaluation HashTables

section Admission

variable [Codec] {limits : Limits} {acct : Account} {id : ConnId} {conn : Conn}
  {role : Role}

/-- The queue of a new connection holds its greeting, whatever the pushes
answer. -/
theorem greeting_eq (limits : Limits) (frames : List Frame) :
    frames.foldl (fun out frame => (out.pushFrame frame limits).1) {} =
      Outbound.counted (frames.map .ofFrame) ∅ := by
  have general (items : List Item) (proper : ∀ item ∈ items, item.Proper) :
      frames.foldl (fun out frame => (out.pushFrame frame limits).1)
          (Outbound.counted items ∅) =
        Outbound.counted (items ++ frames.map .ofFrame) ∅ := by
    induction frames generalizing items with
    | nil => simp
    | cons frame rest ih =>
        have ok : (Outbound.counted items ∅).Ok := .of_counted proper
        rw [List.foldl_cons, Outbound.pushFrame_eq ok]
        have next := ih (items ++ [.ofFrame frame]) (by
          intro item member
          rcases List.mem_append.mp member with old | new
          · exact proper item old
          · rw [List.mem_singleton.mp new]
            exact Item.proper_ofFrame frame)
        simpa [Outbound.counted] using next
  exact general [] (by simp)

theorem greeting_ok (frames : List Frame) :
    (Outbound.counted (frames.map .ofFrame) ∅).Ok := by
  apply Outbound.Ok.of_counted
  intro item member
  obtain ⟨frame, _, rfl⟩ := List.mem_map.mp member
  exact Item.proper_ofFrame frame

/-- The account with one more connection. -/
def Account.join (acct : Account) (id : ConnId) (conn : Conn) (role : Role) :
    Account :=
  { acct with
    conns := acct.conns.insert id conn
    online := acct.online.insert conn.principal (id, role) }

theorem Account.Ok.join (ok : acct.Ok limits) (new : id ∉ acct.conns)
    (offline : conn.principal ∉ acct.online) (queueOk : conn.out.Ok)
    (noSubs : conn.subs = ∅) (role : Role) :
    (acct.join id conn role).Ok limits := by
  constructor
  · intro other c found
    simp only [Account.join, HashMap.lookup_insert_eq] at found ⊢
    split at found
    · rename_i same
      cases found
      exact ⟨role, by simp [same]⟩
    · obtain ⟨role, online⟩ := ok.online_of_conn found
      refine ⟨role, ?_⟩
      rw [if_neg]
      · exact online
      · rintro same
        exact offline (HashMap.mem_of_lookup (same ▸ online))
  · intro principal other otherRole found
    simp only [Account.join, HashMap.lookup_insert_eq] at found ⊢
    split at found
    · rename_i same
      cases found
      exact ⟨conn, by simp, same.symm⟩
    · obtain ⟨c, connFound, principalEq⟩ := ok.conn_of_online found
      refine ⟨c, ?_, principalEq⟩
      rw [if_neg]
      · exact connFound
      · rintro rfl
        exact new (HashMap.mem_of_lookup connFound)
  · intro other c found key
    simp only [Account.join, HashMap.lookup_insert_eq] at found
    split at found
    · rename_i same
      cases found
      rw [noSubs, same]
      constructor
      · intro absurdity
        exact (AList.notMem_empty key absurdity).elim
      · rintro ⟨stream, streamFound, subscribed⟩
        exact (new (ok.subscriber_known streamFound id subscribed)).elim
    · exact ok.subs_iff found key
  · intro key stream found other subscribed
    exact (AList.mem_insert _).mpr
      (Or.inr (ok.subscriber_known found other subscribed))
  · exact ok.key_eq
  · intro other c found
    simp only [Account.join, HashMap.lookup_insert_eq] at found
    split at found
    · cases found
      exact queueOk
    · exact ok.queue_ok found
  · exact ok.ring_ok
  · exact ok.ringBytes_eq

/-- A connection joins awake, and all others are offered the notice. -/
theorem act_joined {fx fx' : Effects} {ids : List ConnId}
    {conns' : HashMap ConnId Conn} {rate : Bucket} (new : id ∉ acct.conns)
    (wakeEq : fx.wake = [id]) (closeEq : fx.close = [])
    (offered : Offered (fun c => c.out.pushFrame (onlineNotice conn role)
        limits) ids (acct.conns.insert id conn) fx conns' fx')
    (everyone : ∀ other, other ∈ ids ↔ other ∈ acct.conns) :
    Act limits acct {} (.joined id conn role)
      { acct.join id conn role with conns := conns', rate } fx' := by
  have nobody (other : ConnId) : ¬ Doomed fx other := by
    simp [Doomed, closeEq]
  have mine : conns'.lookup id = some conn := by
    rw [offered.lookup_eq]
    simp [everyone, new]
  constructor
  · intro other c found _
    have differs : other ≠ id := by
      rintro rfl
      exact new (HashMap.mem_of_lookup found)
    have among : (acct.conns.insert id conn).lookup other = some c := by
      rw [HashMap.lookup_insert_eq, if_neg differs]
      exact found
    obtain ⟨c', c'Found, kept⟩ := offered.kept (.joined id conn role)
      (.frame (onlineNotice conn role)) among (fun _ _ => Iff.rfl)
      (by simp [Event.ops, everyone, HashMap.mem_of_lookup found]) rfl
      (fun accepted => .frame (Prod.ext rfl accepted))
    refine ⟨c', c'Found, kept.principal_eq, kept.chain_eq, kept.subs_iff, ?_⟩
    rcases kept.doomed_or with doomed | ⟨_, performs, armed, wake⟩
    · exact Or.inl doomed
    · refine Or.inr ⟨by simp [Doomed], performs, armed, ?_⟩
      rw [wake, wakeEq]
      simp [differs]
  · intro other c found
    by_cases same : other = id
    · subst same
      obtain rfl : conn = c := Option.some.inj (mine.symm.trans found)
      refine Or.inr ⟨role, rfl, ?_, ?_⟩
      · rw [offered.doomed_iff]
        simp [nobody, everyone, new]
      · rw [offered.wake_iff, wakeEq]
        simp
    · left
      have member := (offered.mem_iff other).mp (HashMap.mem_of_lookup found)
      exact ((AList.mem_insert _).mp member).resolve_left same
  · intro other c otherRole same
    cases same
    exact ⟨new, mine⟩
  · intro other principal otherRole absurdity
    cases absurdity
  · intro principal
    rfl
  · intro key _
    exact Account.ring_kept_of_eq rfl
  · intro key ring env absurdity
    cases absurdity
  · intro target key since ring absurdity
    cases absurdity
  · intro other member
    right
    rcases offered.wake_live other member with old | live
    · rw [wakeEq, List.mem_singleton] at old
      rw [old]
      exact HashMap.mem_of_lookup mine
    · exact live
  · intro _
    exact offered.wake_nodup (by simp [wakeEq])
  · intro other doomed
    rcases (offered.doomed_iff other).mp doomed with old | ⟨member, _⟩
    · exact (nobody other old).elim
    · exact Or.inr ((everyone other).mp member)

end Admission

namespace Hub

variable [Codec] {hub : Hub} {account : AccountId}

/-- What a new connection starts with. -/
structure Newcomer (order : HashOrder) (hub : Hub) (account : AccountId)
    (hello : Hello) (conn : Conn) : Prop where
  offline : hello.principal ∉ (hub.record account).online
  principal_eq : conn.principal = hello.principal
  chain_eq : conn.chain = presentable hello.chain
  subs_eq : conn.subs = ∅
  armed : conn.armed = true
  queue_eq : ∃ welcome : Welcome, conn.out = Outbound.counted
    ((.of (.welcome welcome) :: snapshot order (hub.record account)).map
      .ofFrame) ∅

/-- The connection that is admitted, with its greeting queued. -/
def newcomer (order : HashOrder) (hub : Hub) (account : AccountId)
    (hello : Hello) (nowMs : Nat) (revoker : Revoker) : Conn :=
  ⟨hello.principal, presentable hello.chain, Outbound.counted
    ((.of (.welcome (hub.welcome nowMs revoker)) ::
      snapshot order (hub.record account)).map .ofFrame) ∅, ∅, true, none⟩

/-- What admission does, with the new connection as it is queued. -/
theorem connectChecked_admits (order : HashOrder) (ok : hub.Ok) {hello : Hello}
    (offline : hello.principal ∉ (hub.record account).online)
    (nowMs monoMs : Nat) (revoker : Revoker) :
    ∃ hub' mid fx left wake,
      hub.connectChecked order account hello nowMs monoMs revoker =
        .ok (hub', .ok (hub.nextConn, actionsOf wake left)) ∧
      Settles account hub [.joined hub.nextConn
        (hub.newcomer order account hello nowMs revoker)
        (Role.ofInt hello.role)] mid fx left hub' wake ∧
      hub'.nextConn = hub.nextConn + 1 := by
  obtain ⟨acctOk, acctTidy⟩ := ok.record_ok account
  have new : hub.nextConn ∉ (hub.record account).conns := by
    rw [ok.mem_record_iff]
    intro known
    exact Nat.lt_irrefl _ (ok.fresh _ (HashMap.mem_of_lookup known))
  let greeting := (.of (.welcome (hub.welcome nowMs revoker)) ::
    snapshot order (hub.record account))
  let conn : Conn := hub.newcomer order account hello nowMs revoker
  let role := Role.ofInt hello.role
  let rate := ((hub.record account).rate.refill monoMs
    hub.limits.accountBytesPerSecond hub.limits.accountBurstBytes).spend
      connectCostBytes
  let joined : Account :=
    { (hub.record account).join hub.nextConn conn role with rate }
  let start : Effects := ⟨[hub.nextConn], [], 1⟩
  let hub₀ : Hub := { hub with
    accounts := hub.accounts.insert account joined
    connAccount := hub.connAccount.insert hub.nextConn account
    nextConn := hub.nextConn + 1 }
  have joinedOk : joined.Ok hub.limits := by
    have base : ((hub.record account).join hub.nextConn conn role).Ok
        hub.limits :=
      acctOk.join new offline (greeting_ok greeting) rfl role
    exact ⟨base.online_of_conn, base.conn_of_online, base.subs_iff,
      base.subscriber_known, base.key_eq, base.queue_ok, base.ring_ok,
      base.ringBytes_eq⟩
  have found₀ : hub₀.accounts.lookup account = some joined := by
    simp [hub₀]
  obtain ⟨hub₁, conns', fx, enqueued, offered, within⟩ :=
    enqueueAll_spec found₀ (onlineNotice conn role)
      (order.conns.nodup_list (hub.record account).conns.nodupKeys) start
  have recordEq := record_of_lookup within.record
  have acts : Acts hub.limits (hub.record account) {}
      [.joined hub.nextConn conn role] (hub₁.record account) fx := by
    rw [recordEq]
    exact .single (act_joined new rfl rfl offered
      (fun other => order.conns.mem_list))
  have beside : hub.Beside account hub₁ :=
    ⟨within.limits_eq, fun other differs => by
      rw [within.others other differs]
      simp [hub₀, AList.lookup_insert_ne differs]⟩
  have ok₁ : hub₁.Ok := by
    refine ok.update beside ?_ ?_ ?_ ?_
    · intro acct' found
      rw [within.record] at found
      cases found
      refine ⟨joinedOk.offered offered, acctTidy, Or.inl ⟨hub.nextConn, ?_⟩⟩
      exact (offered.mem_iff _).mpr (by simp [joined, Account.join])
    · intro id
      rw [recordEq, within.connAccount_eq, offered.mem_iff]
      simp only [hub₀, joined, Account.join, HashMap.lookup_insert_eq,
        AList.mem_insert, ok.mem_record_iff]
      split
      · rename_i same
        simp [same]
      · rename_i differs
        simp [differs]
    · intro id other differs
      rw [within.connAccount_eq]
      simp only [hub₀, HashMap.lookup_insert_eq]
      split
      · rename_i same
        constructor
        · intro absurdity
          exact (differs (Option.some.inj absurdity).symm).elim
        · intro known
          rw [same] at known
          exact (Nat.lt_irrefl _
            (ok.fresh _ (HashMap.mem_of_lookup known))).elim
      · rfl
    · intro id member
      rw [within.connAccount_eq] at member
      rw [within.nextConn_eq]
      simp only [hub₀, AList.mem_insert] at member ⊢
      rcases member with rfl | old
      · exact Nat.lt_succ_self _
      · exact Nat.lt_succ_of_lt (ok.fresh id old)
  obtain ⟨hub', left, wake, ran, settles, nextEq⟩ :=
    finish_settles order ok ok₁ beside acts
      (fun id c role member => by
        simp only [List.mem_singleton, Event.joined.injEq] at member
        exact member.1)
  refine ⟨hub', _, fx, left, wake, ?_, settles, ?_⟩
  · let told := enqueueAll account (onlineNotice conn role)
      (order.conns.list (hub.record account).conns.keys) hub₀ start
    have unfolded : hub.connectChecked order account hello nowMs monoMs revoker =
        (told.1.finish order told.2 >>= fun result =>
          .ok (result.1, .ok (hub.nextConn, result.2))) := by
      unfold connectChecked
      simp only [greeting_eq]
      rfl
    have toldEq : told = (hub₁, fx) := enqueued
    rw [unfolded, toldEq, ran, ok_bind]
  · rw [nextEq, within.nextConn_eq]

theorem connectChecked_spec (order : HashOrder) (ok : hub.Ok) {hello : Hello}
    (offline : hello.principal ∉ (hub.record account).online)
    (nowMs monoMs : Nat) (revoker : Revoker) :
    ∃ conn hub' mid fx left wake,
      hub.connectChecked order account hello nowMs monoMs revoker =
        .ok (hub', .ok (hub.nextConn, actionsOf wake left)) ∧
      Newcomer order hub account hello conn ∧
      Settles account hub [.joined hub.nextConn conn (Role.ofInt hello.role)]
        mid fx left hub' wake ∧
      hub'.nextConn = hub.nextConn + 1 := by
  obtain ⟨hub', mid, fx, left, wake, ran, settles, nextEq⟩ :=
    connectChecked_admits order ok offline nowMs monoMs revoker
  exact ⟨_, hub', mid, fx, left, wake, ran, ⟨offline, rfl, rfl, rfl, rfl,
    hub.welcome nowMs revoker, rfl⟩, settles, nextEq⟩

end Hub

end WindowMlHub
