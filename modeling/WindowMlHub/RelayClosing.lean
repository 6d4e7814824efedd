import WindowMlHub.RelayRouting

/-!
# Closing connections

`forget` takes a connection out of every table and tells the others, which may
overflow their queues and doom them too; `finish` goes on until nobody doomed is
left.  The invariant of the whole hub is kept by each connection that leaves,
and since each of them adds at most one entry for every connection still known,
the cascade ends.
-/

namespace WindowMlHub

open CheckedEvaluation HashTables

/-- The relay's tables agree with each other. -/
structure Hub.Ok [Codec] (hub : Hub) : Prop where
  account_ok : ∀ {account acct}, hub.accounts.lookup account = some acct →
    acct.Ok hub.limits
  account_tidy : ∀ {account acct}, hub.accounts.lookup account = some acct →
    acct.Tidy
  known_iff : ∀ id account, hub.connAccount.lookup id = some account ↔
    ∃ acct, hub.accounts.lookup account = some acct ∧ id ∈ acct.conns
  inhabited : ∀ {account acct}, hub.accounts.lookup account = some acct →
    (∃ id, id ∈ acct.conns) ∨ ∃ key, key ∈ acct.streams
  fresh : ∀ id ∈ hub.connAccount, id < hub.nextConn

/-- An account's record, empty when there is none. -/
def Hub.record (hub : Hub) (account : AccountId) : Account :=
  (hub.accounts.lookup account).getD {}

/-- The ring of a stream of an account. -/
def Hub.ring? (hub : Hub) (account : AccountId) (key : StreamKey) :
    Option Ring :=
  (hub.record account).ring? key

theorem Hub.record_of_lookup {hub : Hub} {account : AccountId}
    {acct : Account} (found : hub.accounts.lookup account = some acct) :
    hub.record account = acct := by
  simp [record, found]

section Forgetting

variable [Codec] {limits : Limits} {order : HashOrder} {acct : Account}
  {conn : ConnId} {c : Conn} {role : Role}

/-- The account without one of its connections. -/
def Account.forget (order : HashOrder) (acct : Account) (conn : ConnId)
    (c : Conn) : Account :=
  { acct with
    conns := acct.conns.erase conn
    online := acct.online.erase c.principal
    streams := (order.subs.list c.subs.keys).foldl (leaveStream conn)
      acct.streams }

omit [Codec] in
theorem leaves_forget (order : HashOrder) (acct : Account) (conn : ConnId)
    (c : Conn) :
    Leaves conn (· ∈ c.subs) acct.streams
      (acct.forget order conn c).streams := by
  have leaves := leaves_foldl conn acct.streams
    (order.subs.nodup_list c.subs.nodupKeys)
  have mem (key : StreamKey) :
      key ∈ order.subs.list c.subs.entries.keys ↔ key ∈ c.subs :=
    order.subs.mem_list
  exact ⟨fun absent => leaves.stays (mt (mem _).mp absent),
    fun member => leaves.leaves ((mem _).mpr member), leaves.total_eq⟩

namespace Account

theorem Ok.eq_of_principal (ok : acct.Ok limits) {id : ConnId} {other : Conn}
    (found : acct.conns.lookup conn = some c)
    (otherFound : acct.conns.lookup id = some other)
    (same : other.principal = c.principal) : id = conn := by
  obtain ⟨_, online⟩ := ok.online_of_conn found
  obtain ⟨_, otherOnline⟩ := ok.online_of_conn otherFound
  rw [same, online] at otherOnline
  simp only [Option.some.injEq, Prod.mk.injEq] at otherOnline
  exact otherOnline.1.symm

theorem Ok.forget (ok : acct.Ok limits) (order : HashOrder)
    (found : acct.conns.lookup conn = some c) :
    (acct.forget order conn c).Ok limits := by
  have leaves := leaves_forget order acct conn c
  have remains {id : ConnId} {other : Conn}
      (otherFound : (acct.conns.erase conn).lookup id = some other) :
      id ≠ conn ∧ acct.conns.lookup id = some other := by
    rw [HashMap.lookup_erase_eq] at otherFound
    split at otherFound
    · cases otherFound
    · rename_i differs
      exact ⟨differs, otherFound⟩
  constructor
  · intro id other otherFound
    obtain ⟨differs, oldFound⟩ := remains otherFound
    obtain ⟨role, online⟩ := ok.online_of_conn oldFound
    refine ⟨role, ?_⟩
    simp only [Account.forget, HashMap.lookup_erase_eq]
    rw [if_neg fun same => differs (ok.eq_of_principal found oldFound same)]
    exact online
  · intro principal id role online
    simp only [Account.forget, HashMap.lookup_erase_eq] at online
    split at online
    · cases online
    · rename_i differs
      obtain ⟨other, otherFound, otherPrincipal⟩ := ok.conn_of_online online
      refine ⟨other, ?_, otherPrincipal⟩
      simp only [Account.forget, HashMap.lookup_erase_eq]
      rw [if_neg]
      · exact otherFound
      · rintro rfl
        rw [found] at otherFound
        cases otherFound
        exact differs otherPrincipal.symm
  · intro id other otherFound key
    obtain ⟨differs, oldFound⟩ := remains otherFound
    change _ ↔ Hears _ key id
    rw [leaves.hears_iff, ok.subs_iff oldFound key]
    simp [differs, Hears]
  · intro key stream streamFound id subscribed
    obtain ⟨heard, stays⟩ :=
      (leaves.hears_iff key id).mp ⟨stream, streamFound, subscribed⟩
    have differs : id ≠ conn := by
      rintro rfl
      exact stays ⟨rfl, (ok.subs_iff found key).mpr heard⟩
    obtain ⟨old, oldFound, oldSubscribed⟩ := heard
    exact AList.mem_erase.mpr
      ⟨differs, ok.subscriber_known oldFound id oldSubscribed⟩
  · intro key stream streamFound
    obtain ⟨old, oldFound, keyEq, _⟩ := leaves.before streamFound
    exact keyEq.trans (ok.key_eq oldFound)
  · intro id other otherFound
    exact ok.queue_ok (remains otherFound).2
  · intro key ring ringFound
    exact ok.ring_ok ((leaves.ring_eq key).symm.trans ringFound)
  · exact ok.ringBytes_eq.trans leaves.total_eq.symm

omit [Codec] in
theorem Tidy.forget (tidy : acct.Tidy) (order : HashOrder) (conn : ConnId)
    (c : Conn) : (acct.forget order conn c).Tidy := by
  intro key stream found
  exact (leaves_forget order acct conn c).tidy_but tidy found

theorem Ok.eq_empty (ok : acct.Ok limits) (noConns : acct.conns = ∅)
    (noStreams : acct.streams = ∅) :
    acct = { rate := acct.rate } := by
  have noOnline : acct.online = ∅ := by
    apply HashMap.eq_empty_of_forall_lookup
    intro principal
    cases online : acct.online.lookup principal with
    | none => rfl
    | some entry =>
        obtain ⟨c, found, _⟩ := ok.conn_of_online online
        simp [noConns] at found
  have noBytes : acct.ringBytes = 0 := by
    rw [ok.ringBytes_eq, noStreams]
    rfl
  obtain ⟨conns, online, streams, ringBytes, rate⟩ := acct
  simp only at noConns noStreams noOnline noBytes
  rw [noConns, noStreams, noOnline, noBytes]

end Account

/-- A connection leaves, and all others are offered the notice.  The connection
may have been on the list of those to close; nobody else is taken off it. -/
theorem act_left {fx fx' fx'' : Effects} {ids : List ConnId}
    {conns' : HashMap ConnId Conn}
    (found : acct.conns.lookup conn = some c)
    (online : acct.online.lookup c.principal = some (conn, role))
    (wakeEq : fx'.wake = fx.wake)
    (doomedIff : ∀ id, id ≠ conn → (Doomed fx' id ↔ Doomed fx id))
    (offered : Offered (fun c' => c'.out.pushFrame
        (offlineNotice c.principal role) limits) ids
      (acct.conns.erase conn) fx' conns' fx'')
    (everyone : ∀ id, id ∈ ids ↔ id ∈ acct.conns.erase conn) :
    Act limits acct fx (.left conn c.principal role)
      { acct.forget order conn c with conns := conns' } fx'' where
  kept {id other} otherFound stays := by
    have differs : id ≠ conn := by
      rintro rfl
      exact stays _ _ rfl
    have remains : (acct.conns.erase conn).lookup id = some other := by
      rw [HashMap.lookup_erase_eq, if_neg differs]
      exact otherFound
    obtain ⟨c', c'Found, kept⟩ := offered.kept
      (.left conn c.principal role)
      (.frame (offlineNotice c.principal role)) remains (fun _ _ => Iff.rfl)
      (by simp [Event.ops, everyone, HashMap.mem_of_lookup remains]) rfl
      (fun accepted => .frame (Prod.ext rfl accepted))
    refine ⟨c', c'Found, kept.principal_eq, kept.chain_eq, kept.subs_iff, ?_⟩
    rw [← doomedIff id differs, ← wakeEq]
    exact kept.doomed_or
  conns_new {id changed} changedFound := by
    left
    have member := (offered.mem_iff id).mp (HashMap.mem_of_lookup changedFound)
    exact (AList.mem_erase.mp member).2
  joined_new absurdity := by cases absurdity
  left_gone {id principal otherRole} same := by
    cases same
    refine ⟨?_, ⟨c, found, rfl⟩, online⟩
    intro member
    exact (AList.mem_erase.mp ((offered.mem_iff conn).mp member)).1 rfl
  online_eq principal := rfl
  ring_kept key _ := Account.ring_kept_of_eq
    ((leaves_forget order acct conn c).ring_eq key)
  ring_published absurdity := by cases absurdity
  ring_subscribed absurdity := by cases absurdity
  wake_live := by
    rw [← wakeEq]
    exact offered.wake_live
  wake_nodup := by
    rw [← wakeEq]
    exact offered.wake_nodup
  close_known id doomed := by
    rcases offered.close_known id doomed with old | member
    · by_cases same : id = conn
      · rw [same]
        exact Or.inr (HashMap.mem_of_lookup found)
      · exact Or.inl ((doomedIff id same).mp old)
    · exact Or.inr (AList.mem_erase.mp member).2

end Forgetting

/-- The same limits, and no account but one has changed. -/
structure Hub.Beside (account : AccountId) (hub hub' : Hub) : Prop where
  limits_eq : hub'.limits = hub.limits
  others : ∀ other, other ≠ account →
    hub'.accounts.lookup other = hub.accounts.lookup other

namespace Hub

variable {account : AccountId} {hub hub' hub'' : Hub} {acct : Account}

theorem Beside.refl (account : AccountId) (hub : Hub) :
    hub.Beside account hub :=
  ⟨rfl, fun _ _ => rfl⟩

theorem Beside.trans (first : hub.Beside account hub')
    (second : hub'.Beside account hub'') : hub.Beside account hub'' :=
  ⟨second.limits_eq.trans first.limits_eq, fun other differs =>
    (second.others other differs).trans (first.others other differs)⟩

theorem Within.beside (within : hub.Within account acct hub') :
    hub.Beside account hub' :=
  ⟨within.limits_eq, within.others⟩

variable [Codec]

/-- The invariant after a change to one account and its connections. -/
theorem Ok.update (ok : hub.Ok) (beside : hub.Beside account hub')
    (recordOk : ∀ {acct'}, hub'.accounts.lookup account = some acct' →
      acct'.Ok hub.limits ∧ acct'.Tidy ∧
        ((∃ id, id ∈ acct'.conns) ∨ ∃ key, key ∈ acct'.streams))
    (known : ∀ id, hub'.connAccount.lookup id = some account ↔
      id ∈ (hub'.record account).conns)
    (knownOther : ∀ id other, other ≠ account →
      (hub'.connAccount.lookup id = some other ↔
        hub.connAccount.lookup id = some other))
    (fresh : ∀ id ∈ hub'.connAccount, id < hub'.nextConn) :
    hub'.Ok := by
  refine ⟨?_, ?_, ?_, ?_, fresh⟩
  · intro other acct' found
    rw [beside.limits_eq]
    by_cases same : other = account
    · exact (recordOk (same ▸ found)).1
    · exact ok.account_ok (beside.others other same ▸ found)
  · intro other acct' found
    by_cases same : other = account
    · exact (recordOk (same ▸ found)).2.1
    · exact ok.account_tidy (beside.others other same ▸ found)
  · intro id other
    by_cases same : other = account
    · subst same
      rw [known, record]
      cases hub'.accounts.lookup other with
      | none => simp
      | some acct' => simp
    · rw [knownOther id other same, ok.known_iff, beside.others other same]
  · intro other acct' found
    by_cases same : other = account
    · exact (recordOk (same ▸ found)).2.2
    · exact ok.inhabited (beside.others other same ▸ found)

theorem Ok.record_ok (ok : hub.Ok) (account : AccountId) :
    (hub.record account).Ok hub.limits ∧ (hub.record account).Tidy := by
  unfold record
  cases found : hub.accounts.lookup account with
  | none => exact ⟨Account.ok_empty, Account.tidy_empty⟩
  | some acct => exact ⟨ok.account_ok found, ok.account_tidy found⟩

theorem Ok.mem_record_iff (ok : hub.Ok) (account : AccountId) (id : ConnId) :
    id ∈ (hub.record account).conns ↔
      hub.connAccount.lookup id = some account := by
  rw [ok.known_iff, record]
  cases hub.accounts.lookup account with
  | none => simp
  | some acct => simp

theorem Ok.exists_conn (ok : hub.Ok) {id : ConnId}
    (known : hub.connAccount.lookup id = some account) :
    ∃ acct c, hub.accounts.lookup account = some acct ∧
      acct.conns.lookup id = some c := by
  obtain ⟨acct, found, member⟩ := (ok.known_iff id account).mp known
  obtain ⟨c, connFound⟩ := HashMap.exists_lookup_of_mem member
  exact ⟨acct, c, found, connFound⟩

theorem Ok.len_conns_le (ok : hub.Ok)
    (found : hub.accounts.lookup account = some acct) :
    HashMap.len acct.conns ≤ HashMap.len hub.connAccount := by
  have subset : acct.conns.keys ⊆ hub.connAccount.keys := by
    intro id member
    exact HashMap.mem_of_lookup ((ok.known_iff id account).mpr
      ⟨acct, found, member⟩)
  exact (List.subperm_of_subset acct.conns.nodupKeys subset).length_le

/-- The work of `forget` for a connection of an account. -/
theorem forget_eq (order : HashOrder) {conn : ConnId} {c : Conn} {role : Role}
    (known : hub.connAccount.lookup conn = some account)
    (found : hub.accounts.lookup account = some acct)
    (connFound : acct.conns.lookup conn = some c)
    (online : acct.online.lookup c.principal = some (conn, role))
    (fx : Effects) :
    hub.forget order conn fx =
      enqueueAll account (offlineNotice c.principal role)
        (order.conns.list (acct.conns.erase conn).keys)
        (if HashMap.len (acct.forget order conn c).conns = 0 ∧
            HashMap.len (acct.forget order conn c).streams = 0 then
          { hub with
            connAccount := hub.connAccount.erase conn
            accounts := hub.accounts.erase account }
        else
          ({ hub with connAccount := hub.connAccount.erase conn } :
            Hub).setAccount account (acct.forget order conn c)) fx := by
  unfold forget
  simp only [known, found, connFound, online, if_true]
  rfl

/-- What forgetting a connection comes to. -/
structure Forgets (account : AccountId) (conn : ConnId) (hub hub' : Hub) :
    Prop where
  beside : hub.Beside account hub'
  connAccount_eq : hub'.connAccount = hub.connAccount.erase conn
  nextConn_eq : hub'.nextConn = hub.nextConn
  ring?_eq : hub'.ring? account = hub.ring? account
  ok : hub'.Ok

theorem forget_spec (order : HashOrder) (ok : hub.Ok) {conn : ConnId}
    (known : hub.connAccount.lookup conn = some account)
    {fx fx' : Effects} (wakeEq : fx'.wake = fx.wake)
    (doomedIff : ∀ id, id ≠ conn → (Doomed fx' id ↔ Doomed fx id)) :
    ∃ hub' fx'' principal role, hub.forget order conn fx' = (hub', fx'') ∧
      Forgets account conn hub hub' ∧
      Acts hub.limits (hub.record account) fx [.left conn principal role]
        (hub'.record account) fx'' ∧
      (conn ∈ fx''.wake → conn ∈ fx.wake) ∧
      fx''.close.length + 1 ≤
        fx'.close.length + HashMap.len hub.connAccount := by
  obtain ⟨acct, c, found, connFound⟩ := ok.exists_conn known
  have acctOk := ok.account_ok found
  obtain ⟨role, online⟩ := acctOk.online_of_conn connFound
  have fewer := HashMap.len_erase_of_mem (HashMap.mem_of_lookup connFound)
  have bound := ok.len_conns_le found
  have leaves := leaves_forget order acct conn c
  rw [forget_eq order known found connFound online, record_of_lookup found]
  have knownOther (id : ConnId) (other : AccountId)
      (differs : other ≠ account) :
      (hub.connAccount.erase conn).lookup id = some other ↔
        hub.connAccount.lookup id = some other := by
    rw [HashMap.lookup_erase_eq]
    split
    · rename_i same
      rw [same, known]
      simp [differs.symm]
    · rfl
  have knownAccount (id : ConnId) :
      (hub.connAccount.erase conn).lookup id = some account ↔
        id ∈ acct.conns.erase conn := by
    rw [HashMap.lookup_erase_eq, AList.mem_erase]
    split
    · rename_i same
      simp [same]
    · rename_i differs
      rw [ok.known_iff]
      simp [differs, found]
  have fresh (id : ConnId) (member : id ∈ hub.connAccount.erase conn) :
      id < hub.nextConn :=
    ok.fresh id (AList.mem_erase.mp member).2
  by_cases empty : HashMap.len (acct.forget order conn c).conns = 0 ∧
      HashMap.len (acct.forget order conn c).streams = 0
  · rw [if_pos empty]
    have noConns : acct.conns.erase conn = ∅ :=
      HashMap.len_eq_zero_iff.mp empty.1
    have noStreams := HashMap.len_eq_zero_iff.mp empty.2
    have nobody : order.conns.list (acct.conns.erase conn).keys = [] := by
      rw [noConns]
      exact order.conns.list_nil
    have gone : ({ hub with
        connAccount := hub.connAccount.erase conn
        accounts := hub.accounts.erase account } : Hub).record account =
          {} := by
      simp [record]
    rw [nobody]
    refine ⟨_, _, c.principal, role, rfl, ⟨?_, rfl, rfl, ?_, ?_⟩, ?_,
      fun woken => wakeEq ▸ woken, ?_⟩
    · exact ⟨rfl, fun other differs => AList.lookup_erase_ne differs⟩
    · funext key
      have kept := leaves.ring_eq key
      rw [noStreams] at kept
      rw [ring?, ring?, gone, record_of_lookup found]
      exact kept
    · refine ok.update ⟨rfl, fun other differs =>
        AList.lookup_erase_ne differs⟩ ?_ ?_ knownOther fresh
      · intro acct' acctFound
        simp at acctFound
      · intro id
        rw [gone, knownAccount, noConns]
    · rw [gone]
      have left : Act hub.limits acct fx (.left conn c.principal role)
          (acct.forget order conn c) fx' :=
        act_left connFound online wakeEq doomedIff (.nil _ _ fx')
          (fun id => by simp [noConns])
      have noOnline : (acct.forget order conn c).online = ∅ :=
        congrArg Account.online
          ((acctOk.forget order connFound).eq_empty noConns noStreams)
      refine .quiet (.single left)
        (act_quiet noConns.symm noOnline.symm fun key => ?_)
      apply Account.ring_kept_of_eq
      simp [Account.ring?, noStreams]
    · have := HashMap.len_insert_of_mem (HashMap.mem_of_lookup known) account
      omega
  · rw [if_neg empty]
    have within := ({ hub with
      connAccount := hub.connAccount.erase conn } : Hub).within_setAccount
        account (acct.forget order conn c)
    obtain ⟨hub', conns', fx'', ran, offered, withinAfter⟩ :=
      enqueueAll_spec within.record (offlineNotice c.principal role)
        (order.conns.nodup_list (acct.conns.erase conn).nodupKeys) fx'
    have whole := within.trans withinAfter
    rw [within.limits_eq] at offered
    have recordEq := record_of_lookup whole.record
    have everyone (id : ConnId) :
        id ∈ order.conns.list (acct.conns.erase conn).entries.keys ↔
          id ∈ acct.conns.erase conn :=
      order.conns.mem_list
    refine ⟨hub', fx'', c.principal, role, ran,
      ⟨⟨whole.limits_eq, whole.others⟩, whole.connAccount_eq,
        whole.nextConn_eq, ?_, ?_⟩, ?_, ?_, ?_⟩
    · funext key
      rw [ring?, ring?, recordEq, record_of_lookup found]
      exact leaves.ring_eq key
    · refine ok.update ⟨whole.limits_eq, whole.others⟩ ?_ ?_ ?_ ?_
      · intro acct' acctFound
        rw [whole.record] at acctFound
        cases acctFound
        refine ⟨(acctOk.forget order connFound).offered offered,
          (ok.account_tidy found).forget order conn c, ?_⟩
        rcases not_and_or.mp empty with someConn | someStream
        · left
          obtain ⟨id, member⟩ := HashMap.exists_mem_of_ne_empty
            (mt HashMap.len_eq_zero_iff.mpr someConn)
          exact ⟨id, (offered.mem_iff id).mpr member⟩
        · right
          exact HashMap.exists_mem_of_ne_empty
            (mt HashMap.len_eq_zero_iff.mpr someStream)
      · intro id
        rw [recordEq, whole.connAccount_eq]
        exact (knownAccount id).trans (offered.mem_iff id).symm
      · rw [whole.connAccount_eq]
        exact knownOther
      · rw [whole.connAccount_eq, whole.nextConn_eq]
        exact fresh
    · rw [recordEq]
      exact .single (act_left connFound online wakeEq doomedIff offered
        everyone)
    · intro woken
      rcases offered.wake_live conn woken with old | live
      · exact wakeEq ▸ old
      · exact ((AList.mem_erase.mp ((offered.mem_iff conn).mp live)).1
          rfl).elim
    · have length := offered.close_length
      have count := (order.conns.perm (acct.conns.erase conn).keys).length_eq
      simp only [HashMap.len, AList.keys] at *
      omega

/-- An entry for a connection that is gone is passed over. -/
theorem act_pop {limits : Limits} {conn : ConnId} {frame : Frame}
    {fx : Effects} {rest : List (ConnId × Frame)}
    (top : fx.close = (conn, frame) :: rest) (absent : conn ∉ acct.conns) :
    Act limits acct fx .quiet acct { fx with close := rest } where
  kept {id c} found _ := by
    have differs : id ≠ conn := by
      rintro rfl
      exact absent (HashMap.mem_of_lookup found)
    refine ⟨c, found, .refl rfl (fun _ => Iff.rfl) ?_⟩
    rcases doomed_or_spared fx id with ⟨sent, member⟩ | spared
    · rw [top, List.mem_cons, Prod.mk.injEq] at member
      rcases member with same | later
      · exact (differs same.1).elim
      · exact Or.inl ⟨sent, later⟩
    · exact Or.inr spared
  conns_new found := Or.inl (HashMap.mem_of_lookup found)
  joined_new absurdity := by cases absurdity
  left_gone absurdity := by cases absurdity
  online_eq principal := rfl
  ring_kept key _ := Account.ring_kept_of_eq rfl
  ring_published absurdity := by cases absurdity
  ring_subscribed absurdity := by cases absurdity
  wake_live id member := Or.inl member
  wake_nodup nodup := nodup
  close_known id := by
    rintro ⟨sent, member⟩
    exact Or.inl ⟨sent, by simp only [top]; exact List.mem_cons_of_mem _ member⟩

/-- The events of connections leaving, in this order. -/
def Departures (left : List (ConnId × Frame)) (events : List Event) : Prop :=
  List.Forall₂ (fun entry event =>
    ∃ principal role, event = .left entry.1 principal role) left events

omit [Codec] in
theorem Departures.of_mem {left : List (ConnId × Frame)}
    {events : List Event} (departures : Departures left events)
    {event : Event} (member : event ∈ events) :
    ∃ entry ∈ left, ∃ principal role,
      event = .left entry.1 principal role := by
  induction departures with
  | nil => simp at member
  | cons isLeft _ ih =>
      rcases List.mem_cons.mp member with rfl | later
      · exact ⟨_, List.mem_cons_self, isLeft⟩
      · obtain ⟨entry, entryMember, same⟩ := ih later
        exact ⟨entry, List.mem_cons_of_mem _ entryMember, same⟩

omit [Codec] in
theorem Departures.of_mem_left {left : List (ConnId × Frame)}
    {events : List Event} (departures : Departures left events)
    {entry : ConnId × Frame} (member : entry ∈ left) :
    ∃ principal role, .left entry.1 principal role ∈ events := by
  induction departures with
  | nil => simp at member
  | cons isLeft _ ih =>
      rcases List.mem_cons.mp member with rfl | later
      · obtain ⟨principal, role, rfl⟩ := isLeft
        exact ⟨principal, role, List.mem_cons_self⟩
      · obtain ⟨principal, role, found⟩ := ih later
        exact ⟨principal, role, List.mem_cons_of_mem _ found⟩

/-- What closing the doomed connections comes to. -/
structure Finishes (account : AccountId) (hub : Hub) (fx : Effects)
    (left : List (ConnId × Frame)) (hub' : Hub) (fx' : Effects) : Prop where
  ok : hub'.Ok
  beside : hub.Beside account hub'
  nextConn_eq : hub'.nextConn = hub.nextConn
  nodup : (left.map (·.1)).Nodup
  known : ∀ entry ∈ left, hub.connAccount.lookup entry.1 = some account
  lookup_eq : ∀ id, hub'.connAccount.lookup id =
    if id ∈ left.map (·.1) then none else hub.connAccount.lookup id
  none_left : fx'.close = []
  ring?_eq : hub'.ring? account = hub.ring? account
  acts : ∃ events, Acts hub.limits (hub.record account) fx events
    (hub'.record account) fx' ∧ Departures left events

theorem finishLoop_spec (order : HashOrder) (ok : hub.Ok) {fx : Effects}
    {closed : List (ConnId × Frame)}
    (confined : ∀ id, Doomed fx id → ∀ other,
      hub.connAccount.lookup id = some other → other = account)
    (gone : ∀ entry ∈ closed, entry.1 ∉ hub.connAccount) {fuel : Nat}
    (enough : fx.close.length +
      HashMap.len hub.connAccount * HashMap.len hub.connAccount < fuel) :
    ∃ hub' fx' left,
      finishLoop order fuel hub fx closed = .ok (hub', fx', closed ++ left) ∧
      Finishes account hub fx left hub' fx' := by
  induction fuel generalizing hub fx closed with
  | zero => omega
  | succ fuel ih =>
      unfold finishLoop
      cases top : fx.close with
      | nil =>
          exact ⟨hub, fx, [], by simp, ok, .refl account hub, rfl, by simp,
            by simp, by simp, top, rfl, [], .done _ _, .nil⟩
      | cons entry rest =>
          obtain ⟨conn, frame⟩ := entry
          rw [top, List.length_cons] at enough
          simp only
          by_cases skip : (closed.any fun entry => entry.1 = conn) = true ∨
              conn ∉ hub.connAccount
          · rw [if_pos skip]
            have absent : conn ∉ hub.connAccount := by
              rcases skip with again | absent
              · obtain ⟨entry, member, same⟩ := List.any_eq_true.mp again
                have := gone entry member
                simpa [of_decide_eq_true same] using this
              · exact absent
            obtain ⟨hub', fx', left, ran, finishes⟩ :=
              ih ok (show ∀ id, Doomed { fx with close := rest } id → _ from
                  fun id ⟨sent, member⟩ => confined id
                    ⟨sent, by rw [top]; exact List.mem_cons_of_mem _ member⟩)
                gone (by simp only; omega)
            obtain ⟨events, acts, departures⟩ := finishes.acts
            refine ⟨hub', fx', left, ran, { finishes with
              acts := ⟨events, ?_, departures⟩ }⟩
            have dead : conn ∉ (hub.record account).conns := by
              rw [ok.mem_record_iff]
              intro known
              exact absent (HashMap.mem_of_lookup known)
            exact (Acts.single_quiet (act_pop top dead)).trans acts
          · rw [if_neg skip]
            push Not at skip
            obtain ⟨_, present⟩ := skip
            obtain ⟨other, otherKnown⟩ := HashMap.exists_lookup_of_mem present
            obtain rfl : other = account :=
              confined conn ⟨frame, by simp [top]⟩ other otherKnown
            have doomedIff (id : ConnId) (differs : id ≠ conn) :
                Doomed { fx with close := rest } id ↔ Doomed fx id := by
              simp [Doomed, top, differs]
            obtain ⟨hub₁, fx₁, principal, role, ran₁, forgets, acts₁, _,
              grown⟩ :=
              forget_spec order ok otherKnown
                (show ({ fx with close := rest } : Effects).wake = fx.wake
                  from rfl) doomedIff
            have stillKnown {id : ConnId} {other : AccountId}
                (found : hub₁.connAccount.lookup id = some other) :
                id ≠ conn ∧ hub.connAccount.lookup id = some other := by
              rw [forgets.connAccount_eq, HashMap.lookup_erase_eq] at found
              split at found
              · cases found
              · rename_i differs
                exact ⟨differs, found⟩
            have confined₁ (id : ConnId) (doomed : Doomed fx₁ id)
                (other' : AccountId)
                (found : hub.connAccount.lookup id = some other') :
                other' = other := by
              rcases (acts₁.doomed_known (by simp) id).2 doomed with
                old | member
              · exact confined id old other' found
              · rw [ok.mem_record_iff, found] at member
                exact Option.some.inj member
            have fewer : HashMap.len hub₁.connAccount + 1 =
                HashMap.len hub.connAccount := by
              rw [forgets.connAccount_eq]
              exact HashMap.len_erase_of_mem present
            have square : HashMap.len hub.connAccount *
                HashMap.len hub.connAccount =
                  HashMap.len hub₁.connAccount *
                    HashMap.len hub₁.connAccount +
                    2 * HashMap.len hub₁.connAccount + 1 := by
              rw [← fewer, Nat.add_mul, Nat.mul_add]
              omega
            obtain ⟨hub', fx', left, ran, finishes⟩ :=
              ih forgets.ok (fun id doomed other found =>
                  confined₁ id doomed other (stillKnown found).2)
                (show ∀ entry ∈ closed ++ [(conn, frame)], _ by
                  intro entry member known
                  obtain ⟨_, found⟩ := HashMap.exists_lookup_of_mem known
                  rcases List.mem_append.mp member with old | new
                  · exact gone entry old
                      (HashMap.mem_of_lookup (stillKnown found).2)
                  · rw [List.mem_singleton.mp new] at found
                    exact (stillKnown found).1 rfl)
                (by simp only at grown; omega)
            obtain ⟨events, acts, departures⟩ := finishes.acts
            refine ⟨hub', fx', (conn, frame) :: left, ?_, finishes.ok,
              forgets.beside.trans finishes.beside,
              finishes.nextConn_eq.trans forgets.nextConn_eq, ?_, ?_, ?_,
              finishes.none_left, finishes.ring?_eq.trans forgets.ring?_eq,
              _ :: events, ?_,
              .cons ⟨principal, role, rfl⟩ departures⟩
            · simpa [ran₁] using ran
            · refine List.nodup_cons.mpr ⟨?_, finishes.nodup⟩
              intro member
              obtain ⟨entry, entryMember, same⟩ := List.mem_map.mp member
              exact (stillKnown (finishes.known entry entryMember)).1 same
            · intro entry member
              rcases List.mem_cons.mp member with rfl | later
              · exact otherKnown
              · exact (stillKnown (finishes.known entry later)).2
            · intro id
              rw [finishes.lookup_eq, forgets.connAccount_eq,
                HashMap.lookup_erase_eq]
              simp only [List.map_cons, List.mem_cons]
              by_cases same : id = conn
              · rw [if_pos same, if_pos (Or.inl same), ite_self]
              · rw [if_neg same]
                by_cases later : id ∈ left.map (·.1)
                · rw [if_pos later, if_pos (Or.inr later)]
                · rw [if_neg later, if_neg (not_or.mpr ⟨same, later⟩)]
            · have later := acts₁.trans (forgets.beside.limits_eq ▸ acts)
              exact later

theorem finish_spec (order : HashOrder) (ok : hub.Ok) {fx : Effects}
    (confined : ∀ id, Doomed fx id → ∀ other,
      hub.connAccount.lookup id = some other → other = account) :
    ∃ hub' fx' left,
      hub.finish order fx = .ok (hub', actionsOf fx'.wake left) ∧
      Finishes account hub fx left hub' fx' := by
  obtain ⟨hub', fx', left, ran, finishes⟩ :=
    finishLoop_spec order ok confined
      (show ∀ entry ∈ ([] : List (ConnId × Frame)), _ by simp)
      (Nat.lt_succ_self _)
  refine ⟨hub', fx', left, ?_, finishes⟩
  simp [finish, ran]

/-- A call up to its end: its own events lead to a middle state, and then the
doomed connections leave one after another. -/
structure Settles (account : AccountId) (hub : Hub) (head : List Event)
    (mid : Account) (fx : Effects) (left : List (ConnId × Frame))
    (hub' : Hub) (wake : List ConnId) : Prop where
  ok : hub'.Ok
  beside : hub.Beside account hub'
  head_acts : Acts hub.limits (hub.record account) {} head mid fx
  tail_acts : ∃ events fx', Acts hub.limits mid fx events
    (hub'.record account) fx' ∧ Departures left events ∧ fx'.close = [] ∧
      fx'.wake = wake
  ring?_eq : hub'.ring? account = mid.ring?
  nodup : (left.map (·.1)).Nodup
  left_known : ∀ entry ∈ left, entry.1 ∈ mid.conns
  left_gone : ∀ entry ∈ left, entry.1 ∉ hub'.connAccount

theorem Ok.known_other {hub₁ : Hub} (ok : hub.Ok) (ok₁ : hub₁.Ok)
    (beside : hub.Beside account hub₁) {id : ConnId} {other : AccountId}
    (differs : other ≠ account) :
    hub₁.connAccount.lookup id = some other ↔
      hub.connAccount.lookup id = some other := by
  rw [ok₁.known_iff, ok.known_iff, beside.others other differs]

theorem finish_settles (order : HashOrder) {hub₁ : Hub} {fx : Effects}
    {head : List Event} (ok : hub.Ok) (ok₁ : hub₁.Ok)
    (beside : hub.Beside account hub₁)
    (acts : Acts hub.limits (hub.record account) {} head
      (hub₁.record account) fx)
    (newcomers : ∀ id c role, .joined id c role ∈ head → id = hub.nextConn) :
    ∃ hub' left wake,
      hub₁.finish order fx = .ok (hub', actionsOf wake left) ∧
      Settles account hub head (hub₁.record account) fx left hub' wake ∧
      hub'.nextConn = hub₁.nextConn := by
  have start : Acts.Confined (fun id => ∀ other,
      hub₁.connAccount.lookup id = some other → other = account)
      (hub.record account) {} := by
    refine ⟨fun id member other known => ?_, fun id doomed => ?_,
      fun id member => ?_⟩
    · by_contra differs
      rw [ok.known_other ok₁ beside differs,
        (ok.mem_record_iff account id).mp member] at known
      exact differs (Option.some.inj known).symm
    · simp [Doomed] at doomed
    · simp at member
  have confined := (acts.confined start
    (fun id c role member other known => by
      by_contra differs
      rw [ok.known_other ok₁ beside differs] at known
      have := ok.fresh id (HashMap.mem_of_lookup known)
      rw [newcomers id c role member] at this
      exact Nat.lt_irrefl _ this)).doomed
  obtain ⟨hub', fx', left, ran, finishes⟩ :=
    finish_spec order ok₁ confined
  obtain ⟨events, tail, departures⟩ := finishes.acts
  rw [beside.limits_eq] at tail
  refine ⟨hub', left, fx'.wake, ran, ⟨finishes.ok,
    beside.trans finishes.beside, acts, ⟨events, fx', tail, departures,
      finishes.none_left, rfl⟩, finishes.ring?_eq, finishes.nodup, ?_, ?_⟩,
    finishes.nextConn_eq⟩
  · intro entry member
    rw [ok₁.mem_record_iff]
    exact finishes.known entry member
  · intro entry member
    rw [← AList.lookup_eq_none, finishes.lookup_eq]
    exact if_pos (List.mem_map.mpr ⟨entry, member, rfl⟩)

/-- Working on one account's record, without anybody joining or leaving, keeps
the invariant. -/
theorem Ok.moves {fx fx' : Effects} {events : List Event} {acct' : Account}
    (ok : hub.Ok) (found : hub.accounts.lookup account = some acct)
    (inhabited : (∃ id, id ∈ acct.conns) ∨ ∃ key, key ∈ acct'.streams)
    (moves : Moves account hub acct fx events hub' acct' fx')
    (noJoin : ∀ id c role, .joined id c role ∉ events)
    (noLeave : ∀ id principal role, .left id principal role ∉ events) :
    hub'.Ok := by
  have same := moves.acts.mem_conns_iff noJoin noLeave
  refine ok.update moves.within.beside ?_ ?_ ?_ ?_
  · intro other otherFound
    rw [moves.within.record] at otherFound
    cases otherFound
    refine ⟨moves.ok, moves.tidy, ?_⟩
    rcases inhabited with ⟨id, member⟩ | streams
    · exact Or.inl ⟨id, (same id).mpr member⟩
    · exact Or.inr streams
  · intro id
    rw [record_of_lookup moves.within.record, same,
      moves.within.connAccount_eq, ← ok.mem_record_iff,
      record_of_lookup found]
  · intro id other _
    rw [moves.within.connAccount_eq]
  · rw [moves.within.connAccount_eq, moves.within.nextConn_eq]
    exact ok.fresh

end Hub

end WindowMlHub
