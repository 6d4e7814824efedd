import WindowMlHub.RelayRuns

/-!
# What happens to the records of the accounts

Most of what a call does leaves most of an account's record alone: a queue
grows, a connection is dropped, a stream loses a subscriber.  Whatever such small
changes keep of a record, delivering frames and closing connections keep of every
account; an account may be forgotten, and none appears.
-/

namespace WindowMlHub

open CheckedEvaluation HashTables

/-- A relation between earlier and later records of an account that holds
whatever happens to queues and whoever leaves. -/
structure Lasting (R : Account → Account → Prop) : Prop where
  refl : ∀ acct, R acct acct
  trans : ∀ {acct acct' acct''}, R acct acct' → R acct' acct'' → R acct acct''
  conn : ∀ {acct id c} (c' : Conn), acct.conns.lookup id = some c →
    HashMap.len c'.subs ≤ HashMap.len c.subs →
      R acct { acct with conns := acct.conns.insert id c' }
  streams : ∀ (acct) (streams), HashMap.len streams ≤ HashMap.len acct.streams →
    R acct { acct with streams }
  leave : ∀ (acct) (id) (online),
    R acct { acct with conns := acct.conns.erase id, online }

/-- Every account there is was there before, and its record is related to the
earlier one. -/
structure Hub.Follows (R : Account → Account → Prop) (hub hub' : Hub) :
    Prop where
  limits_eq : hub'.limits = hub.limits
  len_le : HashMap.len hub'.accounts ≤ HashMap.len hub.accounts
  record : ∀ {account acct'}, hub'.accounts.lookup account = some acct' →
    ∃ acct, hub.accounts.lookup account = some acct ∧ R acct acct'

theorem len_leaveStream (conn : ConnId) (streams : HashMap StreamKey Stream)
    (key : StreamKey) :
    HashMap.len (leaveStream conn streams key) ≤ HashMap.len streams := by
  unfold leaveStream
  split
  · exact Nat.le_refl _
  next stream found =>
    have member := HashMap.mem_of_lookup found
    simp only
    split
    · have := HashMap.len_erase_of_mem member
      omega
    · rw [HashMap.len_insert_of_mem member]

theorem len_foldl_leaveStream (conn : ConnId) (keys : List StreamKey)
    (streams : HashMap StreamKey Stream) :
    HashMap.len (keys.foldl (leaveStream conn) streams) ≤
      HashMap.len streams := by
  induction keys generalizing streams with
  | nil => exact Nat.le_refl _
  | cons key rest ih => exact (ih _).trans (len_leaveStream conn streams key)

namespace Hub

variable {R : Account → Account → Prop} {hub hub' hub'' : Hub}
  {account : AccountId} {acct acct' : Account}

theorem Follows.refl (lasting : Lasting R) (hub : Hub) : hub.Follows R hub :=
  ⟨rfl, Nat.le_refl _, fun found => ⟨_, found, lasting.refl _⟩⟩

theorem Follows.trans (lasting : Lasting R) (first : hub.Follows R hub')
    (second : hub'.Follows R hub'') : hub.Follows R hub'' := by
  refine ⟨second.limits_eq.trans first.limits_eq,
    second.len_le.trans first.len_le, fun found'' => ?_⟩
  obtain ⟨acct', found', later⟩ := second.record found''
  obtain ⟨acct, found, earlier⟩ := first.record found'
  exact ⟨acct, found, lasting.trans earlier later⟩

theorem follows_setAccount (lasting : Lasting R)
    (found : hub.accounts.lookup account = some acct) (same : R acct acct') :
    hub.Follows R (hub.setAccount account acct') := by
  refine ⟨rfl, ?_, fun {other record} recorded => ?_⟩
  · rw [setAccount, HashMap.len_insert_of_mem (HashMap.mem_of_lookup found)]
  · rw [setAccount, HashMap.lookup_insert_eq] at recorded
    split at recorded
    next isAccount =>
      cases recorded
      exact ⟨acct, isAccount ▸ found, same⟩
    next differs => exact ⟨record, recorded, lasting.refl _⟩

theorem follows_erase (lasting : Lasting R)
    (found : hub.accounts.lookup account = some acct) :
    hub.Follows R { hub with accounts := hub.accounts.erase account } := by
  refine ⟨rfl, ?_, fun {other record} recorded => ?_⟩
  · have := HashMap.len_erase_of_mem (HashMap.mem_of_lookup found)
    exact Nat.le_of_succ_le this.le
  · rw [HashMap.lookup_erase_eq] at recorded
    split at recorded
    · cases recorded
    · exact ⟨record, recorded, lasting.refl _⟩

theorem Follows.of_eq (lasting : Lasting R) (limits : hub'.limits = hub.limits)
    (same : hub'.accounts = hub.accounts) : hub.Follows R hub' :=
  ⟨limits, by rw [same], fun found => ⟨_, same ▸ found, lasting.refl _⟩⟩

variable [Codec]

omit [Codec] in
theorem subs_settle (c : Conn) (id : ConnId) (pushed : Outbound × Pushed)
    (fx : Effects) : (c.settle id pushed fx).1.subs = c.subs := by
  unfold Conn.settle
  split
  · unfold Conn.arm
    simp only
    split <;> rfl
  · rfl

theorem follows_enqueue (lasting : Lasting R) (hub : Hub)
    (account : AccountId) (conn : ConnId) (frame : Frame) (fx : Effects) :
    hub.Follows R (hub.enqueue account conn frame fx).1 := by
  unfold enqueue
  split
  · exact .refl lasting hub
  next acct found =>
    split
    · exact .refl lasting hub
    next c connFound =>
      exact follows_setAccount lasting found
        (lasting.conn _ connFound (by rw [subs_settle]))

theorem follows_of_enqueue (lasting : Lasting R) {conn : ConnId}
    {frame : Frame} {fx fx' : Effects}
    (ran : (.ok (hub.enqueue account conn frame fx) :
      Checked (Hub × Effects)) = .ok (hub', fx')) :
    hub.Follows R hub' := by
  have follows := follows_enqueue lasting hub account conn frame fx
  rwa [Except.ok.inj ran] at follows

theorem follows_enqueueAll (lasting : Lasting R) (account : AccountId)
    (frame : Frame) (others : List ConnId) (hub : Hub) (fx : Effects) :
    hub.Follows R (enqueueAll account frame others hub fx).1 := by
  induction others generalizing hub fx with
  | nil => exact .refl lasting hub
  | cons other rest ih =>
      exact (follows_enqueue lasting hub account other frame fx).trans lasting
        (ih _ _)

theorem follows_forget (lasting : Lasting R) (order : HashOrder) (hub : Hub)
    (conn : ConnId) (fx : Effects) :
    hub.Follows R (hub.forget order conn fx).1 := by
  unfold forget
  split
  · exact .refl lasting hub
  next account known =>
    let unlisted : Hub :=
      { hub with connAccount := hub.connAccount.erase conn }
    have unlisting : hub.Follows R unlisted := .of_eq lasting rfl rfl
    simp only
    split
    · exact unlisting
    next acct found =>
      split
      · exact unlisting
      next c connFound =>
        refine Follows.trans lasting ?_
          (follows_enqueueAll lasting _ _ _ _ _)
        split
        · exact unlisting.trans lasting (follows_erase lasting
            (show unlisted.accounts.lookup account = some acct from found))
        · refine unlisting.trans lasting (follows_setAccount lasting
            (show unlisted.accounts.lookup account = some acct from found) ?_)
          exact lasting.trans (lasting.streams acct _
            (len_foldl_leaveStream conn _ acct.streams))
            (lasting.leave _ conn _)

theorem follows_finishLoop (lasting : Lasting R) (order : HashOrder)
    {fuel : Nat} {fx fx' : Effects} {closed closed' : List (ConnId × Frame)}
    (ran : finishLoop order fuel hub fx closed = .ok (hub', fx', closed')) :
    hub.Follows R hub' := by
  induction fuel generalizing hub fx closed with
  | zero => cases ran
  | succ fuel ih =>
      unfold finishLoop at ran
      split at ran
      · cases ran
        exact .refl lasting _
      next conn frame rest _ =>
        simp only at ran
        split at ran
        · exact ih ran
        · exact (follows_forget lasting order _ conn _).trans lasting (ih ran)

theorem follows_finish (lasting : Lasting R) (order : HashOrder)
    {fx : Effects} {actions : List Action}
    (ran : hub.finish order fx = .ok (hub', actions)) :
    hub.Follows R hub' := by
  simp only [finish, bind_eq_ok] at ran
  obtain ⟨⟨middle, fx', closed⟩, loop, done⟩ := ran
  cases done
  exact follows_finishLoop lasting order loop

theorem follows_direct (lasting : Lasting R) {conn : ConnId} {target : Bytes}
    {env : Envelope} {fx fx' : Effects}
    (ran : hub.direct account conn target env fx = .ok (hub', fx')) :
    hub.Follows R hub' := by
  unfold direct at ran
  split at ran
  · exact follows_of_enqueue lasting ran
  · simp only [bind_eq_ok, expect_eq_ok] at ran
    obtain ⟨acct, found, c, connFound, ran⟩ := ran
    split at ran
    · cases ran
      exact follows_setAccount lasting found
        (lasting.conn _ connFound (by rw [subs_settle]))
    · refine Follows.trans lasting ?_ (follows_of_enqueue lasting ran)
      exact follows_setAccount lasting found
        (lasting.conn _ connFound (by rw [subs_settle]))

omit [Codec] in
theorem len_subs_erase {K : Type} [DecidableEq K] (set : HashSet K) (key : K) :
    HashMap.len (set.erase key) ≤ HashMap.len set := by
  by_cases member : key ∈ set
  · have := HashMap.len_erase_of_mem member
    omega
  · have same : (set.erase key).entries = set.entries :=
      List.kerase_of_notMem_keys member
    simp [HashMap.len, AList.keys, same]

theorem follows_unsubscribe (lasting : Lasting R) {conn : ConnId}
    {key : StreamKey} (ran : hub.unsubscribe account conn key = .ok hub') :
    hub.Follows R hub' := by
  unfold unsubscribe at ran
  split at ran
  · cases ran
    exact .refl lasting hub
  next acct found =>
    split at ran
    · cases ran
      exact follows_setAccount lasting found
        (lasting.streams acct _ (len_leaveStream conn acct.streams key))
    next c connFound =>
      simp only [bind_eq_ok] at ran
      obtain ⟨out, _, conns, inserted, done⟩ := ran
      cases inserted
      cases done
      refine follows_setAccount lasting found ?_
      exact lasting.trans (lasting.streams acct _
        (len_leaveStream conn acct.streams key))
        (lasting.conn _ connFound (len_subs_erase c.subs key))

/-- Fanning an entry out changes nothing but queues. -/
theorem lasting_fanOut (lasting : Lasting R) {limits : Limits}
    {key : StreamKey} {kind : Kind} {epoch : Nat} {entry : Entry}
    {ids : List ConnId} {conns' : HashMap ConnId Conn} {fx fx' : Effects}
    (acct : Account)
    (ran : fanOut limits key kind epoch entry ids acct.conns fx =
      .ok (conns', fx')) :
    R acct { acct with conns := conns' } := by
  induction ids generalizing acct fx with
  | nil =>
      cases ran
      exact lasting.refl acct
  | cons id rest ih =>
      unfold fanOut at ran
      split at ran
      · exact ih acct ran
      next c found =>
        simp only [bind_eq_ok] at ran
        obtain ⟨pushed, _, ran⟩ := ran
        have first := lasting.conn (c.settle id pushed fx).1 found
          (by rw [subs_settle])
        exact lasting.trans first (ih { acct with
          conns := acct.conns.insert id (c.settle id pushed fx).1 } ran)

end Hub

end WindowMlHub
