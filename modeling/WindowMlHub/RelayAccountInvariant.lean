import WindowMlHub.RelayQueueSemantics
import WindowMlHub.RelayHub

/-!
# The invariant of one account

Five tables of an account repeat each other: a connection is the online entry of
its principal, its subscriptions are the subscriber sets of the streams, and the
byte counter of the rings is the sum over them.  `Account.Ok` says that they
agree, at every moment of a call; `Account.Tidy` says besides that no stream is
left without a ring and without a subscriber, which holds whenever a call is not
half done.
-/

namespace WindowMlHub

open CheckedEvaluation HashTables

/-- The bytes a stream's ring retains. -/
def Stream.ringBytes (stream : Stream) : Nat :=
  (stream.ring.map fun ring => ring.bytes).getD 0

namespace Account

/-- The ring of a stream, when there is one. -/
def ring? (acct : Account) (key : StreamKey) : Option Ring :=
  (acct.streams.lookup key).bind fun stream => stream.ring

/-- Nobody subscribes to a stream. -/
def Unheard (acct : Account) (key : StreamKey) : Prop :=
  ∀ id c, acct.conns.lookup id = some c → key ∉ c.subs

/-- The tables of an account agree with each other. -/
structure Ok [Codec] (limits : Limits) (acct : Account) : Prop where
  online_of_conn : ∀ {id c}, acct.conns.lookup id = some c →
    ∃ role, acct.online.lookup c.principal = some (id, role)
  conn_of_online : ∀ {principal id role},
    acct.online.lookup principal = some (id, role) →
      ∃ c, acct.conns.lookup id = some c ∧ c.principal = principal
  subs_iff : ∀ {id c}, acct.conns.lookup id = some c → ∀ key,
    key ∈ c.subs ↔
      ∃ stream, acct.streams.lookup key = some stream ∧
        id ∈ stream.subscribers
  subscriber_known : ∀ {key stream}, acct.streams.lookup key = some stream →
    ∀ id ∈ stream.subscribers, id ∈ acct.conns
  key_eq : ∀ {key stream}, acct.streams.lookup key = some stream →
    stream.key = key
  queue_ok : ∀ {id c}, acct.conns.lookup id = some c → c.out.Ok
  ring_ok : ∀ {key ring}, acct.ring? key = some ring → ring.Ok limits
  ringBytes_eq : acct.ringBytes = HashMap.total Stream.ringBytes acct.streams

/-- Every stream but those exempt has a ring or a subscriber. -/
def TidyBut (acct : Account) (exempt : StreamKey → Prop) : Prop :=
  ∀ key stream, acct.streams.lookup key = some stream → ¬ exempt key →
    stream.ring ≠ none ∨ ∃ id, id ∈ stream.subscribers

/-- Every stream has a ring or a subscriber. -/
def Tidy (acct : Account) : Prop :=
  ∀ key stream, acct.streams.lookup key = some stream →
    stream.ring ≠ none ∨ ∃ id, id ∈ stream.subscribers

variable [Codec] {limits : Limits} {acct : Account}

theorem ok_empty : ({} : Account).Ok limits where
  online_of_conn found := by simp at found
  conn_of_online found := by simp at found
  subs_iff found := by simp at found
  subscriber_known found := by simp at found
  key_eq found := by simp at found
  queue_ok found := by simp at found
  ring_ok found := by simp [ring?] at found
  ringBytes_eq := rfl

omit [Codec] in
theorem tidy_empty : ({} : Account).Tidy := by
  intro key stream found
  simp at found

omit [Codec] in
theorem ring?_of_lookup {key : StreamKey} {stream : Stream}
    (found : acct.streams.lookup key = some stream) :
    acct.ring? key = stream.ring := by
  simp [ring?, found]

theorem Ok.unheard (ok : acct.Ok limits) {key : StreamKey}
    (empty : ∀ stream, acct.streams.lookup key = some stream →
      ∀ id, id ∉ stream.subscribers) :
    acct.Unheard key := by
  intro id c found member
  obtain ⟨stream, streamFound, subscribed⟩ :=
    (ok.subs_iff found key).mp member
  exact empty stream streamFound id subscribed

/-- Changing only queues and flags of connections keeps the invariant. -/
theorem Ok.with_conns (ok : acct.Ok limits)
    {conns : HashMap ConnId Conn}
    (same : ∀ id, (conns.lookup id).map (fun c => (c.principal, c.subs)) =
      (acct.conns.lookup id).map (fun c => (c.principal, c.subs)))
    (queues : ∀ {id c}, conns.lookup id = some c → c.out.Ok) :
    ({ acct with conns } : Account).Ok limits := by
  have back {id : ConnId} {c : Conn} (found : conns.lookup id = some c) :
      ∃ old, acct.conns.lookup id = some old ∧
        old.principal = c.principal ∧ old.subs = c.subs := by
    have mapped := same id
    rw [found] at mapped
    obtain ⟨old, oldFound, equal⟩ := Option.map_eq_some_iff.mp mapped.symm
    simp only [Prod.mk.injEq] at equal
    exact ⟨old, oldFound, equal⟩
  have forth {id : ConnId} {old : Conn}
      (found : acct.conns.lookup id = some old) :
      ∃ c, conns.lookup id = some c ∧ c.principal = old.principal := by
    have mapped := same id
    rw [found] at mapped
    obtain ⟨c, cFound, equal⟩ := Option.map_eq_some_iff.mp mapped
    simp only [Prod.mk.injEq] at equal
    exact ⟨c, cFound, equal.1⟩
  constructor
  · intro id c found
    obtain ⟨old, oldFound, principal, _⟩ := back found
    obtain ⟨role, online⟩ := ok.online_of_conn oldFound
    exact ⟨role, principal ▸ online⟩
  · intro principal id role found
    obtain ⟨old, oldFound, oldPrincipal⟩ := ok.conn_of_online found
    obtain ⟨c, cFound, cPrincipal⟩ := forth oldFound
    exact ⟨c, cFound, cPrincipal.trans oldPrincipal⟩
  · intro id c found key
    obtain ⟨old, oldFound, _, subs⟩ := back found
    rw [← subs]
    exact ok.subs_iff oldFound key
  · intro key stream found id subscribed
    obtain ⟨old, oldFound⟩ := HashMap.exists_lookup_of_mem
      (ok.subscriber_known found id subscribed)
    obtain ⟨c, cFound, _⟩ := forth oldFound
    exact HashMap.mem_of_lookup cFound
  · exact ok.key_eq
  · exact queues
  · exact ok.ring_ok
  · exact ok.ringBytes_eq

end Account

end WindowMlHub
