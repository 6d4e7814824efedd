import WindowMlHub.RelayEpoch
import WindowMlHub.RelayOffers

/-!
# Streams and their rings

Making room for a stream, publishing into its ring, and keeping an account's
rings within their budget.  A stream is only ever evicted while nobody
subscribes to it, and a ring otherwise only loses its oldest entries.
-/

namespace WindowMlHub

open CheckedEvaluation HashTables

namespace Account

variable [Codec] {limits : Limits} {acct acct' acct'' : Account}
  {key : StreamKey} {stream : Stream} {ring : Ring}

/-- A connection is in a stream's subscriber set. -/
def Hears (streams : HashMap StreamKey Stream) (key : StreamKey)
    (id : ConnId) : Prop :=
  ∃ stream, streams.lookup key = some stream ∧ id ∈ stream.subscribers

/-- Changing streams without touching who hears them keeps the invariant. -/
theorem Ok.with_streams (ok : acct.Ok limits)
    {streams : HashMap StreamKey Stream} {ringBytes : Nat}
    (hears : ∀ key id, Hears streams key id ↔ Hears acct.streams key id)
    (keys : ∀ {key stream}, streams.lookup key = some stream →
      stream.key = key)
    (rings : ∀ {key stream ring}, streams.lookup key = some stream →
      stream.ring = some ring → ring.Ok limits)
    (bytes : ringBytes = HashMap.total Stream.ringBytes streams) :
    ({ acct with streams, ringBytes } : Account).Ok limits := by
  refine ⟨ok.online_of_conn, ok.conn_of_online, ?_, ?_, keys, ok.queue_ok,
    ?_, bytes⟩
  · intro id c found key
    exact (ok.subs_iff found key).trans (hears key id).symm
  · intro key stream found id subscribed
    obtain ⟨old, oldFound, oldSubscribed⟩ :=
      (hears key id).mp ⟨stream, found, subscribed⟩
    exact ok.subscriber_known oldFound id oldSubscribed
  · intro key ring found
    obtain ⟨stream, streamFound, ringFound⟩ := Option.bind_eq_some_iff.mp found
    exact rings streamFound ringFound

theorem Ok.ring_ok_of_lookup (ok : acct.Ok limits)
    (found : acct.streams.lookup key = some stream)
    (ringFound : stream.ring = some ring) : ring.Ok limits :=
  ok.ring_ok ((ring?_of_lookup found).trans ringFound)

/-! ## The ring budget -/

/-- Some rings have given up their oldest entries, and nothing else changed. -/
structure Trims (acct acct' : Account) : Prop where
  conns_eq : acct'.conns = acct.conns
  online_eq : acct'.online = acct.online
  rate_eq : acct'.rate = acct.rate
  streams : ∀ key,
    (acct.streams.lookup key = none ∧ acct'.streams.lookup key = none) ∨
      ∃ stream stream', acct.streams.lookup key = some stream ∧
        acct'.streams.lookup key = some stream' ∧
        stream'.subscribers = stream.subscribers ∧
        (stream.ring = none ∧ stream'.ring = none ∨
          ∃ ring ring', stream.ring = some ring ∧
            stream'.ring = some ring' ∧ ring.Trimmed ring')

omit [Codec] in
theorem Trims.refl (acct : Account) : acct.Trims acct := by
  refine ⟨rfl, rfl, rfl, fun key => ?_⟩
  cases found : acct.streams.lookup key with
  | none => exact Or.inl ⟨rfl, rfl⟩
  | some stream =>
      refine Or.inr ⟨stream, stream, rfl, rfl, rfl, ?_⟩
      cases ringFound : stream.ring with
      | none => exact Or.inl ⟨rfl, rfl⟩
      | some ring => exact Or.inr ⟨ring, ring, rfl, rfl, .refl ring⟩

omit [Codec] in
theorem Trims.trans (first : acct.Trims acct') (second : acct'.Trims acct'') :
    acct.Trims acct'' := by
  refine ⟨second.conns_eq.trans first.conns_eq,
    second.online_eq.trans first.online_eq,
    second.rate_eq.trans first.rate_eq, fun key => ?_⟩
  rcases first.streams key with ⟨absent, absent'⟩ |
      ⟨stream, stream', found, found', subscribers, rings⟩
  · rcases second.streams key with ⟨_, absent''⟩ | ⟨_, _, found', _⟩
    · exact Or.inl ⟨absent, absent''⟩
    · simp [absent'] at found'
  · rcases second.streams key with ⟨absent', _⟩ |
      ⟨middle, stream'', middleFound, found'', subscribers', rings'⟩
    · simp [found'] at absent'
    · obtain rfl : stream' = middle := by simpa [found'] using middleFound
      refine Or.inr ⟨stream, stream'', found, found'',
        subscribers'.trans subscribers, ?_⟩
      rcases rings with ⟨none, none'⟩ | ⟨ring, ring', some, some', trimmed⟩
      · rcases rings' with ⟨_, none''⟩ | ⟨_, _, some', _⟩
        · exact Or.inl ⟨none, none''⟩
        · simp [none'] at some'
      · rcases rings' with ⟨none', _⟩ | ⟨_, ring'', again, some'', trimmed'⟩
        · simp [some'] at none'
        · obtain rfl := Option.some.inj (some'.symm.trans again)
          exact Or.inr ⟨ring, ring'', some, some'', trimmed.trans trimmed'⟩

omit [Codec] in
theorem Trims.insert (found : acct.streams.lookup key = some stream)
    (ringFound : stream.ring = some ring) {ring' : Ring}
    (trimmed : ring.Trimmed ring') (ringBytes : Nat) :
    acct.Trims { acct with
      ringBytes
      streams := acct.streams.insert key
        { stream with ring := some ring' } } := by
  refine ⟨rfl, rfl, rfl, fun other => ?_⟩
  simp only [HashMap.lookup_insert_eq]
  by_cases same : other = key
  · subst same
    exact Or.inr ⟨stream, _, found, if_pos rfl, rfl,
      Or.inr ⟨ring, ring', ringFound, rfl, trimmed⟩⟩
  · simpa [same] using (Trims.refl acct).streams other

omit [Codec] in
theorem Trims.ring_kept (trims : acct.Trims acct') (key : StreamKey) :
    (acct'.ring? key = none ∧ acct.ring? key = none) ∨
      ∃ ring ring', acct.ring? key = some ring ∧
        acct'.ring? key = some ring' ∧ ring.Trimmed ring' := by
  rcases trims.streams key with ⟨absent, absent'⟩ |
      ⟨stream, stream', found, found', _, rings⟩
  · exact Or.inl ⟨by simp [ring?, absent'], by simp [ring?, absent]⟩
  · rw [ring?_of_lookup found, ring?_of_lookup found']
    rcases rings with ⟨none, none'⟩ | trimmed
    · exact Or.inl ⟨none', none⟩
    · exact Or.inr trimmed

omit [Codec] in
theorem Trims.tidy (trims : acct.Trims acct') (tidy : acct.Tidy) :
    acct'.Tidy := by
  intro key stream' found'
  rcases trims.streams key with ⟨_, absent'⟩ |
      ⟨stream, again, found, foundAgain, subscribers, rings⟩
  · simp [found'] at absent'
  · obtain rfl : stream' = again := by simpa [found'] using foundAgain
    rcases tidy key stream found with hasRing | ⟨id, subscribed⟩
    · rcases rings with ⟨none, _⟩ | ⟨_, ring', _, some', _⟩
      · exact (hasRing none).elim
      · exact Or.inl (by simp [some'])
    · exact Or.inr ⟨id, by rw [subscribers]; exact subscribed⟩

omit [Codec] in
theorem mem_of_largestRing {order : HashOrder}
    (found : acct.largestRing order = some (key, stream, ring)) :
    acct.streams.lookup key = some stream ∧ stream.ring = some ring := by
  have member := mem_of_maxByKey found
  obtain ⟨entry, entryMember, mapped⟩ := List.mem_filterMap.mp member
  obtain ⟨_, ringFound, equal⟩ := Option.map_eq_some_iff.mp mapped
  simp only [Prod.mk.injEq] at equal
  obtain ⟨rfl, rfl, rfl⟩ := equal
  exact ⟨HashMap.lookup_of_mem_entries (order.streams.mem_list.mp entryMember),
    ringFound⟩

/-- Replacing one ring keeps the invariant when the byte counter follows. -/
theorem Ok.with_ring (ok : acct.Ok limits)
    (found : acct.streams.lookup key = some stream) (ringOk : ring.Ok limits)
    {ringBytes : Nat} (bytes : ringBytes + stream.ringBytes =
      acct.ringBytes + ring.bytes) :
    ({ acct with
      ringBytes
      streams := acct.streams.insert key { stream with ring := some ring } } :
        Account).Ok limits := by
  apply ok.with_streams
  · intro other id
    simp only [Hears, HashMap.lookup_insert_eq]
    by_cases same : other = key
    · subst same
      simp [found]
    · simp [same]
  · intro other changed otherFound
    rw [HashMap.lookup_insert_eq] at otherFound
    split at otherFound
    · rename_i same
      cases otherFound
      have unchanged := ok.key_eq found
      exact unchanged.trans same.symm
    · exact ok.key_eq otherFound
  · intro other changed otherRing otherFound ringFound
    rw [HashMap.lookup_insert_eq] at otherFound
    split at otherFound
    · cases otherFound
      cases ringFound
      exact ringOk
    · exact ok.ring_ok_of_lookup otherFound ringFound
  · have total := HashMap.total_insert_add Stream.ringBytes found
      { stream with ring := some ring }
    have after : ({ stream with ring := some ring } : Stream).ringBytes =
        ring.bytes := rfl
    rw [after, ← ok.ringBytes_eq] at total
    omega

/-- The budget loop ends, having only trimmed rings. -/
theorem enforceRingBudget_spec (order : HashOrder) (budget : Nat)
    (ok : acct.Ok limits) (fuel : Nat) (enough : acct.retained < fuel) :
    ∃ acct', acct.enforceRingBudget order budget fuel = .ok acct' ∧
      acct'.Ok limits ∧ acct.Trims acct' := by
  induction fuel generalizing acct with
  | zero => omega
  | succ fuel ih =>
      unfold enforceRingBudget
      by_cases exceeds : acct.ringBytes > budget
      · rw [if_pos exceeds]
        cases largest : acct.largestRing order with
        | none => exact ⟨acct, rfl, ok, .refl acct⟩
        | some found =>
            obtain ⟨key, stream, ring⟩ := found
            obtain ⟨streamFound, ringFound⟩ := mem_of_largestRing largest
            have ringOk := ok.ring_ok_of_lookup streamFound ringFound
            by_cases none : ring.entries = []
            · exact ⟨acct, if_pos none, ok, .refl acct⟩
            · obtain ⟨next, freed, evicted, nextSound, trimmed, tail,
                balance⟩ := Ring.evictOldest_spec ringOk.toSound
              have nextOk : next.Ok limits := by
                refine ⟨nextSound, ?_⟩
                rw [trimmed.kind_eq, tail, List.length_tail]
                have := ringOk.length_le_capacity
                omega
              have bytes : stream.ringBytes = ring.bytes := by
                simp [Stream.ringBytes, ringFound]
              have counted : ring.bytes ≤ acct.ringBytes := by
                rw [← bytes, ok.ringBytes_eq]
                exact HashMap.weight_le_total _ streamFound
              have stepOk := ok.with_ring streamFound nextOk
                (show acct.ringBytes - freed + stream.ringBytes =
                  acct.ringBytes + next.bytes by omega)
              have fewer : ({ acct with
                  ringBytes := acct.ringBytes - freed
                  streams := acct.streams.insert key
                    { stream with ring := some next } } :
                      Account).retained < fuel := by
                have total := HashMap.total_insert_add
                  (fun stream : Stream => (stream.ring.map
                    fun ring => ring.entries.length).getD 0) streamFound
                  { stream with ring := some next }
                have shorter : next.entries.length + 1 =
                    ring.entries.length := by
                  rw [tail, List.length_tail]
                  have := List.length_pos_iff.mpr none
                  omega
                simp only [ringFound, Option.map_some, Option.getD_some]
                  at total
                simp only [retained] at enough ⊢
                omega
              obtain ⟨final, ran, finalOk, trims⟩ := ih stepOk fewer
              refine ⟨final, ?_, finalOk,
                (Trims.insert streamFound ringFound trimmed _).trans trims⟩
              simp only [if_neg none, evicted, ok_bind,
                sub_of_le (show freed ≤ acct.ringBytes by omega)]
              exact ran
      · exact ⟨acct, if_neg exceeds, ok, .refl acct⟩

omit [Codec] in
theorem TidyBut.tidy {exempt : StreamKey → Prop}
    (tidy : acct.TidyBut exempt)
    (rest : ∀ key stream, exempt key →
      acct.streams.lookup key = some stream →
        stream.ring ≠ none ∨ ∃ id, id ∈ stream.subscribers) :
    acct.Tidy := by
  intro key stream found
  by_cases exempted : exempt key
  · exact rest key stream exempted found
  · exact tidy key stream found exempted

end Account

/-! ## Making room for a stream -/

/-- The account has the stream, may have one more, or has one that nobody subscribes to. -/
def Account.RoomFor (limits : Limits) (acct : Account) (key : StreamKey) : Prop :=
  key ∈ acct.streams ∨ HashMap.len acct.streams < limits.maxStreamsPerAccount ∨
    ∃ other stream, acct.streams.lookup other = some stream ∧
      HashMap.len stream.subscribers = 0

/-- There was room for the stream and it is there, its ring untouched, and nothing a
connection can see has changed. -/
structure Ensured [Codec] (account : AccountId) (key : StreamKey) (hub : Hub)
    (acct : Account) (fx : Effects) (hub' : Hub) (acct' : Account) :
    Prop where
  within : hub.Within account acct' hub'
  ok : acct'.Ok hub.limits
  tidy : acct'.TidyBut (· = key)
  acts : Acts hub.limits acct fx [] acct' fx
  conns_eq : acct'.conns = acct.conns
  stream : ∃ stream, acct'.streams.lookup key = some stream
  ring_eq : acct'.ring? key = acct.ring? key
  room : acct.RoomFor hub.limits key

section Ensuring

variable [Codec] {account : AccountId} {hub : Hub} {acct : Account}
  {key : StreamKey}

/-- Adding an empty stream after erasing one that nobody hears, or none. -/
theorem Ensured.create (ok : acct.Ok hub.limits) (tidy : acct.Tidy)
    (fx : Effects) (absent : key ∉ acct.streams) {streams : HashMap StreamKey Stream}
    {ringBytes : Nat}
    (kept : ∀ other, streams.lookup other = acct.streams.lookup other ∨
      streams.lookup other = none ∧
        ∀ stream, acct.streams.lookup other = some stream →
          ∀ id, id ∉ stream.subscribers)
    (bytes : ringBytes = HashMap.total Stream.ringBytes streams)
    (room : acct.RoomFor hub.limits key) :
    let acct' := { acct with
      ringBytes, streams := streams.insert key ⟨key, none, ∅⟩ }
    Ensured account key hub acct fx (hub.setAccount account acct') acct' := by
  have missing : acct.streams.lookup key = none :=
    AList.lookup_eq_none.mpr absent
  have gone : streams.lookup key = none := by
    rcases kept key with same | ⟨gone, _⟩
    · exact same.trans missing
    · exact gone
  have old {other : StreamKey} {stream : Stream}
      (found : streams.lookup other = some stream) :
      acct.streams.lookup other = some stream := by
    rcases kept other with same | ⟨gone, _⟩
    · exact same ▸ found
    · simp [gone] at found
  refine ⟨hub.within_setAccount account _, ?_, ?_, ?_, rfl, ?_, ?_, ?_⟩
  · apply ok.with_streams
    · intro other id
      simp only [Account.Hears, HashMap.lookup_insert_eq]
      by_cases same : other = key
      · subst same
        simp [missing]
      · rw [if_neg same]
        rcases kept other with same | ⟨gone, unheard⟩
        · rw [same]
        · simp only [gone, reduceCtorEq, false_and, exists_false, false_iff]
          rintro ⟨stream, found, subscribed⟩
          exact unheard stream found id subscribed
    · intro other stream found
      rw [HashMap.lookup_insert_eq] at found
      split at found
      · rename_i same
        cases found
        exact same.symm
      · exact ok.key_eq (old found)
    · intro other stream ring found ringFound
      rw [HashMap.lookup_insert_eq] at found
      split at found
      · cases found
        cases ringFound
      · exact ok.ring_ok_of_lookup (old found) ringFound
    · rw [bytes, HashMap.total_insert, HashMap.total_erase_of_notMem _
        (AList.lookup_eq_none.mp gone)]
      simp [Stream.ringBytes]
  · intro other stream found differs
    simp only [HashMap.lookup_insert_eq, if_neg differs] at found
    exact tidy other stream (old found)
  · apply Acts.single_quiet
    refine act_quiet rfl rfl fun other => ?_
    by_cases same : other = key
    · subst same
      exact Account.ring_kept_of_eq (by simp [Account.ring?, missing])
    · rcases kept other with unchanged | ⟨gone, unheard⟩
      · apply Account.ring_kept_of_eq
        simp [Account.ring?, same, unchanged]
      · refine Or.inl ⟨?_, Or.inr (ok.unheard unheard)⟩
        simp [Account.ring?, same, gone]
  · exact ⟨⟨key, none, ∅⟩, by simp⟩
  · simp [Account.ring?, missing]
  · exact room

/-- What the account goes through once the stream is there. -/
theorem Ensured.moves {hub' hub'' : Hub} {acct' acct'' : Account} {fx fx' : Effects}
    {events : List Event} (ensured : Ensured account key hub acct fx hub' acct')
    (moves : Moves account hub' acct' fx events hub'' acct'' fx') :
    Moves account hub acct fx events hub'' acct'' fx' :=
  ⟨ensured.within.trans moves.within, ensured.within.limits_eq ▸ moves.ok, moves.tidy,
    ensured.acts.trans (ensured.within.limits_eq ▸ moves.acts)⟩

/-- Making room never panics, and fails only without changing anything. -/
theorem Hub.ensureStream_spec (order : HashOrder)
    (record : hub.accounts.lookup account = some acct)
    (ok : acct.Ok hub.limits) (tidy : acct.Tidy) (key : StreamKey)
    (fx : Effects) :
    hub.ensureStream order account key = .ok (hub, false) ∨
      ∃ hub' acct', hub.ensureStream order account key = .ok (hub', true) ∧
        Ensured account key hub acct fx hub' acct' := by
  unfold ensureStream
  simp only [record, expect_some, ok_bind]
  by_cases present : key ∈ acct.streams
  · right
    refine ⟨hub, acct, by simp [present], .refl record, ok, ?_, .done acct fx,
      rfl, HashMap.exists_lookup_of_mem present, rfl, .inl present⟩
    intro other stream found _
    exact tidy other stream found
  · rw [if_neg present]
    by_cases full :
        HashMap.len acct.streams ≥ hub.limits.maxStreamsPerAccount
    · rw [if_pos full]
      cases idle : minByKey _ _ with
      | none => exact Or.inl rfl
      | some victim =>
          right
          have member := mem_of_minByKey idle
          simp only [List.mem_filter, Walk.mem_list, decide_eq_true_eq]
            at member
          obtain ⟨victimMember, silent⟩ := member
          have found : acct.streams.lookup victim.1 = some victim.2 :=
            HashMap.lookup_of_mem_entries victimMember
          have total := HashMap.total_erase_add Stream.ringBytes found
          rw [← ok.ringBytes_eq] at total
          have freed : (victim.2.ring.map fun ring => ring.bytes).getD 0 =
              victim.2.ringBytes := rfl
          simp only [freed, sub_of_le
            (show victim.2.ringBytes ≤ acct.ringBytes by omega), ok_bind]
          refine ⟨_, _, rfl, Ensured.create ok tidy fx present ?_ ?_
            (.inr (.inr ⟨victim.1, victim.2, found, silent⟩))⟩
          · intro other
            rw [HashMap.lookup_erase_eq]
            by_cases same : other = victim.1
            · refine Or.inr ⟨if_pos same, ?_⟩
              intro stream streamFound id subscribed
              rw [same, found] at streamFound
              cases streamFound
              rw [HashMap.len_eq_zero_iff.mp silent] at subscribed
              exact AList.notMem_empty id subscribed
            · exact Or.inl (if_neg same)
          · omega
    · rw [if_neg full]
      right
      exact ⟨_, _, rfl, Ensured.create ok tidy fx present
        (fun other => Or.inl rfl) ok.ringBytes_eq (.inr (.inl (not_le.mp full)))⟩

end Ensuring

/-! ## Publishing -/

section Publishing

variable [Codec] {account : AccountId} {hub : Hub} {acct : Account}
  {key : StreamKey} {stream : Stream} {kind : Kind} {env : Envelope}
  {fx fx' : Effects} {ring next : Ring} {conns' : HashMap ConnId Conn}

/-- Offering a stamped entry to the subscribers of its stream, with the ring
that stamped it put back and some rings trimmed. -/
theorem act_published {limits : Limits} {order : HashOrder} {acct' : Account}
    {ringBytes : Nat} (ok : acct.Ok limits)
    (found : acct.streams.lookup key = some stream)
    (origin : stream.ring = some ring ∨ stream.ring = none ∧ ring.Fresh)
    (advanced : ring.Advanced env next)
    (offered : Offered (fun c => pushEntry limits key ring.kind ring.epoch
        (ring.stamp env) c.out)
      (order.subscribers.list stream.subscribers.keys) acct.conns fx
      conns' fx')
    (trims : ({ acct with
        conns := conns'
        ringBytes
        streams := acct.streams.insert key
          { stream with ring := some next } } : Account).Trims acct') :
    Act limits acct fx (.published key ring env) acct' fx' := by
  have conns := trims.conns_eq
  have ringBefore : acct.ring? key = stream.ring :=
    Account.ring?_of_lookup found
  constructor
  · intro id c connFound _
    rw [conns]
    refine offered.kept _
      (.published key ring.kind ring.epoch (ring.stamp env)) connFound
      (fun _ _ => Iff.rfl) ?_ rfl ?_
    · have listens : key ∈ c.subs ↔
          id ∈ order.subscribers.list stream.subscribers.keys := by
        rw [ok.subs_iff connFound, Walk.mem_list, ← AList.mem_keys]
        simp [found]
      by_cases member : key ∈ c.subs
      · simp only [Event.ops, if_pos member, if_pos (listens.mp member)]
      · simp only [Event.ops, if_neg member, if_neg (mt listens.mpr member)]
    · intro accepted
      apply Perform.published
      rw [(pushEntry_eq limits key ring.kind ring.epoch (ring.stamp env)
        (ok.queue_ok connFound)).1]
      exact congrArg Except.ok (Prod.ext rfl accepted)
  · intro id c connFound
    rw [conns] at connFound
    exact Or.inl ((offered.mem_iff id).mp (HashMap.mem_of_lookup connFound))
  · intro id c role absurdity
    cases absurdity
  · intro id principal role absurdity
    cases absurdity
  · intro principal
    rw [trims.online_eq]
    rfl
  · intro other different
    have differs : other ≠ key := by
      rintro rfl
      exact different ring env rfl
    have before : Account.ring? { acct with
        conns := conns'
        ringBytes
        streams := acct.streams.insert key
          { stream with ring := some next } } other = acct.ring? other := by
      simp [Account.ring?, differs]
    rcases trims.ring_kept other with ⟨none', none⟩ | trimmed
    · exact Or.inl ⟨none', Or.inl (before ▸ none)⟩
    · rw [before] at trimmed
      exact Or.inr trimmed
  · intro otherKey otherRing otherEnv same
    cases same
    refine ⟨ringBefore ▸ origin, ?_⟩
    rcases trims.ring_kept key with ⟨_, none⟩ |
      ⟨middle, ring', middleFound, found', trimmed⟩
    · simp [Account.ring?] at none
    · obtain rfl : next = middle := by
        simpa [Account.ring?] using middleFound
      exact ⟨ring', found', trimmed.kind_eq.trans advanced.kind_eq,
        trimmed.epoch_eq.trans advanced.epoch_eq,
        trimmed.seq_eq.trans advanced.seq_eq,
        trimmed.entries_suffix.trans advanced.entries_suffix⟩
  · intro target otherKey since otherRing absurdity
    cases absurdity
  · rw [conns]
    exact offered.wake_live
  · exact offered.wake_nodup
  · exact offered.close_known

/-- Publishing into a stream that takes this kind never panics. -/
theorem Hub.publishInto_spec (order : HashOrder)
    (record : hub.accounts.lookup account = some acct)
    (ok : acct.Ok hub.limits) (tidy : acct.TidyBut (· = key))
    (found : acct.streams.lookup key = some stream)
    (sameKind : ∀ ring, stream.ring = some ring → ring.kind = kind)
    (epoch : Nat) (chosen : stream.ring = none → 0 < epoch ∧ epoch ≤ 2 ^ 53 - 1)
    (env : Envelope) (fx : Effects) :
    ∃ ring hub' acct' fx',
      hub.publishInto order account key kind epoch env fx = .ok (hub', fx') ∧
      Moves account hub acct fx [.published key ring env] hub' acct' fx' ∧
      (stream.ring = some ring ∨ stream.ring = none ∧ ring.Fresh) ∧
      (∃ next, acct'.ring? key = some next ∧ ring.Advanced env next) ∧
      ring.kind = kind := by
  let ring := stream.ring.getD (.new kind epoch (hub.clock + 1))
  have origin : stream.ring = some ring ∨
      stream.ring = none ∧ ring.Fresh := by
    cases ringFound : stream.ring with
    | none => exact Or.inr ⟨rfl, by
        simpa [ring, ringFound] using
          (⟨(chosen ringFound).1, (chosen ringFound).2, rfl, rfl⟩ :
            (Ring.new kind epoch (hub.clock + 1)).Fresh)⟩
    | some old => exact Or.inl (by simp [ring, ringFound])
  have kindEq : ring.kind = kind := by
    cases ringFound : stream.ring with
    | none => simp [ring, ringFound, Ring.new]
    | some old => simpa [ring, ringFound] using sameKind old ringFound
  have ringOk : ring.Ok hub.limits := by
    cases ringFound : stream.ring with
    | none => simpa [ring, ringFound] using
        Ring.ok_new kind epoch (hub.clock + 1)
    | some old => simpa [ring, ringFound] using
        ok.ring_ok_of_lookup found ringFound
  have bytesEq : stream.ringBytes = ring.bytes := by
    cases ringFound : stream.ring with
    | none => simp [ring, ringFound, Stream.ringBytes, Ring.new]
    | some old => simp [ring, ringFound, Stream.ringBytes]
  obtain ⟨next, added, freed, published, nextOk, nextKind, nextEpoch,
    nextSeq, suffix, balance⟩ :=
    Ring.publish_spec ringOk env (hub.clock + 1)
  have counted : ring.bytes ≤ acct.ringBytes := by
    rw [← bytesEq, ok.ringBytes_eq]
    exact HashMap.weight_le_total _ found
  obtain ⟨conns', fx', fanned, offered⟩ := fanOut_spec hub.limits key
    ring.kind ring.epoch (ring.stamp env)
    (order.subscribers.nodup_list stream.subscribers.nodupKeys)
    acct.conns ok.queue_ok fx
  have publishedOk : ({ acct with
      conns := conns'
      ringBytes := acct.ringBytes + added - freed
      streams := acct.streams.insert key
        { stream with ring := some next } } : Account).Ok hub.limits :=
    Account.Ok.with_conns
      (ok.with_ring found nextOk
        (show acct.ringBytes + added - freed + stream.ringBytes =
          acct.ringBytes + next.bytes by omega))
      offered.same
      (offered.queues ok.queue_ok fun queueOk =>
        (pushEntry_eq hub.limits key ring.kind ring.epoch (ring.stamp env)
          queueOk).2)
  obtain ⟨acct', budgeted, ok', trims⟩ :=
    Account.enforceRingBudget_spec order hub.limits.accountRingBytes
      publishedOk _ (Nat.lt_succ_self _)
  have act := act_published ok found origin
    ⟨nextKind, nextEpoch, nextSeq, suffix⟩ offered trims
  refine ⟨ring, ({ hub with clock := hub.clock + 1 } : Hub).setAccount
    account acct', acct', fx', ?_, ⟨?_, ok', ?_, .single act⟩, origin,
    (act.ring_published rfl).2, kindEq⟩
  · rw [kindEq] at published fanned
    have keyEq := ok.key_eq found
    nth_rewrite 1 [← keyEq] at fanned
    unfold publishInto
    simp only [record, found, expect_some, ok_bind]
    change (ring.publish env (hub.limits.ringCapacity kind) (hub.clock + 1) >>=
      _) = _
    simp only [published, ok_bind,
      sub_of_le (show freed ≤ acct.ringBytes + added by omega),
      nextEpoch]
    change (fanOut hub.limits stream.key kind ring.epoch (ring.stamp env)
      (order.subscribers.list stream.subscribers.entries.keys) acct.conns fx >>=
        _) = _
    simp only [fanned, ok_bind, budgeted]
    rfl
  · exact ⟨rfl, rfl, rfl, fun other differs => by
        simp [setAccount, AList.lookup_insert_ne differs],
      by simp [setAccount]⟩
  · apply trims.tidy
    intro other changed otherFound
    simp only [HashMap.lookup_insert_eq] at otherFound
    split at otherFound
    · cases otherFound
      exact Or.inl (by simp)
    · rename_i differs
      exact tidy other changed otherFound differs

end Publishing

end WindowMlHub
