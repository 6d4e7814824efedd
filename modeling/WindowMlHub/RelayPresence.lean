import WindowMlHub.RelayProvenance

/-!
# Presence

A connection is told who is online when it is admitted, and then of every
arrival and departure.  Heeding the notices in the order in which they are handed
out, and then those still queued, gives the account's directory of the moment,
without the connection itself.
-/

namespace WindowMlHub

open CheckedEvaluation HashTables

/-- Who is online, with which role and which chain. -/
abbrev Directory := Bytes → Option (Int × List Certificate)

namespace Directory

/-- What a peer makes of a presence notice. -/
def heed (directory : Directory) (presence : Presence) : Directory :=
  fun principal =>
    if principal = presence.principal then
      if presence.online then some (presence.role, presence.chain) else none
    else
      directory principal

/-- The directory a peer makes of these frames. -/
def ofFrames (frames : List Frame) : Directory :=
  (frames.filterMap Frame.presence?).foldl heed fun _ => none

end Directory

/-- The directory of an account: the role of every principal online, and the
chain its connection presents. -/
def Account.directory (acct : Account) : Directory :=
  fun principal =>
    (acct.online.lookup principal).bind fun entry =>
      (acct.conns.lookup entry.1).map fun peer => (entry.2.toInt, peer.chain)

/-- A directory without one principal. -/
def Directory.without (directory : Directory) (self : Bytes) : Directory :=
  fun principal => if principal = self then none else directory principal

/-- Who is online has a connection with that principal. -/
def Account.Present (acct : Account) : Prop :=
  ∀ principal id role, acct.online.lookup principal = some (id, role) →
    ∃ c, acct.conns.lookup id = some c ∧ c.principal = principal

/-- The notice of an event, if it is an arrival or a departure. -/
def Event.notice? : Event → Option Presence
  | .joined _ conn role =>
      some ⟨conn.principal, role.toInt, true, conn.chain⟩
  | .left _ principal role => some ⟨principal, role.toInt, false, []⟩
  | _ => none

section Directories

variable [Codec] {limits : Limits} {acct acct' : Account} {fx fx' : Effects}
  {event : Event} {id : ConnId} {c c' : Conn}

theorem Act.same_conn (act : Act limits acct fx event acct' fx')
    (found : acct.conns.lookup id = some c)
    (stays : ∀ principal role, event ≠ .left id principal role) :
    ∃ c', acct'.conns.lookup id = some c' ∧ c'.principal = c.principal ∧
      c'.chain = c.chain := by
  obtain ⟨c', found', kept⟩ := act.kept found stays
  exact ⟨c', found', kept.principal_eq, kept.chain_eq⟩

/-- An entry that an event leaves alone says the same after it. -/
theorem Act.directory_kept (act : Act limits acct fx event acct' fx')
    (present : acct.Present) {principal : Bytes}
    (same : acct'.online.lookup principal = acct.online.lookup principal)
    (stays : ∀ id role, acct.online.lookup principal = some (id, role) →
      ∀ other role, event ≠ .left id other role) :
    acct'.directory principal = acct.directory principal ∧
      ∀ id role, acct'.online.lookup principal = some (id, role) →
        ∃ c, acct'.conns.lookup id = some c ∧ c.principal = principal := by
  rw [same]
  cases online : acct.online.lookup principal with
  | none => simp [Account.directory, same, online]
  | some entry =>
      obtain ⟨id, role⟩ := entry
      obtain ⟨c, found, principalEq⟩ := present principal id role online
      obtain ⟨c', found', principalEq', chainEq⟩ :=
        act.same_conn found (stays id role online)
      constructor
      · simp [Account.directory, same, online, found, found', chainEq]
      · intro otherId otherRole sameEntry
        cases sameEntry
        exact ⟨c', found', principalEq'.trans principalEq⟩

/-- The directory after an event is the directory before it, after heeding the
event's notice. -/
theorem Act.directory_eq (act : Act limits acct fx event acct' fx')
    (present : acct.Present) :
    acct'.Present ∧
      acct'.directory = event.notice?.toList.foldl Directory.heed
        acct.directory := by
  have online := act.online_eq
  have unaffected (noLeft : ∀ id principal role,
      event ≠ .left id principal role)
      (same : ∀ principal, acct'.online.lookup principal =
        acct.online.lookup principal) (noNotice : event.notice? = none) :
      acct'.Present ∧ acct'.directory =
        event.notice?.toList.foldl Directory.heed acct.directory := by
    have kept (principal : Bytes) := act.directory_kept present
      (same principal) (fun id _ _ other role => noLeft id other role)
    refine ⟨fun principal => (kept principal).2, ?_⟩
    rw [noNotice]
    exact funext fun principal => (kept principal).1
  cases event with
  | joined id conn role =>
      obtain ⟨_, mine⟩ := act.joined_new rfl
      simp only [Event.online, HashMap.lookup_insert_eq] at online
      have others {principal : Bytes} (differs : principal ≠ conn.principal) :=
        act.directory_kept present
          ((online principal).trans (if_neg differs)) (by simp)
      constructor
      · intro principal other otherRole found
        by_cases same : principal = conn.principal
        · rw [online, if_pos same] at found
          cases found
          exact ⟨conn, mine, same.symm⟩
        · exact (others same).2 other otherRole found
      · funext principal
        by_cases same : principal = conn.principal
        · simp [Event.notice?, Directory.heed, Account.directory, online, same,
            mine]
        · simpa [Event.notice?, Directory.heed, same] using (others same).1
  | left id gone role =>
      obtain ⟨_, ⟨leaver, leaverFound, leaverPrincipal⟩, _⟩ :=
        act.left_gone rfl
      simp only [Event.online, HashMap.lookup_erase_eq] at online
      have others {principal : Bytes} (differs : principal ≠ gone) :=
        act.directory_kept present
          ((online principal).trans (if_neg differs)) (by
            rintro other otherRole found _ _ ⟨rfl⟩
            obtain ⟨c, connFound, same⟩ := present _ _ _ found
            rw [leaverFound] at connFound
            cases connFound
            exact differs (same.symm.trans leaverPrincipal))
      constructor
      · intro principal other otherRole found
        by_cases same : principal = gone
        · rw [online, if_pos same] at found
          cases found
        · exact (others same).2 other otherRole found
      · funext principal
        by_cases same : principal = gone
        · simp [Event.notice?, Directory.heed, Account.directory, online, same]
        · simpa [Event.notice?, Directory.heed, same] using (others same).1
  | _ => exact unaffected (by simp) online rfl

omit [Codec] in
theorem Directory.heed_without (directory : Directory) {self : Bytes}
    {presence : Presence} (other : presence.principal ≠ self) :
    (directory.without self).heed presence =
      (directory.heed presence).without self := by
  funext principal
  simp only [heed, without]
  by_cases same : principal = presence.principal
  · subst same
    rw [if_pos rfl, if_pos rfl, if_neg other]
  · rw [if_neg same, if_neg same]

omit [Codec] in
/-- The notices an event puts into a connection's queue. -/
theorem Event.notices_eq (event : Event) (id : ConnId) (c : Conn)
    (silent : ∀ frame, event = .frame id frame → frame.presence? = none) :
    ((event.ops id c).filterMap QueueOp.frame?).filterMap Frame.presence? =
      event.notice?.toList := by
  cases event with
  | quiet => rfl
  | frame target sent =>
      simp only [ops]
      split
      · rename_i mine
        subst mine
        simp [QueueOp.frame?, silent sent rfl, notice?]
      · rfl
  | published key ring env =>
      simp only [ops]
      split <;> rfl
  | subscribed target key since ring =>
      simp only [ops]
      split
      · rw [List.filterMap_cons_none rfl, List.filterMap_append,
          filterMap_frame?_backfillOps]
        rfl
      · rfl
  | unsubscribed target key =>
      simp only [ops]
      split <;> rfl
  | joined other conn role => rfl
  | left other principal role => rfl

/-- A connection knows who is online: it has heard these notices, and the others
are in its queue. -/
structure Conn.Informed (heard : List Presence) (acct : Account)
    (id : ConnId) (role : Role) (c : Conn) : Prop where
  queue_ok : c.out.Ok
  present : acct.Present
  online : acct.online.lookup c.principal = some (id, role)
  agrees : (heard ++ c.out.loose.filterMap Frame.presence?).foldl
    Directory.heed (fun _ => none) = acct.directory.without c.principal

theorem Passes.informed {heard : List Presence} {role : Role}
    (found' : acct'.conns.lookup id = some c')
    (act : Act limits acct fx event acct' fx')
    (passes : Passes limits event id c c')
    (silent : ∀ frame, event = .frame id frame → frame.presence? = none)
    (others : ∀ other conn role, event = .joined other conn role →
      conn.principal ≠ c.principal)
    (informed : c.Informed heard acct id role) :
    c'.Informed heard acct' id role := by
  obtain ⟨queueOk, present, online, agrees⟩ := informed
  obtain ⟨present', directoryEq⟩ := act.directory_eq present
  -- nobody else arrives or leaves under the connection's own principal
  have notMine (presence : Presence) (notice : event.notice? = some presence) :
      presence.principal ≠ c.principal := by
    cases event with
    | joined other conn role =>
        cases notice
        exact others other conn role rfl
    | left other gone role =>
        cases notice
        obtain ⟨away, _, leaverOnline⟩ := act.left_gone rfl
        rintro rfl
        rw [online] at leaverOnline
        cases leaverOnline
        exact away (HashMap.mem_of_lookup found')
    | _ => cases notice
  refine ⟨passes.performs.ok queueOk, present', ?_, ?_⟩
  · rw [passes.principal_eq, act.online_eq]
    cases event with
    | joined other conn otherRole =>
        rw [Event.online, HashMap.lookup_insert_eq,
          if_neg (notMine _ rfl).symm]
        exact online
    | left other gone otherRole =>
        rw [Event.online, HashMap.lookup_erase_eq,
          if_neg (notMine _ rfl).symm]
        exact online
    | _ => exact online
  · rw [passes.performs.loose_eq queueOk, List.filterMap_append,
      event.notices_eq id c silent, ← List.append_assoc, List.foldl_append,
      agrees, passes.principal_eq, directoryEq]
    cases notice : event.notice? with
    | none => rfl
    | some presence => exact Directory.heed_without _ (notMine _ notice)

end Directories

/-! ## Admission -/

/-- The notice that says what an account knows of somebody online. -/
def Account.introduction (acct : Account)
    (entry : Sigma fun _ : Bytes => ConnId × Role) : Presence :=
  ⟨entry.1, entry.2.2.toInt, true,
    ((acct.conns.lookup entry.2.1).map (·.chain)).getD []⟩

/-- Introductions of different principals, heeded in any order. -/
theorem Account.foldl_introduction (acct : Account)
    (entries : List (Sigma fun _ : Bytes => ConnId × Role))
    (distinct : entries.NodupKeys) (directory : Directory)
    (principal : Bytes) :
    (∀ entry ∈ entries, entry.1 = principal →
        (entries.map acct.introduction).foldl Directory.heed directory
            principal =
          some ((acct.introduction entry).role,
            (acct.introduction entry).chain)) ∧
      ((∀ entry ∈ entries, entry.1 ≠ principal) →
        (entries.map acct.introduction).foldl Directory.heed directory
            principal = directory principal) := by
  induction entries generalizing directory with
  | nil => simp
  | cons first rest ih =>
      obtain ⟨fresh, restDistinct⟩ := List.nodupKeys_cons.mp distinct
      obtain ⟨among, absent⟩ :=
        ih restDistinct (directory.heed (acct.introduction first))
      have firstHeeded (same : first.1 = principal) :
          directory.heed (acct.introduction first) principal =
            some ((acct.introduction first).role,
              (acct.introduction first).chain) := by
        simp [Directory.heed, introduction, same]
      simp only [List.map_cons, List.foldl_cons]
      constructor
      · intro entry member same
        rcases List.mem_cons.mp member with rfl | later
        · rw [absent, firstHeeded same]
          intro other otherMember otherSame
          apply fresh
          rw [same, ← otherSame]
          exact List.mem_map.mpr ⟨other, otherMember, rfl⟩
        · exact among entry later same
      · intro none
        rw [absent fun entry member => none entry (List.mem_cons_of_mem _
          member)]
        have differs := none first List.mem_cons_self
        simp [Directory.heed, introduction, differs.symm]

/-- The snapshot a newcomer is greeted with is the account's directory. -/
theorem Account.Present.ofFrames_snapshot {acct : Account}
    (present : acct.Present) (order : HashOrder) :
    Directory.ofFrames (Hub.snapshot order acct) = acct.directory := by
  have presences : (Hub.snapshot order acct).filterMap Frame.presence? =
      (order.online.list acct.online.entries).map acct.introduction := by
    simp [Hub.snapshot, List.filterMap_map, Function.comp_def, Frame.of,
      Frame.presence?, introduction]
  have distinct : (order.online.list acct.online.entries).NodupKeys :=
    (List.perm_nodupKeys (order.online.perm acct.online.entries)).mpr
      acct.online.nodupKeys
  funext principal
  rw [Directory.ofFrames, presences]
  obtain ⟨among, absent⟩ :=
    acct.foldl_introduction _ distinct (fun _ => none) principal
  cases online : acct.online.lookup principal with
  | none =>
      rw [absent]
      · simp [directory, online]
      · rintro ⟨other, entry⟩ member rfl
        have found := HashMap.lookup_of_mem_entries
          ((order.online.mem_list).mp member)
        rw [online] at found
        cases found
  | some entry =>
      have member := HashMap.mem_entries_of_lookup online
      obtain ⟨c, found, _⟩ := present principal entry.1 entry.2 online
      rw [among ⟨principal, entry⟩ (order.online.mem_list.mpr member) rfl]
      simp [directory, online, introduction, found]

section Informing

variable [Codec] {limits : Limits} {acct acct' : Account} {fx fx' : Effects}
  {events : List Event} {id : ConnId} {role : Role} {c c' : Conn}
  {heard : List Presence}

/-- A connection stays informed through events. -/
theorem Lives.informed (lives : Lives limits id acct c events acct' c')
    (silent : ∀ frame, .frame id frame ∈ events → frame.presence? = none)
    (others : ∀ other conn role, .joined other conn role ∈ events →
      conn.principal ≠ c.principal)
    (informed : c.Informed heard acct id role) :
    c'.Informed heard acct' id role := by
  refine (lives.preserves
    (fun now conn => conn.Informed heard now id role ∧
      conn.principal = c.principal) ?_ ?_ ⟨informed, rfl⟩).1
  · rintro before after old new fx₁ fx₂ found found' act passes ⟨holds, same⟩
    exact ⟨passes.informed found' act (fun _ absurdity => by cases absurdity)
      (fun _ _ _ absurdity => by cases absurdity) holds,
      passes.principal_eq.trans same⟩
  · rintro event member before after old new fx₁ fx₂ found found' act passes
      ⟨holds, same⟩
    refine ⟨passes.informed found' act
      (fun frame isFrame => silent frame (isFrame ▸ member)) ?_ holds,
      passes.principal_eq.trans same⟩
    intro other conn role isJoined
    rw [same]
    exact others other conn role (isJoined ▸ member)

theorem Acts.directory_eq (acts : Acts limits acct fx events acct' fx')
    (present : acct.Present) :
    acct'.Present ∧ acct'.directory =
      (events.filterMap Event.notice?).foldl Directory.heed
        acct.directory := by
  induction acts with
  | done => exact ⟨present, rfl⟩
  | quiet acts act ih =>
      obtain ⟨presentBefore, before⟩ := ih
      obtain ⟨presentAfter, after⟩ := act.directory_eq presentBefore
      exact ⟨presentAfter, after.trans before⟩
  | @event _ _ _ _ _ events event acts act ih =>
      obtain ⟨presentBefore, before⟩ := ih
      obtain ⟨presentAfter, after⟩ := act.directory_eq presentBefore
      refine ⟨presentAfter, ?_⟩
      rw [after, before, List.filterMap_append, List.foldl_append]
      cases notice : event.notice? <;> simp [notice]

omit [Codec] in
theorem Hub.Undisturbed.directory_eq {account : AccountId} {hub hub' : Hub}
    (same : hub.Undisturbed account hub') :
    (hub'.record account).directory = (hub.record account).directory := by
  funext principal
  unfold Account.directory
  rw [same.online_eq]
  cases (hub.record account).online.lookup principal with
  | none => rfl
  | some entry =>
      have peer := congrArg (Option.map Prod.snd) (same.peers_eq entry.1)
      simp only [Option.map_map] at peer
      have paired := congrArg (Option.map fun chain =>
        (entry.2.toInt, chain)) peer
      simpa [Option.map_map, Function.comp_def] using paired

theorem Hub.Ok.present {hub : Hub} (ok : hub.Ok) (account : AccountId) :
    (hub.record account).Present :=
  fun _ _ _ online => (ok.record_ok account).1.conn_of_online online

/-- A newcomer is informed as soon as it has joined. -/
theorem Born.informed {order : HashOrder} {hub hub' : Hub} {call : Call}
    {reply : Reply} {account : AccountId} {hello : Hello} {conn : Conn}
    {mid : Account} {tail : List Event}
    (born : Born order hub call reply hub' account id hello conn mid tail c')
    (ok : hub.Ok) :
    conn.Informed [] mid id (Role.ofInt hello.role) := by
  obtain ⟨before, fx, fx', quiets, joins⟩ := born.joins
  obtain ⟨beforePresent, beforeEq⟩ := quiets.directory_eq (ok.present account)
  obtain ⟨midPresent, midEq⟩ := joins.directory_eq beforePresent
  obtain ⟨welcome, queueEq⟩ := born.newcomer.queue_eq
  have offline : (hub.record account).directory conn.principal = none := by
    have absent := AList.lookup_eq_none.mpr born.newcomer.offline
    rw [← born.newcomer.principal_eq] at absent
    simp [Account.directory, absent]
  refine ⟨born.newcomer.queue_ok, midPresent, ?_, ?_⟩
  · rw [joins.online_eq, Event.online, HashMap.lookup_insert_eq, if_pos rfl]
  · have loose : conn.out.loose = .of (.welcome welcome) ::
        Hub.snapshot order (hub.record account) := by
      rw [queueEq]
      simp [Outbound.loose, Outbound.counted, Item.ofFrame,
        List.filter_map, List.map_map, Function.comp_def]
    have greeted := (ok.present account).ofFrames_snapshot order
    rw [Directory.ofFrames] at greeted
    rw [loose, List.nil_append, List.filterMap_cons_none rfl, greeted, midEq,
      beforeEq]
    funext principal
    by_cases mine : principal = conn.principal
    · simp [Directory.without, mine, offline]
    · simp [Directory.without, mine, Event.notice?, Directory.heed]

end Informing

/-! ## Over a run -/

/-- One of these calls admitted the connection, with this greeting. -/
def Admitted (steps : List Step) (account : AccountId) (id : ConnId)
    (hello : Hello) : Prop :=
  ∃ step ∈ steps, ∃ nowMs monoMs revoker actions,
    step.call = .connect account hello nowMs monoMs revoker ∧
    step.reply = .admitted id actions

/-- The notices a connection has been handed in these calls. -/
def heardBy (id : ConnId) (steps : List Step) : List Presence :=
  (handed id steps).filterMap Frame.presence?

/-- A connection is what it was admitted as, and knows who is online. -/
structure Conn.Greeted [Codec] (steps : List Step) (hub : Hub)
    (account : AccountId) (id : ConnId) (hello : Hello) (c : Conn) :
    Prop where
  admitted : Admitted steps account id hello
  principal_eq : c.principal = hello.principal
  chain_eq : c.chain = presentable hello.chain
  informed : c.Informed (heardBy id steps) (hub.record account) id
    (Role.ofInt hello.role)

section Runs

variable [Codec] {start hub : Hub} {steps : List Step} {step : Step}
  {account : AccountId} {id : ConnId} {c c' : Conn}

theorem Heads.silent {fx : Effects} {rings : StreamKey → Option Ring}
    {head : List Event}
    (heads : Heads step.order step.before account fx rings step.call
      step.reply head)
    (delivers : step.call.DeliversOnly Frame.Plain) {target : ConnId}
    {frame : Frame} (member : .frame target frame ∈ head) :
    frame.presence? = none := by
  rcases heads.frame_eq member with plain | delivered | ⟨_, _, _, _, rfl, _⟩
  · exact plain.presence
  · rw [delivered] at delivers
    exact delivers.presence
  · rfl

theorem Conn.Informed.undisturbed {heard : List Presence} {role : Role}
    {hub' : Hub} (same : hub.Undisturbed account hub')
    (informed : c.Informed heard (hub.record account) id role) :
    c.Informed heard (hub'.record account) id role := by
  refine ⟨informed.queue_ok, ?_, ?_, ?_⟩
  · intro principal other otherRole online
    rw [same.online_eq] at online
    obtain ⟨peer, found, peerPrincipal⟩ :=
      informed.present principal other otherRole online
    have peers := same.peers_eq other
    rw [found] at peers
    obtain ⟨peer', found', equal⟩ := Option.map_eq_some_iff.mp peers
    exact ⟨peer', found', (congrArg Prod.fst equal).trans peerPrincipal⟩
  · rw [same.online_eq]
    exact informed.online
  · rw [same.directory_eq]
    exact informed.agrees

/-- Taking moves notices from the queue to those heard. -/
theorem Conn.Informed.taken {heard : List Presence} {role : Role}
    {acct : Account} {taken rest : List Item}
    (informed : c.Informed heard acct id role)
    (split : c.out.items = taken ++ rest)
    (envelopes : ∀ item ∈ c.out.items, item.stream ≠ none →
      ∃ env, item.wire = .of (.envelope env)) (armed : Bool) :
    { c with
      out := Outbound.counted rest (Outbound.handOut c.out.dropped taken).2
      armed }.Informed
      (heard ++ (Outbound.handOut c.out.dropped taken).1.filterMap
        Frame.presence?) acct id role := by
  refine ⟨informed.queue_ok.of_sublist (by rw [split]; simp) _,
    informed.present, informed.online, ?_⟩
  have takenEq : (Outbound.handOut c.out.dropped taken).1.filterMap
      Frame.presence? = ((taken.filter fun item =>
        decide (item.stream = none)).map (·.wire)).filterMap
          Frame.presence? := by
    rw [Outbound.filterMap_handOut _ (fun _ => rfl),
      Outbound.filterMap_wire]
    intro item member ofStream
    obtain ⟨env, isEnvelope⟩ :=
      envelopes item (by simp [split, member]) ofStream
    rw [isEnvelope]
    rfl
  rw [← informed.agrees, takenEq]
  simp only [Outbound.loose, Outbound.counted, split, List.filter_append,
    List.map_append, List.filterMap_append, List.append_assoc]

omit [Codec] in
theorem heardBy_of_silent (nothing : step.handed id = []) :
    heardBy id (steps ++ [step]) = heardBy id steps := by
  simp [heardBy, nothing]

theorem Fate.greeted
    (fate : Fate step.order step.before step.call step.reply step.after
      account id c')
    (ok : step.before.Ok) (delivers : step.call.DeliversOnly Frame.Plain)
    (sourced : step.before.Sourced steps)
    (unborn : step.before.nextConn ≤ id → handed id steps = [])
    (greeted : ∀ {c}, step.before.conn? account id = some c →
      ∃ hello, c.Greeted steps step.before account id hello) :
    ∃ hello, c'.Greeted (steps ++ [step]) step.after account id hello := by
  have still {hello : Hello} (admitted : Admitted steps account id hello) :
      Admitted (steps ++ [step]) account id hello := by
    obtain ⟨earlier, member, rest⟩ := admitted
    exact ⟨earlier, by simp [member], rest⟩
  cases fate with
  | rest found same others unnamed =>
      obtain ⟨hello, admitted, principal, chain, informed⟩ := greeted found
      refine ⟨hello, still admitted, principal, chain, ?_⟩
      rw [heardBy_of_silent (Step.handed_of_others others)]
      exact informed.undisturbed same
  | took acct c taken rest took after same =>
      have found := took.there
      obtain ⟨hello, admitted, principal, chain, informed⟩ := greeted found
      subst after
      refine ⟨hello, still admitted, principal, chain, ?_⟩
      have heardEq : heardBy id (steps ++ [step]) = heardBy id steps ++
          (Outbound.handOut c.out.dropped taken).1.filterMap
            Frame.presence? := by
        simp [heardBy, Step.handed_of_took took]
      rw [heardEq]
      exact (informed.undisturbed same).taken took.split
        (fun item member =>
          ((sourced.conns found).items item member).exists_envelope) _
  | lived head tail fx c lived =>
      have found := lived.there
      obtain ⟨hello, admitted, principal, chain, informed⟩ := greeted found
      obtain ⟨samePrincipal, sameChain⟩ := lived.lives.stable
      refine ⟨hello, still admitted, samePrincipal.trans principal,
        sameChain.trans chain, ?_⟩
      rw [heardBy_of_silent (Step.handed_of_frames lived.frames_eq)]
      refine lived.lives.informed ?_ ?_ informed
      · intro frame member
        rcases List.mem_append.mp member with inHead | inTail
        · exact lived.heads.silent delivers inHead
        · obtain ⟨_, _, _, absurdity⟩ := lived.departures _ inTail
          cases absurdity
      · intro other conn role member
        rcases List.mem_append.mp member with inHead | inTail
        · obtain ⟨_, _, newHello, _, _, _, _, _, _, _, newcomer⟩ :=
            lived.heads.joined_eq inHead
          rw [newcomer.principal_eq]
          intro same
          apply newcomer.offline
          rw [same]
          exact HashMap.mem_of_lookup informed.online
        · obtain ⟨_, _, _, absurdity⟩ := lived.departures _ inTail
          cases absurdity
  | born hello conn mid tail born =>
      obtain ⟨samePrincipal, sameChain⟩ := born.lives.stable
      obtain ⟨nowMs, monoMs, revoker, isConnect⟩ := born.call_eq
      obtain ⟨actions, isAdmitted⟩ := born.reply_eq
      refine ⟨hello, ⟨step, by simp, nowMs, monoMs, revoker, actions,
          isConnect, isAdmitted⟩,
        samePrincipal.trans born.newcomer.principal_eq,
        sameChain.trans born.newcomer.chain_eq, ?_⟩
      have nothing : heardBy id (steps ++ [step]) = [] := by
        rw [heardBy_of_silent (Step.handed_of_frames (by
          rw [isAdmitted]; rfl)), heardBy, unborn (by rw [born.id_eq])]
        rfl
      rw [nothing]
      refine born.lives.informed ?_ ?_ (born.informed ok)
      · intro frame member
        obtain ⟨_, _, _, absurdity⟩ := born.departures _ member
        cases absurdity
      · intro other conn role member
        obtain ⟨_, _, _, absurdity⟩ := born.departures _ member
        cases absurdity

/-- Every connection of a run is what it was admitted as, and knows who is
online. -/
theorem Run.greeted (ok : start.Ok) (fresh : start.Sourced [])
    (nobody : ∀ account id c, start.conn? account id ≠ some c)
    (run : Run start steps hub)
    (delivers : ∀ step ∈ steps, step.call.DeliversOnly Frame.Plain)
    (found : hub.conn? account id = some c) :
    ∃ hello, c.Greeted steps hub account id hello := by
  have noEnvelopes (step : Step) (member : step ∈ steps) :
      step.call.DeliversOnly (·.envelope? = none) :=
    (delivers step member).mono fun _ plain => plain.envelope
  refine (run.induct (fun steps hub => hub.Sourced steps ∧
    ∀ {c}, hub.conn? account id = some c →
      ∃ hello, c.Greeted steps hub account id hello) ok
    ⟨fresh, fun found => (nobody _ _ _ found).elim⟩ ?_).2 found
  rintro earlier step run beforeOk afterOk effect member ⟨sourced, greeted⟩
  refine ⟨effect.sourced beforeOk afterOk (noEnvelopes step member) sourced,
    fun {c} found => ?_⟩
  exact (effect.fate beforeOk afterOk found).greeted beforeOk
    (delivers step member) sourced (run.handed_unborn ok) greeted

end Runs

/-- Heeding what it was handed and what is still queued, a connection knows who
else is online; and it is itself online as what it was admitted as, so that the
same holds of everybody it knows of. -/
structure Conn.KnowsOthers (steps : List Step) (hub : Hub)
    (account : AccountId) (id : ConnId) (c : Conn) : Prop where
  directory_eq : Directory.ofFrames (handed id steps ++ c.out.frames) =
    (hub.record account).directory.without c.principal
  admitted : ∃ hello, Admitted steps account id hello ∧
    c.principal = hello.principal ∧ c.chain = presentable hello.chain ∧
    (hub.record account).online.lookup c.principal =
      some (id, Role.ofInt hello.role)

/-- In every run in which the server delivers no presence of its own, a
connection that heeds the notices it was handed and those still queued knows
exactly who else is online, with the role and the chain each was admitted
with. -/
theorem relay_presence_agreement [Codec] (limits : Limits) (seed : UInt64)
    (shard : UInt16) (start : Hub)
    (accepted : Hub.withIdSpace limits seed shard = .ok start)
    (calls : List (HashOrder × Call))
    (delivers : ∀ entry ∈ calls, entry.2.DeliversOnly Frame.Plain) :
    ∃ steps, start.run calls = .ok steps ∧
      ∀ account id c, (finalHub start steps).conn? account id = some c →
        c.KnowsOthers steps (finalHub start steps) account id := by
  obtain ⟨ok, _, empty, _⟩ := ok_withIdSpace accepted
  obtain ⟨steps, hub, ran, run⟩ := exists_run ok calls
  have served := Hub.forall_calls ran delivers
  have sourced := run.sourced ok (Hub.sourced_empty empty) fun step member =>
    (served step member).mono fun _ plain => plain.envelope
  refine ⟨steps, ran, ?_⟩
  rw [run.finalHub_eq]
  intro account id c found
  obtain ⟨hello, admitted, principal, chain, informed⟩ :=
    run.greeted ok (Hub.sourced_empty empty) (Hub.conn?_empty empty) served
      found
  refine ⟨?_, hello, admitted, principal, chain, informed.online⟩
  have queued : c.out.frames.filterMap Frame.presence? =
      c.out.loose.filterMap Frame.presence? := by
    apply Outbound.filterMap_wire
    intro item member ofStream
    obtain ⟨env, isEnvelope⟩ :=
      ((sourced.conns found).items item member).exists_envelope ofStream
    rw [isEnvelope]
    rfl
  rw [Directory.ofFrames, List.filterMap_append, queued]
  exact informed.agrees

/-- Two peers connect, and the first takes its greeting. -/
theorem relay_presence_agreement_two_peers :
    ∃ start steps, Hub.withIdSpace {} 7 0 = .ok start ∧
      start.run [
        (.stored, .connect [9] { protocol := 1, principal := [1], role := 2 }
          0 0 .unknown),
        (.stored, .connect [9] { protocol := 1, principal := [2], role := 1 }
          0 0 .unknown),
        (.stored, .takeOutbound 1 1)] = .ok steps ∧
      ∀ account id c, (finalHub start steps).conn? account id = some c →
        c.KnowsOthers steps (finalHub start steps) account id := by
  obtain ⟨steps, ran, knows⟩ := relay_presence_agreement {} 7 0
    ⟨{}, ∅, ∅, 1, 7, 0⟩ rfl [
      (.stored, .connect [9] { protocol := 1, principal := [1], role := 2 }
        0 0 .unknown),
      (.stored, .connect [9] { protocol := 1, principal := [2], role := 1 }
        0 0 .unknown),
      (.stored, .takeOutbound 1 1)] (by simp [Call.DeliversOnly])
  exact ⟨_, steps, rfl, ran, knows⟩

end WindowMlHub
