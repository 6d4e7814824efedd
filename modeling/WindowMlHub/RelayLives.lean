import WindowMlHub.RelayRuns

/-!
# The life of one connection

A connection that is there after a call either was there before it, and went
through the events of the call one after another without a push that failed, or
it was admitted by the call.  `Lives` is its way through events, `Fate` says what
one call did to it, and what a run did to it follows by induction over the calls.
-/

namespace WindowMlHub

open CheckedEvaluation HashTables

/-- What an event does to a connection that it does not doom. -/
structure Passes [Codec] (limits : Limits) (event : Event) (id : ConnId)
    (before after : Conn) : Prop where
  principal_eq : after.principal = before.principal
  chain_eq : after.chain = before.chain
  subs_iff : ∀ key, key ∈ after.subs ↔
    event.Subscribes id (· ∈ before.subs) key
  performs : Performs limits before.out (event.ops id before) after.out
  armed_eq : after.armed = (before.armed ||
    (event.ops id before).any QueueOp.pushes)

/-- A connection goes through events of its account. -/
inductive Lives [Codec] (limits : Limits) (id : ConnId) :
    Account → Conn → List Event → Account → Conn → Prop
  | start {acct : Account} {c : Conn}
      (found : acct.conns.lookup id = some c) :
      Lives limits id acct c [] acct c
  | quiet {acct acct' acct'' : Account} {c c' c'' : Conn}
      {events : List Event} {fx fx' : Effects}
      (lives : Lives limits id acct c events acct' c')
      (act : Act limits acct' fx .quiet acct'' fx')
      (found : acct''.conns.lookup id = some c'')
      (passes : Passes limits .quiet id c' c'') :
      Lives limits id acct c events acct'' c''
  | event {acct acct' acct'' : Account} {c c' c'' : Conn}
      {events : List Event} {event : Event} {fx fx' : Effects}
      (lives : Lives limits id acct c events acct' c')
      (act : Act limits acct' fx event acct'' fx')
      (found : acct''.conns.lookup id = some c'')
      (passes : Passes limits event id c' c'') :
      Lives limits id acct c (events ++ [event]) acct'' c''

section Living

variable [Codec] {limits : Limits} {id : ConnId} {acct acct' : Account}
  {fx fx' : Effects} {events : List Event} {event : Event} {c c' : Conn}

theorem Lives.first (lives : Lives limits id acct c events acct' c') :
    acct.conns.lookup id = some c := by
  induction lives with
  | start found => exact found
  | quiet _ _ _ _ ih => exact ih
  | event _ _ _ _ ih => exact ih

theorem Lives.last (lives : Lives limits id acct c events acct' c') :
    acct'.conns.lookup id = some c' := by
  cases lives with
  | start found => exact found
  | quiet _ _ found _ => exact found
  | event _ _ found _ => exact found

/-- A property of an account and one of its connections that no event breaks
holds after events if it held before. -/
theorem Lives.preserves (Holds : Account → Conn → Prop)
    (lives : Lives limits id acct c events acct' c')
    (quiet : ∀ {acct acct' c c' fx fx'},
      acct.conns.lookup id = some c → acct'.conns.lookup id = some c' →
      Act limits acct fx .quiet acct' fx' → Passes limits .quiet id c c' →
      Holds acct c → Holds acct' c')
    (step : ∀ event ∈ events, ∀ {acct acct' c c' fx fx'},
      acct.conns.lookup id = some c → acct'.conns.lookup id = some c' →
      Act limits acct fx event acct' fx' → Passes limits event id c c' →
      Holds acct c → Holds acct' c')
    (holds : Holds acct c) : Holds acct' c' := by
  induction lives with
  | start found => exact holds
  | quiet lives act found passes ih =>
      exact quiet lives.last found act passes (ih step holds)
  | event lives act found passes ih =>
      exact step _ (by simp) lives.last found act passes
        (ih (fun event member => step event (by simp [member])) holds)

theorem Lives.stable (lives : Lives limits id acct c events acct' c') :
    c'.principal = c.principal ∧ c'.chain = c.chain :=
  lives.preserves
    (fun _ now => now.principal = c.principal ∧ now.chain = c.chain)
    (fun _ _ _ passes same => ⟨passes.principal_eq.trans same.1,
      passes.chain_eq.trans same.2⟩)
    (fun _ _ _ _ _ _ _ _ _ _ _ passes same =>
      ⟨passes.principal_eq.trans same.1, passes.chain_eq.trans same.2⟩)
    ⟨rfl, rfl⟩

theorem Lives.not_left (lives : Lives limits id acct c events acct' c')
    (principal : Bytes) (role : Role) :
    .left id principal role ∉ events := by
  induction lives with
  | start found => simp
  | quiet _ _ _ _ ih => exact ih
  | event _ act found _ ih =>
      rw [List.mem_append, not_or]
      refine ⟨ih, ?_⟩
      intro isLast
      exact (act.left_gone (List.mem_singleton.mp isLast).symm).1
        (HashMap.mem_of_lookup found)

theorem Passes.armed (passes : Passes limits event id c c')
    (armed : c.armed = true) : c'.armed = true := by
  rw [passes.armed_eq, armed, Bool.true_or]

theorem Lives.armed (lives : Lives limits id acct c events acct' c')
    (armed : c.armed = true) : c'.armed = true :=
  lives.preserves (fun _ now => now.armed = true)
    (fun _ _ _ passes awake => passes.armed awake)
    (fun _ _ _ _ _ _ _ _ _ _ _ passes awake => passes.armed awake) armed

/-- A connection that an event leaves undoomed was not doomed before, and has
passed the event. -/
theorem Act.passes (act : Act limits acct fx event acct' fx')
    (found : acct.conns.lookup id = some c)
    (foundAfter : acct'.conns.lookup id = some c')
    (spared : ¬ Doomed fx' id) :
    ¬ Doomed fx id ∧ Passes limits event id c c' ∧
      (id ∈ fx'.wake ↔ id ∈ fx.wake ∨
        (c.armed = false ∧ c'.armed = true)) := by
  have stays : ∀ principal role, event ≠ .left id principal role := by
    intro principal role isLeft
    exact (act.left_gone isLeft).1 (HashMap.mem_of_lookup foundAfter)
  obtain ⟨kept, keptFound, principal, chain, subs, doomedOr⟩ :=
    act.kept found stays
  obtain rfl : kept = c' := Option.some.inj (keptFound.symm.trans foundAfter)
  rcases doomedOr with doomed | ⟨before, performs, armed, wake⟩
  · exact (spared doomed).elim
  · refine ⟨before, ⟨principal, chain, subs, performs, armed⟩, ?_⟩
    rw [wake, armed]
    cases c.armed <;> simp

omit [Codec] in
theorem rises_trans {already : Prop} {first second third : Bool}
    (one : first = true → second = true)
    (two : second = true → third = true) :
    (already ∨ first = false ∧ second = true) ∨
        second = false ∧ third = true ↔
      already ∨ first = false ∧ third = true := by
  cases first <;> cases second <;> cases third <;> simp_all

/-- Where a connection that is there and not doomed after some events has come
from: it went through all of them, or it joined on the way. -/
theorem Acts.lives (acts : Acts limits acct fx events acct' fx')
    (found : acct'.conns.lookup id = some c')
    (spared : ¬ Doomed fx' id) :
    (∃ c, Lives limits id acct c events acct' c' ∧ ¬ Doomed fx id ∧
        (id ∈ fx'.wake ↔ id ∈ fx.wake ∨
          (c.armed = false ∧ c'.armed = true))) ∨
      ∃ earlier conn role later before mid fx₁ fx₂,
        events = earlier ++ .joined id conn role :: later ∧
        Acts limits acct fx earlier before fx₁ ∧
        Act limits before fx₁ (.joined id conn role) mid fx₂ ∧
        Lives limits id mid conn later acct' c' ∧ id ∈ fx'.wake := by
  induction acts generalizing c' with
  | done =>
      exact Or.inl ⟨c', .start found, spared, by cases c'.armed <;> simp⟩
  | quiet acts act ih =>
      rcases act.conns_new found with old | ⟨role, absurdity, _⟩
      · obtain ⟨c, foundBefore⟩ := HashMap.exists_lookup_of_mem old
        obtain ⟨undoomed, passes, wake⟩ := act.passes foundBefore found spared
        have armed : c'.armed = c.armed := by
          simpa [Event.ops] using passes.armed_eq
        rcases ih foundBefore undoomed with
          ⟨first, lives, start, woken⟩ |
          ⟨earlier, conn, role, later, place, mid, fx₁, fx₂, split, until_,
            joins, lives, woken⟩
        · refine Or.inl ⟨first, .quiet lives act found passes, start, ?_⟩
          rw [wake, woken, armed]
          cases c.armed <;> simp
        · exact Or.inr ⟨earlier, conn, role, later, place, mid, fx₁, fx₂,
            split, until_, joins, .quiet lives act found passes,
            wake.mpr (Or.inl woken)⟩
      · cases absurdity
  | @event _ _ _ _ _ events event acts act ih =>
      rcases act.conns_new found with old | ⟨role, isJoined, _, woken⟩
      · obtain ⟨c, foundBefore⟩ := HashMap.exists_lookup_of_mem old
        obtain ⟨undoomed, passes, wake⟩ := act.passes foundBefore found spared
        rcases ih foundBefore undoomed with
          ⟨first, lives, start, woken⟩ |
          ⟨earlier, conn, role, later, place, mid, fx₁, fx₂, split, until_,
            joins, lives, woken⟩
        · refine Or.inl ⟨first, .event lives act found passes, start, ?_⟩
          rw [wake, woken]
          exact rises_trans lives.armed passes.armed
        · exact Or.inr ⟨earlier, conn, role, later ++ [event], place, mid,
            fx₁, fx₂, by simp [split], until_, joins,
            .event lives act found passes, wake.mpr (Or.inl woken)⟩
      · subst isJoined
        exact Or.inr ⟨events, c', role, [], _, _, _, _, rfl, acts, act,
          .start found, woken⟩

end Living

/-! ## What one call does to one connection -/

namespace Hub

theorem conn?_eq (hub : Hub) (account : AccountId) (id : ConnId) :
    hub.conn? account id = (hub.record account).conns.lookup id := by
  unfold conn? record
  cases hub.accounts.lookup account with
  | none => rfl
  | some acct => rfl

theorem conn?_empty {hub : Hub} (empty : hub.accounts = ∅)
    (account : AccountId) (id : ConnId) (c : Conn) :
    hub.conn? account id ≠ some c := by
  simp [conn?, empty]

/-- The streams of an account are the same, and so is who is online with which
chain. -/
structure Undisturbed (account : AccountId) (hub hub' : Hub) : Prop where
  streams_eq : (hub'.record account).streams = (hub.record account).streams
  online_eq : (hub'.record account).online = (hub.record account).online
  peers_eq : ∀ id, ((hub'.record account).conns.lookup id).map
      (fun c => (c.principal, c.chain)) =
    ((hub.record account).conns.lookup id).map
      (fun c => (c.principal, c.chain))

theorem Undisturbed.of_record {account : AccountId} {hub hub' : Hub}
    (same : hub'.record account = hub.record account) :
    hub.Undisturbed account hub' :=
  ⟨by rw [same], by rw [same], fun _ => by rw [same]⟩

theorem Undisturbed.ring?_eq {account : AccountId} {hub hub' : Hub}
    (same : hub.Undisturbed account hub') (key : StreamKey) :
    hub'.ring? account key = hub.ring? account key := by
  simp [ring?, Account.ring?, same.streams_eq]

end Hub

/-- The connection went through the events of the call. -/
structure Lived [Codec] (order : HashOrder) (hub : Hub) (call : Call)
    (reply : Reply) (hub' : Hub) (account : AccountId) (id : ConnId)
    (head tail : List Event) (fx : Effects) (c c' : Conn) : Prop where
  about : call.account? hub = some account
  heads : Heads order hub account fx (hub'.ring? account) call reply head
  departures : ∀ event ∈ tail, ∃ other principal role,
    event = .left other principal role
  spared : ¬ Doomed fx id
  frames_eq : reply.frames = []
  acts : ∃ fx', Acts hub.limits (hub.record account) {} (head ++ tail)
    (hub'.record account) fx'
  lives : Lives hub.limits id (hub.record account) c (head ++ tail)
    (hub'.record account) c'
  wake_iff : .wake id ∈ reply.actions ↔ c.armed = false ∧ c'.armed = true

/-- The connection was admitted by the call. -/
structure Born [Codec] (order : HashOrder) (hub : Hub) (call : Call)
    (reply : Reply) (hub' : Hub) (account : AccountId) (id : ConnId)
    (hello : Hello) (conn : Conn) (mid : Account) (tail : List Event)
    (c' : Conn) : Prop where
  call_eq : ∃ nowMs monoMs revoker,
    call = .connect account hello nowMs monoMs revoker
  reply_eq : ∃ actions, reply = .admitted id actions
  id_eq : id = hub.nextConn
  newcomer : hub.Newcomer order account hello conn
  joins : ∃ before fx fx',
    Acts hub.limits (hub.record account) {} [] before fx ∧
    Act hub.limits before fx (.joined id conn (Role.ofInt hello.role)) mid fx'
  departures : ∀ event ∈ tail, ∃ other principal role,
    event = .left other principal role
  lives : Lives hub.limits id mid conn tail (hub'.record account) c'
  woken : .wake id ∈ reply.actions

/-- What a call did to a connection that is there after it. -/
inductive Fate [Codec] (order : HashOrder) (hub : Hub) (call : Call)
    (reply : Reply) (hub' : Hub) (account : AccountId) (id : ConnId)
    (c' : Conn) : Prop
  | rest (found : hub.conn? account id = some c')
      (same : hub.Undisturbed account hub') (others : call.conn? ≠ some id)
      (unnamed : ∀ action ∈ reply.actions, action.conn ≠ id)
  | took (acct : Account) (c : Conn) (taken rest : List Item)
      (took : Took hub call reply hub' account id acct c taken rest)
      (after : c' = { c with
        out := Outbound.counted rest (Outbound.handOut c.out.dropped taken).2
        armed := !rest.isEmpty })
      (same : hub.Undisturbed account hub')
  | lived (head tail : List Event) (fx : Effects) (c : Conn)
      (lived : Lived order hub call reply hub' account id head tail fx c c')
  | born (hello : Hello) (conn : Conn) (mid : Account) (tail : List Event)
      (born : Born order hub call reply hub' account id hello conn mid tail c')

/-- The frames a call handed to a connection. -/
def Step.handed (step : Step) (id : ConnId) : List Frame :=
  match step.call with
  | .takeOutbound conn _ => if conn = id then step.reply.frames else []
  | _ => []

/-- The frames these calls handed to a connection. -/
def handed (id : ConnId) (steps : List Step) : List Frame :=
  steps.flatMap fun step => step.handed id

/-- The frames that wait in a queue. -/
def Outbound.frames (queue : Outbound) : List Frame :=
  queue.items.map (·.wire)

@[simp]
theorem handed_nil (id : ConnId) : handed id [] = [] := rfl

@[simp]
theorem handed_append (id : ConnId) (earlier later : List Step) :
    handed id (earlier ++ later) = handed id earlier ++ handed id later := by
  simp [handed]

@[simp]
theorem handed_cons (id : ConnId) (step : Step) (later : List Step) :
    handed id (step :: later) = step.handed id ++ handed id later := by
  simp [handed]

section Fates

variable [Codec] {order : HashOrder} {hub hub' : Hub} {call : Call}
  {reply : Reply} {account : AccountId} {id : ConnId} {c' : Conn}

omit [Codec] in
theorem Hub.wake_mem_actionsOf {wake : List ConnId}
    {left : List (ConnId × Frame)} :
    .wake id ∈ Hub.actionsOf wake left ↔
      id ∈ wake ∧ ∀ entry ∈ left, entry.1 ≠ id := by
  simp [Hub.actionsOf]

theorem Hub.Ok.known_of_conn? (ok : hub.Ok) {c : Conn}
    (found : hub.conn? account id = some c) :
    hub.connAccount.lookup id = some account := by
  rw [hub.conn?_eq] at found
  exact (ok.mem_record_iff account id).mp (HashMap.mem_of_lookup found)

theorem Hub.Newcomer.queue_ok {hello : Hello} {conn : Conn}
    (newcomer : hub.Newcomer order account hello conn) : conn.out.Ok := by
  obtain ⟨welcome, queueEq⟩ := newcomer.queue_eq
  rw [queueEq]
  apply Outbound.Ok.of_counted
  intro item member
  obtain ⟨frame, _, rfl⟩ := List.mem_map.mp member
  exact Item.proper_ofFrame frame

theorem Heads.joined_eq {fx : Effects} {head : List Event}
    {rings : StreamKey → Option Ring}
    (heads : Heads order hub account fx rings call reply head) {conn : Conn}
    {role : Role} (joined : .joined id conn role ∈ head) :
    head = [.joined id conn role] ∧ id = hub.nextConn ∧
      ∃ hello nowMs monoMs revoker actions,
        call = .connect account hello nowMs monoMs revoker ∧
        reply = .admitted id actions ∧ role = Role.ofInt hello.role ∧
        hub.Newcomer order account hello conn := by
  cases heads with
  | joined newcomer =>
      simp only [List.mem_singleton, Event.joined.injEq] at joined
      obtain ⟨rfl, rfl, rfl⟩ := joined
      exact ⟨rfl, rfl, _, _, _, _, _, rfl, rfl, rfl, newcomer⟩
  | received found routed =>
      exact (routed.no_join.1 _ _ _ joined).elim
  | _ => simp at joined

/-- Who is there after the events of a call went through all of them, or came in the
first. -/
theorem Acted.lived_or_born {head : List Event} {mid : Account}
    {fx : Effects} {left : List (ConnId × Frame)} {wake : List ConnId}
    (acted : Acted order hub call reply hub' account head mid fx left wake)
    (found : hub'.conn? account id = some c') :
    (∃ tail c, Lived order hub call reply hub' account id head tail fx c c') ∨
      ∃ hello conn mid tail,
        Born order hub call reply hub' account id hello conn mid tail c' := by
  obtain ⟨tail, fx', tailActs, departures, noClose, wakeEq⟩ :=
    acted.settles.tail_acts
  have leaves (event : Event) (member : event ∈ tail) :
      ∃ other principal role, event = .left other principal role := by
    obtain ⟨entry, _, principal, role, isLeft⟩ := departures.of_mem member
    exact ⟨entry.1, principal, role, isLeft⟩
  rw [hub'.conn?_eq] at found
  have spared' : ¬ Doomed fx' id := by simp [Doomed, noClose]
  have nobody (conn : Conn) (role : Role) : .joined id conn role ∉ tail := by
    intro member
    obtain ⟨_, _, _, absurdity⟩ := leaves _ member
    cases absurdity
  -- the departures alone show that it was not doomed and does not leave
  obtain ⟨_, tailLives, spared, _⟩ | ⟨earlier, conn, role, later, _, _, _, _,
    split, _⟩ := tailActs.lives found spared'
  swap
  · exact (nobody conn role (by simp [split])).elim
  have remains : ∀ entry ∈ left, entry.1 ≠ id := by
    rintro entry member rfl
    obtain ⟨principal, role, isLeft⟩ := departures.of_mem_left member
    exact tailLives.not_left principal role isLeft
  have named : .wake id ∈ reply.actions ↔ id ∈ fx'.wake := by
    rw [acted.actions_eq, Hub.wake_mem_actionsOf, wakeEq]
    exact and_iff_left remains
  have whole := acted.settles.head_acts.trans tailActs
  rcases whole.lives found spared' with
    ⟨c, lives, _, woken⟩ |
    ⟨earlier, conn, role, later, before, mid', fx₁, fx₂, split, quiets, joins,
      lives, woken⟩
  · refine Or.inl ⟨tail, c, acted.about, acted.heads, leaves, spared,
      acted.frames_eq, ⟨fx', whole⟩, lives, ?_⟩
    rw [named, woken]
    simp
  · have inHead : .joined id conn role ∈ head := by
      have member : .joined id conn role ∈ head ++ tail := by simp [split]
      exact (List.mem_append.mp member).resolve_right (nobody conn role)
    obtain ⟨headEq, idEq, hello, nowMs, monoMs, revoker, actions, callEq,
      replyEq, rfl, newcomer⟩ := acted.heads.joined_eq inHead
    obtain ⟨rfl, rfl⟩ : earlier = [] ∧ later = tail := by
      rw [headEq] at split
      cases earlier with
      | nil => exact ⟨rfl, (by simpa using split.symm)⟩
      | cons first earlier =>
          have member : .joined id conn (Role.ofInt hello.role) ∈ tail := by
            simp only [List.cons_append, List.nil_append,
              List.cons.injEq] at split
            simp [split.2]
          exact (nobody _ _ member).elim
    exact Or.inr ⟨hello, conn, mid', later, ⟨_, _, _, callEq⟩, ⟨_, replyEq⟩, idEq,
      newcomer, ⟨before, fx₁, fx₂, quiets, joins⟩, leaves, lives,
      named.mpr woken⟩

theorem Took.there {acct : Account} {c : Conn} {taken rest : List Item}
    (took : Took hub call reply hub' account id acct c taken rest) :
    hub.conn? account id = some c := by
  rw [hub.conn?_eq, Hub.record_of_lookup took.found]
  exact took.connFound

theorem Lived.there {head tail : List Event} {fx : Effects} {c : Conn}
    (lived : Lived order hub call reply hub' account id head tail fx c c') :
    hub.conn? account id = some c :=
  (hub.conn?_eq account id).trans lived.lives.first

theorem Born.not_there {hello : Hello} {conn : Conn} {mid : Account} {tail : List Event}
    (born : Born order hub call reply hub' account id hello conn mid tail c')
    (ok : hub.Ok) {c : Conn} : hub.conn? account id ≠ some c := by
  intro found
  have known := ok.fresh _ (HashMap.mem_of_lookup (ok.known_of_conn? found))
  exact absurd (born.id_eq ▸ known) (Nat.lt_irrefl _)

theorem Acted.fate {head : List Event} {mid : Account}
    {fx : Effects} {left : List (ConnId × Frame)} {wake : List ConnId}
    (acted : Acted order hub call reply hub' account head mid fx left wake)
    (found : hub'.conn? account id = some c') :
    Fate order hub call reply hub' account id c' := by
  rcases acted.lived_or_born found with
    ⟨tail, c, lived⟩ | ⟨hello, conn, mid, tail, born⟩
  · exact .lived head tail fx c lived
  · exact .born hello conn mid tail born

theorem Took.undisturbed {acct : Account} {c : Conn} {taken rest : List Item}
    (took : Took hub call reply hub' account id acct c taken rest) :
    hub.Undisturbed account hub' := by
  have before := Hub.record_of_lookup took.found
  have within := took.hub_eq ▸ hub.within_setAccount account { acct with
    conns := acct.conns.insert id { c with
      out := Outbound.counted rest (Outbound.handOut c.out.dropped taken).2
      armed := !rest.isEmpty } }
  have after := Hub.record_of_lookup within.record
  refine ⟨by rw [before, after], by rw [before, after], fun other => ?_⟩
  rw [before, after, HashMap.lookup_insert_eq]
  split
  · rename_i same
    rw [same, took.connFound]
    rfl
  · rfl

/-- A call about another account, as a connection of this one sees it. -/
theorem Fate.of_other (ok : hub.Ok) {other : AccountId}
    (same : hub'.accounts.lookup account = hub.accounts.lookup account)
    (differs : other ≠ account) (about : call.account? hub = some other)
    (actions : ∀ action ∈ reply.actions,
      hub.connAccount.lookup action.conn = some other ∨
        action.conn = hub.nextConn)
    (found : hub'.conn? account id = some c') :
    Fate order hub call reply hub' account id c' := by
  have recordEq : hub'.record account = hub.record account := by
    rw [Hub.record, Hub.record, same]
  have foundBefore : hub.conn? account id = some c' := by
    rw [hub.conn?_eq, ← recordEq, ← hub'.conn?_eq]
    exact found
  have known := ok.known_of_conn? foundBefore
  refine .rest foundBefore (.of_record recordEq) ?_ ?_
  · intro mine
    have aboutMine : call.account? hub = some account := by
      cases call with
      | connect => cases mine
      | _ => simpa [Call.account?, mine] using known
    exact differs (Option.some.inj (about.symm.trans aboutMine))
  · rintro action member rfl
    rcases actions action member with knownOther | new
    · exact differs (Option.some.inj (knownOther.symm.trans known))
    · have fresh := ok.fresh _ (HashMap.mem_of_lookup known)
      rw [new] at fresh
      exact Nat.lt_irrefl _ fresh

/-- What any call did to a connection that is there after it. -/
theorem Effect.fate (ok : hub.Ok) (ok' : hub'.Ok)
    (effect : Effect order hub call reply hub')
    (found : hub'.conn? account id = some c') :
    Fate order hub call reply hub' account id c' := by
  have known' := ok'.known_of_conn? found
  cases effect with
  | idle unknown same noActions noFrames noAdmission =>
      subst same
      obtain ⟨conn, about, absent⟩ := unknown
      refine .rest found (.of_record rfl) ?_ (by simp [noActions])
      rw [about]
      rintro ⟨rfl⟩
      exact absent (HashMap.mem_of_lookup known')
  | took other conn acct c taken rest took =>
      obtain ⟨budget, rfl⟩ := took.call_eq
      have about : Call.account? hub (.takeOutbound conn budget) =
          some other := by
        simpa [Call.account?, Call.conn?] using took.known
      have within := took.hub_eq ▸ hub.within_setAccount other { acct with
        conns := acct.conns.insert conn { c with
          out := Outbound.counted rest (Outbound.handOut c.out.dropped taken).2
          armed := !rest.isEmpty } }
      by_cases same : other = account
      · subst same
        have before := Hub.record_of_lookup took.found
        have after := Hub.record_of_lookup within.record
        have undisturbed := took.undisturbed
        rw [hub'.conn?_eq, after, HashMap.lookup_insert_eq] at found
        split at found
        · rename_i mine
          subst mine
          exact .took acct c taken rest took (Option.some.inj found).symm
            undisturbed
        · rename_i others
          refine .rest ?_ undisturbed ?_ ?_
          · rw [hub.conn?_eq, before]
            exact found
          · simpa [Call.conn?] using Ne.symm others
          · simp [took.reply_eq, Reply.actions]
      · refine .of_other ok (within.others account (Ne.symm same)) same about
          ?_ found
        simp [took.reply_eq, Reply.actions]
  | acted other head mid fx left wake acted =>
      by_cases same : other = account
      · subst same
        exact acted.fate found
      · refine .of_other ok
          (acted.settles.beside.others account (Ne.symm same)) same
          acted.about ?_ found
        intro action member
        rcases acted.actions_known ok member with known | ⟨actions, admitted⟩
        · exact Or.inl known
        · right
          obtain ⟨_, heads, _⟩ := acted
          rw [admitted] at heads
          generalize action.conn = newcomer at heads ⊢
          cases heads
          rfl

theorem Effect.was_there (effect : Effect order hub call reply hub') (ok : hub.Ok)
    (ok' : hub'.Ok) (found' : hub'.conn? account id = some c') (admitted : id < hub.nextConn) :
    ∃ c, hub.conn? account id = some c := by
  cases effect.fate ok ok' found' with
  | rest before => exact ⟨c', before⟩
  | took acct before taken rest took => exact ⟨before, took.there⟩
  | lived head tail fx before lived => exact ⟨before, lived.there⟩
  | born hello newcomer mid tail born =>
      exact absurd (born.id_eq ▸ admitted) (Nat.lt_irrefl _)

end Fates

section Handed

variable {step : Step} {id : ConnId}

theorem Step.handed_of_others (others : step.call.conn? ≠ some id) :
    step.handed id = [] := by
  unfold handed
  split
  · rename_i conn budget isTake
    rw [isTake] at others
    exact if_neg fun same => others (congrArg some same)
  · rfl

theorem Step.handed_of_frames (nothing : step.reply.frames = []) :
    step.handed id = [] := by
  unfold handed
  split
  · simp [nothing]
  · rfl

theorem Step.handed_of_took [Codec] {account : AccountId} {acct : Account}
    {c : Conn} {taken rest : List Item}
    (took : Took step.before step.call step.reply step.after account id acct c
      taken rest) :
    step.handed id = (Outbound.handOut c.out.dropped taken).1 := by
  obtain ⟨budget, isTake⟩ := took.call_eq
  simp [handed, isTake, took.reply_eq, Reply.frames]

theorem Effect.nextConn_le [Codec] {order : HashOrder} {hub hub' : Hub}
    {call : Call} {reply : Reply} (effect : Effect order hub call reply hub') :
    hub.nextConn ≤ hub'.nextConn := by
  cases effect with
  | idle unknown same noActions noFrames noAdmission => rw [same]
  | took account conn acct c taken rest took => rw [took.hub_eq]; rfl
  | acted account head mid fx left wake acted =>
      rw [acted.nextConn_eq]
      exact Nat.le_add_right _ _

theorem Effect.admitted_eq [Codec] {order : HashOrder} {hub hub' : Hub} {call : Call}
    {id : ConnId} {actions : List Action}
    (effect : Effect order hub call (.admitted id actions) hub') : id = hub.nextConn := by
  generalize answered : Reply.admitted id actions = reply at effect
  cases effect with
  | idle unknown same noActions noFrames noAdmission =>
      subst answered
      cases noAdmission
  | took account conn acct c taken rest took =>
      rw [took.reply_eq] at answered
      cases answered
  | acted account head mid fx left wake acted =>
      have heads := acted.heads
      cases heads <;> cases answered
      rfl

/-- Nothing is handed to a connection before it is admitted. -/
theorem Run.handed_unborn [Codec] {start hub : Hub} {steps : List Step}
    (ok : start.Ok) (run : Run start steps hub)
    (unborn : hub.nextConn ≤ id) : handed id steps = [] := by
  refine run.induct (fun steps hub => hub.nextConn ≤ id →
    handed id steps = []) ok (fun _ => rfl) ?_ unborn
  intro earlier step _ beforeOk _ effect _ before unbornAfter
  have unbornBefore := effect.nextConn_le.trans unbornAfter
  rw [handed_append, before unbornBefore, handed_cons, handed_nil]
  have nothing : step.handed id = [] := by
    cases effect with
    | idle unknown same noActions noFrames noAdmission =>
        exact Step.handed_of_frames noFrames
    | took account conn acct c taken rest took =>
        apply Step.handed_of_others
        obtain ⟨budget, isTake⟩ := took.call_eq
        rw [isTake]
        rintro ⟨rfl⟩
        have known := beforeOk.fresh id (HashMap.mem_of_lookup took.known)
        exact Nat.lt_irrefl _ (Nat.lt_of_lt_of_le known unbornBefore)
    | acted account head mid fx left wake acted =>
        exact Step.handed_of_frames acted.frames_eq
  simp [nothing]

end Handed

end WindowMlHub
