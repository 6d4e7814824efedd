import WindowMlHub.RelayLives

/-!
# Rings over a run

What one call does to the rings of an account.  A ring keeps its kind and its
epoch for as long as it exists, its counter never goes back, and it goes up by
one exactly in the calls that publish on its stream.  So what was published on a
stream can be read off the calls and the rings before and after them.
-/

namespace WindowMlHub

open CheckedEvaluation HashTables

/-- What a call did to one account. -/
inductive Course [Codec] (order : HashOrder) (hub : Hub) (call : Call)
    (reply : Reply) (hub' : Hub) (account : AccountId) : Prop
  | still (same : hub.Undisturbed account hub')
  | acted (head tail : List Event) (fx fx' : Effects)
      (heads : Heads order hub account fx (hub'.ring? account) call reply
        head)
      (departures : ∀ event ∈ tail, ∃ other principal role,
        event = .left other principal role)
      (acts : Acts hub.limits (hub.record account) {} (head ++ tail)
        (hub'.record account) fx')

/-- Every call leaves an account undisturbed or goes through its events. -/
theorem Effect.course [Codec] {order : HashOrder} {hub hub' : Hub}
    {call : Call} {reply : Reply}
    (effect : Effect order hub call reply hub') (account : AccountId) :
    Course order hub call reply hub' account := by
  have untouched (same : hub'.accounts.lookup account =
      hub.accounts.lookup account) : hub.Undisturbed account hub' := by
    apply Hub.Undisturbed.of_record
    rw [Hub.record, Hub.record, same]
  cases effect with
  | idle unknown same noActions noFrames noAdmission =>
      exact .still (untouched (by rw [same]))
  | took other conn acct c taken rest took =>
      by_cases same : account = other
      · subst same
        exact .still took.undisturbed
      · apply Course.still
        apply untouched
        rw [took.hub_eq]
        exact (hub.within_setAccount other _).others account same
  | acted other head mid fx left wake acted =>
      by_cases same : account = other
      · subst same
        obtain ⟨tail, fx', tailActs, departures, _⟩ :=
          acted.settles.tail_acts
        refine .acted head tail fx fx' acted.heads ?_
          (acted.settles.head_acts.trans tailActs)
        intro event member
        obtain ⟨entry, _, principal, role, isLeft⟩ := departures.of_mem member
        exact ⟨entry.1, principal, role, isLeft⟩
      · exact .still (untouched (acted.settles.beside.others account same))

/-- The envelope a ring makes of one it is given. -/
def Ring.stamped (ring : Ring) (env : Envelope) : Envelope :=
  { env with seq := ring.seq + 1, epoch := ring.epoch }

/-- The envelope an event publishes on a stream. -/
def Event.publication (key : StreamKey) : Event → Option Envelope
  | .published other ring env =>
      if other = key then some (ring.stamped env) else none
  | _ => none

/-- The counter of a stream's ring, 0 when there is none. -/
def Hub.newestSeq (hub : Hub) (account : AccountId) (key : StreamKey) : Nat :=
  ((hub.ring? account key).map fun ring => ring.seq).getD 0

/-- The envelope a call published on a stream of an account: one that the
publisher sent to the channel and that moved the ring's counter, as the ring
stamped it. -/
def Step.publication (step : Step) (account : AccountId) (key : StreamKey) :
    Option Envelope :=
  match step.call with
  | .receive conn ⟨some (.envelope env)⟩ =>
      (step.before.conn? account conn).bind fun peer =>
        (step.after.ring? account key).bind fun ring =>
          if peer.principal = key.publisher ∧
              env.sentTo = some (.channel key.channel) ∧
              step.before.newestSeq account key < ring.seq then
            some { env.fromSender peer.principal with
              seq := ring.seq
              epoch := ring.epoch }
          else
            none
  | _ => none

/-- The same ring at a later time. -/
structure Ring.Precedes (before after : Ring) : Prop where
  kind_eq : after.kind = before.kind
  epoch_eq : after.epoch = before.epoch
  seq_le : before.seq ≤ after.seq

theorem Ring.Precedes.refl (ring : Ring) : ring.Precedes ring :=
  ⟨rfl, rfl, Nat.le_refl _⟩

theorem Ring.Precedes.trans {first second third : Ring}
    (earlier : first.Precedes second) (later : second.Precedes third) :
    first.Precedes third :=
  ⟨later.kind_eq.trans earlier.kind_eq, later.epoch_eq.trans earlier.epoch_eq,
    earlier.seq_le.trans later.seq_le⟩

section Rings

variable [Codec] {limits : Limits} {acct acct' : Account} {fx fx' : Effects}
  {events : List Event} {event : Event} {key : StreamKey} {ring : Ring}

/-- The ring of a stream that somebody hears is not given up. -/
theorem Act.ring_heard (act : Act limits acct fx event acct' fx')
    (found : acct.ring? key = some ring) (heard : ¬ acct.Unheard key) :
    ∃ ring', acct'.ring? key = some ring' ∧ ring.Precedes ring' := by
  by_cases published : ∃ ring env, event = .published key ring env
  · obtain ⟨stamping, env, isPublished⟩ := published
    obtain ⟨same | ⟨missing, _⟩, ring', found', advanced⟩ :=
      act.ring_published isPublished
    · obtain rfl : ring = stamping := Option.some.inj (found.symm.trans same)
      exact ⟨ring', found', advanced.kind_eq, advanced.epoch_eq,
        advanced.seq_eq ▸ Nat.le_succ _⟩
    · rw [found] at missing
      cases missing
  · push Not at published
    rcases act.ring_kept key published with
      ⟨_, missing | unheard⟩ | ⟨old, ring', oldFound, found', trimmed⟩
    · rw [found] at missing
      cases missing
    · exact (heard unheard).elim
    · obtain rfl : ring = old := Option.some.inj (found.symm.trans oldFound)
      exact ⟨ring', found', trimmed.kind_eq, trimmed.epoch_eq,
        trimmed.seq_eq.ge⟩

/-- Without a publication on the stream its ring is given up or keeps all but
its oldest entries. -/
theorem Acts.ring_kept (acts : Acts limits acct fx events acct' fx')
    (silent : ∀ ring env, .published key ring env ∉ events) :
    acct'.ring? key = none ∨
      ∃ ring ring', acct.ring? key = some ring ∧
        acct'.ring? key = some ring' ∧ ring.Trimmed ring' := by
  have step {before after : Account} {fx₁ fx₂ : Effects} {event : Event}
      (act : Act limits before fx₁ event after fx₂)
      (other : ∀ ring env, event ≠ .published key ring env)
      (earlier : before.ring? key = none ∨
        ∃ ring ring', acct.ring? key = some ring ∧
          before.ring? key = some ring' ∧ ring.Trimmed ring') :
      after.ring? key = none ∨
        ∃ ring ring', acct.ring? key = some ring ∧
          after.ring? key = some ring' ∧ ring.Trimmed ring' := by
    rcases act.ring_kept key other with
      ⟨gone, _⟩ | ⟨ring, ring', found, found', trimmed⟩
    · exact Or.inl gone
    · rcases earlier with gone | ⟨first, middle, firstFound, middleFound, old⟩
      · simp [gone] at found
      · obtain rfl : middle = ring :=
          Option.some.inj (middleFound.symm.trans found)
        exact Or.inr ⟨first, ring', firstFound, found', old.trans trimmed⟩
  induction acts with
  | done =>
      cases found : acct.ring? key with
      | none => exact Or.inl rfl
      | some ring => exact Or.inr ⟨ring, ring, rfl, rfl, .refl ring⟩
  | quiet acts act ih =>
      exact step act (fun _ _ absurdity => by cases absurdity) (ih silent)
  | event acts act ih =>
      exact step act
        (fun ring env same => silent ring env (by simp [same]))
        (ih fun ring env member => silent ring env (by simp [member]))

end Rings

section Publications

variable [Codec] {step : Step} {account : AccountId} {key : StreamKey}

omit [Codec] in
theorem Step.publication_eq_none
    (still : ∀ ring, step.after.ring? account key = some ring →
      ring.seq ≤ step.before.newestSeq account key) :
    step.publication account key = none := by
  unfold publication
  split
  · cases step.before.conn? account _ with
    | none => rfl
    | some peer =>
        cases found : step.after.ring? account key with
        | none => rfl
        | some ring =>
            have := still ring found
            simp only [Option.bind_some]
            rw [if_neg]
            omega
  · rfl

omit [Codec] in
theorem Hub.newestSeq_of_ring? {hub : Hub} {ring : Ring}
    (found : hub.ring? account key = some ring) :
    hub.newestSeq account key = ring.seq := by
  simp [newestSeq, found]

theorem Step.publication_of_silent {events : List Event} {fx fx' : Effects}
    {limits : Limits}
    (acts : Acts limits (step.before.record account) fx events
      (step.after.record account) fx')
    (silent : ∀ ring env, .published key ring env ∉ events) :
    step.publication account key = none := by
  apply publication_eq_none
  intro ring found
  rcases acts.ring_kept silent with gone | ⟨old, ring', before, after, trimmed⟩
  · rw [Hub.ring?, gone] at found
    cases found
  · rw [Hub.ring?, after] at found
    cases found
    rw [Hub.newestSeq_of_ring? before, trimmed.seq_eq]

/-- A publication comes from the publisher itself, which sent it to the
channel, and the stream's ring has stamped it. -/
structure Publishing (hub : Hub) (rings : StreamKey → Option Ring)
    (account : AccountId) (call : Call) (key : StreamKey) (ring : Ring)
    (conn : ConnId) (peer : Conn) (original : Envelope) : Prop where
  call_eq : call = .receive conn (.of (.envelope original))
  found : hub.conn? account conn = some peer
  publisher_eq : peer.principal = key.publisher
  addressed : original.sentTo = some (.channel key.channel)
  origin : hub.ring? account key = some ring ∨
    hub.ring? account key = none ∧ ring.Fresh
  advanced : ∃ next, rings key = some next ∧
    ring.Advanced (original.fromSender peer.principal) next
  kind_eq : ring.kind = Kind.ofInt original.kind
  streamed : ring.kind.Streamed
  fits : original.Fits hub.limits
  room : (hub.record account).RoomFor hub.limits key

/-- Only the receipt of an envelope publishes, and then it does nothing else. -/
theorem Heads.published_eq {order : HashOrder} {hub : Hub} {fx : Effects}
    {rings : StreamKey → Option Ring} {call : Call} {reply : Reply}
    {head : List Event} {ring : Ring} {env : Envelope}
    (heads : Heads order hub account fx rings call reply head)
    (member : .published key ring env ∈ head) :
    head = [.published key ring env] ∧
      ∃ conn peer original, env = original.fromSender peer.principal ∧
        Publishing hub rings account call key ring conn peer original := by
  cases heads with
  | received found routed =>
      cases routed with
      | published addressed origin advanced kind streamed fits room =>
          simp only [List.mem_singleton, Event.published.injEq] at member
          obtain ⟨rfl, rfl, rfl⟩ := member
          exact ⟨rfl, _, _, _, rfl, ⟨rfl, by rw [hub.conn?_eq]; exact found,
            rfl, addressed, origin, advanced, kind, streamed, fits, room⟩⟩
      | _ => simp at member
  | _ => simp at member

/-- Only a request to subscribe subscribes. -/
theorem Heads.subscribed_eq {order : HashOrder} {hub : Hub} {fx : Effects}
    {rings : StreamKey → Option Ring} {call : Call} {reply : Reply}
    {head : List Event} {target : ConnId} {since : Option Position}
    {ring : Option Ring}
    (heads : Heads order hub account fx rings call reply head)
    (member : .subscribed target key since ring ∈ head) :
    head = [.subscribed target key since ring] ∧
      ring = hub.ring? account key ∧ key.Valid hub.limits ∧
      ∃ frame, call = .receive target frame ∧
        frame.subscription? = some (key, since) := by
  cases heads with
  | received found routed =>
      cases routed with
      | subscribed asked valid =>
          simp only [List.mem_singleton, Event.subscribed.injEq] at member
          obtain ⟨rfl, rfl, rfl, rfl⟩ := member
          exact ⟨rfl, rfl, valid, _, rfl, asked⟩
      | _ => simp at member
  | _ => simp at member

theorem Heads.unsubscribed_eq {order : HashOrder} {hub : Hub} {fx : Effects}
    {rings : StreamKey → Option Ring} {call : Call} {reply : Reply}
    {head : List Event} {target : ConnId}
    (heads : Heads order hub account fx rings call reply head)
    (member : .unsubscribed target key ∈ head) :
    head = [.unsubscribed target key] ∧
      ∃ frame, call = .receive target frame ∧
        frame.unsubscription? = some key := by
  cases heads with
  | received found routed =>
      cases routed with
      | unsubscribed asked =>
          simp only [List.mem_singleton, Event.unsubscribed.injEq] at member
          obtain ⟨rfl, rfl⟩ := member
          exact ⟨rfl, _, rfl, asked⟩
      | _ => simp at member
  | _ => simp at member

section Asking

variable {order : HashOrder} {hub hub' : Hub} {call : Call} {reply : Reply} {id target : ConnId}
  {head tail : List Event} {fx : Effects} {c c' : Conn}

theorem Lived.subscribed_eq {since : Option Position} {ring : Option Ring}
    (lived : Lived order hub call reply hub' account id head tail fx c c')
    (member : .subscribed target key since ring ∈ head ++ tail) :
    key.Valid hub.limits ∧
      ∃ frame, call = .receive target frame ∧ frame.subscription? = some (key, since) := by
  rcases List.mem_append.mp member with inHead | inTail
  · exact (lived.heads.subscribed_eq inHead).2.2
  · obtain ⟨_, _, _, absurdity⟩ := lived.departures _ inTail
    cases absurdity

theorem Lived.unsubscribed_eq
    (lived : Lived order hub call reply hub' account id head tail fx c c')
    (member : .unsubscribed target key ∈ head ++ tail) :
    ∃ frame, call = .receive target frame ∧ frame.unsubscription? = some key := by
  rcases List.mem_append.mp member with inHead | inTail
  · exact (lived.heads.unsubscribed_eq inHead).2
  · obtain ⟨_, _, _, absurdity⟩ := lived.departures _ inTail
    cases absurdity

end Asking

/-- A direct envelope that a connection of the account sends to the principal
behind `target`. -/
structure Directing (hub : Hub) (account : AccountId) (call : Call)
    (target : ConnId) (principal : Bytes) (conn : ConnId) (peer : Conn)
    (original : Envelope) : Prop where
  call_eq : call = .receive conn (.of (.envelope original))
  found : hub.conn? account conn = some peer
  addressed : original.sentTo = some (.principal principal)
  directed : (Kind.ofInt original.kind).Directed
  online : ∃ role,
    (hub.record account).online.lookup principal = some (target, role)
  fits : original.Fits hub.limits

/-- A frame that a call offers to one connection says nothing about streams or
presence, or it is a direct envelope, or it was to be delivered. -/
theorem Heads.frame_eq {order : HashOrder} {hub : Hub} {fx : Effects}
    {rings : StreamKey → Option Ring} {call : Call} {reply : Reply}
    {head : List Event} {target : ConnId} {frame : Frame}
    (heads : Heads order hub account fx rings call reply head)
    (member : .frame target frame ∈ head) :
    frame.Plain ∨ call = .deliver target frame ∨
      ∃ principal conn peer original,
        frame = .of (.envelope (original.fromSender peer.principal)) ∧
        Directing hub account call target principal conn peer original := by
  cases heads with
  | received found routed =>
      rw [← hub.conn?_eq] at found
      cases routed with
      | answered plain =>
          simp only [List.mem_singleton, Event.frame.injEq] at member
          exact Or.inl (member.2 ▸ plain)
      | direct addressed directed online fits =>
          simp only [List.mem_singleton, Event.frame.injEq] at member
          obtain ⟨rfl, rfl⟩ := member
          exact Or.inr (Or.inr ⟨_, _, _, _, rfl, rfl, found, addressed,
            directed, ⟨_, online⟩, fits⟩)
      | undelivered addressed directed online plain fits =>
          simp only [List.mem_cons, Event.frame.injEq, List.not_mem_nil,
            or_false] at member
          rcases member with ⟨rfl, rfl⟩ | ⟨_, rfl⟩
          · exact Or.inr (Or.inr ⟨_, _, _, _, rfl, rfl, found, addressed,
              directed, ⟨_, online⟩, fits⟩)
          · exact Or.inl plain
      | _ => simp at member
  | delivered =>
      simp only [List.mem_singleton, Event.frame.injEq] at member
      obtain ⟨rfl, rfl⟩ := member
      exact Or.inr (Or.inl rfl)
  | throttled =>
      simp only [List.mem_singleton, Event.frame.injEq] at member
      rw [member.2]
      exact Or.inl (errorFrame_plain _ _ _)
  | _ => simp at member

/-- What a call offers to a connection that it is not about is an envelope. -/
theorem Heads.frame_others {order : HashOrder} {hub : Hub} {fx : Effects}
    {rings : StreamKey → Option Ring} {call : Call} {reply : Reply}
    {head : List Event} {target : ConnId} {frame : Frame}
    (heads : Heads order hub account fx rings call reply head)
    (member : .frame target frame ∈ head) (others : call.conn? ≠ some target) :
    ∃ env, frame = .of (.envelope env) := by
  have isNot {conn : ConnId} (about : call.conn? = some conn) : target ≠ conn :=
    fun same => others (same ▸ about)
  cases heads with
  | received found routed =>
      cases routed with
      | answered plain => simp [isNot rfl] at member
      | direct addressed directed online fits =>
          simp only [List.mem_singleton, Event.frame.injEq] at member
          exact ⟨_, member.2⟩
      | undelivered addressed directed online plain fits =>
          simp only [List.mem_cons, Event.frame.injEq, isNot rfl, false_and,
            List.not_mem_nil, or_false] at member
          exact ⟨_, member.2⟩
      | _ => simp at member
  | delivered => simp [isNot rfl] at member
  | throttled => simp [isNot rfl] at member
  | _ => simp at member

/-- What a call published on a stream is what its events published on it. -/
theorem Step.publication_eq {head tail : List Event} {fx fx' : Effects}
    (heads : Heads step.order step.before account fx
      (step.after.ring? account) step.call step.reply head)
    (departures : ∀ event ∈ tail, ∃ other principal role,
      event = .left other principal role)
    (acts : Acts step.before.limits (step.before.record account) {}
      (head ++ tail) (step.after.record account) fx') :
    (head ++ tail).filterMap (Event.publication key) =
      (step.publication account key).toList := by
  have noneInTail (ring : Ring) (env : Envelope) :
      .published key ring env ∉ tail := by
    intro member
    obtain ⟨_, _, _, absurdity⟩ := departures _ member
    cases absurdity
  by_cases publishes : ∃ ring env, .published key ring env ∈ head
  · obtain ⟨ring, env, member⟩ := publishes
    obtain ⟨rfl, conn, peer, original, rfl, publishing⟩ :=
      heads.published_eq member
    obtain ⟨next, nextFound, advanced⟩ := publishing.advanced
    have older : step.before.newestSeq account key < ring.seq + 1 := by
      rcases publishing.origin with found | ⟨missing, fresh⟩
      · rw [Hub.newestSeq_of_ring? found]
        exact Nat.lt_succ_self _
      · simp [Hub.newestSeq, missing]
    have tailSilent : tail.filterMap (Event.publication key) = [] := by
      rw [List.filterMap_eq_nil_iff]
      intro event eventMember
      obtain ⟨_, _, _, rfl⟩ := departures event eventMember
      rfl
    have published : step.publication account key =
        some (ring.stamped (original.fromSender peer.principal)) := by
      unfold publication
      rw [publishing.call_eq]
      simp [Frame.of, publishing.found, nextFound, publishing.publisher_eq,
        publishing.addressed, older, Ring.stamped, advanced.seq_eq,
        advanced.epoch_eq]
    rw [List.filterMap_append, tailSilent, published]
    simp [Event.publication]
  · push Not at publishes
    have silent (ring : Ring) (env : Envelope) :
        .published key ring env ∉ head ++ tail := by
      rw [List.mem_append, not_or]
      exact ⟨publishes ring env, noneInTail ring env⟩
    rw [publication_of_silent acts silent, Option.toList_none,
      List.filterMap_eq_nil_iff]
    intro event member
    cases event with
    | published other ring env =>
        rw [Event.publication, if_neg]
        rintro rfl
        exact silent ring env member
    | _ => rfl

/-- A ring that is there after a call was there before it, or the call has published on
it. -/
theorem Course.ring_came {order : HashOrder} {hub hub' : Hub} {call : Call}
    {reply : Reply} {ring' : Ring}
    (course : Course order hub call reply hub' account)
    (found' : hub'.ring? account key = some ring') :
    (∃ ring, hub.ring? account key = some ring ∧ ring.Precedes ring') ∨
      ∃ stamping conn peer original,
        Publishing hub (hub'.ring? account) account call key stamping conn peer
          original ∧ stamping.Precedes ring' := by
  cases course with
  | still same =>
      rw [same.ring?_eq] at found'
      exact Or.inl ⟨ring', found', .refl ring'⟩
  | acted head tail fx fx' heads departures acts =>
      by_cases publishes : ∃ stamping env,
          .published key stamping env ∈ head
      · obtain ⟨stamping, env, member⟩ := publishes
        obtain ⟨_, conn, peer, original, _, publishing⟩ :=
          heads.published_eq member
        obtain ⟨next, nextFound, advanced⟩ := publishing.advanced
        obtain rfl : next = ring' :=
          Option.some.inj (nextFound.symm.trans found')
        exact Or.inr ⟨stamping, conn, peer, original, publishing,
          advanced.kind_eq, advanced.epoch_eq, advanced.seq_eq ▸ Nat.le_succ _⟩
      · push Not at publishes
        have silent (stamping : Ring) (env : Envelope) :
            .published key stamping env ∉ head ++ tail := by
          rw [List.mem_append, not_or]
          refine ⟨publishes stamping env, fun member => ?_⟩
          obtain ⟨_, _, _, absurdity⟩ := departures _ member
          cases absurdity
        rcases acts.ring_kept silent with
          gone | ⟨old, new, oldFound, newFound, trimmed⟩
        · rw [Hub.ring?, gone] at found'
          cases found'
        · obtain rfl : new = ring' :=
            Option.some.inj (newFound.symm.trans found')
          exact Or.inl ⟨old, oldFound, trimmed.kind_eq, trimmed.epoch_eq,
            trimmed.seq_eq.ge⟩

theorem Course.ring_precedes {order : HashOrder} {hub hub' : Hub}
    {call : Call} {reply : Reply} {ring ring' : Ring}
    (course : Course order hub call reply hub' account)
    (found : hub.ring? account key = some ring)
    (found' : hub'.ring? account key = some ring') : ring.Precedes ring' := by
  rcases course.ring_came found' with
    ⟨old, oldFound, precedes⟩ | ⟨stamping, _, _, _, publishing, precedes⟩
  · obtain rfl : ring = old := Option.some.inj (found.symm.trans oldFound)
    exact precedes
  · rcases publishing.origin with same | ⟨missing, _⟩
    · obtain rfl : ring = stamping := Option.some.inj (found.symm.trans same)
      exact precedes
    · rw [found] at missing
      cases missing

omit [Codec] in
/-- What a publication says about its envelope. -/
theorem Step.publication_eq_some {env : Envelope}
    (published : step.publication account key = some env) :
    ∃ conn peer original ring,
      step.call = .receive conn (.of (.envelope original)) ∧
      step.before.conn? account conn = some peer ∧
      step.after.ring? account key = some ring ∧
      peer.principal = key.publisher ∧
      original.sentTo = some (.channel key.channel) ∧
      step.before.newestSeq account key < ring.seq ∧
      env = { original.fromSender peer.principal with
        seq := ring.seq
        epoch := ring.epoch } := by
  unfold publication at published
  split at published
  · rename_i conn original isReceive
    obtain ⟨peer, peerFound, published⟩ :=
      Option.bind_eq_some_iff.mp published
    obtain ⟨ring, ringFound, published⟩ :=
      Option.bind_eq_some_iff.mp published
    split at published
    · rename_i conditions
      obtain ⟨publisher, addressed, newer⟩ := conditions
      exact ⟨conn, peer, original, ring, isReceive, peerFound, ringFound,
        publisher, addressed, newer, (Option.some.inj published).symm⟩
    · cases published
  · cases published

theorem Run.ring_precedes {start hub : Hub} {steps : List Step} {ring : Ring}
    (ok : start.Ok) (run : Run start steps hub)
    (stays : ∀ step ∈ steps, step.after.ring? account key ≠ none)
    (found : start.ring? account key = some ring) :
    ∃ ring', hub.ring? account key = some ring' ∧ ring.Precedes ring' := by
  refine run.induct (fun _ now => ∃ ring', now.ring? account key = some ring' ∧
    ring.Precedes ring') ok ⟨ring, found, .refl ring⟩ ?_
  rintro earlier step _ _ _ effect member ⟨middle, middleFound, precedes⟩
  obtain ⟨ring', found'⟩ := Option.ne_none_iff_exists'.mp (stays step member)
  exact ⟨ring', found', precedes.trans
    ((effect.course account).ring_precedes middleFound found')⟩

/-- A ring gives no two envelopes the same number. -/
theorem Run.publication_lt {start hub : Hub}
    {earlier between later : List Step} {first second : Step}
    {env env' : Envelope} (ok : start.Ok)
    (run : Run start (earlier ++ first :: (between ++ second :: later)) hub)
    (published : first.publication account key = some env)
    (published' : second.publication account key = some env')
    (stays : ∀ step ∈ between, step.after.ring? account key ≠ none) :
    env.epoch = env'.epoch ∧ env.seq < env'.seq := by
  obtain ⟨before, earlierRun, rest⟩ := run.split
  obtain ⟨rfl, firstRun, rest⟩ := rest.uncons
  obtain ⟨middle, betweenRun, rest⟩ := rest.split
  obtain ⟨rfl, secondRun, _⟩ := rest.uncons
  have beforeOk := (earlierRun.forall_steps ok).1
  have afterOk := (firstRun.forall_steps beforeOk).1
  have secondOk := (betweenRun.forall_steps afterOk).1
  obtain ⟨_, _, _, ring, _, _, found, _, _, _, rfl⟩ :=
    Step.publication_eq_some published
  obtain ⟨_, _, _, last, _, _, lastFound, _, _, newer, rfl⟩ :=
    Step.publication_eq_some published'
  obtain ⟨middleRing, middleFound, precedes⟩ :=
    betweenRun.ring_precedes afterOk stays found
  obtain ⟨_, _, effect⟩ := (secondRun.forall_steps secondOk).2 second (by simp)
  have onward := (effect.course account).ring_precedes middleFound lastFound
  rw [Hub.newestSeq_of_ring? middleFound] at newer
  refine ⟨(onward.epoch_eq.trans precedes.epoch_eq).symm, ?_⟩
  have := precedes.seq_le
  simp only
  omega

end Publications

end WindowMlHub
