import WindowMlHub.MessageCharges
import WindowMlHub.RelayWork
import WindowMlHub.ServerWriters
import WindowMlHub.SharedDebts

/-!
# The tasks that read

Every connection has a task that reads from its socket (`connection`).  It takes a message
apart into chunks and has the account charged for each; when the account is in debt then,
the task sleeps until what is owed would be earned, and only then hands the chunk over and
goes on.  The tasks of an account share its bucket, and what a chunk makes the relay queue
is charged as well, without a wait.

So the debt of an account is that of one chunk for each of its connections, whoever keeps
sending: `SharedDebts` has the argument, with the connections as payers.  A handshake is
charged without a wait, and refused above a second of debt.
-/

namespace WindowMlHub

open CheckedEvaluation HashTables SharedDebts

/-- How far a task that reads has come. -/
inductive ReaderPhase
  /-- has these chunks of a message left, or waits for the next message -/
  | reading (chunks : List ReadChunk)
  /-- has read the clock for a chunk -/
  | timed (nowMs : Nat) (chunk : ReadChunk) (rest : List ReadChunk)
  /-- sleeps before it hands over the frames of a chunk -/
  | asleep (wakeMs : Nat) (unsent : List Frame) (rest : List ReadChunk)
  | ended

/-- A shard with the tasks that read from its connections. -/
structure ReadingShard where
  hub : Hub
  clockMs : Nat
  readers : HashMap ConnId ReaderPhase := ∅

/-- What happens to a shard.  What a task does while it holds the lock is one step. -/
inductive ReadingMove
  | tick (clockMs : Nat)
  /-- a hello of so many bytes, with the frames that rode along -/
  | connect (arrival : HelloArrival) (bytes : Nat) (frames : List Frame)
  /-- a message comes in -/
  | message (conn : ConnId) (bytes : Nat) (frames : List Frame)
  /-- a task reads the clock for its next chunk -/
  | look (conn : ConnId)
  /-- has the account charged, and hands the chunk over if nothing is owed -/
  | charge (conn : ConnId) (order : HashOrder) (orders : Nat → HashOrder)
  /-- has slept long enough, and hands the chunk over -/
  | wake (conn : ConnId) (orders : Nat → HashOrder)
  /-- stops: closes its connection with a reason if it has one, and in a later step without -/
  | leave (conn : ConnId) (order : HashOrder) (frame : Option Frame)
  /-- an answer about a pairing -/
  | deliver (conn : ConnId) (order : HashOrder) (frame : Frame)
  /-- the task that writes takes what is queued -/
  | take (conn : ConnId) (budget : Nat)

/-- The frames of a chunk that the relay sees. -/
def ReadChunk.unsent (chunk : ReadChunk) : List Frame :=
  chunk.frames.filter fun frame => frame.slotCall?.isNone

/-- The calls that hand frames over. -/
def receives (conn : ConnId) (orders : Nat → HashOrder) (frames : List Frame) :
    List (HashOrder × ShardCall) :=
  frames.mapIdx fun place frame => (orders place, .receive conn frame)

/-- The largest message that a socket takes. -/
def Limits.maxMessageBytes [Platform] (limits : Limits) : Nat :=
  usizeSaturatingMul limits.maxFrameBytes 4

namespace ReadingShard

/-- Replace the phase of a task. -/
def put (shard : ReadingShard) (conn : ConnId) (phase : ReaderPhase) : ReadingShard :=
  { shard with readers := shard.readers.insert conn phase }

variable [Codec] [Platform]

/-- Hand frames over. -/
def handOver (shard : ReadingShard) (conn : ConnId) (orders : Nat → HashOrder)
    (frames : List Frame) (rest : List ReadChunk) : Checked ReadingShard := do
  let (hub, _) ← shard.hub.callAll (receives conn orders frames)
  return { shard with hub }.put conn (.reading rest)

/-- Have the account charged for a chunk. -/
def charge (shard : ReadingShard) (conn : ConnId) (order : HashOrder)
    (orders : Nat → HashOrder) (nowMs : Nat) (chunk : ReadChunk) (rest : List ReadChunk) :
    Checked ReadingShard := do
  let (hub, wait, _) ← shard.hub.charge order conn chunk.cost nowMs
  let charged := { shard with hub }
  if wait > 0 then
    return charged.put conn (.asleep (shard.clockMs + wait) chunk.unsent rest)
  else
    charged.handOver conn orders chunk.unsent rest

/-- `Shared::connect`, and the task that it leads to. -/
def connect (shard : ReadingShard) (arrival : HelloArrival) (bytes : Nat)
    (frames : List Frame) : Checked ReadingShard := do
  match ← shard.hub.connect arrival.order arrival.account arrival.hello arrival.nowMs
      arrival.monoMs arrival.revoker with
  | (hub, .error _) => return { shard with hub }
  | (hub, .ok (id, _)) => do
      let chunks ← messageChunks bytes frames
      return { shard with hub }.put id (.reading chunks)

/-- One step. -/
def step (shard : ReadingShard) : ReadingMove → Checked ReadingShard
  | .tick clockMs => .ok { shard with clockMs := max shard.clockMs clockMs }
  | .connect arrival bytes frames =>
      if arrival.monoMs = shard.clockMs ∧ bytes ≤ shard.hub.limits.maxMessageBytes then
        shard.connect arrival bytes frames
      else .ok shard
  | .message conn bytes frames =>
      match shard.readers.lookup conn with
      | some (.reading []) =>
          if bytes ≤ shard.hub.limits.maxMessageBytes then do
            let chunks ← messageChunks bytes frames
            return shard.put conn (.reading chunks)
          else .ok shard
      | _ => .ok shard
  | .look conn =>
      match shard.readers.lookup conn with
      | some (.reading (chunk :: rest)) =>
          .ok (shard.put conn (.timed shard.clockMs chunk rest))
      | _ => .ok shard
  | .charge conn order orders =>
      match shard.readers.lookup conn with
      | some (.timed nowMs chunk rest) => shard.charge conn order orders nowMs chunk rest
      | _ => .ok shard
  | .wake conn orders =>
      match shard.readers.lookup conn with
      | some (.asleep wakeMs unsent rest) =>
          if wakeMs ≤ shard.clockMs then shard.handOver conn orders unsent rest
          else .ok shard
      | _ => .ok shard
  | .leave conn order frame => do
      let (hub, _) ← shard.hub.close order conn frame
      return { shard with hub }.put conn .ended
  | .deliver conn order frame => do
      let (hub, _) ← shard.hub.deliver order conn frame
      return { shard with hub }
  | .take conn budget => do
      let (hub, _) ← shard.hub.takeOutbound conn budget
      return { shard with hub }

/-- Steps, one after another. -/
def run (shard : ReadingShard) : List ReadingMove → Checked ReadingShard
  | [] => .ok shard
  | move :: rest => do
      let next ← shard.step move
      next.run rest

end ReadingShard

/-! ## What an account may owe -/

section Amounts

variable [Platform]

/-- The most that is charged for a chunk, in bytes. -/
def Limits.mostCharged (limits : Limits) : Nat :=
  limits.maxMessageBytes + receiveChunk * frameCostBytes

/-- The most that is charged for what a chunk makes the relay queue. -/
def Limits.mostCaused (limits : Limits) : Nat :=
  receiveChunk * (limits.mostQueued * frameCostBytes)

/-- The most that a connection leaves: a chunk, and what this chunk and the one before it
made the relay queue. -/
def Limits.mostOwed (limits : Limits) : Nat :=
  limits.mostCharged + 2 * limits.mostCaused

/-- The most that an account owes, in bytes: a second of work and a handshake, and what each
of its connections leaves. -/
def Limits.mostDebt (limits : Limits) : Nat :=
  limits.accountBytesPerSecond + connectCostBytes +
    limits.maxConnectionsPerAccount * limits.mostOwed

/-- The longest that a connection is not read from. -/
def Limits.mostWaitMs (limits : Limits) : Nat :=
  (limits.mostDebt * 1000 + limits.accountBytesPerSecond - 1) / limits.accountBytesPerSecond

end Amounts

/-- What bytes are in the units of a bucket. -/
def milli (bytes : Nat) : Int :=
  bytes * 1000

theorem milli_nonneg (bytes : Nat) : 0 ≤ milli bytes :=
  Int.mul_nonneg (Int.natCast_nonneg _) (by decide)

theorem milli_mono {fewer more : Nat} (le : fewer ≤ more) : milli fewer ≤ milli more := by
  unfold milli
  omega

/-- The turn of a connection. -/
abbrev ReadTurn := Turn ConnId Nat Int

/-- A connection has caused no more than this since its last charge, and has waited by a
time. -/
structure Heeds (mostCaused : Int) (dueMs : Nat) (turn : ReadTurn) : Prop where
  caused_le : turn.caused ≤ mostCaused
  due_le : ∀ due, turn.due = some due → due ≤ dueMs

/-- What is owed before the first charge of the connections that are there. -/
def Limits.baseDebt (limits : Limits) : Int :=
  milli (limits.accountBytesPerSecond + connectCostBytes)

/-- The turns are those of a few connections that were charged for chunks. -/
structure Modest [Platform] (limits : Limits) (turns : List ReadTurn) : Prop where
  few : turns.length ≤ limits.maxConnectionsPerAccount
  each : ∀ turn ∈ turns, turn.drawn ≤ milli (limits.mostCharged + limits.mostCaused) ∧
    turn.caused ≤ milli limits.mostCaused

/-- The turns of the connections of an account back its bucket, and each is as its
connection is allowed. -/
structure Fits [Platform] (hub : Hub) (account : AccountId) (allows : ConnId → ReadTurn → Prop)
    (bucket : Bucket) (turns : List ReadTurn) : Prop where
  backed : Backed (bucket.worth hub.limits.accountBytesPerSecond hub.limits.accountBurstBytes)
    hub.limits.baseDebt turns
  modest : Modest hub.limits turns
  known : ∀ conn, hub.connAccount.lookup conn = some account →
    ∃ turn ∈ turns, turn.payer = conn ∧ allows conn turn

/-- A relay in good order, whose buckets were brought up to date by a time and are backed by
turns as these connections are allowed. -/
structure Hub.Paced [Codec] [Platform] (hub : Hub) (clockMs : Nat)
    (allows : ConnId → ReadTurn → Prop) : Prop where
  ok : hub.Ok
  thrifty : hub.Thrifty
  started : ∀ account bucket, hub.rate? account = some bucket →
    bucket.InRange hub.limits.accountBurstBytes ∧
      ∃ credited ≤ clockMs, bucket.creditedMs = some credited
  fits : ∀ account bucket, hub.rate? account = some bucket →
    ∃ turns, Fits hub account allows bucket turns

section Fitting

variable [Platform]

/-- Together they leave no more than an account may owe. -/
theorem Modest.owed_le {limits : Limits} {turns : List ReadTurn} (modest : Modest limits turns) :
    limits.baseDebt + owed turns ≤ milli limits.mostDebt := by
  have each : ∀ turn ∈ turns, turn.owed ≤ milli limits.mostOwed := by
    intro turn member
    obtain ⟨drawn, caused⟩ := modest.each turn member
    unfold Turn.owed Limits.mostOwed
    unfold milli at *
    push_cast at *
    linarith
  have left := SharedDebts.owed_le each
  have counted : (turns.length : Int) * milli limits.mostOwed ≤
      limits.maxConnectionsPerAccount * milli limits.mostOwed :=
    mul_le_mul_of_nonneg_right (by exact_mod_cast modest.few) (milli_nonneg _)
  have debt : milli limits.mostDebt =
      limits.baseDebt + limits.maxConnectionsPerAccount * milli limits.mostOwed := by
    unfold Limits.mostDebt Limits.baseDebt milli
    push_cast
    ring
  linarith

theorem Modest.replace {limits : Limits} {earlier later : List ReadTurn} {turn : ReadTurn}
    (modest : Modest limits (earlier ++ turn :: later)) (next : ReadTurn)
    (drawn : next.drawn ≤ milli (limits.mostCharged + limits.mostCaused))
    (caused : next.caused ≤ milli limits.mostCaused) {turns : List ReadTurn}
    (perm : turns.Perm (next :: (earlier ++ later))) : Modest limits turns where
  few := by
    have few := modest.few
    have length := perm.length_eq
    simp only [List.length_cons, List.length_append] at few length
    omega
  each other member := by
    rcases List.mem_cons.mp (perm.mem_iff.mp member) with rfl | old
    · exact ⟨drawn, caused⟩
    · refine modest.each other ?_
      rcases List.mem_append.mp old with before | after
      · simp [before]
      · simp [after]

variable {hub hub' : Hub} {account : AccountId} {bucket bucket' : Bucket}
  {allows allows' : ConnId → ReadTurn → Prop} {turns : List ReadTurn}

theorem Fits.bounded (fits : Fits hub account allows bucket turns) (timeMs : Nat) :
    -milli hub.limits.mostDebt ≤
      bucket.worth hub.limits.accountBytesPerSecond hub.limits.accountBurstBytes timeMs := by
  have whole := fits.backed.whole timeMs
  have left := fits.modest.owed_le
  linarith

theorem Fits.owes_le (fits : Fits hub account allows bucket turns) {credited : Nat}
    (started : bucket.creditedMs = some credited) :
    -(hub.limits.mostDebt * 1000 : Int) ≤ bucket.balance := by
  have asItIs : bucket.worth hub.limits.accountBytesPerSecond hub.limits.accountBurstBytes
      credited = bucket.balance := congrArg Bucket.balance (Bucket.refill_late started le_rfl)
  exact asItIs ▸ fits.bounded credited

theorem Fits.mono (fits : Fits hub account allows bucket turns)
    (limits : hub'.limits = hub.limits)
    (more : ∀ timeMs, bucket.worth hub.limits.accountBytesPerSecond
        hub.limits.accountBurstBytes timeMs ≤
      bucket'.worth hub.limits.accountBytesPerSecond hub.limits.accountBurstBytes timeMs)
    (fewer : ∀ conn, hub'.connAccount.lookup conn = some account →
      hub.connAccount.lookup conn = some account ∧
        ∀ turn, allows conn turn → allows' conn turn) :
    Fits hub' account allows' bucket' turns where
  backed := by
    rw [limits]
    exact fits.backed.mono more
  modest := limits ▸ fits.modest
  known conn now := by
    obtain ⟨before, allowed⟩ := fewer conn now
    obtain ⟨turn, member, payer, allows⟩ := fits.known conn before
    exact ⟨turn, member, payer, allowed turn allows⟩

theorem Fits.split (fits : Fits hub account allows bucket turns) {conn : ConnId}
    (known : hub.connAccount.lookup conn = some account) :
    ∃ earlier turn later, turns = earlier ++ turn :: later ∧ turn.payer = conn ∧
      allows conn turn := by
  obtain ⟨turn, member, payer, allowed⟩ := fits.known conn known
  obtain ⟨earlier, later, rfl⟩ := List.append_of_mem member
  exact ⟨earlier, turn, later, rfl, payer, allowed⟩

/-- The connections that are still there have turns when one of them has a new one. -/
theorem Fits.renew {earlier later : List ReadTurn} {turn : ReadTurn} {conn : ConnId}
    (fits : Fits hub account allows bucket (earlier ++ turn :: later)) (next : ReadTurn)
    (payer : turn.payer = conn) (same : next.payer = turn.payer) (allowed : allows' conn next)
    (fewer : ∀ other, hub'.connAccount.lookup other = some account → other ≠ conn →
      hub.connAccount.lookup other = some account ∧
        ∀ turn, allows other turn → allows' other turn)
    (perm : turns.Perm (next :: (earlier ++ later))) (other : ConnId)
    (now : hub'.connAccount.lookup other = some account) :
    ∃ turn ∈ turns, turn.payer = other ∧ allows' other turn := by
  by_cases isConn : other = conn
  · subst isConn
    exact ⟨next, perm.mem_iff.mpr List.mem_cons_self, same.trans payer, allowed⟩
  obtain ⟨before, keeps⟩ := fewer other now isConn
  obtain ⟨found, member, isPayer, allows⟩ := fits.known other before
  refine ⟨found, perm.mem_iff.mpr (List.mem_cons_of_mem _ ?_), isPayer, keeps found allows⟩
  simp only [List.mem_append, List.mem_cons] at member ⊢
  rcases member with earlier | rfl | later
  · exact .inl earlier
  · exact absurd (isPayer.symm.trans payer) isConn
  · exact .inr later

/-- A connection has caused something, and nobody came. -/
theorem Fits.cause {earlier later : List ReadTurn} {turn : ReadTurn} {conn : ConnId}
    {amount : Int} (fits : Fits hub account allows bucket (earlier ++ turn :: later))
    (limits : hub'.limits = hub.limits) (payer : turn.payer = conn) (cost : 0 ≤ amount)
    (spent : ∀ timeMs, bucket.worth hub.limits.accountBytesPerSecond
        hub.limits.accountBurstBytes timeMs ≤
      bucket'.worth hub.limits.accountBytesPerSecond hub.limits.accountBurstBytes timeMs +
        amount)
    (small : turn.caused + amount ≤ milli hub.limits.mostCaused)
    (allowed : allows' conn (turn.cause amount))
    (fewer : ∀ other, hub'.connAccount.lookup other = some account → other ≠ conn →
      hub.connAccount.lookup other = some account ∧
        ∀ turn, allows other turn → allows' other turn) :
    Fits hub' account allows' bucket' (earlier ++ turn.cause amount :: later) where
  backed := by
    rw [limits]
    exact fits.backed.cause cost spent
  modest := by
    rw [limits]
    exact fits.modest.replace (turn.cause amount) (fits.modest.each turn (by simp)).1 small
      List.perm_middle
  known := fits.renew (turn.cause amount) payer rfl allowed fewer List.perm_middle

/-- A connection that has waited has its account charged, and waits again. -/
theorem Fits.draw {earlier later : List ReadTurn} {turn : ReadTurn} {conn : ConnId}
    {bytes nowMs credited : Nat}
    (fits : Fits hub account allows bucket (earlier ++ turn :: later))
    (limits : hub'.limits = hub.limits) (sized : hub.limits.accountBurstBytes < 2 ^ 64)
    (positive : 0 < hub.limits.accountBytesPerSecond)
    (small : milli hub.limits.mostDebt ≤ 2 ^ 64 - 1)
    (inRange : bucket.InRange hub.limits.accountBurstBytes)
    (started : bucket.creditedMs = some credited)
    (drawn : bucket' = (bucket.refill nowMs hub.limits.accountBytesPerSecond
      hub.limits.accountBurstBytes).spend bytes)
    (payer : turn.payer = conn) (modest : bytes ≤ hub.limits.mostCharged)
    (reached : ∀ due, turn.due = some due → due ≤ nowMs)
    (allowed : ∀ next : ReadTurn, next.caused = 0 →
      next.due = some (max credited nowMs +
        bucket'.waitMs hub.limits.accountBytesPerSecond) → allows' conn next)
    (fewer : ∀ other, hub'.connAccount.lookup other = some account → other ≠ conn →
      hub.connAccount.lookup other = some account ∧
        ∀ turn, allows other turn → allows' other turn) :
    ∃ turns, Fits hub' account allows' bucket' turns := by
  have refilled : (bucket.refill nowMs hub.limits.accountBytesPerSecond
      hub.limits.accountBurstBytes).creditedMs = some (max credited nowMs) :=
    Bucket.refill_credited started nowMs
  have full : (bucket.refill nowMs hub.limits.accountBytesPerSecond
      hub.limits.accountBurstBytes).InRange hub.limits.accountBurstBytes :=
    inRange.refill nowMs
  have held : bucket'.InRange hub.limits.accountBurstBytes := drawn ▸ full.spend bytes
  have creditedAt : bucket'.creditedMs = some (max credited nowMs) := drawn ▸ refilled
  let next := max credited nowMs + bucket'.waitMs hub.limits.accountBytesPerSecond
  let renewed := turn.draw (milli bytes) next
  have perm : (earlier ++ later ++ [renewed]).Perm (renewed :: (earlier ++ later)) :=
    List.perm_append_singleton _ _
  have modest' : Modest hub.limits (earlier ++ later ++ [renewed]) := by
    refine fits.modest.replace renewed ?_ (milli_nonneg _) perm
    have caused := (fits.modest.each turn (by simp)).2
    have charged : (bytes : Int) ≤ hub.limits.mostCharged := by exact_mod_cast modest
    simp only [renewed, Turn.draw, milli] at caused ⊢
    push_cast at caused ⊢
    linarith
  refine ⟨earlier ++ later ++ [renewed], ?_, limits ▸ modest',
    fits.renew renewed payer rfl (allowed renewed rfl rfl) fewer perm⟩
  rw [limits]
  refine fits.backed.draw (milli_nonneg bytes) reached (fun timeMs => ?_) (fun timeMs => ?_)
    fun whole timeMs waited => ?_
  · rw [drawn]
    exact Bucket.worth_le_drawn sized inRange started bytes nowMs timeMs
  · rw [drawn]
    exact (Bucket.worth_le_refill sized inRange started nowMs timeMs).trans
      (Bucket.worth_le_spend sized full refilled bytes timeMs)
  · refine Bucket.worth_repaid sized positive held creditedAt ?_ waited
    have least : 0 ≤ bucket'.worth hub.limits.accountBytesPerSecond
        hub.limits.accountBurstBytes (max credited nowMs) +
          (hub.limits.baseDebt + owed (earlier ++ later ++ [renewed])) := whole _
    have left := modest'.owed_le
    have asItIs : bucket'.worth hub.limits.accountBytesPerSecond hub.limits.accountBurstBytes
        (max credited nowMs) = bucket'.balance :=
      congrArg Bucket.balance (Bucket.refill_late creditedAt le_rfl)
    omega

/-- Nobody has been charged for a chunk since an account was at most a second and a
handshake in debt. -/
theorem Fits.start (owing : ∀ timeMs, -hub.limits.baseDebt ≤
      bucket.worth hub.limits.accountBytesPerSecond hub.limits.accountBurstBytes timeMs)
    (conns : List ConnId) (few : conns.length ≤ hub.limits.maxConnectionsPerAccount)
    (known : ∀ conn, hub.connAccount.lookup conn = some account →
      conn ∈ conns ∧ allows conn (.fresh conn)) :
    Fits hub account allows bucket (conns.map .fresh) where
  backed := by
    have nonneg : 0 ≤ hub.limits.baseDebt := milli_nonneg _
    refine .start nonneg (fun timeMs => ?_) conns
    have := owing timeMs
    omega
  modest := by
    refine ⟨by simpa using few, fun turn member => ?_⟩
    obtain ⟨conn, -, rfl⟩ := List.mem_map.mp member
    exact ⟨milli_nonneg _, milli_nonneg _⟩
  known conn now := by
    obtain ⟨member, allowed⟩ := known conn now
    exact ⟨.fresh conn, List.mem_map_of_mem member, rfl, allowed⟩

end Fitting

theorem Bucket.worth_handshake {limits : Limits} {filled : Bucket} {credited : Nat}
    (sized : limits.accountBurstBytes < 2 ^ 64)
    (inRange : filled.InRange limits.accountBurstBytes)
    (started : filled.creditedMs = some credited)
    (owing : -(1000 * limits.accountBytesPerSecond : Int) ≤ filled.balance) (timeMs : Nat) :
    -limits.baseDebt ≤ (filled.spend connectCostBytes).worth limits.accountBytesPerSecond
      limits.accountBurstBytes timeMs := by
  have spent : filled.worth limits.accountBytesPerSecond limits.accountBurstBytes timeMs ≤ _ :=
    Bucket.worth_le_spend sized inRange started connectCostBytes timeMs
  have kept : filled.balance ≤
      filled.worth limits.accountBytesPerSecond limits.accountBurstBytes timeMs :=
    Bucket.balance_le_worth sized inRange started timeMs
  unfold Limits.baseDebt milli
  push_cast
  linarith

/-! ## What a call leaves -/

section Calls

variable [Codec] {hub hub' : Hub} {order : HashOrder} {call : Call} {reply : Reply}

/-- Who is there after a call was there before it, or was admitted by it. -/
theorem Effect.stayed (ok : hub.Ok) (ok' : hub'.Ok)
    (effect : Effect order hub call reply hub') {conn : ConnId} {account : AccountId}
    (known : hub'.connAccount.lookup conn = some account) :
    hub.connAccount.lookup conn = some account ∨
      (∃ actions, reply = .admitted conn actions) ∧
        ∃ hello nowMs monoMs revoker, call = .connect account hello nowMs monoMs revoker := by
  obtain ⟨acct, found, member⟩ := (ok'.known_iff conn account).mp known
  obtain ⟨c, isConn⟩ := HashMap.exists_lookup_of_mem member
  have present : hub'.conn? account conn = some c := by
    rw [Hub.conn?, found]
    exact isConn
  cases effect.fate ok ok' present with
  | rest before _ _ _ => exact .inl (ok.known_of_conn? before)
  | took _ _ _ _ took _ _ => exact .inl took.known
  | lived head tail fx c lived =>
      have before : hub.conn? account conn = some c := by
        rw [Hub.conn?_eq]
        exact lived.lives.first
      exact .inl (ok.known_of_conn? before)
  | born hello conn mid tail born =>
      obtain ⟨nowMs, monoMs, revoker, isConnect⟩ := born.call_eq
      exact .inr ⟨born.reply_eq, hello, nowMs, monoMs, revoker, isConnect⟩

variable [Platform] {clockMs : Nat} {allows allows' : ConnId → ReadTurn → Prop}

namespace Hub.Paced

theorem called (paced : hub.Paced clockMs allows)
    (someone : 0 < hub.limits.maxConnectionsPerAccount)
    (ran : hub.apply order call = .ok (hub', reply)) :
    hub'.Ok ∧ hub'.Thrifty ∧ hub'.limits = hub.limits ∧ Effect order hub call reply hub' := by
  obtain ⟨replyAgain, hubAgain, again, ok', effect⟩ := Hub.apply_spec order paced.ok call
  obtain ⟨rfl, rfl⟩ := Prod.mk.inj (Except.ok.inj (ran.symm.trans again))
  exact ⟨ok', Hub.apply_thrifty order paced.ok paced.thrifty (fun _ _ _ _ _ _ => someone) ran,
    effect.limits_eq, effect⟩

theorem mono (paced : hub.Paced clockMs allows) {laterMs : Nat} (later : clockMs ≤ laterMs)
    (more : ∀ conn account turn, hub.connAccount.lookup conn = some account →
      allows conn turn → allows' conn turn) : hub.Paced laterMs allows' where
  ok := paced.ok
  thrifty := paced.thrifty
  started account bucket found := by
    obtain ⟨inRange, credited, past, started⟩ := paced.started account bucket found
    exact ⟨inRange, credited, past.trans later, started⟩
  fits account bucket found := by
    obtain ⟨turns, fits⟩ := paced.fits account bucket found
    exact ⟨turns, fits.mono rfl (fun _ => le_rfl) fun conn known =>
      ⟨known, fun turn => more conn account turn known⟩⟩

theorem free (paced : hub.Paced clockMs allows)
    (someone : 0 < hub.limits.maxConnectionsPerAccount) (isFree : call.isFree = true)
    (ran : hub.apply order call = .ok (hub', reply)) : hub'.Paced clockMs allows := by
  obtain ⟨ok', thrifty', limitsEq, effect⟩ := paced.called someone ran
  refine ⟨ok', thrifty', fun account bucket found => ?_, fun account bucket found => ?_⟩
  · rw [limitsEq]
    exact paced.started account bucket (rate_of_free isFree ran found)
  · obtain ⟨turns, fits⟩ := paced.fits account bucket (rate_of_free isFree ran found)
    refine ⟨turns, fits.mono limitsEq (fun _ => le_rfl) fun conn known => ?_⟩
    rcases effect.stayed paced.ok ok' known with before | ⟨-, _, _, _, _, isConnect⟩
    · exact ⟨before, fun _ allowed => allowed⟩
    · rw [isConnect] at isFree
      cases isFree

theorem stayed (paced : hub.Paced clockMs allows) (ok' : hub'.Ok)
    (effect : Effect order hub call reply hub')
    (notConnect : ∀ account hello nowMs monoMs revoker,
      call ≠ .connect account hello nowMs monoMs revoker) {conn : ConnId}
    {account : AccountId} (known : hub'.connAccount.lookup conn = some account) :
    hub.connAccount.lookup conn = some account := by
  rcases effect.stayed paced.ok ok' known with before | ⟨-, _, _, _, _, isConnect⟩
  · exact before
  · exact absurd isConnect (notConnect _ _ _ _ _)

/-- A frame is received from a connection that may cause what a frame may cause. -/
theorem receive (paced : hub.Paced clockMs allows)
    (someone : 0 < hub.limits.maxConnectionsPerAccount)
    (sized : hub.limits.accountBurstBytes < 2 ^ 64) {conn : ConnId} {frame : Frame}
    (ran : hub.apply order (.receive conn frame) = .ok (hub', reply))
    (others : ∀ other turn, other ≠ conn → allows other turn → allows' other turn)
    (keeps : ∀ turn, allows conn turn → allows' conn turn)
    (grows : ∀ turn amount, allows conn turn → 0 ≤ amount →
      amount ≤ milli (hub.limits.mostQueued * frameCostBytes) →
        turn.caused + amount ≤ milli hub.limits.mostCaused ∧ allows' conn (turn.cause amount)) :
    hub'.Paced clockMs allows' := by
  obtain ⟨ok', thrifty', limitsEq, effect⟩ := paced.called someone ran
  have before {other : ConnId} {account : AccountId}
      (known : hub'.connAccount.lookup other = some account) :
      hub.connAccount.lookup other = some account :=
    paced.stayed ok' effect (by simp) known
  have more (other : ConnId) (turn : ReadTurn) (allowed : allows other turn) :
      allows' other turn := by
    by_cases same : other = conn
    · subst same
      exact keeps turn allowed
    · exact others other turn same allowed
  simp only [Hub.apply, bind_eq_ok] at ran
  obtain ⟨⟨received, actions⟩, receiving, done⟩ := ran
  cases done
  refine ⟨ok', thrifty', fun account bucket found => ?_, fun account bucket found => ?_⟩
  · rw [limitsEq]
    rcases rate_of_receive order paced.ok paced.thrifty receiving found with
      same | ⟨-, old, queued, held, -, rfl⟩
    · exact paced.started account bucket same
    · obtain ⟨inRange, credited⟩ := paced.started account old held
      exact ⟨inRange.spend _, credited⟩
  · rcases rate_of_receive order paced.ok paced.thrifty receiving found with
      same | ⟨known, old, queued, held, few, rfl⟩
    · obtain ⟨turns, fits⟩ := paced.fits account bucket same
      exact ⟨turns, fits.mono limitsEq (fun _ => le_rfl) fun other now =>
        ⟨before now, more other⟩⟩
    · obtain ⟨inRange, credited, -, started⟩ := paced.started account old held
      obtain ⟨turns, fits⟩ := paced.fits account old held
      obtain ⟨earlier, turn, later, rfl, payer, allowed⟩ := fits.split known
      have small : milli (queued * frameCostBytes) ≤
          milli (hub.limits.mostQueued * frameCostBytes) := by
        unfold milli frameCostBytes
        omega
      obtain ⟨within, grown⟩ := grows turn _ allowed (milli_nonneg _) small
      exact ⟨_, fits.cause limitsEq payer (milli_nonneg _)
        (fun timeMs => Bucket.worth_le_spend sized inRange started _ timeMs) within grown
        fun other now _ => ⟨before now, more other⟩⟩

/-- An account is charged for a chunk of a connection that has waited. -/
theorem charge (paced : hub.Paced clockMs allows)
    (someone : 0 < hub.limits.maxConnectionsPerAccount)
    (sized : hub.limits.accountBurstBytes < 2 ^ 64)
    (positive : 0 < hub.limits.accountBytesPerSecond)
    (small : milli hub.limits.mostDebt ≤ 2 ^ 64 - 1) {conn : ConnId} {bytes nowMs wait : Nat}
    {actions : List Action}
    (ran : hub.charge order conn bytes nowMs = .ok (hub', wait, actions))
    (past : nowMs ≤ clockMs) (modest : bytes ≤ hub.limits.mostCharged)
    (others : ∀ other turn, other ≠ conn → allows other turn → allows' other turn)
    (reached : ∀ turn, allows conn turn → ∀ due, turn.due = some due → due ≤ nowMs)
    (allowed : ∀ turn : ReadTurn, turn.caused = 0 →
      (∀ due, turn.due = some due → due ≤ clockMs + wait) → allows' conn turn) :
    hub'.Paced clockMs allows' := by
  have called : hub.apply order (.charge conn bytes nowMs) =
      .ok (hub', .charged wait actions) := by
    rw [Hub.apply, ran]
    rfl
  obtain ⟨ok', thrifty', limitsEq, effect⟩ := paced.called someone called
  have before {other : ConnId} {account : AccountId}
      (known : hub'.connAccount.lookup other = some account) :
      hub.connAccount.lookup other = some account :=
    paced.stayed ok' effect (by simp) known
  refine ⟨ok', thrifty', fun account bucket found => ?_, fun account bucket found => ?_⟩
  · rw [limitsEq]
    rcases rate_of_charge order ran found with ⟨same, -⟩ | ⟨-, old, held, rfl, -⟩
    · exact paced.started account bucket same
    · obtain ⟨inRange, credited, early, started⟩ := paced.started account old held
      exact ⟨(inRange.refill nowMs).spend bytes, max credited nowMs, max_le early past,
        Bucket.refill_credited started nowMs⟩
  · rcases rate_of_charge order ran found with ⟨same, elsewhere⟩ | ⟨known, old, held, drawn, waits⟩
    · obtain ⟨turns, fits⟩ := paced.fits account bucket same
      refine ⟨turns, fits.mono limitsEq (fun _ => le_rfl) fun other now =>
        ⟨before now, fun turn => others other turn ?_⟩⟩
      rintro rfl
      exact elsewhere (before now)
    · obtain ⟨inRange, credited, early, started⟩ := paced.started account old held
      obtain ⟨turns, fits⟩ := paced.fits account old held
      obtain ⟨earlier, turn, later, rfl, payer, allows⟩ := fits.split known
      refine fits.draw limitsEq sized positive small inRange started drawn payer modest
        (reached turn allows) (fun next nothing isDue => allowed next nothing ?_)
        fun other now differs => ⟨before now, fun turn => others other turn differs⟩
      intro due isNext
      rw [isDue] at isNext
      obtain rfl := Option.some.inj isNext
      rw [waits]
      exact Nat.add_le_add_right (max_le early past) _

/-- A connection that has waited is not told to wait for longer than its account's debt
explains. -/
theorem wait_le (paced : hub.Paced clockMs allows)
    (sized : hub.limits.accountBurstBytes < 2 ^ 64)
    (positive : 0 < hub.limits.accountBytesPerSecond)
    (small : milli hub.limits.mostDebt ≤ 2 ^ 64 - 1) {conn : ConnId} {bytes nowMs wait : Nat}
    {actions : List Action}
    (ran : hub.charge order conn bytes nowMs = .ok (hub', wait, actions))
    (modest : bytes ≤ hub.limits.mostCharged)
    (reached : ∀ turn, allows conn turn → ∀ due, turn.due = some due → due ≤ nowMs) :
    wait ≤ hub.limits.mostWaitMs := by
  rcases wait_of_charge order ran with rfl | ⟨account, old, known, held, rfl⟩
  · exact Nat.zero_le _
  obtain ⟨inRange, credited, -, started⟩ := paced.started account old held
  obtain ⟨turns, fits⟩ := paced.fits account old held
  obtain ⟨earlier, turn, later, rfl, payer, allowed⟩ := fits.split known
  obtain ⟨turns, drawn⟩ : ∃ turns, Fits hub account (fun _ _ => True)
      ((old.refill nowMs hub.limits.accountBytesPerSecond
        hub.limits.accountBurstBytes).spend bytes) turns :=
    fits.draw rfl sized positive small inRange started rfl payer modest (reached turn allowed)
      (fun _ _ _ => trivial) fun other now _ => ⟨now, fun _ _ => trivial⟩
  exact Bucket.waitMs_le positive (drawn.owes_le (Bucket.refill_credited started nowMs))

/-- A handshake is refused. -/
theorem refused (paced : hub.Paced clockMs allows)
    (someone : 0 < hub.limits.maxConnectionsPerAccount)
    (sized : hub.limits.accountBurstBytes < 2 ^ 64) {target : AccountId} {hello : Hello}
    {nowMs monoMs : Nat} {revoker : Revoker} {frame : Frame}
    (ran : hub.connect order target hello nowMs monoMs revoker = .ok (hub', .error frame))
    (past : monoMs ≤ clockMs) : hub'.Paced clockMs allows := by
  have called : hub.apply order (.connect target hello nowMs monoMs revoker) =
      .ok (hub', .refused frame) := by
    rw [Hub.apply, ran]
    rfl
  obtain ⟨ok', thrifty', limitsEq, effect⟩ := paced.called someone called
  have before {other : ConnId} {account : AccountId}
      (known : hub'.connAccount.lookup other = some account) :
      hub.connAccount.lookup other = some account := by
    rcases effect.stayed paced.ok ok' known with before | ⟨⟨actions, admitted⟩, -⟩
    · exact before
    · cases admitted
  refine ⟨ok', thrifty', fun account bucket found => ?_, fun account bucket found => ?_⟩
  · rw [limitsEq]
    rcases rate_of_refused ran found with same | ⟨old, held, rfl⟩
    · exact paced.started account bucket same
    · obtain ⟨inRange, credited, early, started⟩ := paced.started account old held
      exact ⟨inRange.refill monoMs, max credited monoMs, max_le early past,
        Bucket.refill_credited started monoMs⟩
  · rcases rate_of_refused ran found with same | ⟨old, held, rfl⟩
    · obtain ⟨turns, fits⟩ := paced.fits account bucket same
      exact ⟨turns, fits.mono limitsEq (fun _ => le_rfl) fun other now =>
        ⟨before now, fun _ allowed => allowed⟩⟩
    · obtain ⟨inRange, credited, early, started⟩ := paced.started account old held
      obtain ⟨turns, fits⟩ := paced.fits account old held
      exact ⟨turns, fits.mono limitsEq
        (fun timeMs => Bucket.worth_le_refill sized inRange started monoMs timeMs)
        fun other now => ⟨before now, fun _ allowed => allowed⟩⟩

/-- The budget of an account to which a connection was admitted. -/
theorem afterHandshake (paced : hub.Paced clockMs allows)
    (positive : 0 < hub.limits.accountBytesPerSecond) {account : AccountId} {monoMs : Nat}
    (past : monoMs ≤ clockMs)
    (short : ∀ before, hub.rate? account = some before →
      (before.refill monoMs hub.limits.accountBytesPerSecond
        hub.limits.accountBurstBytes).waitMs hub.limits.accountBytesPerSecond ≤
          connectRefusedAboveMs) :
    let filled := ((hub.rate? account).getD {}).refill monoMs hub.limits.accountBytesPerSecond
      hub.limits.accountBurstBytes
    filled.InRange hub.limits.accountBurstBytes ∧
      -(1000 * hub.limits.accountBytesPerSecond : Int) ≤ filled.balance ∧
      ∃ credited ≤ clockMs, filled.creditedMs = some credited := by
  cases held : hub.rate? account with
  | none =>
      exact ⟨(Bucket.inRange_empty _).refill monoMs, by simp [Bucket.refill], monoMs, past, rfl⟩
  | some old =>
      obtain ⟨inRange, credited, early, started⟩ := paced.started account old held
      exact ⟨inRange.refill monoMs, Bucket.balance_of_waitMs_le positive (short old held),
        max credited monoMs, max_le early past, Bucket.refill_credited started monoMs⟩

/-- A connection is admitted. -/
theorem admitted (paced : hub.Paced clockMs allows)
    (someone : 0 < hub.limits.maxConnectionsPerAccount)
    (sized : hub.limits.accountBurstBytes < 2 ^ 64)
    (positive : 0 < hub.limits.accountBytesPerSecond) {target : AccountId} {hello : Hello}
    {nowMs monoMs : Nat} {revoker : Revoker} {id : ConnId} {actions : List Action}
    (ran : hub.connect order target hello nowMs monoMs revoker = .ok (hub', .ok (id, actions)))
    (past : monoMs ≤ clockMs)
    (others : ∀ conn turn, hub.connAccount.lookup conn ≠ none → allows conn turn →
      allows' conn turn ∧ allows' conn (.fresh conn))
    (new : allows' id (.fresh id)) : hub'.Paced clockMs allows' := by
  have called : hub.apply order (.connect target hello nowMs monoMs revoker) =
      .ok (hub', .admitted id actions) := by
    rw [Hub.apply, ran]
    rfl
  obtain ⟨ok', thrifty', limitsEq, effect⟩ := paced.called someone called
  refine ⟨ok', thrifty', fun account bucket found => ?_, fun account bucket found => ?_⟩
  · rw [limitsEq]
    rcases rate_of_admitted ran found with ⟨-, same⟩ | ⟨rfl, rfl, short⟩
    · exact paced.started account bucket same
    · obtain ⟨inRange, -, credited⟩ := paced.afterHandshake positive past short
      exact ⟨inRange.spend _, credited⟩
  · rcases rate_of_admitted ran found with ⟨differs, same⟩ | ⟨rfl, rfl, short⟩
    · obtain ⟨turns, fits⟩ := paced.fits account bucket same
      refine ⟨turns, fits.mono limitsEq (fun _ => le_rfl) fun conn now => ?_⟩
      rcases effect.stayed paced.ok ok' now with before | ⟨-, _, _, _, _, isConnect⟩
      · exact ⟨before, fun turn allowed => (others conn turn (by simp [before]) allowed).1⟩
      · cases isConnect
        exact absurd rfl differs
    · obtain ⟨inRange, owing, credited, -, started⟩ := paced.afterHandshake positive past short
      obtain ⟨acct, present, -⟩ := Option.map_eq_some_iff.mp found
      refine ⟨_, Fits.start (fun timeMs => ?_) acct.conns.keys
        (thrifty'.each present).conns_le fun conn now => ⟨?_, ?_⟩⟩
      · rw [limitsEq]
        exact Bucket.worth_handshake sized inRange started owing timeMs
      · obtain ⟨record, recordFound, member⟩ := (ok'.known_iff conn account).mp now
        obtain rfl := Option.some.inj (present.symm.trans recordFound)
        exact member
      · rcases effect.stayed paced.ok ok' now with before | ⟨⟨_, admitted⟩, -⟩
        · obtain ⟨record, recordFound, -⟩ := (paced.ok.known_iff conn account).mp before
          obtain ⟨turns, fits⟩ := paced.fits account _ (Hub.rate?_of_lookup recordFound)
          obtain ⟨turn, -, -, allowed⟩ := fits.known conn before
          exact (others conn turn (by simp [before]) allowed).2
        · cases admitted
          exact new

end Hub.Paced

/-- The turns that are allowed while the frames of a chunk are handed over, so many of them
already. -/
structure Handing (limits : Limits) (clockMs : Nat) (conn : ConnId) (done : Nat)
    (others : ConnId → ReadTurn → Prop) (other : ConnId) (turn : ReadTurn) : Prop where
  own : other = conn → Heeds (milli (done * (limits.mostQueued * frameCostBytes))) clockMs turn
  rest : other ≠ conn → others other turn

omit [Codec] [Platform] in
theorem Heeds.mono {most more : Int} {dueMs laterMs : Nat} {turn : ReadTurn}
    (heeds : Heeds most dueMs turn) (grows : most ≤ more) (later : dueMs ≤ laterMs) :
    Heeds more laterMs turn :=
  ⟨heeds.caused_le.trans grows, fun due isDue => (heeds.due_le due isDue).trans later⟩

namespace Hub.Paced

/-- The frames of a chunk are handed over. -/
theorem receives {conn : ConnId} {done : Nat} {others : ConnId → ReadTurn → Prop}
    (paced : hub.Paced clockMs (Handing hub.limits clockMs conn done others))
    (someone : 0 < hub.limits.maxConnectionsPerAccount)
    (sized : hub.limits.accountBurstBytes < 2 ^ 64) {orders : Nat → HashOrder}
    {frames : List Frame} (few : done + frames.length ≤ receiveChunk)
    {actions : List Action}
    (ran : hub.callAll (receives conn orders frames) = .ok (hub', actions)) :
    hub'.limits = hub.limits ∧
      hub'.Paced clockMs (Handing hub.limits clockMs conn receiveChunk others) := by
  induction frames generalizing hub done orders actions with
  | nil =>
      cases ran
      refine ⟨rfl, paced.mono le_rfl fun other account turn _ handing => ⟨fun same => ?_,
        handing.rest⟩⟩
      exact (handing.own same).mono (milli_mono (Nat.mul_le_mul_right _ few)) le_rfl
  | cons frame frames ih =>
      rw [List.length_cons] at few
      simp only [WindowMlHub.receives, List.mapIdx_cons, Hub.callAll, bind_eq_ok] at ran
      obtain ⟨⟨mid, reply⟩, first, ⟨_, later⟩, more, ended⟩ := ran
      cases ended
      obtain ⟨-, -, limitsEq, -⟩ := paced.called someone first
      have received : mid.Paced clockMs (Handing hub.limits clockMs conn (done + 1) others) := by
        refine paced.receive someone sized first
          (fun other turn differs handing => ⟨fun same => absurd same differs, handing.rest⟩)
          (fun turn handing => ⟨fun same => ?_, handing.rest⟩)
          fun turn amount handing _ small => ?_
        · exact (handing.own same).mono (milli_mono (Nat.mul_le_mul_right _ (Nat.le_succ _)))
            le_rfl
        · have heeds := handing.own rfl
          have grown : turn.caused + amount ≤
              milli ((done + 1) * (hub.limits.mostQueued * frameCostBytes)) := by
            have before := heeds.caused_le
            unfold milli at *
            push_cast at *
            linarith
          exact ⟨grown.trans (milli_mono (Nat.mul_le_mul_right _ (by omega))),
            fun _ => ⟨grown, heeds.due_le⟩, fun differs => absurd rfl differs⟩
      rw [← limitsEq] at received ⊢
      obtain ⟨again, handed⟩ := ih received (limitsEq ▸ someone) (limitsEq ▸ sized) (by omega) more
      exact ⟨again, handed⟩

end Hub.Paced

end Calls

/-! ## The chunks of a message -/

section Chunks

variable [Platform]

/-- A chunk has few frames, and is charged for no more than a message is. -/
structure ReadChunk.Sized (limits : Limits) (chunk : ReadChunk) : Prop where
  few : chunk.frames.length ≤ receiveChunk
  cost_le : chunk.cost ≤ limits.mostCharged

theorem ReadChunk.Sized.unsent_le {limits : Limits} {chunk : ReadChunk}
    (sized : chunk.Sized limits) : chunk.unsent.length ≤ receiveChunk :=
  (List.length_filter_le _ _).trans sized.few

/-- No chunk is charged for more than the bytes that are left and its frames. -/
theorem chargeChunks_sized {limits : Limits} {pendingBytes frames turns bytesLeft : Nat}
    {rest : List Frame} {chunks : List ReadChunk}
    (ran : chargeChunks pendingBytes frames turns bytesLeft rest = .ok chunks)
    (small : bytesLeft ≤ limits.maxMessageBytes) : ∀ chunk ∈ chunks, chunk.Sized limits := by
  induction turns generalizing bytesLeft rest chunks with
  | zero => cases ran
  | succ turns ih =>
      unfold chargeChunks at ran
      dsimp only at ran
      split at ran
      · cases ran
        simp
      generalize isShare : (if (rest.drop receiveChunk).length = 0 then bytesLeft
        else pendingBytes / frames * (rest.take receiveChunk).length % (usizeMax + 1)) = share
        at ran
      simp only [bind_eq_ok] at ran
      obtain ⟨left, subtracted, later, more, done⟩ := ran
      cases done
      obtain ⟨within, less⟩ : share ≤ bytesLeft ∧ left ≤ bytesLeft := by
        refine ⟨?_, le_of_sub subtracted⟩
        unfold sub at subtracted
        split at subtracted
        next within => exact within
        next => cases subtracted
      have few : (rest.take receiveChunk).length ≤ receiveChunk := by simp
      refine List.forall_mem_cons.mpr ⟨⟨few, ?_⟩, ih more (less.trans small)⟩
      calc usizeSaturatingAdd share
            (usizeSaturatingMul (rest.take receiveChunk).length frameCostBytes)
          ≤ share + usizeSaturatingMul (rest.take receiveChunk).length frameCostBytes :=
            min_le_left _ _
        _ ≤ limits.maxMessageBytes + receiveChunk * frameCostBytes :=
            Nat.add_le_add (within.trans small)
              ((min_le_left _ _).trans (Nat.mul_le_mul_right _ few))

theorem messageChunks_sized {limits : Limits} {bytes : Nat}
    (small : bytes ≤ limits.maxMessageBytes) (frames : List Frame) :
    ∃ chunks, messageChunks bytes frames = .ok chunks ∧ ∀ chunk ∈ chunks, chunk.Sized limits := by
  unfold messageChunks
  split
  · exact ⟨[], rfl, by simp⟩
  · obtain ⟨chunks, ran, -⟩ := chargeChunks_spec (Nat.lt_succ_self frames.length)
      (small.trans (min_le_right _ _)) (Nat.div_mul_le_self bytes frames.length)
    exact ⟨chunks, ran, chargeChunks_sized ran small⟩

end Chunks

/-! ## The tasks -/

/-- The turn of a connection, by how far its task has come. -/
def ReaderPhase.Allows (limits : Limits) (clockMs : Nat) : ReaderPhase → ReadTurn → Prop
  | .reading _, turn => Heeds (milli limits.mostCaused) clockMs turn
  | .timed nowMs _ _, turn => Heeds (milli limits.mostCaused) nowMs turn
  | .asleep wakeMs _ _, turn => Heeds 0 wakeMs turn
  | .ended, _ => True

/-- The turns that the tasks allow. -/
def readersAllow (limits : Limits) (clockMs : Nat) (readers : HashMap ConnId ReaderPhase)
    (conn : ConnId) (turn : ReadTurn) : Prop :=
  ∃ phase, readers.lookup conn = some phase ∧ phase.Allows limits clockMs turn

section Tasks

variable {limits : Limits} {clockMs laterMs : Nat} {phase : ReaderPhase}
  {readers : HashMap ConnId ReaderPhase} {conn other : ConnId} {turn : ReadTurn}

theorem ReaderPhase.Allows.mono (later : clockMs ≤ laterMs)
    (allowed : phase.Allows limits clockMs turn) : phase.Allows limits laterMs turn := by
  cases phase with
  | reading chunks => exact Heeds.mono allowed le_rfl later
  | timed nowMs chunk rest => exact allowed
  | asleep wakeMs unsent rest => exact allowed
  | ended => trivial

theorem Heeds.fresh {most : Int} (nonneg : 0 ≤ most) (dueMs : Nat) (conn : ConnId) :
    Heeds most dueMs (.fresh conn) :=
  ⟨nonneg, fun due isDue => by cases isDue⟩

theorem readersAllow.put_self (allowed : phase.Allows limits clockMs turn) :
    readersAllow limits clockMs (readers.insert conn phase) conn turn :=
  ⟨phase, AList.lookup_insert _, allowed⟩

theorem readersAllow.put_of_ne (differs : other ≠ conn)
    (allowed : readersAllow limits clockMs readers other turn) :
    readersAllow limits clockMs (readers.insert conn phase) other turn := by
  obtain ⟨before, found, allows⟩ := allowed
  exact ⟨before, (AList.lookup_insert_ne differs).trans found, allows⟩

theorem readersAllow.of_lookup (found : readers.lookup conn = some phase)
    (allowed : readersAllow limits clockMs readers conn turn) :
    phase.Allows limits clockMs turn := by
  obtain ⟨same, again, allows⟩ := allowed
  obtain rfl := Option.some.inj (found.symm.trans again)
  exact allows

theorem readersAllow.fresh (allowed : readersAllow limits clockMs readers conn turn) :
    readersAllow limits clockMs readers conn (.fresh conn) := by
  obtain ⟨phase, found, -⟩ := allowed
  refine ⟨phase, found, ?_⟩
  cases phase with
  | reading chunks => exact .fresh (milli_nonneg _) _ _
  | timed nowMs chunk rest => exact .fresh (milli_nonneg _) _ _
  | asleep wakeMs unsent rest => exact .fresh le_rfl _ _
  | ended => trivial

variable [Platform]

/-- What a task has to hand over, and how long it sleeps at most. -/
def ReaderPhase.Sized (limits : Limits) (clockMs : Nat) : ReaderPhase → Prop
  | .reading chunks => ∀ chunk ∈ chunks, chunk.Sized limits
  | .timed nowMs chunk rest => nowMs ≤ clockMs ∧ ∀ other ∈ chunk :: rest, other.Sized limits
  | .asleep wakeMs unsent rest => wakeMs ≤ clockMs + limits.mostWaitMs ∧
      unsent.length ≤ receiveChunk ∧ ∀ chunk ∈ rest, chunk.Sized limits
  | .ended => True

theorem ReaderPhase.Sized.mono (later : clockMs ≤ laterMs) (sized : phase.Sized limits clockMs) :
    phase.Sized limits laterMs := by
  cases phase with
  | reading chunks => exact sized
  | timed nowMs chunk rest => exact ⟨sized.1.trans later, sized.2⟩
  | asleep wakeMs unsent rest => exact ⟨sized.1.trans (Nat.add_le_add_right later _), sized.2⟩
  | ended => trivial

theorem sized_insert
    (sized : ∀ other before, readers.lookup other = some before →
      before.Sized limits clockMs) (new : phase.Sized limits clockMs) (other : ConnId)
    (before : ReaderPhase) (found : (readers.insert conn phase).lookup other = some before) :
    before.Sized limits clockMs := by
  by_cases same : other = conn
  · subst same
    rw [AList.lookup_insert] at found
    exact Option.some.inj found ▸ new
  · rw [AList.lookup_insert_ne same] at found
    exact sized other before found

/-- Limits that leave room for the amounts. -/
structure Limits.Payable (limits : Limits) : Prop where
  someone : 0 < limits.maxConnectionsPerAccount
  sized : limits.accountBurstBytes < 2 ^ 64
  positive : 0 < limits.accountBytesPerSecond
  small : milli limits.mostDebt ≤ 2 ^ 64 - 1

/-- The relay is in good order with what its tasks allow. -/
structure ReadingShard.Orderly [Codec] (limits : Limits) (shard : ReadingShard) : Prop where
  limits_eq : shard.hub.limits = limits
  paced : shard.hub.Paced shard.clockMs (readersAllow limits shard.clockMs shard.readers)
  sized : ∀ conn phase, shard.readers.lookup conn = some phase →
    phase.Sized limits shard.clockMs

end Tasks

namespace ReadingShard.Orderly

variable [Codec] [Platform] {limits : Limits} {shard : ReadingShard} {conn : ConnId}

theorem put {hub : Hub} {phase : ReaderPhase} (orderly : shard.Orderly limits)
    (limits_eq : hub.limits = limits) {allows : ConnId → ReadTurn → Prop}
    (paced : hub.Paced shard.clockMs allows)
    (own : ∀ turn, allows conn turn → phase.Allows limits shard.clockMs turn)
    (rest : ∀ other turn, other ≠ conn → allows other turn →
      readersAllow limits shard.clockMs shard.readers other turn)
    (sized : phase.Sized limits shard.clockMs) :
    ({ shard with hub }.put conn phase).Orderly limits where
  limits_eq := limits_eq
  paced := by
    refine paced.mono le_rfl fun other account turn _ allowed => ?_
    by_cases same : other = conn
    · subst same
      exact .put_self (own turn allowed)
    · exact .put_of_ne same (rest other turn same allowed)
  sized := sized_insert orderly.sized sized

theorem handOver {hub : Hub} (orderly : shard.Orderly limits) (payable : limits.Payable)
    (limits_eq : hub.limits = limits) {frames : List Frame} {rest : List ReadChunk}
    (paced : hub.Paced shard.clockMs (Handing limits shard.clockMs conn 0
      (readersAllow limits shard.clockMs shard.readers)))
    (few : frames.length ≤ receiveChunk) (sized : ∀ chunk ∈ rest, chunk.Sized limits)
    (orders : Nat → HashOrder) :
    ∃ after, { shard with hub }.handOver conn orders frames rest = .ok after ∧
      after.Orderly limits := by
  subst limits_eq
  obtain ⟨next, actions, ran, -⟩ := Hub.callAll_spec paced.ok (receives conn orders frames)
  obtain ⟨again, handed⟩ := paced.receives payable.someone payable.sized
    (by rwa [Nat.zero_add]) ran
  refine ⟨_, by rw [ReadingShard.handOver, ran]; rfl, ?_⟩
  exact orderly.put again handed (fun turn handing => handing.own rfl)
    (fun other turn differs handing => handing.rest differs) sized

theorem free {hub : Hub} {order : HashOrder} {call : Call} {reply : Reply}
    (orderly : shard.Orderly limits) (payable : limits.Payable) (isFree : call.isFree = true)
    (ran : shard.hub.apply order call = .ok (hub, reply)) :
    hub.limits = limits ∧
      hub.Paced shard.clockMs (readersAllow limits shard.clockMs shard.readers) := by
  obtain rfl := orderly.limits_eq
  obtain ⟨-, -, limitsEq, -⟩ := orderly.paced.called payable.someone ran
  exact ⟨limitsEq, orderly.paced.free payable.someone isFree ran⟩

/-- A task has its account charged. -/
theorem charge (orderly : shard.Orderly limits) (payable : limits.Payable) {nowMs : Nat}
    {chunk : ReadChunk} {rest : List ReadChunk}
    (timed : shard.readers.lookup conn = some (.timed nowMs chunk rest)) (order : HashOrder)
    (orders : Nat → HashOrder) :
    ∃ after, shard.charge conn order orders nowMs chunk rest = .ok after ∧
      after.Orderly limits := by
  obtain rfl := orderly.limits_eq
  obtain ⟨past, sized⟩ := orderly.sized conn _ timed
  have modest := sized chunk List.mem_cons_self
  have reached (turn : ReadTurn)
      (allowed : readersAllow shard.hub.limits shard.clockMs shard.readers conn turn) :
      ∀ due, turn.due = some due → due ≤ nowMs :=
    (allowed.of_lookup timed).due_le
  obtain ⟨reply, hub, ran, -⟩ :=
    Hub.apply_spec order orderly.paced.ok (.charge conn chunk.cost nowMs)
  obtain ⟨-, -, limitsEq, -⟩ := orderly.paced.called payable.someone ran
  simp only [Hub.apply, bind_eq_ok] at ran
  obtain ⟨⟨hub, wait, actions⟩, ran, done⟩ := ran
  cases done
  have short : wait ≤ shard.hub.limits.mostWaitMs := orderly.paced.wait_le payable.sized
    payable.positive payable.small ran modest.cost_le reached
  have charged : hub.Paced shard.clockMs (Handing shard.hub.limits (shard.clockMs + wait) conn 0
      (readersAllow shard.hub.limits shard.clockMs shard.readers)) := by
    refine orderly.paced.charge payable.someone payable.sized payable.positive payable.small ran
      past modest.cost_le (fun other turn differs allowed => ⟨fun same => absurd same differs,
        fun _ => allowed⟩) reached fun turn nothing due => ⟨fun _ => ⟨?_, due⟩,
          fun differs => absurd rfl differs⟩
    rw [nothing]
    exact milli_nonneg _
  rw [ReadingShard.charge, ran]
  simp only [ok_bind]
  split
  · refine ⟨_, rfl, orderly.put limitsEq charged (fun turn handing => ?_)
      (fun other turn differs handing => handing.rest differs)
      ⟨Nat.add_le_add_left short _, modest.unsent_le,
        fun other member => sized other (List.mem_cons_of_mem _ member)⟩⟩
    exact (handing.own rfl).mono (by simp [milli]) le_rfl
  next awake =>
    obtain rfl : wait = 0 := Nat.eq_zero_of_not_pos awake
    exact orderly.handOver payable limitsEq charged modest.unsent_le
      (fun other member => sized other (List.mem_cons_of_mem _ member)) orders

theorem wake (orderly : shard.Orderly limits) (payable : limits.Payable) {wakeMs : Nat}
    {unsent : List Frame} {rest : List ReadChunk}
    (asleep : shard.readers.lookup conn = some (.asleep wakeMs unsent rest))
    (late : wakeMs ≤ shard.clockMs) (orders : Nat → HashOrder) :
    ∃ after, shard.handOver conn orders unsent rest = .ok after ∧ after.Orderly limits := by
  obtain ⟨-, few, sized⟩ := orderly.sized conn _ asleep
  refine orderly.handOver payable orderly.limits_eq ?_ few sized orders
  refine orderly.paced.mono le_rfl fun other account turn _ allowed =>
    ⟨fun same => ?_, fun _ => allowed⟩
  subst same
  have waits : Heeds 0 wakeMs turn := allowed.of_lookup asleep
  exact waits.mono (milli_nonneg _) late

/-- A connection is refused, or it is admitted and has its hello taken apart. -/
theorem connect (orderly : shard.Orderly limits) (payable : limits.Payable)
    {arrival : HelloArrival} (now : arrival.monoMs = shard.clockMs) {bytes : Nat}
    (small : bytes ≤ limits.maxMessageBytes) (frames : List Frame) :
    ∃ after, shard.connect arrival bytes frames = .ok after ∧ after.Orderly limits := by
  obtain rfl := orderly.limits_eq
  obtain ⟨reply, hub, applied, -⟩ := Hub.apply_spec arrival.order orderly.paced.ok
    (.connect arrival.account arrival.hello arrival.nowMs arrival.monoMs arrival.revoker)
  obtain ⟨-, -, limitsEq, effect⟩ := orderly.paced.called payable.someone applied
  simp only [Hub.apply, bind_eq_ok] at applied
  obtain ⟨⟨hub, answer⟩, ran, done⟩ := applied
  rw [ReadingShard.connect, ran, ok_bind]
  cases answer with
  | error frame =>
      cases done
      exact ⟨_, rfl, limitsEq, orderly.paced.refused payable.someone payable.sized ran now.le,
        orderly.sized⟩
  | ok admission =>
      obtain ⟨id, actions⟩ := admission
      cases done
      obtain ⟨chunks, chunked, sized⟩ := messageChunks_sized small frames
      have isNew : id = shard.hub.nextConn := effect.admitted_eq
      have admitted : hub.Paced shard.clockMs (Handing shard.hub.limits shard.clockMs id 0
          (readersAllow shard.hub.limits shard.clockMs shard.readers)) := by
        refine orderly.paced.admitted payable.someone payable.sized payable.positive ran now.le
          (fun conn turn known allowed => ?_)
          ⟨fun _ => .fresh (milli_nonneg _) _ _, fun differs => absurd rfl differs⟩
        have older : conn < shard.hub.nextConn :=
          orderly.paced.ok.fresh conn (AList.lookup_isSome.mp (Option.isSome_iff_ne_none.mpr known))
        have differs : conn ≠ id := isNew ▸ older.ne
        exact ⟨⟨fun same => absurd same differs, fun _ => allowed⟩,
          fun same => absurd same differs, fun _ => allowed.fresh⟩
      have read : ({ shard with hub }.put id (.reading chunks)).Orderly shard.hub.limits := by
        refine orderly.put limitsEq admitted (fun turn handing => ?_)
          (fun other turn differs handing => handing.rest differs) sized
        exact (handing.own rfl).mono (milli_mono (by simp)) le_rfl
      exact ⟨_, by rw [chunked]; rfl, read⟩

/-- What every step keeps. -/
theorem step (orderly : shard.Orderly limits) (payable : limits.Payable) (move : ReadingMove) :
    ∃ after, shard.step move = .ok after ∧ after.Orderly limits := by
  cases move with
  | tick clockMs =>
      have later : shard.clockMs ≤ max shard.clockMs clockMs := le_max_left _ _
      refine ⟨_, rfl, orderly.limits_eq, orderly.paced.mono later ?_,
        fun conn phase found => (orderly.sized conn phase found).mono later⟩
      rintro conn account turn - ⟨phase, found, allowed⟩
      exact ⟨phase, found, allowed.mono later⟩
  | connect arrival bytes frames =>
      unfold ReadingShard.step
      dsimp only
      split
      next taken =>
        rw [orderly.limits_eq] at taken
        exact orderly.connect payable taken.1 taken.2 frames
      next => exact ⟨_, rfl, orderly⟩
  | message conn bytes frames =>
      unfold ReadingShard.step
      dsimp only
      split
      next reading =>
        split
        next small =>
          rw [orderly.limits_eq] at small
          obtain ⟨chunks, chunked, sized⟩ := messageChunks_sized small frames
          have read : (shard.put conn (.reading chunks)).Orderly limits := by
            refine orderly.put orderly.limits_eq orderly.paced (fun turn allowed => ?_)
              (fun _ _ _ allowed => allowed) sized
            have heeds : Heeds (milli limits.mostCaused) shard.clockMs turn :=
              allowed.of_lookup reading
            exact heeds
          exact ⟨_, by rw [chunked]; rfl, read⟩
        next => exact ⟨_, rfl, orderly⟩
      next => exact ⟨_, rfl, orderly⟩
  | look conn =>
      unfold ReadingShard.step
      dsimp only
      split
      next chunk rest reading =>
        have timed : (shard.put conn (.timed shard.clockMs chunk rest)).Orderly limits := by
          refine orderly.put orderly.limits_eq orderly.paced (fun turn allowed => ?_)
            (fun _ _ _ allowed => allowed) ⟨le_rfl, orderly.sized conn _ reading⟩
          have heeds : Heeds (milli limits.mostCaused) shard.clockMs turn :=
            allowed.of_lookup reading
          exact heeds
        exact ⟨_, rfl, timed⟩
      next => exact ⟨_, rfl, orderly⟩
  | charge conn order orders =>
      unfold ReadingShard.step
      dsimp only
      split
      next timed => exact orderly.charge payable timed order orders
      next => exact ⟨_, rfl, orderly⟩
  | wake conn orders =>
      unfold ReadingShard.step
      dsimp only
      split
      next asleep =>
        split
        next late => exact orderly.wake payable asleep late orders
        next => exact ⟨_, rfl, orderly⟩
      next => exact ⟨_, rfl, orderly⟩
  | leave conn order frame =>
      obtain ⟨reply, hub, applied, -⟩ :=
        Hub.apply_spec order orderly.paced.ok (.close conn frame)
      obtain ⟨limitsEq, paced⟩ := orderly.free payable rfl applied
      simp only [Hub.apply, bind_eq_ok] at applied
      obtain ⟨⟨hub, actions⟩, ran, done⟩ := applied
      cases done
      have ended : ({ shard with hub }.put conn .ended).Orderly limits :=
        orderly.put limitsEq paced (fun _ _ => trivial) (fun _ _ _ allowed => allowed) trivial
      exact ⟨_, by rw [ReadingShard.step, ran]; rfl, ended⟩
  | deliver conn order frame =>
      obtain ⟨reply, hub, applied, -⟩ :=
        Hub.apply_spec order orderly.paced.ok (.deliver conn frame)
      obtain ⟨limitsEq, paced⟩ := orderly.free payable rfl applied
      simp only [Hub.apply, bind_eq_ok] at applied
      obtain ⟨⟨hub, actions⟩, ran, done⟩ := applied
      cases done
      exact ⟨{ shard with hub }, by rw [ReadingShard.step, ran]; rfl, limitsEq, paced,
        orderly.sized⟩
  | take conn budget =>
      obtain ⟨reply, hub, applied, -⟩ :=
        Hub.apply_spec .stored orderly.paced.ok (.takeOutbound conn budget)
      obtain ⟨limitsEq, paced⟩ := orderly.free payable rfl applied
      simp only [Hub.apply, bind_eq_ok] at applied
      obtain ⟨⟨hub, taken⟩, ran, done⟩ := applied
      cases done
      exact ⟨{ shard with hub }, by rw [ReadingShard.step, ran]; rfl, limitsEq, paced,
        orderly.sized⟩

theorem run (orderly : shard.Orderly limits) (payable : limits.Payable)
    (moves : List ReadingMove) :
    ∃ after, shard.run moves = .ok after ∧ after.Orderly limits := by
  induction moves generalizing shard with
  | nil => exact ⟨shard, rfl, orderly⟩
  | cons move rest ih =>
      obtain ⟨next, stepped, nextOrderly⟩ := orderly.step payable move
      obtain ⟨after, ran, afterOrderly⟩ := ih nextOrderly
      exact ⟨after, by rw [ReadingShard.run, stepped]; exact ran, afterOrderly⟩

end ReadingShard.Orderly

section Runs

variable [Codec] [Platform] {limits : Limits} {seed : UInt64} {shard : UInt16} {start : Hub}

/-- A relay that was accepted is in good order before anybody comes. -/
theorem orderly_withIdSpace (accepted : Hub.withIdSpace limits seed shard = .ok start)
    (clockMs : Nat) : (ReadingShard.mk start clockMs ∅).Orderly limits := by
  obtain ⟨ok, limitsEq, empty, -⟩ := ok_withIdSpace accepted
  have nobody (account : AccountId) (acct : Account) :
      start.accounts.lookup account ≠ some acct := by
    rw [empty]
    intro found
    cases found
  have noRate (account : AccountId) (bucket : Bucket) : start.rate? account ≠ some bucket := by
    intro found
    obtain ⟨acct, present, -⟩ := Option.map_eq_some_iff.mp found
    exact nobody account acct present
  refine ⟨limitsEq, ⟨ok, ⟨?_, fun found => absurd found (nobody _ _)⟩,
    fun account bucket found => absurd found (noRate account bucket),
    fun account bucket found => absurd found (noRate account bucket)⟩, fun conn phase found => ?_⟩
  · rw [empty]
    exact Nat.zero_le _
  · cases found

/-- Whatever the connections of an account send, and however their tasks take turns, the
account never owes more than one chunk for each connection that it may have, with what these
make the relay queue, and a handshake on top of a second of work; and no task sleeps for
longer than it takes to earn that. -/
theorem paced_debt_bounded (accepted : Hub.withIdSpace limits seed shard = .ok start)
    (someone : 0 < limits.maxConnectionsPerAccount) (sized : limits.accountBurstBytes < 2 ^ 64)
    (small : limits.mostDebt * 1000 < 2 ^ 64) (clockMs : Nat) (moves : List ReadingMove) :
    ∃ after, (ReadingShard.mk start clockMs ∅).run moves = .ok after ∧
      (∀ account bucket, after.hub.rate? account = some bucket →
        -(limits.mostDebt * 1000 : Int) ≤ bucket.balance) ∧
      ∀ conn wakeMs unsent rest,
        after.readers.lookup conn = some (.asleep wakeMs unsent rest) →
          wakeMs ≤ after.clockMs + limits.mostWaitMs := by
  have payable : limits.Payable := by
    refine ⟨someone, sized, positive_of_withIdSpace accepted, ?_⟩
    unfold milli
    omega
  obtain ⟨after, ran, orderly⟩ := (orderly_withIdSpace accepted clockMs).run payable moves
  refine ⟨after, ran, fun account bucket found => ?_, fun conn wakeMs unsent rest asleep => ?_⟩
  · obtain ⟨-, credited, -, started⟩ := orderly.paced.started account bucket found
    obtain ⟨turns, fits⟩ := orderly.paced.fits account bucket found
    rw [← orderly.limits_eq]
    exact fits.owes_le started
  · exact (orderly.sized conn _ asleep).1

end Runs

/-- Twenty frames in 5000 bytes, at a thousand bytes a second: the first chunk and the
handshake are owed, and the task sleeps until they are earned. -/
theorem paced_debt_bounded_twenty :
    letI := Platform.bits64
    let limits : Limits := { accountBytesPerSecond := 1000, accountBurstBytes := 1000 }
    let arrival : HelloArrival :=
      ⟨.stored, [9], { protocol := 1, principal := [1], role := 2 }, 0, 0, .unknown⟩
    let moves : List ReadingMove := [.connect arrival 100 [], .tick 5,
      .message 1 5000 (List.replicate 20 (.of (.pong 0))), .look 1,
      .charge 1 .stored fun _ => .stored]
    ∃ after bucket unsent rest,
      (ReadingShard.mk ⟨limits, ∅, ∅, 1, 7, 0⟩ 0 ∅).run moves = .ok after ∧
      after.hub.rate? [9] = some bucket ∧ bucket.balance = -5787000 ∧
      after.readers.lookup 1 = some (.asleep 5792 unsent rest) ∧
      -(limits.mostDebt * 1000 : Int) ≤ -5787000 ∧ 5792 ≤ after.clockMs + limits.mostWaitMs := by
  let := Platform.bits64
  intro limits arrival moves
  obtain ⟨after, ran, owed, slept⟩ :=
    @paced_debt_bounded _ _ limits 7 0 ⟨limits, ∅, ∅, 1, 7, 0⟩ rfl (by decide) (by decide)
      (by decide) 0 moves
  have facts : (match (ReadingShard.mk ⟨limits, ∅, ∅, 1, 7, 0⟩ 0 ∅).run moves with
      | .error _ => none
      | .ok (after : ReadingShard) => some ((after.hub.rate? [9]).map Bucket.balance,
          match after.readers.lookup 1 with
          | some (ReaderPhase.asleep wakeMs _ _) => some wakeMs
          | _ => none)) = some (some (-5787000), some 5792) := by decide +kernel
  rw [ran] at facts
  simp only [Option.some.injEq, Prod.mk.injEq, Option.map_eq_some_iff] at facts
  obtain ⟨⟨bucket, found, balance⟩, sleeping⟩ := facts
  split at sleeping
  next wakeMs unsent rest asleep =>
    obtain rfl := Option.some.inj sleeping
    have least := owed [9] bucket found
    rw [balance] at least
    exact ⟨after, bucket, unsent, rest, ran, found, balance, asleep, least,
      slept 1 _ unsent rest asleep⟩
  next => cases sleeping

end WindowMlHub
