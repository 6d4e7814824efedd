import WindowMlHub.ProtobufLengths
import WindowMlHub.RelayStreams

/-!
# Whose history the ring budget takes

`enforce_ring_budget` takes the oldest entry of the largest ring until the account is within
its budget.  While it is not, the largest ring holds more than an equal share of the budget,
so a ring that holds no more than its share loses nothing, however much the others publish.
-/

namespace WindowMlHub

open CheckedEvaluation HashTables

/-- The encoded bytes of these entries. -/
def entryBytes [Codec] (entries : List Entry) : Nat :=
  (entries.map fun entry => wireLen entry.wire).sum

/-- One ring, if the stream has one. -/
def Stream.ringCount (stream : Stream) : Nat :=
  if stream.ring.isSome then 1 else 0

namespace Account

/-- How many rings an account has. -/
def ringCount (acct : Account) : Nat :=
  HashMap.total Stream.ringCount acct.streams

/-- The byte counters of an account: each ring's is the encoded bytes that it retains, and
the account's their sum. -/
structure CountsBytes [Codec] (acct : Account) : Prop where
  ring_bytes : ∀ {key ring}, acct.ring? key = some ring → ring.bytes = entryBytes ring.entries
  ringBytes_eq : acct.ringBytes = HashMap.total Stream.ringBytes acct.streams

/-- One eviction by the budget: an account that exceeds it loses the oldest entry of a ring
that is no smaller than any other and larger than an equal share of the budget. -/
inductive Evicts [Codec] (budget : Nat) : Account → Account → Prop
  | oldest {acct : Account} {key : StreamKey} {stream : Stream} {ring : Ring}
      {entry : Entry} {rest : List Entry} (exceeds : budget < acct.ringBytes)
      (found : acct.streams.lookup key = some stream) (held : stream.ring = some ring)
      (entries : ring.entries = entry :: rest)
      (largest : ∀ {other otherRing}, acct.ring? other = some otherRing →
        otherRing.bytes ≤ ring.bytes)
      (share : budget / acct.ringCount < ring.bytes) :
      Evicts budget acct { acct with
        ringBytes := acct.ringBytes - wireLen entry.wire
        streams := acct.streams.insert key { stream with
          ring := some { ring with
            entries := rest
            bytes := ring.bytes - wireLen entry.wire } } }

variable [Codec] {acct next : Account} {budget : Nat} {order : HashOrder}

omit [Codec] in
theorem bytes_le_of_largestRing {key other : StreamKey} {stream : Stream}
    {ring otherRing : Ring} (largest : acct.largestRing order = some (key, stream, ring))
    (found : acct.ring? other = some otherRing) : otherRing.bytes ≤ ring.bytes := by
  obtain ⟨otherStream, otherFound, held⟩ := Option.bind_eq_some_iff.mp found
  refine @le_of_maxByKey _ _ _ _ (other, otherStream, otherRing) largest ?_
  refine List.mem_filterMap.mpr ⟨⟨other, otherStream⟩, ?_, ?_⟩
  · exact order.streams.mem_list.mpr (HashMap.mem_entries_of_lookup otherFound)
  · rw [held]
    rfl

omit [Codec] in
/-- Over the budget, the largest ring holds more than an equal share of it. -/
theorem share_lt_of_largest {bytes : Nat}
    (counted : acct.ringBytes = HashMap.total Stream.ringBytes acct.streams)
    (exceeds : budget < acct.ringBytes)
    (largest : ∀ {other otherRing}, acct.ring? other = some otherRing →
      otherRing.bytes ≤ bytes) :
    budget / acct.ringCount < bytes := by
  have together : HashMap.total Stream.ringBytes acct.streams ≤ bytes * acct.ringCount := by
    refine HashMap.total_le_mul fun entry member => ?_
    cases held : entry.2.ring with
    | none => simp [Stream.ringBytes, held]
    | some ring =>
        have found : acct.ring? entry.1 = some ring := by
          rw [ring?, HashMap.lookup_of_mem_entries member]
          exact held
        simpa [Stream.ringBytes, Stream.ringCount, held] using largest found
  refine Nat.div_lt_of_lt_mul ?_
  rw [Nat.mul_comm]
  omega

/-- An eviction keeps the counters right, the rings as many, and an entry fewer. -/
theorem Evicts.counts (evicts : Evicts budget acct next) (counts : acct.CountsBytes) :
    next.CountsBytes ∧ next.ringCount = acct.ringCount ∧
      next.retained + 1 = acct.retained := by
  cases evicts with
  | @oldest key stream ring entry rest exceeds found held entries largest share =>
      have ringFound : acct.ring? key = some ring := by
        rw [ring?, found]
        exact held
      have bytes : ring.bytes = wireLen entry.wire + entryBytes rest := by
        rw [counts.ring_bytes ringFound, entries]
        rfl
      refine ⟨⟨?_, ?_⟩, ?_, ?_⟩
      · intro other otherRing otherFound
        rw [ring?, HashMap.lookup_insert_eq] at otherFound
        by_cases same : other = key
        · rw [if_pos same] at otherFound
          obtain rfl := Option.some.inj otherFound
          exact Nat.sub_eq_of_eq_add' bytes
        · rw [if_neg same] at otherFound
          exact counts.ring_bytes otherFound
      · have total := HashMap.total_insert_add Stream.ringBytes found
          { stream with ring := some { ring with
              entries := rest
              bytes := ring.bytes - wireLen entry.wire } }
        have least := HashMap.weight_le_total Stream.ringBytes found
        have whole := counts.ringBytes_eq
        simp only [Stream.ringBytes, held, Option.map_some, Option.getD_some] at total least
        dsimp only
        omega
      · have total := HashMap.total_insert_add Stream.ringCount found
          { stream with ring := some { ring with
              entries := rest
              bytes := ring.bytes - wireLen entry.wire } }
        simp only [Stream.ringCount, held, Option.isSome_some, if_true] at total
        exact Nat.add_right_cancel total
      · have total := HashMap.total_insert_add
          (fun stream : Stream => (stream.ring.map fun ring => ring.entries.length).getD 0)
          found { stream with ring := some { ring with
              entries := rest
              bytes := ring.bytes - wireLen entry.wire } }
        simp only [held, Option.map_some, Option.getD_some, entries, List.length_cons]
          at total
        simp only [retained]
        omega

/-- A ring with no more than an equal share of the budget is left as it is, and any other
loses its oldest entries. -/
theorem Evicts.ring_kept (evicts : Evicts budget acct next) {key : StreamKey} {ring : Ring}
    (found : acct.ring? key = some ring) :
    ∃ after, next.ring? key = some after ∧ after.entries <:+ ring.entries ∧
      (ring.bytes ≤ budget / acct.ringCount → after = ring) := by
  cases evicts with
  | @oldest victim stream largestRing entry rest exceeds here held entries largest share =>
      rw [ring?, HashMap.lookup_insert_eq]
      by_cases same : key = victim
      · rw [if_pos same]
        subst same
        obtain rfl : largestRing = ring := by
          rw [ring?, here] at found
          exact Option.some.inj (held.symm.trans found)
        refine ⟨_, rfl, ?_, fun small => absurd share (not_lt.mpr small)⟩
        rw [entries]
        exact List.suffix_cons _ _
      · rw [if_neg same]
        exact ⟨ring, found, List.suffix_rfl, fun _ => rfl⟩

/-- The budget's loop evicts until the account is within the budget. -/
theorem enforceRingBudget_evicts (order : HashOrder) (counts : acct.CountsBytes) {fuel : Nat}
    (enough : acct.retained < fuel) :
    ∃ final, acct.enforceRingBudget order budget fuel = .ok final ∧
      Relation.ReflTransGen (Evicts budget) acct final ∧ final.ringBytes ≤ budget := by
  induction fuel generalizing acct with
  | zero => exact absurd enough (Nat.not_lt_zero _)
  | succ fuel ih =>
      unfold enforceRingBudget
      by_cases exceeds : acct.ringBytes > budget
      · rw [if_pos exceeds]
        cases largest : acct.largestRing order with
        | none =>
            -- without rings there is nothing to count
            have nothing : acct.ringBytes = 0 := by
              have noRings := eq_nil_of_maxByKey_eq_none largest
              rw [counts.ringBytes_eq, ← Nat.le_zero, ← Nat.zero_mul acct.ringCount]
              refine HashMap.total_le_mul fun entry member => ?_
              have absent := List.filterMap_eq_nil_iff.mp noRings entry
                (order.streams.mem_list.mpr member)
              simp [Stream.ringBytes, Option.map_eq_none_iff.mp absent]
            omega
        | some chosen =>
            obtain ⟨key, stream, ring⟩ := chosen
            obtain ⟨found, held⟩ := mem_of_largestRing largest
            have ringFound : acct.ring? key = some ring := by
              rw [ring?, found]
              exact held
            have share := share_lt_of_largest counts.ringBytes_eq exceeds
              (bytes_le_of_largestRing largest)
            cases entries : ring.entries with
            | nil =>
                rw [counts.ring_bytes ringFound, entries] at share
                exact absurd share (Nat.not_lt_zero _)
            | cons entry rest =>
                have bytes : ring.bytes = wireLen entry.wire + entryBytes rest := by
                  rw [counts.ring_bytes ringFound, entries]
                  rfl
                have least := HashMap.weight_le_total Stream.ringBytes found
                rw [← counts.ringBytes_eq, Stream.ringBytes, held] at least
                have evicts := Evicts.oldest exceeds found held entries
                  (bytes_le_of_largestRing largest) share
                have kept := evicts.counts counts
                obtain ⟨final, ran, evictions, within⟩ := ih kept.1 (by omega)
                refine ⟨final, ?_, .head evicts evictions, within⟩
                have evicted : ring.evictOldest = .ok ({ ring with
                    entries := rest
                    bytes := ring.bytes - wireLen entry.wire }, wireLen entry.wire) := by
                  rw [Ring.evictOldest, entries]
                  dsimp only
                  rw [sub_of_le (by omega)]
                  rfl
                simp only [Option.map_some, Option.getD_some] at least
                dsimp only
                rw [if_neg (by simp [entries]), evicted, ok_bind]
                dsimp only
                rw [sub_of_le (by omega), ok_bind]
                exact ran
      · exact ⟨acct, if_neg exceeds, .refl, not_lt.mp exceeds⟩

theorem ring_kept_of_evictions {final : Account}
    (evictions : Relation.ReflTransGen (Evicts budget) acct final) (counts : acct.CountsBytes)
    {key : StreamKey} {ring : Ring} (found : acct.ring? key = some ring) :
    final.CountsBytes ∧ final.ringCount = acct.ringCount ∧
      ∃ after, final.ring? key = some after ∧ after.entries <:+ ring.entries ∧
        (ring.bytes ≤ budget / acct.ringCount → after = ring) := by
  induction evictions with
  | refl => exact ⟨counts, rfl, ring, found, List.suffix_rfl, fun _ => rfl⟩
  | tail _ last ih =>
      obtain ⟨midCounts, asMany, middle, midFound, midSuffix, midKept⟩ := ih
      obtain ⟨lastCounts, same, -⟩ := last.counts midCounts
      obtain ⟨after, afterFound, suffix, kept⟩ := last.ring_kept midFound
      refine ⟨lastCounts, same.trans asMany, after, afterFound, suffix.trans midSuffix,
        fun small => ?_⟩
      obtain rfl := midKept small
      exact kept (by rwa [asMany])

end Account

/-- The ring budget is enforced, and fairly.  Whatever the rings of an account hold and in
whichever order they are seen, the loop ends after at most one round for each entry; it
evicts only while the account exceeds the budget, always the oldest entry of a ring that
holds more than an equal share; and a ring that holds no more than its share is left as it
is. -/
theorem ring_budget_fair [Codec] (order : HashOrder) (budget : Nat) (acct : Account)
    (counts : acct.CountsBytes) (fuel : Nat) (enough : acct.retained < fuel) :
    ∃ final, acct.enforceRingBudget order budget fuel = .ok final ∧
      Relation.ReflTransGen (Account.Evicts budget) acct final ∧
      final.ringBytes ≤ budget ∧
      (acct.ringBytes ≤ budget → final = acct) ∧
      ∀ key ring, acct.ring? key = some ring →
        ∃ after, final.ring? key = some after ∧ after.entries <:+ ring.entries ∧
          (ring.bytes ≤ budget / acct.ringCount → after = ring) := by
  obtain ⟨final, ran, evictions, within⟩ := Account.enforceRingBudget_evicts order counts enough
  refine ⟨final, ran, evictions, within, fun fits => ?_, fun key ring found =>
    (Account.ring_kept_of_evictions evictions counts found).2.2⟩
  rcases evictions.cases_head with same | ⟨next, first, -⟩
  · exact same.symm
  · cases first with
    | oldest exceeds => exact absurd exceeds (not_lt.mpr fits)

/-- A ring of so many pings. -/
def pingRing (count : Nat) : Ring where
  kind := .sessionEvents
  epoch := 1
  seq := count
  entries := (List.range count).map fun index => ⟨index + 1, .of (.ping 0), []⟩
  bytes := entryBytes ((List.range count).map fun index => ⟨index + 1, .of (.ping 0), []⟩)
  touched := 1

/-- An account with a noisy stream and a quiet one. -/
def noisyAccount : Account where
  streams := ((∅ : HashMap StreamKey Stream).insert ⟨[1], [1]⟩
    ⟨⟨[1], [1]⟩, some (pingRing 5), ∅⟩).insert ⟨[2], [1]⟩ ⟨⟨[2], [1]⟩, some (pingRing 1), ∅⟩
  ringBytes := (pingRing 1).bytes + ((pingRing 5).bytes + 0)

/-- The quiet stream keeps its entry. -/
theorem ring_budget_fair_quiet :
    ∃ final, noisyAccount.enforceRingBudget .stored (2 * (pingRing 1).bytes) 7 = .ok final ∧
      final.ring? ⟨[2], [1]⟩ = some (pingRing 1) := by
  have counts : noisyAccount.CountsBytes := by
    refine ⟨?_, rfl⟩
    intro key ring found
    rw [Account.ring?, noisyAccount, HashMap.lookup_insert_eq, HashMap.lookup_insert_eq] at found
    split at found
    · cases found
      rfl
    · split at found
      · cases found
        rfl
      · cases found
  obtain ⟨final, ran, -, -, -, kept⟩ := ring_budget_fair .stored (2 * (pingRing 1).bytes)
    noisyAccount counts 7 (Nat.lt_succ_self 6)
  obtain ⟨after, found, -, same⟩ := kept ⟨[2], [1]⟩ (pingRing 1) rfl
  have two : noisyAccount.ringCount = 2 := rfl
  rw [two, Nat.mul_div_cancel_left _ Nat.two_pos] at same
  exact ⟨final, ran, by rw [found, same le_rfl]⟩

end WindowMlHub
