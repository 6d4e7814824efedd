import Mathlib

/-!
# Debts that several payers share

Several payers draw on one account, which may go into debt and earns as time passes.
Before a payer draws again it waits until everything that was drawn by its last drawing
would have been earned, whatever the others have drawn since.  What a payer causes between
its drawings it does not wait for; the wait after its next drawing is for that as well.

When a payer draws again, all that was drawn by its last drawing has been earned.  So
however often they draw, what is owed is at most one drawing of each payer, with what was
caused around it, on top of what was owed before the first of them.
-/

namespace SharedDebts

/-- The last drawing of a payer, together with what the payer caused before it and had not
waited for; what it has caused since; and the time it waits for before it draws again.
There is no such time for a payer that has not drawn yet. -/
structure Turn (Payer Time Amount : Type*) where
  payer : Payer
  drawn : Amount
  caused : Amount
  due : Option Time

variable {Payer Time Amount : Type*} [CommRing Amount]

namespace Turn

/-- All that may be left of a turn. -/
def owed (turn : Turn Payer Time Amount) : Amount :=
  turn.drawn + turn.caused

/-- The payer has not drawn or caused anything. -/
def fresh (payer : Payer) : Turn Payer Time Amount where
  payer := payer
  drawn := 0
  caused := 0
  due := none

/-- The payer causes something. -/
def cause (turn : Turn Payer Time Amount) (amount : Amount) : Turn Payer Time Amount :=
  { turn with caused := turn.caused + amount }

/-- The payer draws an amount, and then waits until a time. -/
def draw (turn : Turn Payer Time Amount) (amount : Amount) (due : Time) :
    Turn Payer Time Amount :=
  { turn with drawn := turn.caused + amount, caused := 0, due := some due }

end Turn

/-- All that may be left of some turns. -/
def owed (turns : List (Turn Payer Time Amount)) : Amount :=
  (turns.map Turn.owed).sum

/-- What was caused since the last drawings of some turns. -/
def caused (turns : List (Turn Payer Time Amount)) : Amount :=
  (turns.map Turn.caused).sum

section Sums

variable {turn : Turn Payer Time Amount} {first second : List (Turn Payer Time Amount)}

@[simp]
theorem owed_nil : owed ([] : List (Turn Payer Time Amount)) = 0 :=
  rfl

@[simp]
theorem owed_cons : owed (turn :: first) = turn.owed + owed first :=
  rfl

@[simp]
theorem owed_append : owed (first ++ second) = owed first + owed second := by
  simp [owed]

@[simp]
theorem caused_nil : caused ([] : List (Turn Payer Time Amount)) = 0 :=
  rfl

@[simp]
theorem caused_cons : caused (turn :: first) = turn.caused + caused first :=
  rfl

@[simp]
theorem caused_append : caused (first ++ second) = caused first + caused second := by
  simp [caused]

end Sums

variable [LinearOrder Amount] [IsStrictOrderedRing Amount] [LinearOrder Time]

omit [CommRing Amount] [LinearOrder Amount] [IsStrictOrderedRing Amount] [LinearOrder Time] in
/-- Two turns of one list are the same, or one is before the other. -/
theorem split_cases {turn other : Turn Payer Time Amount}
    {earlier later before after : List (Turn Payer Time Amount)}
    (same : earlier ++ turn :: later = before ++ other :: after) :
    (before = earlier ∧ other = turn ∧ after = later) ∨
      (∃ between, before = earlier ++ turn :: between ∧ later = between ++ other :: after) ∨
      ∃ between, earlier = before ++ other :: between ∧ after = between ++ turn :: later := by
  rcases List.append_eq_append_iff.mp same with ⟨between, front, rest⟩ | ⟨between, front, rest⟩
  · cases between with
    | nil =>
        obtain ⟨rfl, rfl⟩ := List.cons.inj rest
        exact .inl ⟨by simpa using front, rfl, rfl⟩
    | cons first between =>
        obtain ⟨rfl, rfl⟩ := List.cons.inj rest
        exact .inr (.inl ⟨between, front, rfl⟩)
  · cases between with
    | nil =>
        obtain ⟨rfl, rfl⟩ := List.cons.inj rest
        exact .inl ⟨by simpa using front.symm, rfl, rfl⟩
    | cons first between =>
        obtain ⟨rfl, rfl⟩ := List.cons.inj rest
        exact .inr (.inr ⟨between, front, rfl⟩)

/-- No turn has earned anything for the account. -/
def Costly (turns : List (Turn Payer Time Amount)) : Prop :=
  ∀ turn ∈ turns, 0 ≤ turn.drawn ∧ 0 ≤ turn.caused

omit [IsStrictOrderedRing Amount] [LinearOrder Time] in
theorem Costly.tail {turn : Turn Payer Time Amount} {turns : List (Turn Payer Time Amount)}
    (costly : Costly (turn :: turns)) : Costly turns :=
  fun other member => costly other (List.mem_cons_of_mem _ member)

omit [LinearOrder Time] in
theorem Costly.caused_le {turns : List (Turn Payer Time Amount)} (costly : Costly turns) :
    caused turns ≤ owed turns := by
  induction turns with
  | nil => exact le_rfl
  | cons turn turns ih =>
      have first := (costly turn List.mem_cons_self).1
      have rest := ih costly.tail
      simp only [caused_cons, owed_cons, Turn.owed]
      linarith

omit [LinearOrder Time] in
theorem Costly.caused_nonneg {turns : List (Turn Payer Time Amount)} (costly : Costly turns) :
    0 ≤ caused turns := by
  refine List.sum_nonneg fun amount member => ?_
  obtain ⟨turn, isTurn, rfl⟩ := List.mem_map.mp member
  exact (costly turn isTurn).2

omit [LinearOrder Time] in
theorem owed_le {turns : List (Turn Payer Time Amount)} {most : Amount}
    (each : ∀ turn ∈ turns, turn.owed ≤ most) : owed turns ≤ turns.length * most := by
  induction turns with
  | nil => simp
  | cons turn turns ih =>
      have first := each turn List.mem_cons_self
      have rest := ih fun other member => each other (List.mem_cons_of_mem _ member)
      simp only [owed_cons, List.length_cons, Nat.cast_add, Nat.cast_one, add_mul, one_mul]
      linarith

/-- An account, by what it would be worth at each time if nothing more was drawn, with the
turns of its payers, the latest drawing last.

The worst is what may be left of all turns, and of what was owed before them.  At the time
that a payer waits for, nothing is left of its own drawing or those before it: only what
was caused since, and what was drawn later. -/
structure Backed (worth : Time → Amount) (base : Amount)
    (turns : List (Turn Payer Time Amount)) : Prop where
  base_nonneg : 0 ≤ base
  costly : Costly turns
  fresh : ∀ turn ∈ turns, turn.due = none → turn.drawn = 0
  whole : ∀ time, 0 ≤ worth time + (base + owed turns)
  waited : ∀ earlier turn later, turns = earlier ++ turn :: later →
    ∀ due, turn.due = some due → ∀ time, due ≤ time →
      0 ≤ worth time + (caused earlier + turn.caused + owed later)

namespace Backed

variable {worth worth' : Time → Amount} {base amount : Amount}
  {turns earlier later : List (Turn Payer Time Amount)} {turn : Turn Payer Time Amount}

omit [IsStrictOrderedRing Amount] in
/-- Nobody has drawn since this was all that was owed. -/
theorem start (nonneg : 0 ≤ base) (covers : ∀ time, 0 ≤ worth time + base)
    (payers : List Payer) : Backed worth base (payers.map .fresh) := by
  have nothing : owed (payers.map (.fresh : Payer → Turn Payer Time Amount)) = 0 := by
    induction payers with
    | nil => rfl
    | cons payer payers ih => rw [List.map_cons, owed_cons, ih]; simp [Turn.fresh, Turn.owed]
  refine ⟨nonneg, ?_, ?_, ?_, ?_⟩
  · intro turn member
    obtain ⟨payer, -, rfl⟩ := List.mem_map.mp member
    exact ⟨le_rfl, le_rfl⟩
  · intro turn member _
    obtain ⟨payer, -, rfl⟩ := List.mem_map.mp member
    rfl
  · intro time
    rw [nothing, add_zero]
    exact covers time
  · intro earlier turn later split due isDue
    have member : turn ∈ payers.map (.fresh : Payer → Turn Payer Time Amount) := by
      rw [split]
      simp
    obtain ⟨payer, -, rfl⟩ := List.mem_map.mp member
    cases isDue

theorem mono (backed : Backed worth base turns) (more : ∀ time, worth time ≤ worth' time) :
    Backed worth' base turns where
  base_nonneg := backed.base_nonneg
  costly := backed.costly
  fresh := backed.fresh
  whole time := (backed.whole time).trans (by linarith [more time])
  waited earlier turn later split due isDue time late :=
    (backed.waited earlier turn later split due isDue time late).trans
      (by linarith [more time])

/-- A payer causes something. -/
theorem cause (backed : Backed worth base (earlier ++ turn :: later)) (cost : 0 ≤ amount)
    (spent : ∀ time, worth time ≤ worth' time + amount) :
    Backed worth' base (earlier ++ turn.cause amount :: later) := by
  have costs := backed.costly turn (by simp)
  refine ⟨backed.base_nonneg, ?_, ?_, ?_, ?_⟩
  · intro other member
    rcases List.mem_append.mp member with before | inRest
    · exact backed.costly other (by simp [before])
    rcases List.mem_cons.mp inRest with rfl | after
    · exact ⟨costs.1, add_nonneg costs.2 cost⟩
    · exact backed.costly other (by simp [after])
  · intro other member undrawn
    rcases List.mem_append.mp member with before | inRest
    · exact backed.fresh other (by simp [before]) undrawn
    rcases List.mem_cons.mp inRest with rfl | after
    · exact backed.fresh turn (by simp) undrawn
    · exact backed.fresh other (by simp [after]) undrawn
  · intro time
    have whole := backed.whole time
    simp only [owed_append, owed_cons, Turn.owed, Turn.cause] at whole ⊢
    linarith [spent time]
  · intro before other after split due isDue time late
    rcases split_cases split with ⟨rfl, rfl, rfl⟩ | ⟨between, rfl, rfl⟩ | ⟨between, rfl, rfl⟩
    · have waited := backed.waited before turn after rfl due isDue time late
      simp only [Turn.cause]
      linarith [spent time]
    · have waited := backed.waited (earlier ++ turn :: between) other after (by simp) due isDue
        time late
      simp only [caused_append, caused_cons, Turn.cause] at waited ⊢
      linarith [spent time]
    · have waited := backed.waited before other (between ++ turn :: later) (by simp) due isDue
        time late
      simp only [owed_append, owed_cons, Turn.owed, Turn.cause] at waited ⊢
      linarith [spent time]

theorem left_of_waited (backed : Backed worth base (earlier ++ turn :: later)) {now due : Time}
    (isDue : turn.due = some due) (late : due ≤ now)
    (drawn : ∀ time, worth now ≤ worth' time + amount) (time : Time) :
    0 ≤ worth' time + (caused earlier + turn.caused + owed later + amount) := by
  have waited := backed.waited earlier turn later rfl due isDue now late
  linarith [drawn time]

/-- A payer draws that has waited, if it had to, and waits until all is earned that is owed
then. -/
theorem draw (backed : Backed worth base (earlier ++ turn :: later)) (cost : 0 ≤ amount)
    {now next : Time} (reached : ∀ due, turn.due = some due → due ≤ now)
    (drawn : ∀ time, worth now ≤ worth' time + amount)
    (spent : ∀ time, worth time ≤ worth' time + amount)
    (repaid : (∀ time, 0 ≤ worth' time +
        (base + owed (earlier ++ later ++ [turn.draw amount next]))) →
      ∀ time, next ≤ time → 0 ≤ worth' time) :
    Backed worth' base (earlier ++ later ++ [turn.draw amount next]) := by
  have costs := backed.costly turn (by simp)
  have costlyBefore : Costly earlier := fun other member =>
    backed.costly other (by simp [member])
  have costlyAfter : Costly later := fun other member =>
    backed.costly other (by simp [member])
  have whole : ∀ time, 0 ≤ worth' time +
      (base + owed (earlier ++ later ++ [turn.draw amount next])) := by
    intro time
    have less := costlyBefore.caused_le
    have nonneg := backed.base_nonneg
    simp only [owed_append, owed_cons, owed_nil, Turn.owed, Turn.draw]
    cases isDue : turn.due with
    | none =>
        have before := backed.whole time
        have nothing := backed.fresh turn (by simp) isDue
        simp only [owed_append, owed_cons, Turn.owed, nothing] at before
        linarith [spent time]
    | some due =>
        have left := backed.left_of_waited isDue (reached due isDue) drawn time
        linarith
  refine ⟨backed.base_nonneg, ?_, ?_, whole, ?_⟩
  · intro other member
    simp only [List.mem_append, List.mem_singleton] at member
    rcases member with (before | after) | rfl
    · exact costlyBefore other before
    · exact costlyAfter other after
    · exact ⟨add_nonneg costs.2 cost, le_rfl⟩
  · intro other member undrawn
    simp only [List.mem_append, List.mem_singleton] at member
    rcases member with (before | after) | rfl
    · exact backed.fresh other (by simp [before]) undrawn
    · exact backed.fresh other (by simp [after]) undrawn
    · cases undrawn
  · intro before other after split due isDue time late
    rcases split_cases split with ⟨rfl, rfl, rfl⟩ | ⟨between, _, rest⟩ | ⟨between, inside, rfl⟩
    · obtain rfl := Option.some.inj isDue
      have nothing := repaid whole time late
      have before := costlyBefore.caused_nonneg
      have after := costlyAfter.caused_nonneg
      simp only [caused_append, owed_nil, Turn.draw]
      linarith
    · simp at rest
    simp only [owed_append, owed_cons, owed_nil, Turn.owed, Turn.draw]
    rcases List.append_eq_append_iff.mp inside with ⟨skipped, rfl, rfl⟩ | ⟨skipped, rfl, rest⟩
    · -- a payer that drew after this one did
      have waited := backed.waited (earlier ++ turn :: skipped) other between (by simp) due isDue
        time late
      simp only [caused_append, caused_cons] at waited ⊢
      linarith [spent time]
    cases skipped with
    | nil =>
        obtain rfl : other :: between = later := by simpa using rest
        have waited := backed.waited (before ++ [turn]) other between (by simp) due isDue time
          late
        simp only [caused_append, caused_cons, caused_nil] at waited ⊢
        linarith [spent time]
    | cons first skipped =>
        -- one that drew before it: whatever it waits for, this one has waited for more
        rw [List.cons_append, List.cons.injEq] at rest
        obtain ⟨rfl, rfl⟩ := rest
        have less : caused skipped ≤ owed skipped :=
          Costly.caused_le fun one member => costlyBefore one (by simp [member])
        simp only [owed_append]
        cases drew : turn.due with
        | none =>
            have waited := backed.waited before other (skipped ++ turn :: later) (by simp) due
              isDue time late
            have nothing := backed.fresh turn (by simp) drew
            simp only [owed_append, owed_cons, Turn.owed, nothing] at waited
            linarith [spent time]
        | some last =>
            have left := backed.left_of_waited drew (reached last drew) drawn time
            simp only [caused_append, caused_cons] at left
            linarith

end Backed

end SharedDebts
