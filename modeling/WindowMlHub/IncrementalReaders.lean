import Mathlib

/-!
# Readers of a growing input

An input arrives in pieces, and a reader takes items off the front of what has
arrived: the first item and how much of the input it took, nothing while the
item is not yet whole, or a failure when no continuation can make it one.  A
reader whose answer does not change once it has one finds the same items however
the input was cut into pieces.
-/

namespace IncrementalReaders

variable {α β ε : Type}

/-- What is read off the front of an input.  An item takes some of the input it
was read from, and an answer stands whatever arrives later. -/
structure ItemReader (α β ε : Type) where
  read : List α → Except ε (Option (β × Nat))
  taken : ∀ {input : List α} {value : β} {count : Nat},
    read input = .ok (some (value, count)) → 0 < count ∧ count ≤ input.length
  stable : ∀ {input : List α} (later : List α),
    read input ≠ .ok none → read (input ++ later) = read input

/-- These items are read off the input one after another, and this is left. -/
inductive Reads (reader : ItemReader α β ε) : List α → List β → List α → Prop
  | done (input : List α) : Reads reader input [] input
  | item {input : List α} {value : β} {count : Nat} {values : List β} {rest : List α}
      (first : reader.read input = .ok (some (value, count)))
      (others : Reads reader (input.drop count) values rest) :
      Reads reader input (value :: values) rest

/-- The answer on which reading stops: more input is needed, or none will do. -/
def stop : Option ε → Except ε (Option (β × Nat))
  | none => .ok none
  | some failure => .error failure

/-- The items that can be read off the input, what is left, and whether reading
stopped there for want of input or because of a failure. -/
structure Settles (reader : ItemReader α β ε) (input : List α) (values : List β)
    (rest : List α) (verdict : Option ε) : Prop where
  reads : Reads reader input values rest
  stopped : reader.read rest = stop verdict

variable {reader : ItemReader α β ε}

theorem stop_ne_item {verdict : Option ε} {value : β} {count : Nat} :
    (stop verdict : Except ε (Option (β × Nat))) ≠ .ok (some (value, count)) := by
  cases verdict with
  | none => simp [stop]
  | some failure => simp [stop]

theorem stop_injective {verdict other : Option ε}
    (same : (stop verdict : Except ε (Option (β × Nat))) = stop other) :
    verdict = other := by
  cases verdict with
  | none =>
      cases other with
      | none => rfl
      | some failure => cases same
  | some failure =>
      cases other with
      | none => cases same
      | some otherFailure => exact congrArg some (Except.error.inj same)

theorem Reads.append {input rest : List α} {values : List β}
    (reads : Reads reader input values rest) (later : List α) :
    Reads reader (input ++ later) values (rest ++ later) := by
  induction reads with
  | done input => exact .done _
  | @item input value count values rest first others ih =>
      have within := (reader.taken first).2
      have answered : reader.read input ≠ .ok none := by simp [first]
      have still : reader.read (input ++ later) = .ok (some (value, count)) := by
        rw [reader.stable later answered, first]
      apply Reads.item still
      rwa [List.drop_append_of_le_length within]

theorem Reads.trans {input middle rest : List α} {values others : List β}
    (first : Reads reader input values middle) (second : Reads reader middle others rest) :
    Reads reader input (values ++ others) rest := by
  induction first with
  | done input => exact second
  | item found _ ih => exact .item found (ih second)

/-- Every input settles. -/
theorem exists_settles (reader : ItemReader α β ε) (input : List α) :
    ∃ values rest verdict, Settles reader input values rest verdict := by
  induction length : input.length using Nat.strong_induction_on generalizing input with
  | h size ih =>
      subst length
      cases answer : reader.read input with
      | error failure => exact ⟨[], input, some failure, .done _, answer⟩
      | ok found =>
          cases found with
          | none => exact ⟨[], input, none, .done _, answer⟩
          | some item =>
              obtain ⟨value, count⟩ := item
              have took := reader.taken answer
              have shorter : (input.drop count).length < input.length := by
                rw [List.length_drop]
                omega
              obtain ⟨values, rest, verdict, settled⟩ := ih _ shorter _ rfl
              exact ⟨value :: values, rest, verdict, .item answer settled.reads,
                settled.stopped⟩

/-- An input settles in one way. -/
theorem Settles.unique {input rest otherRest : List α} {values others : List β}
    {verdict otherVerdict : Option ε} (one : Settles reader input values rest verdict)
    (other : Settles reader input others otherRest otherVerdict) :
    values = others ∧ rest = otherRest ∧ verdict = otherVerdict := by
  obtain ⟨reads, stopped⟩ := one
  induction reads generalizing others with
  | done input =>
      obtain ⟨reads', stopped'⟩ := other
      cases reads' with
      | done => exact ⟨rfl, rfl, stop_injective (stopped.symm.trans stopped')⟩
      | item first => exact absurd (stopped.symm.trans first) stop_ne_item
  | item first _ ih =>
      obtain ⟨reads', stopped'⟩ := other
      cases reads' with
      | done => exact absurd (stopped'.symm.trans first) stop_ne_item
      | item first' others' =>
          obtain ⟨rfl, rfl⟩ : _ ∧ _ := by
            simpa using Except.ok.inj (first.symm.trans first')
          obtain ⟨rfl, same⟩ := ih ⟨others', stopped'⟩ stopped
          exact ⟨rfl, same⟩

theorem Settles.resume {input rest later last : List α} {values others : List β}
    {verdict : Option ε} (before : Settles reader input values rest none)
    (after : Settles reader (rest ++ later) others last verdict) :
    Settles reader (input ++ later) (values ++ others) last verdict :=
  ⟨(before.reads.append later).trans after.reads, after.stopped⟩

theorem Settles.failed_append {input rest : List α} {values : List β} {failure : ε}
    (failed : Settles reader input values rest (some failure)) (later : List α) :
    Settles reader (input ++ later) values (rest ++ later) (some failure) := by
  refine ⟨failed.reads.append later, ?_⟩
  have answered : reader.read rest ≠ .ok none := by simp [failed.stopped, stop]
  rw [reader.stable later answered, failed.stopped]

end IncrementalReaders
