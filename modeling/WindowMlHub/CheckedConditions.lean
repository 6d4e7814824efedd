import Mathlib

/-!
# Computations that refuse

A program that checks its input one condition after another, and answers with the
refusal of the first that fails.  That such a computation went through says that
every condition holds.
-/

namespace CheckedConditions

variable {ε α β : Type}

/-- Go on if the condition holds, and otherwise answer with the refusal. -/
def ensure (condition : Prop) [Decidable condition] (refusal : ε) : Except ε Unit :=
  if condition then .ok () else .error refusal

/-- The value, or the refusal if there is none. -/
def require (found : Option α) (refusal : ε) : Except ε α :=
  match found with
  | some value => .ok value
  | none => .error refusal

@[simp]
theorem ensure_eq_ok {condition : Prop} [Decidable condition] {refusal : ε}
    {result : Unit} : ensure condition refusal = .ok result ↔ condition := by
  unfold ensure
  split <;> simp [*]

@[simp]
theorem require_eq_ok {found : Option α} {refusal : ε} {value : α} :
    require found refusal = .ok value ↔ found = some value := by
  cases found <;> simp [require]

@[simp]
theorem pure_eq_ok_iff {value result : α} :
    (pure value : Except ε α) = .ok result ↔ value = result := by
  simp [pure, Except.pure]

theorem bind_eq_ok {first : Except ε α} {next : α → Except ε β} {result : β} :
    (first >>= next) = .ok result ↔
      ∃ value, first = .ok value ∧ next value = .ok result := by
  cases first with
  | error refusal => simp [bind, Except.bind]
  | ok value => simp [bind, Except.bind]

theorem bind_of_eq_ok {first : Except ε α} {next : α → Except ε β} {value : α}
    (done : first = .ok value) : (first >>= next) = next value := by
  rw [done]
  rfl

theorem ensure_bind {condition : Prop} [Decidable condition] {refusal : ε}
    {next : Unit → Except ε β} (holds : condition) :
    (ensure condition refusal >>= next) = next () :=
  bind_of_eq_ok (ensure_eq_ok.mpr holds)

theorem require_bind {found : Option α} {refusal : ε} {value : α}
    {next : α → Except ε β} (isFound : found = some value) :
    (require found refusal >>= next) = next value :=
  bind_of_eq_ok (require_eq_ok.mpr isFound)

theorem mapError_eq_ok {δ : Type} {rename : ε → δ} {result : Except ε α} {value : α} :
    result.mapError rename = .ok value ↔ result = .ok value := by
  cases result with
  | error refusal => simp [Except.mapError]
  | ok found => simp [Except.mapError]

theorem mapM_eq_ok {check : α → Except ε β} {values : List α} {results : List β} :
    values.mapM check = .ok results ↔
      List.Forall₂ (fun value result => check value = .ok result) values results := by
  induction values generalizing results with
  | nil =>
      cases results with
      | nil => simp [pure, Except.pure]
      | cons result rest => simp [pure, Except.pure]
  | cons value rest ih =>
      simp only [List.mapM_cons, bind_eq_ok, ih, pure, Except.pure, Except.ok.injEq]
      constructor
      · rintro ⟨result, checked, others, related, rfl⟩
        exact .cons checked related
      · rintro (_ | ⟨checked, related⟩)
        exact ⟨_, checked, _, related, rfl⟩

end CheckedConditions
