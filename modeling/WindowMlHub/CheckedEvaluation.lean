import Mathlib

/-!
# Evaluation that may panic

A program that indexes a map, unwraps an optional value or subtracts unsigned
integers has points at which it may abort.  `Checked` keeps every such point in
the value of the computation, so that "this call cannot panic" is the statement
that it evaluates to `ok`.  A loop is run with explicit fuel, and running out is
one more way to fail, so that termination is proved rather than assumed.
-/

namespace CheckedEvaluation

/-- Why an evaluation did not produce a value. -/
inductive Panic
  | expect (message : String)
  | index
  | underflow
  | hang
  deriving DecidableEq, Repr

/-- A value, or the point at which the evaluation aborted. -/
abbrev Checked (α : Type) := Except Panic α

/-- `Option::expect`. -/
def expect {α : Type} (message : String) : Option α → Checked α
  | some value => .ok value
  | none => .error (.expect message)

/-- Indexing a map by a key that has to be there. -/
def index {α : Type} : Option α → Checked α
  | some value => .ok value
  | none => .error .index

/-- Unsigned subtraction. -/
def sub (left right : Nat) : Checked Nat :=
  if right ≤ left then .ok (left - right) else .error .underflow

@[simp]
theorem expect_some {α : Type} (message : String) (value : α) :
    expect message (some value) = .ok value :=
  rfl

@[simp]
theorem index_some {α : Type} (value : α) : index (some value) = .ok value :=
  rfl

theorem expect_eq_ok {α : Type} {message : String} {found : Option α}
    {value : α} : expect message found = .ok value ↔ found = some value := by
  cases found <;> simp [expect]

theorem index_eq_ok {α : Type} {found : Option α} {value : α} :
    index found = .ok value ↔ found = some value := by
  cases found <;> simp [index]

theorem sub_of_le {left right : Nat} (le : right ≤ left) :
    sub left right = .ok (left - right) :=
  if_pos le

theorem le_of_sub {left right difference : Nat}
    (subtracted : sub left right = .ok difference) : difference ≤ left := by
  unfold sub at subtracted
  split at subtracted
  · cases subtracted
    exact Nat.sub_le left right
  · cases subtracted

@[simp]
theorem add_sub_left (left right : Nat) :
    sub (left + right) left = .ok right := by
  simp [sub]

@[simp]
theorem add_sub_right (left right : Nat) :
    sub (left + right) right = .ok left := by
  simp [sub]

@[simp]
theorem ok_bind {α β : Type} (value : α) (next : α → Checked β) :
    ((Except.ok value : Checked α) >>= next) = next value :=
  rfl

@[simp]
theorem pure_eq_ok {α : Type} (value : α) :
    (pure value : Checked α) = .ok value :=
  rfl

/-- What is computed of an evaluation holds of its value. -/
@[elab_as_elim]
theorem holds_of_check {α : Type} {evaluation : Checked α} {value : α} {motive : α → Prop}
    [DecidablePred motive] (ran : evaluation = .ok value)
    (check : evaluation.toOption.any (fun value => decide (motive value)) = true) :
    motive value := by
  subst ran
  exact of_decide_eq_true check

theorem bind_eq_ok {α β : Type} {first : Checked α} {next : α → Checked β}
    {result : β} :
    (first >>= next) = .ok result ↔
      ∃ value, first = .ok value ∧ next value = .ok result := by
  cases first with
  | error panic => simp [bind, Except.bind]
  | ok value => simp

end CheckedEvaluation
