import Mathlib

/-!
# Keys remembered for a while

A queue of keys in the order in which they were noted, each with the reading of a clock
from which it may be forgotten.  At a reading, entries are forgotten from the front for
as long as they may be, and then perhaps a key is noted behind the others.  The clock
may jump and step back: an entry is still there if no reading since has reached its
time.
-/

namespace RetentionQueues

variable {K : Type}

/-- What the front of a queue may lose at a reading of the clock. -/
def forgetDue (now : Nat) (queue : List (Nat × K)) : List (Nat × K) :=
  queue.dropWhile fun entry => decide (entry.1 ≤ now)

/-- A reading of the clock, and the entry that is noted at it, if any. -/
structure Reading (K : Type) where
  now : Nat
  noted : Option (Nat × K)

/-- Forget what may be forgotten, and note the new entry. -/
def look (queue : List (Nat × K)) (reading : Reading K) : List (Nat × K) :=
  forgetDue reading.now queue ++ reading.noted.toList

/-- One reading after another. -/
def run (queue : List (Nat × K)) (readings : List (Reading K)) : List (Nat × K) :=
  readings.foldl look queue

variable {now : Nat} {queue : List (Nat × K)} {entry : Nat × K}

theorem forgetDue_suffix (now : Nat) (queue : List (Nat × K)) :
    forgetDue now queue <:+ queue :=
  List.dropWhile_suffix _

theorem forgetDue_subset (now : Nat) (queue : List (Nat × K)) :
    forgetDue now queue ⊆ queue :=
  (forgetDue_suffix now queue).subset

theorem mem_forgetDue (member : entry ∈ queue) (live : now < entry.1) :
    entry ∈ forgetDue now queue := by
  induction queue with
  | nil => cases member
  | cons first rest ih =>
      unfold forgetDue
      by_cases due : first.1 ≤ now
      · rw [List.dropWhile_cons_of_pos (by simpa using due)]
        rcases List.mem_cons.mp member with rfl | later
        · omega
        · exact ih later
      · rw [List.dropWhile_cons_of_neg (by simpa using due)]
        exact member

theorem mem_look {reading : Reading K} (member : entry ∈ queue)
    (live : reading.now < entry.1) : entry ∈ look queue reading :=
  List.mem_append_left _ (mem_forgetDue member live)

theorem mem_run {readings : List (Reading K)} (member : entry ∈ queue)
    (live : ∀ reading ∈ readings, reading.now < entry.1) :
    entry ∈ run queue readings := by
  induction readings generalizing queue with
  | nil => exact member
  | cons reading rest ih =>
      exact ih (mem_look member (live reading List.mem_cons_self))
        fun later among => live later (List.mem_cons_of_mem _ among)

end RetentionQueues
