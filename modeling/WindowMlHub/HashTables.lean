import Mathlib

/-!
# Hash tables with an unspecified iteration order

A hash map is an association list without repeated keys.  What a program can
observe beyond lookups is the order in which the table hands out its entries,
and nothing is promised about that order: a `Walk` is an arbitrary
rearrangement, chosen afresh for every operation that iterates.

The summation lemmas describe how a total over all entries changes when one
entry is inserted or erased.
-/

namespace HashTables

/-- A finite map. -/
abbrev HashMap (K V : Type) := AList (fun _ : K => V)

/-- A finite set, as the map to the unit type. -/
abbrev HashSet (K : Type) := HashMap K Unit

/-- An iteration order: every entry comes up exactly once, in an order that is
a function of nothing the caller controls. -/
structure Walk (α : Type) where
  list : List α → List α
  perm : ∀ entries, (list entries).Perm entries

/-- The walk in storage order. -/
def Walk.stored (α : Type) : Walk α where
  list := id
  perm := List.Perm.refl

namespace Walk

variable {α : Type} (walk : Walk α) {entries : List α}

@[simp]
theorem mem_list {entry : α} :
    entry ∈ walk.list entries ↔ entry ∈ entries :=
  (walk.perm entries).mem_iff

theorem nodup_list (nodup : entries.Nodup) : (walk.list entries).Nodup :=
  (walk.perm entries).nodup_iff.mpr nodup

theorem length_list : (walk.list entries).length = entries.length :=
  (walk.perm entries).length_eq

@[simp]
theorem list_nil : walk.list [] = [] :=
  List.perm_nil.mp (walk.perm [])

end Walk

/-- The first entry with the least key, as `Iterator::min_by_key`. -/
def minByKey {α : Type} (key : α → Nat) (entries : List α) : Option α :=
  entries.argmin key

/-- The last entry with the greatest key, as `Iterator::max_by_key`. -/
def maxByKey {α : Type} (key : α → Nat) (entries : List α) : Option α :=
  entries.reverse.argmax key

theorem mem_of_minByKey {α : Type} {key : α → Nat} {entries : List α}
    {entry : α} (found : minByKey key entries = some entry) :
    entry ∈ entries :=
  List.argmin_mem found

theorem mem_of_maxByKey {α : Type} {key : α → Nat} {entries : List α}
    {entry : α} (found : maxByKey key entries = some entry) :
    entry ∈ entries := by
  simpa using List.argmax_mem found

theorem eq_nil_of_maxByKey_eq_none {α : Type} {key : α → Nat}
    {entries : List α} (absent : maxByKey key entries = none) :
    entries = [] := by
  simpa [maxByKey] using absent

theorem le_of_maxByKey {α : Type} {key : α → Nat} {entries : List α}
    {greatest entry : α} (found : maxByKey key entries = some greatest)
    (member : entry ∈ entries) :
    key entry ≤ key greatest :=
  List.le_of_mem_argmax (by simpa using member) found

namespace HashMap

variable {K V : Type} [DecidableEq K]

/-- The number of entries. -/
def len (map : HashMap K V) : Nat :=
  map.keys.length

/-- The sum of `weight` over all values. -/
def total (weight : V → Nat) (map : HashMap K V) : Nat :=
  (map.entries.map fun entry => weight entry.2).sum

omit [DecidableEq K] in
@[simp]
theorem total_empty (weight : V → Nat) :
    total weight (∅ : HashMap K V) = 0 :=
  rfl

theorem mem_of_lookup {map : HashMap K V} {key : K} {value : V}
    (found : map.lookup key = some value) : key ∈ map :=
  AList.lookup_isSome.mp (by simp [found])

theorem exists_lookup_of_mem {map : HashMap K V} {key : K}
    (member : key ∈ map) : ∃ value, map.lookup key = some value :=
  Option.isSome_iff_exists.mp (AList.lookup_isSome.mpr member)

theorem mem_iff_exists_lookup {map : HashMap K V} {key : K} :
    key ∈ map ↔ ∃ value, map.lookup key = some value :=
  ⟨exists_lookup_of_mem, fun ⟨_, found⟩ => mem_of_lookup found⟩

theorem lookup_of_mem_entries {map : HashMap K V} {key : K} {value : V}
    (member : (⟨key, value⟩ : Σ _ : K, V) ∈ map.entries) :
    map.lookup key = some value :=
  AList.mem_lookup_iff.mpr member

theorem mem_entries_of_lookup {map : HashMap K V} {key : K} {value : V}
    (found : map.lookup key = some value) :
    (⟨key, value⟩ : Σ _ : K, V) ∈ map.entries :=
  AList.mem_lookup_iff.mp found

theorem lookup_insert_eq (map : HashMap K V) (key probe : K) (value : V) :
    (map.insert key value).lookup probe =
      if probe = key then some value else map.lookup probe := by
  by_cases same : probe = key
  · subst same
    simp
  · simp [same, AList.lookup_insert_ne same]

theorem lookup_erase_eq (map : HashMap K V) (key probe : K) :
    (map.erase key).lookup probe =
      if probe = key then none else map.lookup probe := by
  by_cases same : probe = key
  · subst same
    simp
  · simp [same, AList.lookup_erase_ne same]

theorem eq_empty_of_forall_lookup {map : HashMap K V}
    (absent : ∀ key, map.lookup key = none) : map = ∅ := by
  apply AList.ext
  rcases entries : map.entries with _ | ⟨⟨key, value⟩, rest⟩
  · rfl
  · have found : map.lookup key = some value :=
      lookup_of_mem_entries (by simp [entries])
    simp [absent key] at found

omit [DecidableEq K] in
theorem ne_empty_of_mem {map : HashMap K V} {key : K} (member : key ∈ map) :
    map ≠ ∅ := by
  rintro rfl
  exact AList.notMem_empty key member

theorem exists_mem_of_ne_empty {map : HashMap K V} (nonempty : map ≠ ∅) :
    ∃ key, key ∈ map := by
  by_contra none
  push Not at none
  exact nonempty (eq_empty_of_forall_lookup
    fun key => AList.lookup_eq_none.mpr (none key))

omit [DecidableEq K] in
theorem len_eq_zero_iff {map : HashMap K V} : len map = 0 ↔ map = ∅ := by
  constructor
  · intro none
    apply AList.ext
    simpa [len, AList.keys, List.keys] using none
  · rintro rfl
    rfl

theorem total_insert (weight : V → Nat) (map : HashMap K V) (key : K)
    (value : V) :
    total weight (map.insert key value) =
      weight value + total weight (map.erase key) := by
  simp [total, AList.insert, AList.erase, List.kinsert_def]

theorem total_erase_add (weight : V → Nat) {map : HashMap K V} {key : K}
    {value : V} (found : map.lookup key = some value) :
    weight value + total weight (map.erase key) = total weight map := by
  have split : map.entries.Perm
      (⟨key, value⟩ :: (map.erase key).entries) := by
    have member := mem_entries_of_lookup found
    obtain ⟨head, first, second, _, whole, rest⟩ :=
      List.exists_of_kerase (List.mem_keys_of_mem member)
    have same : head = value := by
      have shown : (⟨key, head⟩ : Σ _ : K, V) ∈ map.entries := by
        rw [whole]
        simp
      exact map.nodupKeys.eq_of_mk_mem shown member
    subst same
    change map.entries.Perm (_ :: List.kerase key map.entries)
    rw [rest, whole]
    exact List.perm_middle
  have sums := (split.map fun entry : Σ _ : K, V => weight entry.2).sum_nat
  simpa [total] using sums.symm

theorem weight_le_total (weight : V → Nat) {map : HashMap K V} {key : K}
    {value : V} (found : map.lookup key = some value) :
    weight value ≤ total weight map := by
  have split := total_erase_add weight found
  omega

theorem total_erase_of_notMem (weight : V → Nat) {map : HashMap K V}
    {key : K} (absent : key ∉ map) :
    total weight (map.erase key) = total weight map := by
  have same : (map.erase key).entries = map.entries :=
    List.kerase_of_notMem_keys absent
  simp [total, same]

theorem total_insert_add (weight : V → Nat) {map : HashMap K V} {key : K}
    {value : V} (found : map.lookup key = some value) (next : V) :
    total weight (map.insert key next) + weight value =
      total weight map + weight next := by
  have split := total_erase_add weight found
  rw [total_insert]
  omega

omit [DecidableEq K] in
theorem total_le_mul {weight count : V → Nat} {bound : Nat} {map : HashMap K V}
    (each : ∀ entry ∈ map.entries, weight entry.2 ≤ bound * count entry.2) :
    total weight map ≤ bound * total count map := by
  unfold total
  rw [← List.sum_map_mul_left]
  exact List.sum_le_sum each

theorem len_insert_of_notMem {map : HashMap K V} {key : K}
    (absent : key ∉ map) (value : V) :
    len (map.insert key value) = len map + 1 := by
  have same : map.keys.erase key = map.keys :=
    List.erase_of_not_mem absent
  simp [len, AList.keys_insert, same]

theorem len_erase_of_mem {map : HashMap K V} {key : K} (member : key ∈ map) :
    len (map.erase key) + 1 = len map := by
  have positive : 0 < map.keys.length := List.length_pos_of_mem member
  have shorter := List.length_erase_of_mem (AList.mem_keys.mp member)
  simp only [len, AList.keys_erase, shorter]
  omega

theorem len_insert_of_mem {map : HashMap K V} {key : K} (member : key ∈ map)
    (value : V) :
    len (map.insert key value) = len map := by
  have shorter := len_erase_of_mem member
  simpa [len, AList.keys_insert] using shorter

/-- `retain`: keep only the entries that pass. -/
def retain (keep : K → V → Bool) (map : HashMap K V) : HashMap K V where
  entries := map.entries.filter fun entry => keep entry.1 entry.2
  nodupKeys := map.nodupKeys.sublist List.filter_sublist

theorem lookup_retain (keep : K → V → Bool) (map : HashMap K V) (key : K) :
    (map.retain keep).lookup key = (map.lookup key).filter (keep key) := by
  apply Option.ext
  intro value
  have kept : (map.retain keep).lookup key = some value ↔
      map.lookup key = some value ∧ keep key value = true := by
    have iff : (⟨key, value⟩ : Σ _ : K, V) ∈ (map.retain keep).entries ↔
        ⟨key, value⟩ ∈ map.entries ∧ keep key value = true :=
      List.mem_filter
    constructor
    · intro found
      obtain ⟨member, passes⟩ := iff.mp (mem_entries_of_lookup found)
      exact ⟨lookup_of_mem_entries member, passes⟩
    · rintro ⟨found, passes⟩
      exact lookup_of_mem_entries (iff.mpr ⟨mem_entries_of_lookup found, passes⟩)
  rw [kept, Option.filter_eq_some_iff]

omit [DecidableEq K] in
theorem len_retain_le (keep : K → V → Bool) (map : HashMap K V) :
    len (map.retain keep) ≤ len map := by
  have shorter : (map.retain keep).entries.length ≤ map.entries.length :=
    List.length_filter_le _ _
  simpa [len, AList.keys, List.keys] using shorter

theorem len_erase_le (map : HashMap K V) (key : K) : len (map.erase key) ≤ len map := by
  simpa [len, AList.keys_erase] using List.length_erase_le

omit [DecidableEq K] in
theorem len_le_of_forall_mem {W : Type} {map : HashMap K V} {other : HashMap K W}
    (all : ∀ key ∈ map, key ∈ other) : len map ≤ len other :=
  (List.subperm_of_subset map.nodupKeys fun _ member => all _ member).length_le

omit [DecidableEq K] in
theorem len_le_succ {W : Type} {map : HashMap K V} {other : HashMap K W} {extra : K}
    (all : ∀ key ∈ map, key = extra ∨ key ∈ other) : len map ≤ len other + 1 := by
  have within : map.keys ⊆ extra :: other.keys := fun _ member =>
    List.mem_cons.mpr (all _ member)
  exact (List.subperm_of_subset map.nodupKeys within).length_le

end HashMap

end HashTables
