import Mathlib

/-!
# Fields of tagged messages

A message on the wire is one field after another: a number that says which field it is
and what kind of value follows, and then the value, a number or so many bytes.  Numbers
are written in some coding that is read back whatever follows it.

What was written as fields is read back as those fields, and its length is the sum of
theirs.
-/

namespace ProtobufFields

/-- How numbers below a bound are written so that they are read back off the front. -/
structure NumberCoding where
  bound : Nat
  write : Nat → List UInt8
  read : List UInt8 → Option (Nat × List UInt8)
  read_write : ∀ {number}, number < bound → ∀ rest,
    read (write number ++ rest) = some (number, rest)
  read_nil : read [] = none
  read_lt : ∀ {bytes number rest}, read bytes = some (number, rest) → number < bound

/-- The value of a field, by how it is written. -/
inductive Value
  | number (value : Nat)
  | bytes (content : List UInt8)
  deriving DecidableEq, Repr

structure Field where
  tag : Nat
  value : Value
  deriving DecidableEq, Repr

variable (coding : NumberCoding)

namespace Field

/-- The field on the wire. -/
def write : Field → List UInt8
  | ⟨tag, .number value⟩ => coding.write (8 * tag) ++ coding.write value
  | ⟨tag, .bytes content⟩ =>
      coding.write (8 * tag + 2) ++ (coding.write content.length ++ content)

/-- The field at the front, if there is a whole one. -/
def read (bytes : List UInt8) : Option (Field × List UInt8) := do
  let (key, rest) ← coding.read bytes
  if key / 8 = 0 then none
  else if key % 8 = 0 then
    let (value, rest) ← coding.read rest
    return (⟨key / 8, .number value⟩, rest)
  else if key % 8 = 2 then
    let (length, rest) ← coding.read rest
    if length ≤ rest.length then
      return (⟨key / 8, .bytes (rest.take length)⟩, rest.drop length)
    else none
  else none

/-- What a number of the coding can say of the field. -/
structure Fits (field : Field) : Prop where
  positive : 0 < field.tag
  tag_lt : 8 * field.tag + 2 < coding.bound
  value_lt : match field.value with
    | .number value => value < coding.bound
    | .bytes content => content.length < coding.bound

end Field

/-- The fields one after another. -/
def writeFields (fields : List Field) : List UInt8 :=
  (fields.map (Field.write coding)).flatten

/-- The fields that so many bytes begin with. -/
def readFieldsWithin : Nat → List UInt8 → Option (List Field)
  | _, [] => some []
  | 0, _ :: _ => none
  | fuel + 1, first :: others => do
      let (field, rest) ← Field.read coding (first :: others)
      let fields ← readFieldsWithin fuel rest
      return field :: fields

/-- The fields of a message: none has fewer than one byte. -/
def readFields (bytes : List UInt8) : Option (List Field) :=
  readFieldsWithin coding bytes.length bytes

variable {coding}

@[simp]
theorem writeFields_nil : writeFields coding [] = [] :=
  rfl

@[simp]
theorem writeFields_cons (field : Field) (fields : List Field) :
    writeFields coding (field :: fields) =
      field.write coding ++ writeFields coding fields := by
  simp [writeFields]

@[simp]
theorem writeFields_append (first second : List Field) :
    writeFields coding (first ++ second) =
      writeFields coding first ++ writeFields coding second := by
  simp [writeFields]

theorem NumberCoding.write_ne_nil {number : Nat} (fits : number < coding.bound) :
    coding.write number ≠ [] := by
  intro nothing
  have := coding.read_write fits []
  rw [nothing, List.append_nil, coding.read_nil] at this
  cases this

namespace Field

theorem write_ne_nil {field : Field} (fits : field.Fits coding) :
    field.write coding ≠ [] := by
  have tagged := fits.tag_lt
  obtain ⟨tag, value⟩ := field
  cases value with
  | number value =>
      have key : 8 * tag < coding.bound := by
        dsimp only at tagged
        omega
      have := coding.write_ne_nil key
      simp [write, this]
  | bytes content =>
      have := coding.write_ne_nil tagged
      simp [write, this]

theorem read_write {field : Field} (fits : field.Fits coding) (rest : List UInt8) :
    read coding (field.write coding ++ rest) = some (field, rest) := by
  obtain ⟨positive, tagged, valued⟩ := fits
  obtain ⟨tag, value⟩ := field
  dsimp only at positive tagged valued
  cases value with
  | number value =>
      have isTag : 8 * tag / 8 = tag := by omega
      simp [read, write, coding.read_write (show 8 * tag < coding.bound by omega),
        coding.read_write valued, isTag, positive.ne']
  | bytes content =>
      have isTag : (8 * tag + 2) / 8 = tag := by omega
      have isKind : (8 * tag + 2) % 8 = 2 := by omega
      have known : ¬ 8 * tag + 2 < 8 := by omega
      simp [read, write, coding.read_write tagged, coding.read_write valued, isTag, isKind,
        known]

/-- A number that is read is below the bound. -/
theorem number_lt_of_read {bytes rest : List UInt8} {field : Field} {value : Nat}
    (found : read coding bytes = some (field, rest)) (number : field.value = .number value) :
    value < coding.bound := by
  simp only [read, Option.bind_eq_bind, Option.bind_eq_some_iff] at found
  obtain ⟨⟨key, others⟩, -, found⟩ := found
  split at found
  · cases found
  split at found
  · obtain ⟨⟨value', after⟩, isRead, returned⟩ := Option.bind_eq_some_iff.mp found
    cases returned
    cases number
    exact coding.read_lt isRead
  split at found
  · obtain ⟨⟨length, after⟩, -, returned⟩ := Option.bind_eq_some_iff.mp found
    dsimp only at returned
    split at returned
    · cases returned
      cases number
    · cases returned
  · cases found

end Field

/-- What was written as fields is read back as those fields. -/
theorem readFields_writeFields {fields : List Field}
    (fits : ∀ field ∈ fields, field.Fits coding) :
    readFields coding (writeFields coding fields) = some fields := by
  suffices within : ∀ fuel, (writeFields coding fields).length ≤ fuel →
      readFieldsWithin coding fuel (writeFields coding fields) = some fields from
    within _ le_rfl
  induction fields with
  | nil =>
      intro fuel _
      cases fuel <;> rfl
  | cons field fields ih =>
      intro fuel enough
      have fieldFits := fits field List.mem_cons_self
      have nonempty := List.length_pos_iff.mpr (Field.write_ne_nil fieldFits)
      have isRead := Field.read_write fieldFits (writeFields coding fields)
      rw [writeFields_cons] at enough ⊢
      rw [List.length_append] at enough
      cases fuel with
      | zero => omega
      | succ fuel =>
          have others := ih (fun other member => fits other (List.mem_cons_of_mem _ member))
            fuel (by omega)
          cases written : field.write coding ++ writeFields coding fields with
          | nil => simp [List.append_eq_nil_iff, Field.write_ne_nil fieldFits] at written
          | cons first rest =>
              rw [written] at isRead
              simp [readFieldsWithin, isRead, others]

/-- Every number among the fields that are read is below the bound. -/
theorem number_lt_of_readFields {bytes : List UInt8} {fields : List Field}
    (found : readFields coding bytes = some fields) {field : Field} (member : field ∈ fields)
    {value : Nat} (number : field.value = .number value) : value < coding.bound := by
  suffices within : ∀ fuel bytes, readFieldsWithin coding fuel bytes = some fields →
      value < coding.bound from within _ _ found
  clear found
  intro fuel
  induction fuel generalizing fields with
  | zero =>
      intro bytes found
      cases bytes with
      | nil =>
          cases found
          cases member
      | cons first others => cases found
  | succ fuel ih =>
      intro bytes found
      cases bytes with
      | nil =>
          cases found
          cases member
      | cons first others =>
          simp only [readFieldsWithin, Option.bind_eq_bind, Option.bind_eq_some_iff,
            Option.pure_def, Option.some.injEq] at found
          obtain ⟨⟨found, rest⟩, isRead, later, areRead, rfl⟩ := found
          rcases List.mem_cons.mp member with rfl | among
          · exact Field.number_lt_of_read isRead number
          · exact ih among rest areRead

/-! ## Messages -/

/-- A field of bytes, left out when there are none. -/
def bytesField (tag : Nat) (content : List UInt8) : List Field :=
  if content = [] then [] else [⟨tag, .bytes content⟩]

/-- A field of a number, left out when it is zero. -/
def numberField (tag number : Nat) : List Field :=
  if number = 0 then [] else [⟨tag, .number number⟩]

section Merging

variable {Message : Type} {merge : Message → Field → Option Message}
  {before after : Message} {tag number : Nat} {content : List UInt8}

theorem foldlM_append_some {first second : List Field} {middle : Message}
    (merged : first.foldlM merge before = some middle)
    (mergedNext : second.foldlM merge middle = some after) :
    (first ++ second).foldlM merge before = some after := by
  rw [List.foldlM_append, merged]
  exact mergedNext

theorem foldlM_bytesField (skipped : content = [] → before = after)
    (merged : merge before ⟨tag, .bytes content⟩ = some after) :
    (bytesField tag content).foldlM merge before = some after := by
  unfold bytesField
  split
  · next nothing => simp [skipped nothing]
  · simp [merged]

theorem foldlM_numberField (skipped : number = 0 → before = after)
    (merged : merge before ⟨tag, .number number⟩ = some after) :
    (numberField tag number).foldlM merge before = some after := by
  unfold numberField
  split
  · next nothing => simp [skipped nothing]
  · simp [merged]

end Merging

theorem mem_bytesField {tag : Nat} {content : List UInt8} {field : Field}
    (member : field ∈ bytesField tag content) : field = ⟨tag, .bytes content⟩ := by
  unfold bytesField at member
  split at member
  · cases member
  · exact List.mem_singleton.mp member

theorem mem_numberField {tag number : Nat} {field : Field}
    (member : field ∈ numberField tag number) : field = ⟨tag, .number number⟩ := by
  unfold numberField at member
  split at member
  · cases member
  · exact List.mem_singleton.mp member

theorem length_le_bytesField (coding : NumberCoding) (tag : Nat) (content : List UInt8) :
    content.length ≤ (writeFields coding (bytesField tag content)).length := by
  unfold bytesField
  split
  · next nothing => simp [nothing]
  · simp only [writeFields_cons, Field.write, List.length_append]
    omega

theorem length_content_le {fields : List Field} {tag : Nat} {content : List UInt8}
    (member : ⟨tag, .bytes content⟩ ∈ fields) :
    content.length ≤ (writeFields coding fields).length := by
  obtain ⟨earlier, later, rfl⟩ := List.append_of_mem member
  simp only [writeFields_append, writeFields_cons, Field.write, List.length_append]
  omega

section Lengths

variable {tag width : Nat}

theorem length_bytesField_le (content : List UInt8)
    (key : (coding.write (8 * tag + 2)).length ≤ 1)
    (counted : (coding.write content.length).length ≤ width) :
    (writeFields coding (bytesField tag content)).length ≤ 1 + width + content.length := by
  unfold bytesField
  split
  · simp
  · simp only [writeFields_cons, writeFields_nil, Field.write, List.length_append,
      List.length_nil]
    omega

theorem length_numberField_le (number : Nat) (key : (coding.write (8 * tag)).length ≤ 1)
    (written : (coding.write number).length ≤ width) :
    (writeFields coding (numberField tag number)).length ≤ 1 + width := by
  unfold numberField
  split
  · simp
  · simp only [writeFields_cons, writeFields_nil, Field.write, List.length_append,
      List.length_nil]
    omega

theorem length_writeFields_map_le {α : Type} {bound : Nat} (field : α → Field)
    (values : List α) (each : ∀ value ∈ values, ((field value).write coding).length ≤ bound) :
    (writeFields coding (values.map field)).length ≤ values.length * bound := by
  induction values with
  | nil => simp
  | cons value values ih =>
      have first := each value List.mem_cons_self
      have others := ih fun other member => each other (List.mem_cons_of_mem _ member)
      rw [List.map_cons, writeFields_cons, List.length_append, List.length_cons,
        Nat.succ_mul]
      omega

end Lengths

end ProtobufFields
