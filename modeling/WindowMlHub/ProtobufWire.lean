import Mathlib

/-!
# The protobuf wire format

A message is a sequence of tagged values: a number, eight bytes, four bytes, so many bytes,
or a group, which is skipped to where it ends.  This is what any decoder of any message sees
before it knows a field by its number.  Numbers have at most ten bytes and are taken as
64-bit words.
-/

namespace ProtobufWire

/-- A value, by how it is written. -/
inductive WireValue
  | varint (number : Nat)
  | fixed64 (content : List UInt8)
  | delimited (content : List UInt8)
  | fixed32 (content : List UInt8)
  | group
  deriving DecidableEq, Repr

/-- A value and the number of its field. -/
structure Tag where
  number : Nat
  value : WireValue
  deriving DecidableEq, Repr

/-- The number at the front, of no more than so many bytes, lowest seven bits first. -/
def varintWithin : Nat → List UInt8 → Option (Nat × List UInt8)
  | 0, _ => none
  | _ + 1, [] => none
  | limit + 1, byte :: rest =>
      if byte.toNat < 128 then some (byte.toNat, rest)
      else (varintWithin limit rest).map fun later => (byte.toNat % 128 + 128 * later.1, later.2)

/-- The number at the front, as a 64-bit word. -/
def varint (bytes : List UInt8) : Option (Nat × List UInt8) :=
  (varintWithin 10 bytes).map fun found => (found.1 % 2 ^ 64, found.2)

/-- So many bytes off the front. -/
def takeBytes (count : Nat) (bytes : List UInt8) : Option (List UInt8 × List UInt8) :=
  if bytes.length < count then none else some (bytes.take count, bytes.drop count)

/-- The value at the front, for a key of this wire type other than a group's. -/
def readFlat (wire : Nat) (bytes : List UInt8) : Option (WireValue × List UInt8) :=
  match wire with
  | 0 => (varint bytes).map fun found => (.varint found.1, found.2)
  | 1 => (takeBytes 8 bytes).map fun found => (.fixed64 found.1, found.2)
  | 2 => do
      let (length, rest) ← varint bytes
      let (content, rest) ← takeBytes length rest
      return (.delimited content, rest)
  | 5 => (takeBytes 4 bytes).map fun found => (.fixed32 found.1, found.2)
  | _ => none

/-- What follows the end of a group of this number. -/
def skipGroup : Nat → Nat → List UInt8 → Option (List UInt8)
  | 0, _, _ => none
  | fuel + 1, number, bytes => do
      let (key, rest) ← varint bytes
      if key % 8 = 4 then
        if key / 8 = number then some rest else none
      else if key % 8 = 3 then
        let rest ← skipGroup fuel (key / 8) rest
        skipGroup fuel number rest
      else
        let (_, rest) ← readFlat (key % 8) rest
        skipGroup fuel number rest

/-- The tagged value at the front, of a number that fields can have. -/
def readTag (bytes : List UInt8) : Option (Tag × List UInt8) := do
  let (key, rest) ← varint bytes
  if key / 8 = 0 ∨ 2 ^ 29 ≤ key / 8 then none
  else if key % 8 = 3 then
    let rest ← skipGroup bytes.length (key / 8) rest
    return (⟨key / 8, .group⟩, rest)
  else
    let (value, rest) ← readFlat (key % 8) rest
    return (⟨key / 8, value⟩, rest)

/-- The tagged value at the front, of any number, groups left out. -/
def walkTag (bytes : List UInt8) : Option (Tag × List UInt8) := do
  let (key, rest) ← varint bytes
  let (value, rest) ← readFlat (key % 8) rest
  return (⟨key / 8, value⟩, rest)

/-- All tagged values, taken off the front one by one, at most so many. -/
def tagsWithin (read : List UInt8 → Option (Tag × List UInt8)) :
    Nat → List UInt8 → Option (List Tag)
  | _, [] => some []
  | 0, _ :: _ => none
  | fuel + 1, first :: others => do
      let (tag, rest) ← read (first :: others)
      let tags ← tagsWithin read fuel rest
      return tag :: tags

/-- The tagged values of a message. -/
def readTags (bytes : List UInt8) : Option (List Tag) :=
  tagsWithin readTag bytes.length bytes

/-- The tagged values of bytes that have no groups. -/
def walkTags (bytes : List UInt8) : Option (List Tag) :=
  tagsWithin walkTag bytes.length bytes

/-- Where there is no group, both readings are the same. -/
theorem walkTag_of_readTag {bytes rest : List UInt8} {tag : Tag}
    (found : readTag bytes = some (tag, rest)) (flat : walkTag bytes ≠ none) :
    walkTag bytes = some (tag, rest) := by
  unfold readTag at found
  unfold walkTag at flat ⊢
  cases keyed : varint bytes with
  | none =>
      rw [keyed] at found
      cases found
  | some front =>
      obtain ⟨key, after⟩ := front
      rw [keyed] at found flat
      simp only [Option.bind_eq_bind, Option.bind_some] at found flat ⊢
      split at found
      · cases found
      split at found
      next startsGroup =>
        rw [startsGroup] at flat
        exact absurd rfl flat
      · exact found

/-- Where there is no group, both readings find the same values. -/
theorem walkTags_of_readTags {bytes : List UInt8} {tags : List Tag}
    (found : readTags bytes = some tags) (flat : walkTags bytes ≠ none) :
    walkTags bytes = some tags := by
  suffices within : ∀ fuel bytes tags, tagsWithin readTag fuel bytes = some tags →
      tagsWithin walkTag fuel bytes ≠ none → tagsWithin walkTag fuel bytes = some tags from
    within _ _ _ found flat
  intro fuel
  induction fuel with
  | zero =>
      intro bytes tags found _
      cases bytes with
      | nil => exact found
      | cons first others => cases found
  | succ fuel ih =>
      intro bytes tags found flat
      cases bytes with
      | nil => exact found
      | cons first others =>
          simp only [tagsWithin, Option.bind_eq_bind, Option.bind_eq_some_iff,
            Option.pure_def, Option.some.injEq] at found
          obtain ⟨⟨tag, rest⟩, front, later, others', rfl⟩ := found
          simp only [tagsWithin, Option.bind_eq_bind] at flat ⊢
          have walked := walkTag_of_readTag front (by
            intro none
            rw [none] at flat
            exact flat rfl)
          rw [walked] at flat ⊢
          simp only [Option.bind_some] at flat ⊢
          have onward := ih rest later others' (by
            intro none
            rw [none] at flat
            exact flat rfl)
          rw [onward]
          rfl

end ProtobufWire
