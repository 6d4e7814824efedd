import WindowMlHub.ForwardedAddresses

/-!
# Blocks and mapped addresses

An IPv4 address reaches the hub in two forms, and a block of proxies is meant to hold
both or neither.  A block holds an address of its own family exactly if their first bits
agree, bit by bit, and nothing that is compared lies past the end of an address.  Across
the families a block of version 4 addresses reads the mapped form, and a block whose
network is itself mapped reads the plain one.  A block whose network is not mapped holds
no plain address, although it holds the mapped ones if the network begins as they do:
those are the blocks that tell the two forms apart.
-/

namespace WindowMlHub

open IpAddresses TextFormats

/-! ## Bits -/

/-- The bits of an octet, the high one first. -/
def octetBits (octet : UInt8) : List Bool :=
  [7, 6, 5, 4, 3, 2, 1, 0].map octet.toBitVec.getLsbD

@[simp]
theorem length_octetBits (octet : UInt8) : (octetBits octet).length = 8 :=
  rfl

theorem octetBits_injective : Function.Injective octetBits := by
  intro first second same
  simp [octetBits] at same
  apply UInt8.toBitVec_inj.mp
  apply BitVec.eq_of_getLsbD_eq
  intro index below
  interval_cases index <;> simp [same]

theorem and_mask_eq_iff (first second : UInt8) {rest : Nat} (positive : 0 < rest)
    (below : rest < 8) :
    first &&& (0xff <<< UInt8.ofNat (8 - rest)) =
        second &&& (0xff <<< UInt8.ofNat (8 - rest)) ↔
      (octetBits first).take rest = (octetBits second).take rest := by
  rw [← UInt8.toBitVec_inj]
  constructor
  · intro same
    have bit (index : Nat) := congrArg (BitVec.getLsbD · index) same
    have bits := And.intro (And.intro (bit 1) (bit 2)) (And.intro (And.intro (bit 3) (bit 4))
      (And.intro (bit 5) (And.intro (bit 6) (bit 7))))
    interval_cases rest <;> simp [octetBits] at bits ⊢ <;> simp [bits]
  · intro same
    apply BitVec.eq_of_getLsbD_eq
    intro index inside
    interval_cases rest <;> simp [octetBits] at same ⊢ <;> interval_cases index <;>
      simp [same]

/-- Octets agree in their first bits. -/
def SamePrefix (bits : Nat) (first second : List UInt8) : Prop :=
  (first.flatMap octetBits).take bits = (second.flatMap octetBits).take bits

instance (bits : Nat) (first second : List UInt8) : Decidable (SamePrefix bits first second) :=
  inferInstanceAs (Decidable (_ = _))

theorem prefixEq_cons (first second : UInt8) (firsts seconds : List UInt8) (bits : Nat) :
    prefixEq (first :: firsts) (second :: seconds) (bits + 8) =
      (decide (first = second) && prefixEq firsts seconds bits) := by
  have whole : (bits + 8) / 8 = bits / 8 + 1 := by omega
  have rest : (bits + 8) % 8 = bits % 8 := by omega
  by_cases same : first = second
  · simp [prefixEq, whole, rest, same]
  · simp [prefixEq, whole, same]

theorem samePrefix_cons (first second : UInt8) (firsts seconds : List UInt8) (bits : Nat) :
    SamePrefix (bits + 8) (first :: firsts) (second :: seconds) ↔
      first = second ∧ SamePrefix bits firsts seconds := by
  have split (octet : UInt8) (octets : List UInt8) :
      ((octet :: octets).flatMap octetBits).take (bits + 8) =
        octetBits octet ++ (octets.flatMap octetBits).take bits := by
    rw [List.flatMap_cons, List.take_append, length_octetBits, Nat.add_sub_cancel,
      List.take_of_length_le (by simp)]
  rw [SamePrefix, split, split]
  constructor
  · intro same
    obtain ⟨octets, rest⟩ := List.append_inj same rfl
    exact ⟨octetBits_injective octets, rest⟩
  · rintro ⟨rfl, same⟩
    exact congrArg (octetBits first ++ ·) same

/-- **`prefix_eq`** compares exactly the first bits, if both have as many. -/
theorem prefixEq_iff {first second : List UInt8} (lengths : first.length = second.length)
    {bits : Nat} (fits : bits ≤ 8 * first.length) :
    prefixEq first second bits = true ↔ SamePrefix bits first second := by
  induction first generalizing second bits with
  | nil =>
      obtain rfl := List.length_eq_zero_iff.mp lengths.symm
      obtain rfl : bits = 0 := by simpa using fits
      simp [prefixEq, SamePrefix]
  | cons octet octets ih =>
      obtain ⟨octet', octets', rfl⟩ : ∃ head tail, second = head :: tail :=
        List.exists_cons_of_length_eq_add_one lengths.symm
      rw [List.length_cons] at fits
      rcases Nat.lt_or_ge bits 8 with few | many
      · have whole : bits / 8 = 0 := Nat.div_eq_of_lt few
        have rest : bits % 8 = bits := Nat.mod_eq_of_lt few
        rcases Nat.eq_zero_or_pos bits with rfl | positive
        · simp [prefixEq, SamePrefix]
        · rw [SamePrefix, List.flatMap_cons, List.flatMap_cons,
            List.take_append_of_le_length (by simp [few.le]),
            List.take_append_of_le_length (by simp [few.le]),
            ← and_mask_eq_iff _ _ positive few]
          simp [prefixEq, whole, rest, positive.ne']
      · obtain ⟨bits, rfl⟩ := Nat.exists_eq_add_of_le' many
        rw [prefixEq_cons, samePrefix_cons, Bool.and_eq_true, decide_eq_true_eq,
          ih (by simpa using lengths) (by omega)]

theorem SamePrefix.mono {bits fewer : Nat} {first second : List UInt8}
    (same : SamePrefix bits first second) (fewer_le : fewer ≤ bits) :
    SamePrefix fewer first second := by
  have shorter := congrArg (List.take fewer) same
  rwa [List.take_take, List.take_take, Nat.min_eq_left fewer_le] at shorter

theorem samePrefix_append (bits : Nat) (front first second : List UInt8) :
    SamePrefix bits (front ++ first) (front ++ second) ↔
      SamePrefix (bits - 8 * front.length) first second := by
  have length : (front.flatMap octetBits).length = 8 * front.length := by
    simp [List.length_flatMap, Nat.mul_comm]
  rw [SamePrefix, List.flatMap_append, List.flatMap_append, List.take_append,
    List.take_append, length, List.append_cancel_left_eq, SamePrefix]

/-! ## Staying inside an address -/

/-- `octets[..whole]`, which stops if that is past the end. -/
def sliceTo (octets : List UInt8) (whole : Nat) : Option (List UInt8) :=
  if whole ≤ octets.length then some (octets.take whole) else none

/-- `prefix_eq`, with the slices and the indices that may stop it. -/
def prefixEqChecked (a b : List UInt8) (bits : Nat) : Option Bool := do
  let whole := bits / 8
  let rest := bits % 8
  let front ← sliceTo a whole
  let front' ← sliceTo b whole
  if front ≠ front' then
    return false
  else if rest = 0 then
    return true
  else
    let mask : UInt8 := 0xff <<< UInt8.ofNat (8 - rest)
    let octet ← a[whole]?
    let octet' ← b[whole]?
    return decide (octet &&& mask = octet' &&& mask)

/-- `Block::contains`, with what may stop it. -/
def Block.containsChecked (block : Block) (address : IpAddr) : Option Bool :=
  match block.network, address with
  | .v4 .., .v4 .. => prefixEqChecked block.network.octets address.octets block.bits
  | .v6 .., .v6 .. => prefixEqChecked block.network.octets address.octets block.bits
  | .v4 .., .v6 .. =>
      match address.toIpv4Mapped with
      | some mapped => prefixEqChecked block.network.octets mapped.octets block.bits
      | none => some false
  | .v6 .., .v4 .. =>
      match block.network.toIpv4Mapped with
      | some mapped => prefixEqChecked mapped.octets address.octets (block.bits - 96)
      | none => some false

theorem prefixEqChecked_eq {first second : List UInt8}
    (lengths : first.length = second.length) {bits : Nat} (fits : bits ≤ 8 * first.length) :
    prefixEqChecked first second bits = some (prefixEq first second bits) := by
  have inside : bits / 8 ≤ first.length := by omega
  have slices : sliceTo first (bits / 8) = some (first.take (bits / 8)) := if_pos inside
  have slices' : sliceTo second (bits / 8) = some (second.take (bits / 8)) :=
    if_pos (lengths ▸ inside)
  rcases Nat.eq_zero_or_pos (bits % 8) with none | some
  · simp [prefixEqChecked, prefixEq, slices, slices', none, ← apply_ite]
  · have below : bits / 8 < first.length := by omega
    simp [prefixEqChecked, prefixEq, slices, slices', some.ne',
      List.getElem?_eq_getElem below, List.getElem?_eq_getElem (lengths ▸ below), ← apply_ite]

/-! ## The two forms of an address -/

/-- `to_ipv6_mapped`: `::ffff:a.b.c.d`. -/
def toIpv6Mapped (a b c d : UInt8) : IpAddr :=
  .v6 0 0 0 0 0 0xffff (segmentOf a b) (segmentOf c d)

/-- The first twelve octets of a mapped address. -/
def mappedFront : List UInt8 :=
  [0, 0, 0, 0, 0, 0, 0, 0, 0, 0, 0xff, 0xff]

theorem segmentOf_high (high low : UInt8) : (segmentOf high low >>> 8).toUInt8 = high := by
  apply UInt8.toBitVec_inj.mp
  ext index below
  interval_cases index <;> simp [segmentOf]

theorem segmentOf_low (high low : UInt8) : (segmentOf high low).toUInt8 = low := by
  apply UInt8.toBitVec_inj.mp
  ext index below
  interval_cases index <;> simp [segmentOf]

theorem segmentOctets_injective : Function.Injective IpAddr.segmentOctets := by
  intro first second same
  simp only [IpAddr.segmentOctets, List.cons.injEq, and_true, ← UInt8.toNat_inj] at same
  apply UInt16.toNat_inj.mp
  have := first.toNat_lt
  have := second.toNat_lt
  simp [Nat.shiftRight_eq_div_pow] at same
  omega

@[simp]
theorem toIpv4Mapped_toIpv6Mapped (a b c d : UInt8) :
    (toIpv6Mapped a b c d).toIpv4Mapped = some (.v4 a b c d) := by
  simp [toIpv6Mapped, IpAddr.toIpv4Mapped, segmentOf_high, segmentOf_low]

theorem octets_toIpv6Mapped (a b c d : UInt8) :
    (toIpv6Mapped a b c d).octets = mappedFront ++ (IpAddr.v4 a b c d).octets := by
  simp only [toIpv6Mapped, IpAddr.octets, List.flatMap_cons, List.flatMap_nil,
    IpAddr.segmentOctets, segmentOf_high, segmentOf_low]
  rfl

@[simp]
theorem length_octets (address : IpAddr) : 8 * address.octets.length = address.width := by
  cases address <;> rfl

theorem width_eq (address : IpAddr) :
    address.width = 32 ∨ address.width = 128 := by
  cases address <;> simp [IpAddr.width]

theorem octets_of_toIpv4Mapped {address mapped : IpAddr}
    (maps : address.toIpv4Mapped = some mapped) :
    address.octets = mappedFront ++ mapped.octets ∧ mapped.width = 32 := by
  unfold IpAddr.toIpv4Mapped at maps
  split at maps
  · obtain rfl := Option.some.inj maps
    exact ⟨rfl, rfl⟩
  · exact absurd maps (by simp)

/-- An address that begins like the mapped ones is one of them. -/
theorem isSome_toIpv4Mapped {address : IpAddr} (wide : address.width = 128)
    (begins : SamePrefix 96 address.octets (mappedFront ++ [0, 0, 0, 0])) :
    address.toIpv4Mapped.isSome = true := by
  rw [← prefixEq_iff (by have := length_octets address; simp [mappedFront]; omega)
    (by have := length_octets address; omega)] at begins
  cases address with
  | v4 => exact absurd wide (by simp [IpAddr.width])
  | v6 a b c d e f g h =>
      have front : (IpAddr.v6 a b c d e f g h).octets.take 12 = mappedFront := by
        simpa [prefixEq, mappedFront] using begins
      have segments : [a, b, c, d, e, f].map IpAddr.segmentOctets =
          [0, 0, 0, 0, 0, 0xffff].map IpAddr.segmentOctets := by
        have ends : IpAddr.segmentOctets 0xffff = [0xff, 0xff] := by
          decide
        simp only [List.map_cons, List.map_nil, ends]
        simpa [IpAddr.octets, IpAddr.segmentOctets, mappedFront, and_assoc] using front
      have equal := List.map_injective_iff.mpr segmentOctets_injective segments
      simp only [List.cons.injEq, and_true] at equal
      obtain ⟨rfl, rfl, rfl, rfl, rfl, rfl⟩ := equal
      rfl

theorem prefixEqChecked_octets {first second : IpAddr} (family : first.width = second.width)
    {bits : Nat} (fits : bits ≤ first.width) :
    prefixEqChecked first.octets second.octets bits =
      some (prefixEq first.octets second.octets bits) := by
  have length := length_octets first
  have length' := length_octets second
  exact prefixEqChecked_eq (by omega) (by omega)

namespace Block

theorem contains_eq (block : Block) {address : IpAddr}
    (family : block.network.width = address.width) :
    block.contains address = prefixEq block.network.octets address.octets block.bits := by
  obtain ⟨network, bits, fits⟩ := block
  cases network <;> cases address <;> first | rfl | exact absurd family (by simp [IpAddr.width])

theorem contains_iff (block : Block) {address : IpAddr}
    (family : block.network.width = address.width) :
    block.contains address = true ↔
      SamePrefix block.bits block.network.octets address.octets := by
  have length := length_octets block.network
  have length' := length_octets address
  have fits := block.fits
  rw [contains_eq block family, prefixEq_iff (by omega) (by omega)]

/-- Nothing that `contains` compares lies past the end of an address. -/
theorem containsChecked_eq (block : Block) (address : IpAddr) :
    block.containsChecked address = some (block.contains address) := by
  obtain ⟨network, bits, fits⟩ := block
  cases network with
  | v4 a b c d =>
      cases address with
      | v4 a' b' c' d' =>
          exact @prefixEqChecked_octets (.v4 a b c d) (.v4 a' b' c' d') rfl _ fits
      | v6 a' b' c' d' e' f' g' h' =>
          rcases maps : (IpAddr.v6 a' b' c' d' e' f' g' h').toIpv4Mapped with _ | mapped
          · simp only [containsChecked, contains, maps]
          · have narrow := (octets_of_toIpv4Mapped maps).2
            simp only [containsChecked, contains, maps]
            exact @prefixEqChecked_octets (.v4 a b c d) mapped narrow.symm _ fits
  | v6 a b c d e f g h =>
      cases address with
      | v4 a' b' c' d' =>
          rcases maps : (IpAddr.v6 a b c d e f g h).toIpv4Mapped with _ | mapped
          · simp only [containsChecked, contains, maps]
          · have narrow := (octets_of_toIpv4Mapped maps).2
            have short : bits ≤ 128 := fits
            simp only [containsChecked, contains, maps]
            exact @prefixEqChecked_octets mapped (.v4 a' b' c' d') narrow _ (by omega)
      | v6 a' b' c' d' e' f' g' h' =>
          exact @prefixEqChecked_octets (.v6 a b c d e f g h) (.v6 a' b' c' d' e' f' g' h')
            rfl _ fits

/-- A block of version 6 addresses whose network is not itself mapped, but begins as the
mapped addresses do. -/
def TellsApart (block : Block) : Prop :=
  block.network.width = 128 ∧ block.network.toIpv4Mapped = none ∧
    SamePrefix block.bits block.network.octets (toIpv6Mapped 0 0 0 0).octets

instance (block : Block) : Decidable block.TellsApart :=
  inferInstanceAs (Decidable (_ ∧ _ ∧ _))

theorem contains_mapped_of_v4 {block : Block} (narrow : block.network.width = 32)
    (a b c d : UInt8) :
    block.contains (toIpv6Mapped a b c d) = block.contains (.v4 a b c d) := by
  obtain ⟨network, bits, fits⟩ := block
  have maps := toIpv4Mapped_toIpv6Mapped a b c d
  cases network with
  | v6 => exact absurd narrow (by simp [IpAddr.width])
  | v4 e f g h =>
      unfold toIpv6Mapped at maps ⊢
      simp only [contains, maps]

/-- A block of version 6 addresses reads a plain address with its last octets, if its
network is mapped. -/
theorem contains_v4_of_v6 {block : Block} (wide : block.network.width = 128)
    (a b c d : UInt8) :
    block.contains (.v4 a b c d) = true ↔
      ∃ mapped, block.network.toIpv4Mapped = some mapped ∧
        SamePrefix (block.bits - 96) mapped.octets (IpAddr.v4 a b c d).octets := by
  obtain ⟨network, bits, fits⟩ := block
  cases network with
  | v4 => exact absurd wide (by simp [IpAddr.width])
  | v6 e f g h i j k l =>
      have short : bits ≤ 128 := fits
      rcases maps : (IpAddr.v6 e f g h i j k l).toIpv4Mapped with _ | mapped
      · simp [contains, maps]
      · have narrow := (octets_of_toIpv4Mapped maps).2
        have length := length_octets mapped
        have length' := length_octets (.v4 a b c d)
        have plain : contains ⟨.v6 e f g h i j k l, bits, fits⟩ (.v4 a b c d) =
            prefixEq mapped.octets (IpAddr.v4 a b c d).octets (bits - 96) := by
          simp only [contains, maps]
        rw [plain, prefixEq_iff (by simp only [IpAddr.width] at *; omega) (by omega)]
        simp

theorem contains_mapped_of_v6 {block : Block} (wide : block.network.width = 128)
    (a b c d : UInt8) :
    block.contains (toIpv6Mapped a b c d) = true ↔
      SamePrefix block.bits block.network.octets
        (mappedFront ++ (IpAddr.v4 a b c d).octets) := by
  rw [@contains_iff block (toIpv6Mapped a b c d) wide, octets_toIpv6Mapped]

theorem begins_mapped {bits : Nat} {network : List UInt8} {last last' : List UInt8}
    (few : bits ≤ 96) (begins : SamePrefix bits network (mappedFront ++ last)) :
    SamePrefix bits network (mappedFront ++ last') := by
  have same : SamePrefix bits (mappedFront ++ last) (mappedFront ++ last') := by
    have none : bits - 8 * mappedFront.length = 0 := by
      simp only [mappedFront, List.length_cons, List.length_nil]
      omega
    rw [samePrefix_append, none]
    rfl
  exact begins.trans same

/-- **A block treats the two forms of every address alike** exactly if it does not tell
them apart in this way. -/
theorem alike_iff (block : Block) :
    (∀ a b c d, block.contains (.v4 a b c d) = block.contains (toIpv6Mapped a b c d)) ↔
      ¬ block.TellsApart := by
  constructor
  · rintro alike ⟨wide, unmapped, begins⟩
    have mapped := (@contains_iff block (toIpv6Mapped 0 0 0 0) wide).mpr begins
    rw [← alike 0 0 0 0, contains_v4_of_v6 wide, unmapped] at mapped
    obtain ⟨_, isMapped, -⟩ := mapped
    exact absurd isMapped (by simp)
  · intro together a b c d
    rcases width_eq block.network with narrow | wide
    · exact (contains_mapped_of_v4 narrow a b c d).symm
    · rw [Bool.eq_iff_iff, contains_v4_of_v6 wide, contains_mapped_of_v6 wide]
      constructor
      · rintro ⟨mapped, maps, begins⟩
        rw [(octets_of_toIpv4Mapped maps).1, samePrefix_append]
        exact begins
      · intro begins
        rcases maps : block.network.toIpv4Mapped with _ | mapped
        · exfalso
          rcases Nat.le_total block.bits 96 with few | many
          · refine together ⟨wide, maps, ?_⟩
            rw [octets_toIpv6Mapped]
            exact begins_mapped few begins
          · have isMapped := isSome_toIpv4Mapped wide
              (begins_mapped le_rfl (begins.mono many))
            simp [maps] at isMapped
        · rw [(octets_of_toIpv4Mapped maps).1, samePrefix_append] at begins
          exact ⟨mapped, rfl, begins⟩

end Block

/-- **The blocks that treat an address and its mapped form alike.**  What `parse` accepts
holds an address of its own family exactly if their first bits agree, and nothing that it
compares lies past the end of an address.  It holds a version 4 address exactly if it
holds the mapped one, for all of them, if and only if it is not a block of version 6
addresses whose network is not mapped and yet begins as the mapped addresses do. -/
theorem block_mapped_alike_iff {entry : Text} {block : Block}
    (_accepted : Block.parse entry = .ok block) :
    ((∀ a b c d, block.contains (.v4 a b c d) = block.contains (toIpv6Mapped a b c d)) ∧
        (∀ address : IpAddr, block.network.width = address.width →
          (block.contains address = true ↔
            SamePrefix block.bits block.network.octets address.octets)) ∧
        ∀ address, block.containsChecked address = some (block.contains address)) ↔
      ¬ block.TellsApart := by
  constructor
  · rintro ⟨alike, -, -⟩
    exact block.alike_iff.mp alike
  · intro together
    exact ⟨block.alike_iff.mpr together, fun _ family => block.contains_iff family,
      block.containsChecked_eq⟩

/-- `::/0` holds the mapped form of `10.0.0.1` and not the address itself. -/
theorem block_all_tells_apart :
    ∃ block, Block.parse "::/0".toList = .ok block ∧
      block.contains (toIpv6Mapped 10 0 0 1) = true ∧
      block.contains (.v4 10 0 0 1) = false :=
  ⟨⟨.v6 0 0 0 0 0 0 0 0, 0, Nat.zero_le _⟩, by decide +kernel, by decide +kernel,
    by decide +kernel⟩

theorem block_mapped_alike_home :
    ∃ block, Block.parse "10.0.0.0/8".toList = .ok block ∧
      block.contains (.v4 10 1 2 3) = block.contains (toIpv6Mapped 10 1 2 3) := by
  have accepted : Block.parse "10.0.0.0/8".toList = .ok ⟨.v4 10 0 0 0, 8, by decide⟩ := by
    decide +kernel
  have alike := (block_mapped_alike_iff accepted).mpr (by decide +kernel)
  exact ⟨_, accepted, alike.1 10 1 2 3⟩

end WindowMlHub
