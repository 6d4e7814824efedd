import WindowMlHub.IpAddresses

/-!
# The address a connection came from

Behind a proxy every client arrives from the proxy's address, and the header
`X-Forwarded-For` says whom it forwards for.  Anybody can write that header, so it is
read only from a peer the operator named, and the client is its rightmost entry that
is not itself such a peer.  Only the first sixteen entries are read, counted from
the left, which is the side the client writes.
-/

namespace WindowMlHub

open IpAddresses TextFormats

/-- `MAX_FORWARDED_BYTES`. -/
def maxForwardedBytes : Nat := 512

/-- `MAX_HOPS`. -/
def maxHops : Nat := 16

/-! ## The operator's proxies -/

/-- Whether the first `bits` bits of two addresses match. -/
def prefixEq (a b : List UInt8) (bits : Nat) : Bool :=
  let whole := bits / 8
  let rest := bits % 8
  if a.take whole ≠ b.take whole then
    false
  else if rest = 0 then
    true
  else
    let mask : UInt8 := 0xff <<< UInt8.ofNat (8 - rest)
    decide (a[whole]?.map (· &&& mask) = b[whole]?.map (· &&& mask))

/-- A block of addresses.  No block is longer than its address, so `prefixEq` never
looks past the last octet. -/
structure Block where
  network : IpAddr
  bits : Nat
  fits : bits ≤ network.width
  deriving DecidableEq, Repr

namespace Block

/-- `Block::parse`. -/
def parse (entry : Text) : Except Text Block := do
  let (address, bits) := match splitOnce '/' entry with
    | some (a, b) => (a, some b)
    | none => (entry, none)
  match parseIpAddr address with
  | none => throw (entry ++ ": not an address".toList)
  | some network =>
      match bits with
      | none => return ⟨network, network.width, le_rfl⟩
      | some b =>
          match parseUnsigned 255 b with
          | none => throw (entry ++ ": not a prefix length".toList)
          | some bits =>
              if fits : bits ≤ network.width then
                return ⟨network, bits, fits⟩
              else
                throw (entry ++ ": /".toList ++ decimal bits ++
                  " is longer than the address".toList)

/-- `Block::contains`.  A version 4 address and the version 6 address it is mapped to
are the same machine. -/
def contains (block : Block) (address : IpAddr) : Bool :=
  match block.network, address with
  | .v4 .., .v4 .. => prefixEq block.network.octets address.octets block.bits
  | .v6 .., .v6 .. => prefixEq block.network.octets address.octets block.bits
  | .v4 .., .v6 .. =>
      match address.toIpv4Mapped with
      | some mapped => prefixEq block.network.octets mapped.octets block.bits
      | none => false
  | .v6 .., .v4 .. =>
      match block.network.toIpv4Mapped with
      | some mapped => prefixEq mapped.octets address.octets (block.bits - 96)
      | none => false

end Block

/-- `Proxies`: the addresses the operator says are proxies. -/
structure Proxies where
  blocks : List Block
  deriving DecidableEq, Repr

namespace Proxies

/-- `Proxies::parse`. -/
def parse (list : Text) : Except Text Proxies := do
  let entries := ((list.splitOn ',').map trim).filter fun entry => !entry.isEmpty
  let blocks ← entries.mapM Block.parse
  return ⟨blocks⟩

/-- `Proxies::contains`. -/
def contains (proxies : Proxies) (address : IpAddr) : Bool :=
  proxies.blocks.any fun block => block.contains address

/-- The rightmost hop that is not a proxy. -/
def rightmostOutside (proxies : Proxies) (hops : List IpAddr) : Option IpAddr :=
  hops.reverse.find? fun hop => !proxies.contains hop

end Proxies

/-! ## Reading the header -/

/-- `parse_hop`: one entry of the header.  Bare addresses, and the forms with a port
that a proxy may write. -/
def parseHop (hop : Text) : Option IpAddr :=
  match parseIpAddr hop with
  | some address => some address
  | none =>
      match hop with
      | '[' :: rest => (splitOnce ']' rest).bind fun (inside, _) => parseIpAddr inside
      | _ => (rsplitOnce ':' hop).bind fun (address, _) => parseIpAddr address

/-- The hops that these entries of a header name.  An entry that names no address is
passed over. -/
def hopsOf (entries : List Text) : List IpAddr :=
  (entries.take maxHops).filterMap fun entry => parseHop (trim entry)

/-- `client_address`: the address to hold responsible for a connection. -/
def clientAddress (peer : IpAddr) (header : Option Text) (proxies : Proxies) :
    IpAddr :=
  if proxies.blocks.isEmpty ∨ !proxies.contains peer then
    peer
  else
    match header.filter fun text => decide (utf8Length text ≤ maxForwardedBytes) with
    | none => peer
    | some text =>
        let hops := hopsOf (text.splitOn ',')
        ((proxies.rightmostOutside hops).or hops.head?).getD peer

/-! ## What the client writes on the left -/

/-- The header that reaches the hub when the client wrote `claimed` and the proxies
appended `appended`. -/
def forwardedHeader (claimed : Text) (appended : List Text) : Text :=
  (if claimed.isEmpty then [] else claimed ++ [',']) ++ [','].intercalate appended

/-- The entries that the client wrote. -/
def claimedEntries (claimed : Text) : List Text :=
  if claimed.isEmpty then [] else claimed.splitOn ','

/-- An entry that a trusted proxy appended for an address: one entry, that reads back
as the address. -/
structure Appended (entry : Text) (address : IpAddr) : Prop where
  single : ',' ∉ entry
  reads : parseHop (trim entry) = some address

theorem splitOn_forwardedHeader (claimed : Text) {appended : List Text}
    (nonempty : appended ≠ []) (single : ∀ entry ∈ appended, ',' ∉ entry) :
    (forwardedHeader claimed appended).splitOn ',' =
      claimedEntries claimed ++ appended := by
  have appendedEntries : ([','].intercalate appended).splitOn ',' = appended :=
    List.splitOn_intercalate ',' single nonempty
  unfold forwardedHeader claimedEntries
  split
  · simpa using appendedEntries
  · rw [List.append_assoc, List.singleton_append, List.splitOn_append_cons_self,
      appendedEntries]

namespace Proxies

theorem rightmostOutside_eq_some {proxies : Proxies} {real : IpAddr}
    (front : List IpAddr) {hops : List IpAddr}
    (outside : proxies.contains real = false)
    (inside : ∀ hop ∈ hops, proxies.contains hop = true) :
    proxies.rightmostOutside (front ++ real :: hops) = some real := by
  have passed : hops.reverse.find? (fun hop => !proxies.contains hop) = none := by
    simpa [List.find?_eq_none] using inside
  simp [rightmostOutside, passed, outside]

/-- A hop that is no proxy is answered only when it is the rightmost such: every
fallback is a proxy. -/
theorem fallback_eq_iff {proxies : Proxies} {peer real : IpAddr}
    (hops : List IpAddr) (trusted : proxies.contains peer = true)
    (outside : proxies.contains real = false) :
    ((proxies.rightmostOutside hops).or hops.head?).getD peer = real ↔
      proxies.rightmostOutside hops = some real := by
  cases found : proxies.rightmostOutside hops with
  | some hop => simp
  | none =>
      have inside : ∀ hop ∈ hops, proxies.contains hop = true := by
        simpa [rightmostOutside, List.find?_eq_none] using found
      have differs : (hops.head?).getD peer ≠ real := by
        intro same
        have contained : proxies.contains ((hops.head?).getD peer) = true := by
          cases hops with
          | nil => exact trusted
          | cons hop rest => exact inside hop List.mem_cons_self
        rw [same, outside] at contained
        exact Bool.false_ne_true contained
      simpa using differs

end Proxies

theorem clientAddress_eq_iff {proxies : Proxies} {peer real : IpAddr} {header : Text}
    (trusted : proxies.contains peer = true)
    (outside : proxies.contains real = false)
    (short : utf8Length header ≤ maxForwardedBytes) :
    clientAddress peer (some header) proxies = real ↔
      proxies.rightmostOutside (hopsOf (header.splitOn ',')) = some real := by
  have named : proxies.blocks.isEmpty = false := by
    rw [List.isEmpty_eq_false_iff]
    intro empty
    simp [Proxies.contains, empty] at trusted
  have read : clientAddress peer (some header) proxies =
      ((proxies.rightmostOutside (hopsOf (header.splitOn ','))).or
        (hopsOf (header.splitOn ',')).head?).getD peer := by
    simp [clientAddress, named, trusted, Option.filter, short]
  rw [read]
  exact Proxies.fallback_eq_iff _ trusted outside

theorem hopsOf_append_of_lt {entry : Text} {real : IpAddr} (front rest : List Text)
    (room : front.length < maxHops) (reads : parseHop (trim entry) = some real) :
    hopsOf (front ++ entry :: rest) =
      hopsOf front ++ real :: (rest.take (maxHops - front.length - 1)).filterMap
        fun entry => parseHop (trim entry) := by
  obtain ⟨left, leftEq⟩ : ∃ left, maxHops - front.length = left + 1 :=
    ⟨maxHops - front.length - 1, by omega⟩
  have whole : front.take maxHops = front := List.take_of_length_le room.le
  simp [hopsOf, List.take_append, whole, leftEq, reads]

theorem hopsOf_append_of_le (front rest : List Text)
    (full : maxHops ≤ front.length) :
    hopsOf (front ++ rest) = hopsOf front := by
  have none : maxHops - front.length = 0 := Nat.sub_eq_zero_of_le full
  simp [hopsOf, List.take_append, none]

section Spoofing

variable {proxies : Proxies} {peer real : IpAddr} {realEntry : Text}
  {hopEntries : List Text}

/-- When the address a client really has is the one it is held responsible as. -/
theorem clientAddress_forwarded_iff (trusted : proxies.contains peer = true)
    (outside : proxies.contains real = false) (realAppended : Appended realEntry real)
    (hopsAppended : ∀ entry ∈ hopEntries,
      ∃ hop, Appended entry hop ∧ proxies.contains hop = true)
    (claimed : Text)
    (short : utf8Length (forwardedHeader claimed (realEntry :: hopEntries)) ≤
      maxForwardedBytes) :
    clientAddress peer (some (forwardedHeader claimed (realEntry :: hopEntries)))
        proxies = real ↔
      (claimedEntries claimed).length < maxHops ∨
        proxies.rightmostOutside (hopsOf (claimedEntries claimed)) = some real := by
  have single : ∀ entry ∈ realEntry :: hopEntries, ',' ∉ entry := by
    intro entry member
    rcases List.mem_cons.mp member with rfl | member
    · exact realAppended.single
    · obtain ⟨hop, appended, -⟩ := hopsAppended entry member
      exact appended.single
  rw [clientAddress_eq_iff trusted outside short,
    splitOn_forwardedHeader claimed (by simp) single]
  by_cases room : (claimedEntries claimed).length < maxHops
  · have inside : ∀ hop ∈ (hopEntries.take
        (maxHops - (claimedEntries claimed).length - 1)).filterMap
          (fun entry => parseHop (trim entry)), proxies.contains hop = true := by
      intro hop member
      obtain ⟨entry, entryMember, reads⟩ := List.mem_filterMap.mp member
      obtain ⟨named, appended, contained⟩ :=
        hopsAppended entry (List.mem_of_mem_take entryMember)
      rw [appended.reads, Option.some.injEq] at reads
      exact reads ▸ contained
    rw [hopsOf_append_of_lt _ _ room realAppended.reads,
      Proxies.rightmostOutside_eq_some _ outside inside]
    simp [room]
  · rw [hopsOf_append_of_le _ _ (Nat.le_of_not_lt room)]
    simp [room]

/-- Whatever two clients claim, both are held responsible as the address the proxies
saw, exactly when each claim either leaves that entry among the ones that are read or
ends, as far as it is read, in that same address. -/
theorem client_address_spoof_proof_iff (trusted : proxies.contains peer = true)
    (outside : proxies.contains real = false) (realAppended : Appended realEntry real)
    (hopsAppended : ∀ entry ∈ hopEntries,
      ∃ hop, Appended entry hop ∧ proxies.contains hop = true)
    (claimed claimed' : Text)
    (short : utf8Length (forwardedHeader claimed (realEntry :: hopEntries)) ≤
      maxForwardedBytes)
    (short' : utf8Length (forwardedHeader claimed' (realEntry :: hopEntries)) ≤
      maxForwardedBytes) :
    (clientAddress peer (some (forwardedHeader claimed (realEntry :: hopEntries)))
        proxies = real ∧
      clientAddress peer (some (forwardedHeader claimed' (realEntry :: hopEntries)))
        proxies = real) ↔
      ((claimedEntries claimed).length < maxHops ∨
        proxies.rightmostOutside (hopsOf (claimedEntries claimed)) = some real) ∧
      ((claimedEntries claimed').length < maxHops ∨
        proxies.rightmostOutside (hopsOf (claimedEntries claimed')) = some real) := by
  rw [clientAddress_forwarded_iff trusted outside realAppended hopsAppended claimed
      short,
    clientAddress_forwarded_iff trusted outside realAppended hopsAppended claimed'
      short']

end Spoofing

/-- The proxies of the examples below: one block, `10.0.0.0/8`. -/
def homeProxies : Proxies :=
  ⟨[⟨.v4 10 0 0 0, 8, by decide⟩]⟩

/-- A client that claims another address and fifteen empty entries is held responsible
as that other address. -/
theorem client_address_spoofed :
    homeProxies.contains (.v4 10 1 2 3) = true ∧
      homeProxies.contains (.v4 203 0 113 9) = false ∧
      Appended "203.0.113.9".toList (.v4 203 0 113 9) ∧
      utf8Length (forwardedHeader ("1.2.3.4".toList ++ List.replicate 15 ',')
        ["203.0.113.9".toList]) ≤ maxForwardedBytes ∧
      clientAddress (.v4 10 1 2 3) (some (forwardedHeader
        ("1.2.3.4".toList ++ List.replicate 15 ',') ["203.0.113.9".toList]))
        homeProxies = .v4 1 2 3 4 := by
  refine ⟨by decide, by decide, ⟨by decide, by decide⟩, by decide, by decide⟩

theorem client_address_spoof_proof_home :
    Proxies.parse "10.0.0.0/8".toList = .ok homeProxies ∧
      (clientAddress (.v4 10 1 2 3) (some (forwardedHeader "198.51.100.7".toList
          ["203.0.113.9".toList, " [::ffff:10.0.0.5]:80".toList])) homeProxies =
            .v4 203 0 113 9 ∧
        clientAddress (.v4 10 1 2 3) (some (forwardedHeader []
          ["203.0.113.9".toList, " [::ffff:10.0.0.5]:80".toList])) homeProxies =
            .v4 203 0 113 9) :=
  ⟨by decide +kernel, (client_address_spoof_proof_iff (by decide) (by decide)
    ⟨by decide, by decide⟩
    (by
      intro entry member
      obtain rfl := List.mem_singleton.mp member
      exact ⟨.v6 0 0 0 0 0 0xffff 0xa00 5, ⟨by decide, by decide⟩, by decide⟩)
    _ _ (by decide) (by decide)).mpr ⟨.inl (by decide), .inl (by decide)⟩⟩

end WindowMlHub
