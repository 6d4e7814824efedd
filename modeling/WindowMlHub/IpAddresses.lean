import WindowMlHub.TextFormats

/-!
# Internet addresses

Version 4 addresses are four octets and version 6 addresses eight segments of
sixteen bits.  The parser is the one of Rust's standard library: dotted decimal
without leading zeros; groups of up to four hexadecimal digits, of which one run of
zeros may be left out, and the last two may be written as a version 4 address.
-/

namespace IpAddresses

open TextFormats

inductive IpAddr
  | v4 (a b c d : UInt8)
  | v6 (a b c d e f g h : UInt16)
  deriving DecidableEq, Repr

namespace IpAddr

/-- The octets of a segment, the high one first. -/
def segmentOctets (segment : UInt16) : List UInt8 :=
  [(segment >>> 8).toUInt8, segment.toUInt8]

/-- `octets`. -/
def octets : IpAddr → List UInt8
  | v4 a b c d => [a, b, c, d]
  | v6 a b c d e f g h => [a, b, c, d, e, f, g, h].flatMap segmentOctets

/-- How many bits an address has. -/
def width : IpAddr → Nat
  | v4 .. => 32
  | v6 .. => 128

/-- `to_ipv4_mapped`: the version 4 address that `::ffff:a.b.c.d` stands for. -/
def toIpv4Mapped : IpAddr → Option IpAddr
  | v6 0 0 0 0 0 0xffff g h =>
      some (v4 (g >>> 8).toUInt8 g.toUInt8 (h >>> 8).toUInt8 h.toUInt8)
  | _ => none

end IpAddr

/-! ## Parsing -/

/-- What was read, and the text after it.  A reader that fails has read
nothing. -/
abbrev Reader (α : Type) := Text → Option (α × Text)

/-- The digits at the beginning of a text. -/
def readDigits (radix : Nat) : Text → List Nat × Text
  | [] => ([], [])
  | c :: rest =>
      match toDigit radix c with
      | none => ([], c :: rest)
      | some digit =>
          let (digits, after) := readDigits radix rest
          (digit :: digits, after)

/-- `read_given_char`. -/
def readGivenChar (expected : Char) : Reader Unit
  | [] => none
  | c :: rest => if c = expected then some ((), rest) else none

/-- `read_number`, for a type whose largest value is `largest`. -/
def readNumber (radix maxDigits : Nat) (allowZeroPrefix : Bool)
    (largest : Nat) : Reader Nat := fun text =>
  let (digits, rest) := readDigits radix text
  let value := digits.foldl (fun value digit => value * radix + digit) 0
  if digits.length > maxDigits ∨ value > largest ∨ digits.length = 0 then
    none
  else if !allowZeroPrefix ∧ text.head? = some '0' ∧ digits.length > 1 then
    none
  else
    some (value, rest)

/-- `read_separator`: what comes after a separator, unless it is the first. -/
def readSeparator {α : Type} (separator : Char) (isFirst : Bool)
    (inner : Reader α) : Reader α := fun text => do
  if isFirst then
    inner text
  else
    let (_, rest) ← readGivenChar separator text
    inner rest

/-- One number of a dotted address. -/
def readOctet (isFirst : Bool) : Reader UInt8 := fun text => do
  let (value, rest) ← readSeparator '.' isFirst (readNumber 10 3 false 255) text
  return (UInt8.ofNat value, rest)

/-- `read_ipv4_addr`. -/
def readIpv4Addr : Reader (UInt8 × UInt8 × UInt8 × UInt8) := fun text => do
  let (a, text) ← readOctet true text
  let (b, text) ← readOctet false text
  let (c, text) ← readOctet false text
  let (d, text) ← readOctet false text
  return ((a, b, c, d), text)

/-- A segment from two octets, the high one first. -/
def segmentOf (high low : UInt8) : UInt16 :=
  high.toUInt16 <<< 8 ||| low.toUInt16

/-- `read_groups`: the groups read into so many slots, and whether they end in an
embedded version 4 address. -/
def readGroups : Nat → Bool → Text → List UInt16 × Bool × Text
  | 0, _, text => ([], false, text)
  | slots + 1, isFirst, text =>
      let embedded :=
        if slots ≥ 1 then readSeparator ':' isFirst readIpv4Addr text else none
      match embedded with
      | some ((a, b, c, d), rest) =>
          ([segmentOf a b, segmentOf c d], true, rest)
      | none =>
          match readSeparator ':' isFirst (readNumber 16 4 true 65535) text with
          | some (group, rest) =>
              let (groups, hasIpv4, after) := readGroups slots false rest
              (UInt16.ofNat group :: groups, hasIpv4, after)
          | none => ([], false, text)

/-- The address with these segments. -/
def ofSegments (segments : List UInt16) : IpAddr :=
  let segment (index : Nat) := segments.getD index 0
  .v6 (segment 0) (segment 1) (segment 2) (segment 3) (segment 4) (segment 5)
    (segment 6) (segment 7)

/-- `read_ipv6_addr`. -/
def readIpv6Addr : Reader IpAddr := fun text => do
  let (head, headIpv4, rest) := readGroups 8 true text
  if head.length = 8 then
    return (ofSegments head, rest)
  else if headIpv4 then
    none
  else
    let (_, rest) ← readGivenChar ':' rest
    let (_, rest) ← readGivenChar ':' rest
    let (tail, _, rest) := readGroups (8 - (head.length + 1)) true rest
    return (ofSegments (head ++
      List.replicate (8 - head.length - tail.length) 0 ++ tail), rest)

/-- `read_ip_addr`. -/
def readIpAddr : Reader IpAddr := fun text =>
  match readIpv4Addr text with
  | some ((a, b, c, d), rest) => some (.v4 a b c d, rest)
  | none => readIpv6Addr text

/-- `text.parse::<IpAddr>()`: an address and nothing after it. -/
def parseIpAddr (text : Text) : Option IpAddr :=
  match readIpAddr text with
  | some (address, []) => some address
  | _ => none

example : parseIpAddr "2001:db8::1:0:10.0.0.1".toList =
    some (.v6 0x2001 0xdb8 0 0 1 0 0xa00 1) := by
  decide

example : parseIpAddr "10.0.0.01".toList = none := by
  decide

end IpAddresses
