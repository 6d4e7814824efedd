import WindowMlHub.TextFormats
import WindowMlHub.WireFrames

/-!
# Where a box's frame goes

Which channel a frame of a box belongs on, from its top-level tags and nothing else: its
kind, and for a sample whether it carries `info`.  What cannot be read is relayed
losslessly.

The frame is what is left of it, where the source keeps an index.  A step reads at least
one byte, so as many steps as there are bytes are enough.
-/

namespace WindowMlHub

open TextFormats

/-- `SAMPLE_COALESCE`. -/
def sampleCoalesce : Bytes :=
  asciiBytes ['s']

/-- `HEARTBEAT_COALESCE`. -/
def heartbeatCoalesce : Bytes :=
  asciiBytes ['h']

/-- `Route`: where a frame goes. -/
inductive BoxRoute
  | consume
  | edge
  | sample (coalesce : Bytes)
  deriving DecidableEq, Repr

/-- `Read`: what the tags say. -/
structure BoxRead where
  kind : Option Text := none
  hasInfo : Bool := false
  atMs : Option Nat := none
  readable : Bool := true
  deriving DecidableEq, Repr

namespace BoxRead

/-- The loop of `varint`, about to look at the byte with this index. -/
def varintFrom : Bytes → Nat → Nat → Option (Nat × Bytes)
  | [], _, _ => none
  | byte :: rest, index, value =>
      if 10 ≤ index then none
      else
        -- a shift by 63 keeps one bit of a `u64`
        let value := value ||| ((byte &&& 0x7f).toNat <<< (7 * index)) % 2 ^ 64
        if byte &&& 0x80 = 0 then some (value, rest)
        else varintFrom rest (index + 1) value

/-- `varint`: the number at the front, and what follows it. -/
def varint (bytes : Bytes) : Option (Nat × Bytes) :=
  varintFrom bytes 0 0

/-- `unreadable`. -/
def unreadable (read : BoxRead) : BoxRead :=
  { read with readable := false }

/-- What a length-delimited field adds. -/
def delimited (read : BoxRead) (field : Nat) (content : Bytes) : BoxRead :=
  if field = 2 then { read with kind := fromUtf8 content }
  else if field = 28 then { read with hasInfo := true }
  else read

/-- The loop of `read`, with so many steps left. -/
def tags : Nat → Bytes → BoxRead → BoxRead
  | _, [], read => read
  | 0, _ :: _, read => read.unreadable
  | fuel + 1, first :: others, read =>
      match varint (first :: others) with
      | none => read.unreadable
      | some (key, rest) =>
          let field := key >>> 3
          match key % 8 with
          | 0 =>
              match varint rest with
              | none => read.unreadable
              | some (value, rest) =>
                  tags fuel rest (if field = 30 then { read with atMs := some value } else read)
          | 1 => if rest.length < 8 then read.unreadable else tags fuel (rest.drop 8) read
          | 2 =>
              match varint rest with
              | none => read.unreadable
              | some (length, rest) =>
                  if rest.length < length then read.unreadable
                  else tags fuel (rest.drop length) (read.delimited field (rest.take length))
          | 5 => if rest.length < 4 then read.unreadable else tags fuel (rest.drop 4) read
          | _ => read.unreadable

theorem varintFrom_shorter {bytes rest : Bytes} {index value result : Nat}
    (read : varintFrom bytes index value = some (result, rest)) :
    rest.length < bytes.length := by
  induction bytes generalizing index value with
  | nil => cases read
  | cons byte others ih =>
      rw [List.length_cons]
      simp only [varintFrom] at read
      split at read
      · cases read
      split at read
      · cases read
        omega
      · have := ih read
        omega

theorem varint_shorter {bytes rest : Bytes} {result : Nat}
    (read : varint bytes = some (result, rest)) : rest.length < bytes.length :=
  varintFrom_shorter read

/-- Steps beyond the number of bytes are not taken. -/
theorem tags_enough {fuel more : Nat} {bytes : Bytes} {read : BoxRead}
    (enough : bytes.length ≤ fuel) (enoughMore : bytes.length ≤ more) :
    tags fuel bytes read = tags more bytes read := by
  induction fuel generalizing more bytes read with
  | zero =>
      obtain rfl := List.length_eq_zero_iff.mp (Nat.le_zero.mp enough)
      cases more <;> rfl
  | succ fuel ih =>
      cases bytes with
      | nil => cases more <;> rfl
      | cons first others =>
          rw [List.length_cons] at enough enoughMore
          cases more with
          | zero => omega
          | succ more =>
              have later {rest : Bytes} (read : BoxRead) (short : rest.length ≤ others.length) :
                  tags fuel rest read = tags more rest read :=
                ih (by omega) (by omega)
              simp only [tags]
              cases keyRead : varint (first :: others) with
              | none => rfl
              | some found =>
                  obtain ⟨key, rest⟩ := found
                  have shorter := varint_shorter keyRead
                  rw [List.length_cons] at shorter
                  dsimp only
                  split
                  · cases valueRead : varint rest with
                    | none => rfl
                    | some found =>
                        have := varint_shorter valueRead
                        exact later _ (by omega)
                  · rw [later read (by rw [List.length_drop]; omega)]
                  · cases lengthRead : varint rest with
                    | none => rfl
                    | some found =>
                        have := varint_shorter lengthRead
                        dsimp only
                        rw [later _ (by rw [List.length_drop]; omega)]
                  · rw [later read (by rw [List.length_drop]; omega)]
                  · rfl

end BoxRead

/-- `read`: a frame's kind and whether it carries `info`, walking top-level tags only. -/
def readBoxFrame (frame : Bytes) : BoxRead :=
  BoxRead.tags frame.length frame {}

/-- Where a frame goes by what its tags say. -/
def BoxRead.route (read : BoxRead) : BoxRoute :=
  if ¬ read.readable then .edge
  else if read.kind = some ['h', 'e', 'l', 'l', 'o'] then .consume
  else if read.kind = some ['h', 'e', 'a', 'r', 't', 'b', 'e', 'a', 't'] then
    .sample heartbeatCoalesce
  else if read.kind = some ['s', 'a', 'm', 'p', 'l', 'e'] then
    .sample (if read.hasInfo then [] else sampleCoalesce)
  else .edge

/-- `route`. -/
def routeBoxFrame (frame : Bytes) : BoxRoute :=
  (readBoxFrame frame).route

end WindowMlHub
