import WindowMlHub.BoxRouting
import WindowMlHub.CheckedEvaluation
import WindowMlHub.DelimitedFrames
import WindowMlHub.ProtobufWire

/-!
# What a box's frame says

The walk over the tags of a frame, with the indices of the source, reads what decoding the
frame as an `EventFrame` would give, wherever both accept it.  A decoder is anything that
follows the wire format of proto3; it may refuse more than the format does.
-/

namespace WindowMlHub

open TextFormats CheckedEvaluation ProtobufWire

/-! ## Numbers -/

theorem or_shiftLeft_mod {value bits : Nat} (payload : Nat) (low : value < 2 ^ bits)
    (narrow : bits ≤ 64) :
    value ||| (payload <<< bits) % 2 ^ 64 = (value + payload * 2 ^ bits) % 2 ^ 64 := by
  have small : value % 2 ^ 64 = value :=
    Nat.mod_eq_of_lt (low.trans_le (Nat.pow_le_pow_right (by decide) narrow))
  calc value ||| (payload <<< bits) % 2 ^ 64
      = value % 2 ^ 64 ||| (payload <<< bits) % 2 ^ 64 := by rw [small]
    _ = (value ||| payload <<< bits) % 2 ^ 64 := (Nat.or_mod_two_pow ..).symm
    _ = (value + payload * 2 ^ bits) % 2 ^ 64 := by rw [or_shiftLeft payload low]

theorem varintFrom_eq {bytes : Bytes} {index value : Nat} (low : value < 2 ^ (7 * index))
    (short : index ≤ 10) :
    BoxRead.varintFrom bytes index value =
      (varintWithin (10 - index) bytes).map fun found =>
        ((value + found.1 * 2 ^ (7 * index)) % 2 ^ 64, found.2) := by
  induction bytes generalizing index value with
  | nil => cases limit : 10 - index <;> rfl
  | cons byte rest ih =>
      rw [BoxRead.varintFrom]
      by_cases ended : 10 ≤ index
      · have none : 10 - index = 0 := by omega
        rw [if_pos ended, none]
        rfl
      · have more : 10 - index = (10 - (index + 1)) + 1 := by omega
        have payload := toNat_and_payload byte
        have last := and_continuation_eq_zero byte
        rw [if_neg ended, more, varintWithin, payload,
          or_shiftLeft_mod _ low (by omega)]
        dsimp only
        by_cases small : byte.toNat < 128
        · rw [if_pos (last.mpr small), if_pos small, Nat.mod_eq_of_lt small]
          rfl
        · have below : (value + byte.toNat % 128 * 2 ^ (7 * index)) % 2 ^ 64 <
              2 ^ (7 * (index + 1)) := by
            refine (Nat.mod_le _ _).trans_lt ?_
            rw [Nat.mul_succ, Nat.pow_add]
            nlinarith [Nat.two_pow_pos (7 * index), Nat.mod_lt byte.toNat (by decide : 128 > 0)]
          rw [if_neg (last.not.mpr small), if_neg small, ih below (by omega),
            Option.map_map]
          congr 1
          funext found
          have whole : value + byte.toNat % 128 * 2 ^ (7 * index) +
              found.1 * 2 ^ (7 * (index + 1)) =
                value + (byte.toNat % 128 + 128 * found.1) * 2 ^ (7 * index) := by
            rw [Nat.mul_succ, Nat.pow_add]
            ring
          simp only [Function.comp_apply, Nat.mod_add_mod, whole]

theorem boxVarint_eq (bytes : Bytes) : BoxRead.varint bytes = varint bytes := by
  rw [BoxRead.varint, varintFrom_eq (by decide) (by decide), varint]
  simp

/-! ## Tags -/

namespace BoxRead

/-- What one more tagged value adds. -/
def see (read : BoxRead) (tag : Tag) : BoxRead :=
  match tag.value with
  | .delimited content => read.delimited tag.number content
  | .varint value => if tag.number = 30 then { read with atMs := some value } else read
  | _ => read

/-- A walk that takes a tagged value off the front goes on with what that adds; one that
does not is over. -/
theorem tags_cons {fuel : Nat} {first : UInt8} {others : Bytes} {read : BoxRead} :
    (∀ tag rest, walkTag (first :: others) = some (tag, rest) →
      tags (fuel + 1) (first :: others) read = tags fuel rest (read.see tag)) ∧
    (walkTag (first :: others) = none →
      tags (fuel + 1) (first :: others) read = read.unreadable) := by
  simp only [tags, boxVarint_eq, walkTag, Nat.shiftRight_eq_div_pow]
  cases keyed : ProtobufWire.varint (first :: others) with
  | none => simp
  | some front =>
      obtain ⟨key, rest⟩ := front
      simp only [Option.bind_eq_bind, Option.bind_some]
      generalize key % 8 = wire
      split
      · cases valued : ProtobufWire.varint rest with
        | none => simp [readFlat, valued]
        | some found => simp [readFlat, valued, see]
      · by_cases short : rest.length < 8
        · simp [readFlat, takeBytes, short]
        · simp [readFlat, takeBytes, short, see]
      · cases counted : ProtobufWire.varint rest with
        | none => simp [readFlat, counted]
        | some found =>
            by_cases short : found.2.length < found.1
            · simp [readFlat, counted, takeBytes, short]
            · simp [readFlat, counted, takeBytes, short, see]
      · by_cases short : rest.length < 4
        · simp [readFlat, takeBytes, short]
        · simp [readFlat, takeBytes, short, see]
      · next not0 not1 not2 not5 =>
          have nothing : readFlat wire rest = none := by
            unfold readFlat
            split
            · exact absurd rfl not0
            · exact absurd rfl not1
            · exact absurd rfl not2
            · exact absurd rfl not5
            · rfl
          simp [nothing]

theorem unreadable_readable (read : BoxRead) : read.unreadable.readable = false :=
  rfl

theorem see_readable (read : BoxRead) (tag : Tag) : (read.see tag).readable = read.readable := by
  unfold see delimited
  split
  · split
    · rfl
    · split <;> rfl
  · split <;> rfl
  · rfl

/-- The walk sees all tagged values in turn, or the frame is not readable. -/
theorem tags_spec (fuel : Nat) (bytes : Bytes) (read : BoxRead) :
    (∀ found, tagsWithin walkTag fuel bytes = some found →
      tags fuel bytes read = found.foldl see read) ∧
    (tagsWithin walkTag fuel bytes = none → (tags fuel bytes read).readable = false) := by
  induction fuel generalizing bytes read with
  | zero =>
      cases bytes with
      | nil => simp [tagsWithin, tags]
      | cons first others => simp [tagsWithin, tags, unreadable]
  | succ fuel ih =>
      cases bytes with
      | nil => simp [tagsWithin, tags]
      | cons first others =>
          obtain ⟨onward, halts⟩ := @tags_cons fuel first others read
          cases front : walkTag (first :: others) with
          | none => simp [tagsWithin, front, halts front, unreadable]
          | some next =>
              obtain ⟨tag, rest⟩ := next
              obtain ⟨walked, stuck⟩ := ih rest (read.see tag)
              rw [onward tag rest front]
              cases later : tagsWithin walkTag fuel rest with
              | none => simp [tagsWithin, front, later, stuck later]
              | some found => simp [tagsWithin, front, later, walked found later]

end BoxRead

theorem readBoxFrame_of_walk {frame : Bytes} {found : List Tag}
    (walked : walkTags frame = some found) :
    readBoxFrame frame = found.foldl BoxRead.see {} :=
  (BoxRead.tags_spec _ _ _).1 found walked

theorem readBoxFrame_of_no_walk {frame : Bytes} (stuck : walkTags frame = none) :
    (readBoxFrame frame).readable = false :=
  (BoxRead.tags_spec _ _ _).2 stuck

/-! ## Indices -/

/-- The loop of `varint`, about to look at the byte with the index `i`, with so many steps
left. -/
def varintIndexed (bytes : Bytes) : Nat → Nat → Nat → Nat → Checked (Option (Nat × Nat))
  | 0, _, _, _ => .ok none
  | steps + 1, i, shift, value => do
      let byte ← index bytes[i]?
      let value := value ||| ((byte &&& 0x7f).toNat <<< (7 * shift)) % 2 ^ 64
      if byte &&& 0x80 = 0 then return some (value, i + 1)
      else varintIndexed bytes steps (i + 1) (shift + 1) value

/-- `varint`: the number at an index, and where it ends. -/
def varintAt (bytes : Bytes) (start : Nat) : Checked (Option (Nat × Nat)) :=
  varintIndexed bytes (min bytes.length (start + 10) - start) start 0 0

/-- `&frame[next..end]`. -/
def sliceChecked (frame : Bytes) (start stop : Nat) : Checked Bytes :=
  if start ≤ stop ∧ stop ≤ frame.length then .ok ((frame.take stop).drop start)
  else .error .index

/-- The loop of `read`, with so many steps left.  A length that is no `usize` runs past the
end of the frame as well. -/
def readIndexed (frame : Bytes) : Nat → Nat → BoxRead → Checked BoxRead
  | 0, start, read => if start < frame.length then .error .hang else .ok read
  | fuel + 1, start, read =>
      if start < frame.length then do
        match ← varintAt frame start with
        | none => return read.unreadable
        | some (key, start) =>
            let field := key >>> 3
            match key % 8 with
            | 0 =>
                match ← varintAt frame start with
                | none => return read.unreadable
                | some (value, start) =>
                    readIndexed frame fuel start
                      (if field = 30 then { read with atMs := some value } else read)
            | 1 =>
                if frame.length < start + 8 then return read.unreadable
                else readIndexed frame fuel (start + 8) read
            | 2 =>
                match ← varintAt frame start with
                | none => return read.unreadable
                | some (length, start) =>
                    if frame.length < start + length then return read.unreadable
                    else if field = 2 then do
                      let content ← sliceChecked frame start (start + length)
                      readIndexed frame fuel (start + length)
                        { read with kind := fromUtf8 content }
                    else if field = 28 then
                      readIndexed frame fuel (start + length) { read with hasInfo := true }
                    else readIndexed frame fuel (start + length) read
            | 5 =>
                if frame.length < start + 4 then return read.unreadable
                else readIndexed frame fuel (start + 4) read
            | _ => return read.unreadable
      else .ok read

theorem varintIndexed_spec {bytes : Bytes} {steps i shift value : Nat}
    (count : steps = min (bytes.length - i) (10 - shift)) :
    match BoxRead.varintFrom (bytes.drop i) shift value with
    | none => varintIndexed bytes steps i shift value = .ok none
    | some (number, rest) => ∃ next, i < next ∧ next ≤ bytes.length ∧
        rest = bytes.drop next ∧
        varintIndexed bytes steps i shift value = .ok (some (number, next)) := by
  induction steps generalizing i shift value with
  | zero =>
      rcases Nat.lt_or_ge i bytes.length with within | past
      · have long : 10 ≤ shift := by omega
        rw [List.drop_eq_getElem_cons within, BoxRead.varintFrom, if_pos long]
        rfl
      · rw [List.drop_of_length_le past]
        rfl
  | succ steps ih =>
      have within : i < bytes.length := by omega
      have short : ¬ 10 ≤ shift := by omega
      rw [List.drop_eq_getElem_cons within, BoxRead.varintFrom, if_neg short, varintIndexed,
        List.getElem?_eq_getElem within, index_some, ok_bind]
      dsimp only
      by_cases last : bytes[i] &&& 0x80 = 0
      · simp only [if_pos last]
        exact ⟨i + 1, Nat.lt_succ_self i, within, rfl, rfl⟩
      · simp only [if_neg last]
        have onward := @ih (i + 1) (shift + 1)
          (value ||| ((bytes[i] &&& 0x7f).toNat <<< (7 * shift)) % 2 ^ 64) (by omega)
        split
        · next nothing =>
            rw [nothing] at onward
            exact onward
        · next number rest found =>
            rw [found] at onward
            obtain ⟨next, above, below, same, ran⟩ := onward
            exact ⟨next, by omega, below, same, ran⟩

theorem varintAt_spec (bytes : Bytes) (start : Nat) :
    match BoxRead.varint (bytes.drop start) with
    | none => varintAt bytes start = .ok none
    | some (number, rest) => ∃ next, start < next ∧ next ≤ bytes.length ∧
        rest = bytes.drop next ∧ varintAt bytes start = .ok (some (number, next)) :=
  varintIndexed_spec (by omega)

/-- The walk with indices ends, never outside the frame, and reads what the walk over what
is left reads. -/
theorem readIndexed_eq {frame : Bytes} {fuel start : Nat} {read : BoxRead}
    (enough : frame.length - start ≤ fuel) :
    readIndexed frame fuel start read = .ok (BoxRead.tags fuel (frame.drop start) read) := by
  induction fuel generalizing start read with
  | zero =>
      have past : frame.length ≤ start := by omega
      rw [readIndexed, if_neg (Nat.not_lt_of_le past), List.drop_of_length_le past]
      rfl
  | succ fuel ih =>
      rcases Nat.lt_or_ge start frame.length with within | past
      · have keyed := varintAt_spec frame start
        have here := List.drop_eq_getElem_cons within
        rw [readIndexed, if_pos within]
        rw [here] at keyed ⊢
        rw [BoxRead.tags]
        cases found : BoxRead.varint (frame[start] :: frame.drop (start + 1)) with
        | none =>
            rw [found] at keyed
            rw [keyed]
            rfl
        | some front =>
            obtain ⟨key, rest⟩ := front
            rw [found] at keyed
            obtain ⟨next, above, below, rfl, ran⟩ := keyed
            rw [ran, ok_bind]
            dsimp only
            have valued := varintAt_spec frame next
            have left : (frame.drop next).length = frame.length - next := List.length_drop
            generalize key % 8 = wire
            generalize key >>> 3 = field
            split
            · change _ = Except.ok (match BoxRead.varint (frame.drop next) with
                | none => _
                | some (value, rest) => BoxRead.tags fuel rest _)
              cases number : BoxRead.varint (frame.drop next) with
              | none =>
                  rw [number] at valued
                  rw [valued]
                  rfl
              | some back =>
                  obtain ⟨value, rest⟩ := back
                  rw [number] at valued
                  obtain ⟨after, above', below', rfl, ran'⟩ := valued
                  rw [ran', ok_bind]
                  exact ih (by omega)
            · change _ = Except.ok (if (frame.drop next).length < 8 then _
                else BoxRead.tags fuel ((frame.drop next).drop 8) _)
              by_cases short : frame.length < next + 8
              · rw [if_pos short, if_pos (by omega)]
                rfl
              · rw [if_neg short, if_neg (by omega), ih (by omega), List.drop_drop]
            · change _ = Except.ok (match BoxRead.varint (frame.drop next) with
                | none => _
                | some (length, rest) => if rest.length < length then _
                    else BoxRead.tags fuel (rest.drop length) _)
              cases counted : BoxRead.varint (frame.drop next) with
              | none =>
                  rw [counted] at valued
                  rw [valued]
                  rfl
              | some back =>
                  obtain ⟨length, rest⟩ := back
                  rw [counted] at valued
                  obtain ⟨after, above', below', rfl, ran'⟩ := valued
                  rw [ran', ok_bind]
                  have left' : (frame.drop after).length = frame.length - after :=
                    List.length_drop
                  dsimp only
                  by_cases short : frame.length < after + length
                  · rw [if_pos short, if_pos (by omega)]
                    rfl
                  · have content : sliceChecked frame after (after + length) =
                        .ok ((frame.drop after).take length) := by
                      rw [sliceChecked, if_pos (by omega), List.take_drop]
                    have whole : ¬ (frame.drop after).length < length := by omega
                    rw [if_neg short, if_neg whole, List.drop_drop]
                    unfold BoxRead.delimited
                    split
                    · rw [content, ok_bind, ih (by omega)]
                    · split
                      · rw [ih (by omega)]
                      · rw [ih (by omega)]
            · change _ = Except.ok (if (frame.drop next).length < 4 then _
                else BoxRead.tags fuel ((frame.drop next).drop 4) _)
              by_cases short : frame.length < next + 4
              · rw [if_pos short, if_pos (by omega)]
                rfl
              · rw [if_neg short, if_neg (by omega), ih (by omega), List.drop_drop]
            · simp [pure, Except.pure]
      · rw [readIndexed, if_neg (Nat.not_lt_of_le past), List.drop_of_length_le past]
        rfl

/-! ## Decoding -/

/-- `EventFrame`, as far as it is compared: the kind, whether there is an `info`, and the
time as a 64-bit word. -/
structure EventFrame where
  kind : Option Text := none
  hasInfo : Bool := false
  atMs : Option Nat := none
  deriving DecidableEq, Repr

/-- One more tagged value: the last of a field wins, a string is UTF-8, and what is unknown
or of another type is skipped. -/
def EventFrame.merge (event : EventFrame) (tag : Tag) : Option EventFrame :=
  match tag.value with
  | .delimited content =>
      if tag.number = 2 then
        (fromUtf8 content).map fun text => { event with kind := some text }
      else if tag.number = 28 then some { event with hasInfo := true }
      else some event
  | .varint value =>
      if tag.number = 30 then some { event with atMs := some value } else some event
  | _ => some event

/-- What a proto3 decoder makes of the bytes, unless it refuses them for another field. -/
def decodeEventFrame (bytes : Bytes) : Option EventFrame := do
  let tags ← readTags bytes
  tags.foldlM EventFrame.merge {}

/-- What the walk read and the decoder has merged are the same. -/
structure BoxRead.Agrees (read : BoxRead) (event : EventFrame) : Prop where
  kind : read.kind = event.kind
  hasInfo : read.hasInfo = event.hasInfo
  atMs : read.atMs = event.atMs

theorem BoxRead.Agrees.see {read : BoxRead} {event merged : EventFrame} {tag : Tag}
    (agrees : read.Agrees event) (merges : event.merge tag = some merged) :
    (read.see tag).Agrees merged := by
  obtain ⟨kind, hasInfo, atMs⟩ := agrees
  unfold EventFrame.merge at merges
  unfold BoxRead.see BoxRead.delimited
  split at merges
  · split at merges
    · next isKind =>
        obtain ⟨text, isText, rfl⟩ := Option.map_eq_some_iff.mp merges
        simp only [isKind, if_true, isText]
        exact ⟨rfl, hasInfo, atMs⟩
    · next notKind =>
        simp only [notKind, if_false]
        split at merges
        · next isInfo =>
            cases merges
            simp only [isInfo, if_true]
            exact ⟨kind, rfl, atMs⟩
        · next notInfo =>
            cases merges
            simp only [notInfo, if_false]
            exact ⟨kind, hasInfo, atMs⟩
  · split at merges
    · next isTime =>
        cases merges
        simp only [isTime, if_true]
        exact ⟨kind, hasInfo, rfl⟩
    · next notTime =>
        cases merges
        simp only [notTime, if_false]
        exact ⟨kind, hasInfo, atMs⟩
  · next notDelimited notVarint =>
      cases merges
      exact ⟨kind, hasInfo, atMs⟩

theorem BoxRead.Agrees.foldl {tags : List Tag} {read : BoxRead} {event final : EventFrame}
    (agrees : read.Agrees event) (merged : tags.foldlM EventFrame.merge event = some final) :
    (tags.foldl BoxRead.see read).Agrees final := by
  induction tags generalizing read event with
  | nil =>
      cases merged
      exact agrees
  | cons tag tags ih =>
      rw [List.foldlM_cons] at merged
      obtain ⟨next, first, later⟩ := Option.bind_eq_some_iff.mp merged
      exact ih (agrees.see first) later

theorem readBoxFrame_agrees {frame : Bytes} {event : EventFrame}
    (readable : (readBoxFrame frame).readable = true)
    (decoded : decodeEventFrame frame = some event) : (readBoxFrame frame).Agrees event := by
  obtain ⟨tags, areRead, merged⟩ := Option.bind_eq_some_iff.mp decoded
  have flat : walkTags frame ≠ none := by
    intro stuck
    rw [readBoxFrame_of_no_walk stuck] at readable
    cases readable
  rw [readBoxFrame_of_walk (walkTags_of_readTags areRead flat)]
  exact BoxRead.Agrees.foldl ⟨rfl, rfl, rfl⟩ merged

/-! ## Routes -/

/-- The tagged value is a kind. -/
def IsKind (tag : Tag) : Prop :=
  tag.number = 2 ∧ ∃ content, tag.value = .delimited content

/-- The last kind among the tagged values is this text. -/
def LastKind (tags : List Tag) (text : Text) : Prop :=
  ∃ earlier content later, tags = earlier ++ ⟨2, .delimited content⟩ :: later ∧
    fromUtf8 content = some text ∧ ∀ tag ∈ later, ¬ IsKind tag

/-- There is an `info` among the tagged values. -/
def CarriesInfo (tags : List Tag) : Prop :=
  ∃ content, ⟨28, .delimited content⟩ ∈ tags

namespace BoxRead

theorem see_kind_of_not {read : BoxRead} {tag : Tag} (other : ¬ IsKind tag) :
    (read.see tag).kind = read.kind := by
  unfold see delimited
  split
  · next content same =>
      rw [if_neg fun number => other ⟨number, content, same⟩]
      split <;> rfl
  · split <;> rfl
  · rfl

theorem foldl_kind_of_not {tags : List Tag} {read : BoxRead}
    (others : ∀ tag ∈ tags, ¬ IsKind tag) : (tags.foldl see read).kind = read.kind := by
  induction tags generalizing read with
  | nil => rfl
  | cons tag tags ih =>
      rw [List.foldl_cons, ih fun other member => others other (List.mem_cons_of_mem _ member),
        see_kind_of_not (others tag List.mem_cons_self)]

theorem foldl_kind_of_last {tags : List Tag} {read : BoxRead} {text : Text}
    (last : LastKind tags text) : (tags.foldl see read).kind = some text := by
  obtain ⟨earlier, content, later, rfl, isText, others⟩ := last
  rw [List.foldl_append, List.foldl_cons, foldl_kind_of_not others]
  exact isText

theorem last_of_foldl_kind {tags : List Tag} {text : Text}
    (kind : (tags.foldl see {}).kind = some text) : LastKind tags text := by
  induction tags using List.reverseRecOn with
  | nil => cases kind
  | append_singleton earlier tag ih =>
      rw [List.foldl_append, List.foldl_cons, List.foldl_nil] at kind
      by_cases isKind : IsKind tag
      · obtain ⟨number, content, same⟩ := isKind
        obtain ⟨isNumber, value⟩ := tag
        subst number same
        exact ⟨earlier, content, [], rfl, kind, nofun⟩
      · rw [see_kind_of_not isKind] at kind
        obtain ⟨before, content, later, rfl, isText, others⟩ := ih kind
        refine ⟨before, content, later ++ [tag], by simp, isText, fun other member => ?_⟩
        rcases List.mem_append.mp member with among | last
        · exact others other among
        · rwa [List.mem_singleton.mp last]

theorem see_hasInfo {read : BoxRead} (tag : Tag) (seen : read.hasInfo = true) :
    (read.see tag).hasInfo = true := by
  unfold see delimited
  split
  · split
    · exact seen
    · split
      · rfl
      · exact seen
  · split <;> exact seen
  · exact seen

theorem foldl_hasInfo_of_seen {tags : List Tag} {read : BoxRead} (seen : read.hasInfo = true) :
    (tags.foldl see read).hasInfo = true := by
  induction tags generalizing read with
  | nil => exact seen
  | cons tag tags ih => exact ih (see_hasInfo tag seen)

theorem foldl_hasInfo {tags : List Tag} {read : BoxRead} (carries : CarriesInfo tags) :
    (tags.foldl see read).hasInfo = true := by
  obtain ⟨content, member⟩ := carries
  obtain ⟨earlier, later, rfl⟩ := List.append_of_mem member
  rw [List.foldl_append, List.foldl_cons]
  exact foldl_hasInfo_of_seen rfl

theorem foldl_readable (tags : List Tag) (read : BoxRead) :
    (tags.foldl see read).readable = read.readable := by
  induction tags generalizing read with
  | nil => rfl
  | cons tag tags ih => rw [List.foldl_cons, ih, see_readable]

end BoxRead

/-- The walk and a decoder agree on every frame that both accept; only a frame that parsed
whole and whose last kind is `hello` is consumed, no sample that carries `info` is
coalesced, a frame that does not parse is an edge, and the walk ends without an index
outside the frame. -/
theorem box_frame_reading (decode : Bytes → Option EventFrame)
    (standard : ∀ frame event, decode frame = some event →
      decodeEventFrame frame = some event) :
    (∀ frame event, (readBoxFrame frame).readable = true → decode frame = some event →
      (readBoxFrame frame).kind = event.kind ∧
        (readBoxFrame frame).hasInfo = event.hasInfo ∧
        (readBoxFrame frame).atMs = event.atMs) ∧
    (∀ frame, routeBoxFrame frame = .consume →
      ∃ tags, walkTags frame = some tags ∧ LastKind tags ['h', 'e', 'l', 'l', 'o']) ∧
    (∀ frame tags, walkTags frame = some tags →
      LastKind tags ['s', 'a', 'm', 'p', 'l', 'e'] → CarriesInfo tags →
        routeBoxFrame frame = .sample []) ∧
    (∀ frame, walkTags frame = none → routeBoxFrame frame = .edge) ∧
    ∀ frame, readIndexed frame frame.length 0 {} = .ok (readBoxFrame frame) := by
  refine ⟨?_, ?_, ?_, ?_, ?_⟩
  · intro frame event readable decoded
    have agrees := readBoxFrame_agrees readable (standard frame event decoded)
    exact ⟨agrees.kind, agrees.hasInfo, agrees.atMs⟩
  · intro frame consumed
    unfold routeBoxFrame BoxRead.route at consumed
    split at consumed
    · cases consumed
    next readable =>
      split at consumed
      next kind =>
        cases walked : walkTags frame with
        | none => exact absurd (by simp [readBoxFrame_of_no_walk walked]) readable
        | some tags =>
            rw [readBoxFrame_of_walk walked] at kind
            exact ⟨tags, rfl, BoxRead.last_of_foldl_kind kind⟩
      · split at consumed
        · cases consumed
        · split at consumed
          · cases consumed
          · cases consumed
  · intro frame tags walked last carries
    have readable := BoxRead.foldl_readable tags {}
    have kind := @BoxRead.foldl_kind_of_last tags {} _ last
    have hasInfo := @BoxRead.foldl_hasInfo tags {} carries
    simp [routeBoxFrame, BoxRead.route, readBoxFrame_of_walk walked, readable, kind, hasInfo]
  · intro frame stuck
    simp [routeBoxFrame, BoxRead.route, readBoxFrame_of_no_walk stuck]
  · intro frame
    exact readIndexed_eq (Nat.le_refl _)

/-- A sample with an `info`, after a kind that does not count. -/
theorem box_frame_reading_sample :
    routeBoxFrame [0x12, 5, 104, 101, 108, 108, 111, 0x12, 6, 115, 97, 109, 112, 108, 101,
      0xe2, 1, 0] = .sample [] := by
  refine (box_frame_reading decodeEventFrame fun _ _ same => same).2.2.1 _
    [⟨2, .delimited [104, 101, 108, 108, 111]⟩,
      ⟨2, .delimited [115, 97, 109, 112, 108, 101]⟩, ⟨28, .delimited []⟩]
    (by decide +kernel) ?_ ⟨[], by decide⟩
  refine ⟨[⟨2, .delimited [104, 101, 108, 108, 111]⟩], _, [⟨28, .delimited []⟩], rfl, ?_, ?_⟩
  · decide +kernel
  · rintro tag member ⟨number, -⟩
    rw [List.mem_singleton.mp member] at number
    cases number

end WindowMlHub
