import WindowMlHub.HttpResponses

/-!
# Well-formed HTTP responses

A response with the status 200 as the grammar of HTTP/1.1 writes it: a status
line, header fields, and a body that is sent as it is or in chunks.  Field values,
the reason phrase and chunk extensions are bytes, which the grammar does not
require to be UTF-8.  Where they are, the connector's parsers read the head and
the sizes of the chunks.
-/

namespace WindowMlHub

open TextFormats CheckedConditions

/-! ## The grammar -/

/-- `tchar`, of which names are made: a letter, a digit, or one of the characters
of `"!#$%&'*+-.^_`|~"`. -/
def IsTchar (c : Char) : Prop :=
  c.isAlphanum ∨
    c.toNat ∈ [33, 35, 36, 37, 38, 39, 42, 43, 45, 46, 94, 95, 96, 124, 126]

/-- `OWS` and `BWS`. -/
def IsOws (text : Text) : Prop :=
  ∀ c ∈ text, c = ' ' ∨ c = '\t'

/-- `HTAB / SP / VCHAR / obs-text`. -/
def IsFieldByte (byte : UInt8) : Prop :=
  byte = 9 ∨ 32 ≤ byte.toNat ∧ byte ≠ 127

/-- A header field as it was sent. -/
structure HeaderField where
  name : Text
  value : Bytes
  deriving DecidableEq

namespace HeaderField

/-- `field-line`. -/
def line (field : HeaderField) : Bytes :=
  utf8Bytes (field.name ++ [':']) ++ field.value

/-- Names are compared without regard to case. -/
def Named (field : HeaderField) (name : String) : Prop :=
  lowercase field.name = name.toList

structure WellFormed (field : HeaderField) : Prop where
  nonempty : field.name ≠ []
  name : ∀ c ∈ field.name, IsTchar c
  value : ∀ byte ∈ field.value, IsFieldByte byte

end HeaderField

/-- A chunk's size as it was written, its extensions, and its data. -/
structure BodyChunk where
  digits : Text
  extension : Bytes
  data : Bytes
  deriving DecidableEq

namespace BodyChunk

/-- `chunk-size [ chunk-ext ]`. -/
def sizeLine (chunk : BodyChunk) : Bytes :=
  utf8Bytes chunk.digits ++ chunk.extension

/-- `chunk`. -/
def bytes (chunk : BodyChunk) : Bytes :=
  chunk.sizeLine ++ crlf ++ (chunk.data ++ crlf)

structure WellFormed (chunk : BodyChunk) : Prop where
  nonempty : chunk.digits ≠ []
  size : hexNumber chunk.digits = some chunk.data.length
  extension : chunk.extension = [] ∨ ∃ blank rest, IsOws blank ∧
    chunk.extension = utf8Bytes (blank ++ [';']) ++ rest ∧ ∀ byte ∈ rest, IsFieldByte byte

end BodyChunk

/-- How the content of a response is sent: as it is, or in chunks of which the
last has no data, followed by trailer fields. -/
inductive ResponseBody
  | raw (data : Bytes)
  | chunked (chunks : List BodyChunk) (last : BodyChunk) (trailer : List HeaderField)
  deriving DecidableEq

namespace ResponseBody

def bytes : ResponseBody → Bytes
  | raw data => data
  | chunked chunks last trailer =>
      chunks.flatMap BodyChunk.bytes ++ (last.sizeLine ++ crlf ++
        (endLines (trailer.map HeaderField.line) ++ crlf))

def content : ResponseBody → Bytes
  | raw data => data
  | chunked chunks _ _ => chunks.flatMap BodyChunk.data

/-- The chunks of a body, the last one included. -/
def chunks : ResponseBody → List BodyChunk
  | raw _ => []
  | chunked chunks last _ => chunks ++ [last]

/-- What the header fields must say of a body, and its own well-formedness. -/
def WellFormed (fields : List HeaderField) : ResponseBody → Prop
  | raw data =>
      (∀ field ∈ fields, ¬ field.Named "transfer-encoding") ∧
      ∀ field ∈ fields, field.Named "content-length" →
        ∃ before digits after, IsOws before ∧ IsOws after ∧ digits ≠ [] ∧
          (∀ c ∈ digits, c.isDigit = true) ∧ Nat.ofDigitChars 10 digits 0 = data.length ∧
          field.value = utf8Bytes (before ++ digits ++ after)
  | chunked chunks last trailer =>
      (∃ field ∈ fields, field.Named "transfer-encoding") ∧
      (∀ field ∈ fields, field.Named "transfer-encoding" →
        ∃ before coding after, IsOws before ∧ IsOws after ∧
          lowercase coding = "chunked".toList ∧
          field.value = utf8Bytes (before ++ coding ++ after)) ∧
      (∀ field ∈ fields, ¬ field.Named "content-length") ∧
      (∀ chunk ∈ chunks, chunk.WellFormed ∧ chunk.data ≠ []) ∧
      (last.WellFormed ∧ last.data = []) ∧
      ∀ field ∈ trailer, field.WellFormed

end ResponseBody

/-- A response with the status 200. -/
structure HttpResponse where
  /-- The `x` of `HTTP/1.x`. -/
  minor : Char
  reason : Bytes
  fields : List HeaderField
  body : ResponseBody
  deriving DecidableEq

namespace HttpResponse

/-- `HTTP-version`. -/
def version (response : HttpResponse) : Text :=
  ['H', 'T', 'T', 'P', '/', '1', '.'] ++ [response.minor]

/-- `status-code`. -/
def okCode : Text :=
  ['2', '0', '0']

/-- `status-line`. -/
def statusLine (response : HttpResponse) : Bytes :=
  utf8Bytes (response.version ++ [' '] ++ okCode ++ [' ']) ++ response.reason

/-- The status line and the header fields, with the empty line after them. -/
def head (response : HttpResponse) : Bytes :=
  endLines (response.statusLine :: response.fields.map HeaderField.line) ++ crlf

def bytes (response : HttpResponse) : Bytes :=
  response.head ++ response.body.bytes

structure WellFormed (response : HttpResponse) : Prop where
  minor : response.minor.isDigit = true
  reason : ∀ byte ∈ response.reason, IsFieldByte byte
  fields : ∀ field ∈ response.fields, field.WellFormed
  body : response.body.WellFormed response.fields

/-- The response says that its content type is `application/protobuf`, perhaps
with parameters. -/
def SaysProtobuf (response : HttpResponse) : Prop :=
  (∃ field ∈ response.fields, field.Named "content-type") ∧
  ∀ field ∈ response.fields, field.Named "content-type" →
    ∃ before type after parameters, IsOws before ∧ IsOws after ∧
      lowercase type = "application/protobuf".toList ∧
      (parameters = [] ∨ ∃ rest, parameters = utf8Bytes [';'] ++ rest) ∧
      field.value = utf8Bytes (before ++ type ++ after) ++ parameters

/-- Bytes that spell a text. -/
def IsUtf8 (bytes : Bytes) : Prop :=
  ∃ text, bytes = utf8Bytes text

/-- What the connector reads as text is UTF-8: the head and the lines with the
sizes of the chunks. -/
structure IsText (response : HttpResponse) : Prop where
  reason : IsUtf8 response.reason
  fields : ∀ field ∈ response.fields, IsUtf8 field.value
  extensions : ∀ chunk ∈ response.body.chunks, IsUtf8 chunk.extension

/-- What the connector holds of a response is bounded. -/
structure Bounded (response : HttpResponse) : Prop where
  head : response.head.length ≤ maxHeadBytes
  fields : response.fields.length ≤ maxHeaders
  chunks : ∀ chunk ∈ response.body.chunks,
    chunk.data.length ≤ maxChunkBytes ∧ chunk.sizeLine.length ≤ 63

/-- A length that the response states is a `u64`. -/
def StatesLength64 (response : HttpResponse) : Prop :=
  (∃ field ∈ response.fields, field.Named "content-length") →
    response.body.content.length < 2 ^ 64

end HttpResponse

/-! ## Characters -/

theorem IsTchar.bounds {c : Char} (tchar : IsTchar c) :
    33 ≤ c.toNat ∧ c.toNat ≤ 126 ∧ c ≠ ':' := by
  rcases tchar with alphanum | listed
  · have digitOrLetter : (48 ≤ c.toNat ∧ c.toNat ≤ 57) ∨ (65 ≤ c.toNat ∧ c.toNat ≤ 90) ∨
        (97 ≤ c.toNat ∧ c.toNat ≤ 122) := by
      simp only [Char.isAlphanum, Char.isAlpha, Char.isUpper, Char.isLower, Char.isDigit,
        Bool.or_eq_true, Bool.and_eq_true, decide_eq_true_eq, ge_iff_le,
        UInt32.le_iff_toNat_le] at alphanum
      change ((65 ≤ c.toNat ∧ c.toNat ≤ 90) ∨ (97 ≤ c.toNat ∧ c.toNat ≤ 122)) ∨
        (48 ≤ c.toNat ∧ c.toNat ≤ 57) at alphanum
      tauto
    refine ⟨by omega, by omega, ?_⟩
    rintro rfl
    revert digitOrLetter
    decide
  · simp only [List.mem_cons, List.not_mem_nil, or_false] at listed
    refine ⟨by omega, by omega, ?_⟩
    rintro rfl
    revert listed
    decide

theorem solid_of_bounds {c : Char} (low : 33 ≤ c.toNat) (high : c.toNat ≤ 126) : Solid c := by
  simp only [Solid, isWhitespace, Bool.or_eq_false_iff, decide_eq_false_iff_not]
  omega

theorem IsOws.blank {text : Text} (ows : IsOws text) : ∀ c ∈ text, Blank c := by
  intro c member
  rcases ows c member with rfl | rfl
  · rfl
  · rfl

theorem IsOws.ascii {text : Text} (ows : IsOws text) : ∀ c ∈ text, Ascii c := by
  intro c member
  rcases ows c member with rfl | rfl
  · decide
  · decide

theorem IsFieldByte.ne_return {byte : UInt8} (field : IsFieldByte byte) : byte ≠ 13 := by
  rintro rfl
  rcases field with same | ⟨large, -⟩
  · exact absurd same (by decide)
  · exact absurd large (by decide)

theorem toLower_of_not_upper {c : Char} (notUpper : ¬ (65 ≤ c.toNat ∧ c.toNat ≤ 90)) :
    c.toLower = c := by
  unfold Char.toLower
  rw [dif_neg]
  rintro ⟨low, high⟩
  rw [ge_iff_le, UInt32.le_iff_toNat_le] at low
  rw [UInt32.le_iff_toNat_le] at high
  exact notUpper ⟨low, high⟩

/-- The characters of a text that reads, in lower case, as one of visible ASCII
characters are visible too. -/
theorem bounds_of_lowercase {text : Text} {name : String}
    (same : lowercase text = name.toList)
    (visible : ∀ c ∈ name.toList, 33 ≤ c.toNat ∧ c.toNat ≤ 126 ∧ c ≠ ';' ∧ c ≠ ',') :
    ∀ c ∈ text, 33 ≤ c.toNat ∧ c.toNat ≤ 126 ∧ c ≠ ';' ∧ c ≠ ',' := by
  intro c member
  have lower : c.toLower ∈ name.toList := by
    rw [← same]
    exact List.mem_map_of_mem member
  have bounds := visible _ lower
  by_cases upper : 65 ≤ c.toNat ∧ c.toNat ≤ 90
  · refine ⟨by omega, by omega, ?_, ?_⟩
    · rintro rfl
      revert upper
      decide
    · rintro rfl
      revert upper
      decide
  · rwa [toLower_of_not_upper upper] at bounds

/-! ## Reading the header fields -/

/-- The values of the fields that the connector looks into. -/
structure HeaderField.Readable (field : HeaderField) : Prop where
  contentType : field.Named "content-type" →
    ∃ before type after parameters, IsOws before ∧ IsOws after ∧
      lowercase type = "application/protobuf".toList ∧
      (parameters = [] ∨ ∃ rest, parameters = utf8Bytes [';'] ++ rest) ∧
      field.value = utf8Bytes (before ++ type ++ after) ++ parameters
  transferEncoding : field.Named "transfer-encoding" →
    ∃ before coding after, IsOws before ∧ IsOws after ∧
      lowercase coding = "chunked".toList ∧
      field.value = utf8Bytes (before ++ coding ++ after)
  contentLength : field.Named "content-length" →
    ∃ before digits after, IsOws before ∧ IsOws after ∧ digits ≠ [] ∧
      (∀ c ∈ digits, c.isDigit = true) ∧ Nat.ofDigitChars 10 digits 0 < 2 ^ 64 ∧
      field.value = utf8Bytes (before ++ digits ++ after)

theorem utf8Bytes_ne_nil {text : Text} (nonempty : text ≠ []) : utf8Bytes text ≠ [] := by
  intro empty
  rw [← utf8Bytes_nil] at empty
  exact nonempty (utf8Bytes_injective empty)

theorem head_splitOn {text : Text} (absent : ';' ∉ text) (rest : Text) :
    (text.splitOn ';').head? = some text ∧
      ((text ++ ';' :: rest).splitOn ';').head? = some text := by
  constructor
  · rw [List.splitOn_eq_singleton absent]
    rfl
  · rw [List.splitOn_append_cons_self_of_not_mem absent]
    rfl

theorem isProtobuf_of_value {head : ResponseHead} {before type after value : Text}
    {parameters : Bytes} (owsBefore : IsOws before) (owsAfter : IsOws after)
    (named : lowercase type = "application/protobuf".toList)
    (marked : parameters = [] ∨ ∃ rest, parameters = utf8Bytes [';'] ++ rest)
    (stated : utf8Bytes value = utf8Bytes (before ++ type ++ after) ++ parameters) :
    ResponseHead.isProtobuf { head with contentType := trim value } = true := by
  have visible := bounds_of_lowercase named (by simp)
  have solid : ∀ c ∈ type, Solid c := fun c member =>
    solid_of_bounds (visible c member).1 (visible c member).2.1
  have noMark : ';' ∉ type := fun member => (visible ';' member).2.2.1 rfl
  have noMarkAfter : ';' ∉ type ++ after := by
    rw [List.mem_append, not_or]
    refine ⟨noMark, fun member => ?_⟩
    rcases owsAfter _ member with same | same
    · exact absurd same (by decide)
    · exact absurd same (by decide)
  have trimmedAfter : trim (type ++ after) = type := by
    have blankNone : ∀ c ∈ ([] : Text), Blank c := by simp
    simpa using trim_padded blankNone solid owsAfter.blank
  rcases marked with rfl | ⟨rest, rfl⟩
  · rw [List.append_nil] at stated
    obtain rfl := utf8Bytes_injective stated
    have trimmed : trim (before ++ type ++ after) = type :=
      trim_padded owsBefore.blank solid owsAfter.blank
    simp only [ResponseHead.isProtobuf, trimmed, (head_splitOn noMark []).1, Option.any_some,
      trim_solid solid, named, decide_eq_true_eq]
    decide +kernel
  · rw [← List.append_assoc, ← utf8Bytes_append] at stated
    have ascii : ∀ c ∈ before ++ type ++ after ++ [';'], Ascii c := by
      simp only [List.mem_append, List.mem_singleton]
      rintro c (((member | member) | member) | rfl)
      · exact owsBefore.ascii c member
      · exact Nat.lt_of_le_of_lt (visible c member).2.1 (by decide)
      · exact owsAfter.ascii c member
      · decide
    obtain ⟨back, rfl, -⟩ := utf8Bytes_eq_append ascii stated
    have begins : ∀ c ∈ (type ++ after).head?, Solid c := by
      cases type with
      | nil => cases named
      | cons first others =>
          rintro c ⟨⟩
          exact solid _ List.mem_cons_self
    obtain ⟨rest', trimmed⟩ := @trim_marked before (type ++ after) back ';' owsBefore.blank begins
      (rfl : Solid ';')
    have split : before ++ type ++ after ++ [';'] ++ back =
        before ++ (type ++ after) ++ ';' :: back := by
      simp
    simp only [ResponseHead.isProtobuf, split, trimmed, (head_splitOn noMarkAfter rest').2,
      Option.any_some, trimmedAfter, named, decide_eq_true_eq]
    decide +kernel

/-- What one header adds to what is known of the head. -/
theorem readHeader_spec (head : ResponseHead) {field : HeaderField} {value : Text}
    (readable : field.Readable) (stated : field.value = utf8Bytes value) :
    ∃ next, head.readHeader (lowercase field.name) (trim value) = .ok next ∧
      next.status = head.status ∧
      (next.chunked = true ↔ field.Named "transfer-encoding" ∨ head.chunked = true) ∧
      (field.Named "content-type" ∨ head.isProtobuf = true → next.isProtobuf = true) := by
  unfold ResponseHead.readHeader HeaderField.Named
  by_cases type : lowercase field.name = "content-type".toList
  · have other : lowercase field.name ≠ "transfer-encoding".toList := by
      rw [type]
      decide +kernel
    obtain ⟨before, name, after, parameters, owsBefore, owsAfter, named, marked, same⟩ :=
      readable.contentType type
    rw [stated] at same
    rw [if_pos type]
    refine ⟨_, rfl, rfl, (or_iff_right other).symm, fun _ => ?_⟩
    exact isProtobuf_of_value owsBefore owsAfter named marked same
  rw [if_neg type]
  by_cases encoding : lowercase field.name = "transfer-encoding".toList
  · obtain ⟨before, coding, after, owsBefore, owsAfter, named, same⟩ :=
      readable.transferEncoding encoding
    rw [stated] at same
    obtain rfl := utf8Bytes_injective same
    have visible := bounds_of_lowercase named (by simp)
    have trimmed : trim (before ++ coding ++ after) = coding :=
      trim_padded owsBefore.blank
        (fun c member => solid_of_bounds (visible c member).1 (visible c member).2.1)
        owsAfter.blank
    have chunked : ("chunked".toList.splitOn ',').any (fun e => trim e = "chunked".toList) =
        true := by
      rfl
    rw [if_pos encoding, trimmed, named, chunked]
    exact ⟨_, rfl, rfl, ⟨fun _ => .inl encoding, fun _ => rfl⟩, fun known =>
      known.resolve_left type⟩
  rw [if_neg encoding]
  by_cases length : lowercase field.name = "content-length".toList
  · obtain ⟨before, digits, after, owsBefore, owsAfter, nonempty, digit, small, same⟩ :=
      readable.contentLength length
    rw [stated] at same
    obtain rfl := utf8Bytes_injective same
    have trimmed : trim (before ++ digits ++ after) = digits :=
      trim_padded owsBefore.blank (fun c member => solid_of_isDigit (digit c member))
        owsAfter.blank
    have read : parseUnsigned (2 ^ 64 - 1) digits = some (Nat.ofDigitChars 10 digits 0) :=
      parseUnsigned_digits nonempty digit (by omega)
    rw [if_pos length, trimmed, read]
    exact ⟨_, rfl, rfl, (or_iff_right encoding).symm, fun known =>
      known.resolve_left type⟩
  · rw [if_neg length]
    exact ⟨head, rfl, rfl, (or_iff_right encoding).symm, fun known =>
      known.resolve_left type⟩

/-- The text of a field's value. -/
def HeaderField.text (field : HeaderField) : Text :=
  (fromUtf8 field.value).getD []

/-- The text of a header line. -/
def HeaderField.lineText (field : HeaderField) : Text :=
  field.name ++ ':' :: field.text

theorem HeaderField.value_eq {field : HeaderField}
    (isUtf8 : HttpResponse.IsUtf8 field.value) : field.value = utf8Bytes field.text := by
  obtain ⟨text, same⟩ := isUtf8
  rw [HeaderField.text, same, fromUtf8_utf8Bytes]
  rfl

theorem HeaderField.line_eq {field : HeaderField}
    (isUtf8 : HttpResponse.IsUtf8 field.value) : field.line = utf8Bytes field.lineText := by
  rw [HeaderField.line, HeaderField.value_eq isUtf8, ← utf8Bytes_append,
    HeaderField.lineText, List.append_assoc, List.singleton_append]

/-- The header lines are read one after another. -/
theorem readHeaders_spec {fields : List HeaderField} {n : Nat} (head : ResponseHead)
    (few : n + fields.length ≤ maxHeaders)
    (wellFormed : ∀ field ∈ fields, field.WellFormed ∧ field.Readable ∧
      HttpResponse.IsUtf8 field.value) :
    ∃ result, ResponseHead.readHeaders (fields.map HeaderField.lineText) n head = .ok result ∧
      result.status = head.status ∧
      (result.chunked = true ↔
        (∃ field ∈ fields, field.Named "transfer-encoding") ∨ head.chunked = true) ∧
      ((∃ field ∈ fields, field.Named "content-type") ∨ head.isProtobuf = true →
        result.isProtobuf = true) := by
  induction fields generalizing n head with
  | nil => exact ⟨head, rfl, rfl, by simp, by simp⟩
  | cons field fields ih =>
      obtain ⟨formed, readable, isUtf8⟩ := wellFormed field List.mem_cons_self
      rw [List.length_cons] at few
      obtain ⟨next, read, status, chunked, protobuf⟩ :=
        readHeader_spec head readable (HeaderField.value_eq isUtf8)
      obtain ⟨result, rest, restStatus, restChunked, restProtobuf⟩ :=
        ih next (n := n + 1) (by omega) fun other member =>
          wellFormed other (List.mem_cons_of_mem _ member)
      have noColon : ':' ∉ field.name := fun member =>
        (formed.name ':' member).bounds.2.2 rfl
      have trimmed : trim field.name = field.name := trim_solid fun c member =>
        solid_of_bounds (formed.name c member).bounds.1 (formed.name c member).bounds.2.1
      have here : n < maxHeaders := by omega
      have step : ResponseHead.readHeaders ((field :: fields).map HeaderField.lineText) n head =
          .ok result := by
        rw [List.map_cons, ResponseHead.readHeaders, ensure, if_pos here,
          HeaderField.lineText, splitOnce_append noColon]
        simp only [require, bind, Except.bind, trimmed, read, rest]
      refine ⟨result, step, restStatus.trans status, ?_, ?_⟩
      · rw [restChunked, chunked, List.exists_mem_cons_iff, or_assoc]
        exact or_left_comm
      · rw [List.exists_mem_cons_iff]
        rintro ((here | there) | before)
        · exact restProtobuf (.inr (protobuf (.inl here)))
        · exact restProtobuf (.inl there)
        · exact restProtobuf (.inr (protobuf (.inr before)))

/-! ## Reading the head -/

namespace HttpResponse

variable {response : HttpResponse}

theorem WellFormed.readable (formed : response.WellFormed) (protobuf : response.SaysProtobuf)
    (length : response.StatesLength64) :
    ∀ field ∈ response.fields, field.Readable := by
  intro field member
  have body := formed.body
  refine ⟨protobuf.2 field member, ?_, ?_⟩
  · intro named
    cases kind : response.body with
    | raw data =>
        rw [kind] at body
        exact absurd named (body.1 field member)
    | chunked chunks last trailer =>
        rw [kind] at body
        exact body.2.1 field member named
  · intro named
    have small := length ⟨field, member, named⟩
    cases kind : response.body with
    | raw data =>
        rw [kind] at body small
        obtain ⟨before, digits, after, owsBefore, owsAfter, nonempty, digit, same, stated⟩ :=
          body.2 field member named
        exact ⟨before, digits, after, owsBefore, owsAfter, nonempty, digit, same ▸ small,
          stated⟩
    | chunked chunks last trailer =>
        rw [kind] at body
        exact absurd named (body.2.2.1 field member)

/-- The text of the status line. -/
def statusText (response : HttpResponse) (reason : Text) : Text :=
  response.version ++ ' ' :: (okCode ++ ' ' :: reason)

theorem WellFormed.version_bounds (formed : response.WellFormed) :
    ∀ c ∈ response.version, 33 ≤ c.toNat := by
  intro c member
  rcases List.mem_append.mp member with fixed | minor
  · have all : ∀ c ∈ ['H', 'T', 'T', 'P', '/', '1', '.'], 33 ≤ c.toNat := by simp
    exact all c fixed
  · obtain rfl := List.mem_singleton.mp minor
    have digit := Char.isDigit_iff_toNat.mp formed.minor
    exact (by decide : 33 ≤ 48).trans digit.1

theorem okCode_bounds : ∀ c ∈ okCode, 33 ≤ c.toNat := by
  simp [okCode]

theorem readStatus (formed : response.WellFormed) (reason : Text) :
    splitn 3 ' ' (response.statusText reason) = [response.version, okCode, reason] := by
  have noSpace : ' ' ∉ response.version := fun member =>
    absurd (formed.version_bounds ' ' member) (by decide)
  have noSpaceInCode : ' ' ∉ okCode := fun member =>
    absurd (okCode_bounds ' ' member) (by decide)
  exact splitn_three noSpace noSpaceInCode reason

theorem return_not_mem {text : Text} (absent : '\r' ∉ text) : 13 ∉ utf8Bytes text :=
  fun member => absent (mem_of_mem_utf8Bytes (c := '\r') (by decide) member)

theorem not_return_mem {text : Text} (absent : 13 ∉ utf8Bytes text) : '\r' ∉ text :=
  fun member => absent (mem_utf8Bytes (c := '\r') (by decide) member)

theorem statusLine_eq {reason : Text} (same : response.reason = utf8Bytes reason) :
    response.statusLine = utf8Bytes (response.statusText reason) := by
  rw [statusLine, same, ← utf8Bytes_append, statusText]
  simp

/-- The lines of a well-formed head are not empty, and a carriage return only ends
them. -/
theorem WellFormed.plain (formed : response.WellFormed) :
    ∀ line ∈ response.statusLine :: response.fields.map HeaderField.line,
      line ≠ [] ∧ 13 ∉ line := by
  have fieldBytes {bytes : Bytes} (field : ∀ byte ∈ bytes, IsFieldByte byte) : 13 ∉ bytes :=
    fun member => (field 13 member).ne_return rfl
  intro line member
  rcases List.mem_cons.mp member with rfl | member
  · rw [statusLine, List.mem_append, not_or]
    refine ⟨?_, return_not_mem ?_, fieldBytes formed.reason⟩
    · exact List.append_ne_nil_of_left_ne_nil (utf8Bytes_ne_nil (by simp)) _
    · have absent : '\r' ∉ response.version := fun member =>
        absurd (formed.version_bounds '\r' member) (by decide)
      have absentInCode : '\r' ∉ okCode := fun member =>
        absurd (okCode_bounds '\r' member) (by decide)
      simp [absent, absentInCode]
  · obtain ⟨field, found, rfl⟩ := List.mem_map.mp member
    have name := formed.fields field found
    rw [HeaderField.line, List.mem_append, not_or]
    refine ⟨?_, return_not_mem ?_, fieldBytes name.value⟩
    · exact List.append_ne_nil_of_left_ne_nil (utf8Bytes_ne_nil (by simp)) _
    · rw [List.mem_append, List.mem_singleton, not_or]
      refine ⟨fun member => ?_, by decide⟩
      have := (name.name '\r' member).bounds.1
      exact absurd this (by decide)

theorem endLines_utf8Bytes (first : Text) (others : List Text) :
    endLines ((first :: others).map utf8Bytes) =
      utf8Bytes (first ++ others.flatMap fun line => '\r' :: '\n' :: line) ++ crlf := by
  have ended (text : Text) : utf8Bytes ('\r' :: '\n' :: text) = crlf ++ utf8Bytes text := by
    rw [utf8Bytes_cons_ascii (by decide), utf8Bytes_cons_ascii (by decide)]
    rfl
  induction others generalizing first with
  | nil => simp [endLines]
  | cons next others ih =>
      have rest := ih next
      rw [endLines, List.map_cons, List.flatMap_cons, ← endLines, rest, List.flatMap_cons,
        utf8Bytes_append, utf8Bytes_append, List.cons_append, List.cons_append, ended,
        utf8Bytes_append]
      simp only [List.append_assoc]

/-- The head's lines as text. -/
def headLines (response : HttpResponse) (reason : Text) : List Text :=
  response.statusText reason :: response.fields.map HeaderField.lineText

/-- The head as text, without the ends of its last line and of the empty line. -/
def headText (response : HttpResponse) (reason : Text) : Text :=
  response.statusText reason ++
    (response.fields.map HeaderField.lineText).flatMap fun line => '\r' :: '\n' :: line

theorem IsText.lines_eq (text : response.IsText) {reason : Text}
    (same : response.reason = utf8Bytes reason) :
    response.statusLine :: response.fields.map HeaderField.line =
      (response.headLines reason).map utf8Bytes := by
  rw [headLines, List.map_cons, statusLine_eq same, List.map_map]
  congr 1
  apply List.map_congr_left
  intro field member
  exact HeaderField.line_eq (text.fields field member)

theorem IsText.head_eq (text : response.IsText) {reason : Text}
    (same : response.reason = utf8Bytes reason) :
    response.head = utf8Bytes (response.headText reason) ++ crlf ++ crlf := by
  rw [head, text.lines_eq same, headLines, endLines_utf8Bytes, headText]

theorem splitCrlf_headText (formed : response.WellFormed) (text : response.IsText)
    {reason : Text} (same : response.reason = utf8Bytes reason) :
    splitCrlf (response.headText reason) = response.headLines reason := by
  apply splitCrlf_join
  intro line member
  apply not_return_mem
  have plain := formed.plain
  rw [text.lines_eq same] at plain
  exact (plain _ (List.mem_map_of_mem member)).2

/-- The head of a response is read once it has arrived whole, and not before. -/
theorem parse_spec (formed : response.WellFormed) (text : response.IsText)
    (bounded : response.Bounded) (protobuf : response.SaysProtobuf)
    (length : response.StatesLength64) :
    (∀ part later : Bytes, part ++ later = response.head → later ≠ [] →
      ResponseHead.parse part = .ok none) ∧
    ∀ body : Bytes, ∃ head,
      ResponseHead.parse (response.head ++ body) = .ok (some (head, response.head.length)) ∧
      head.status = 200 ∧ head.isProtobuf = true ∧
      (head.chunked = true ↔ ∃ field ∈ response.fields, field.Named "transfer-encoding") := by
  have small := bounded.head
  have size : 2 ≤ (endLines (response.statusLine ::
      response.fields.map HeaderField.line)).length := by
    simp [endLines, crlf]
    omega
  have found : find (crlf ++ crlf) response.head = some (response.head.length - 4) := by
    rw [head, find_blank (by simp) formed.plain]
    simp only [List.length_append, crlf, List.length_cons, List.length_nil,
      Option.some.injEq]
    omega
  constructor
  · intro part later whole more
    have shorter : part.length < response.head.length := by
      rw [← whole, List.length_append]
      have := List.length_pos_of_ne_nil more
      omega
    have notFound : find (crlf ++ crlf) part = none := by
      cases early : find (crlf ++ crlf) part with
      | none => rfl
      | some stop =>
          have within := find_le early
          have still := find_append later early
          rw [whole, found] at still
          simp only [crlf, List.length_append, List.length_cons, List.length_nil,
            Option.some.injEq] at within still
          omega
    rw [ResponseHead.parse, notFound]
    dsimp only
    rw [if_neg (by omega)]
  · intro body
    obtain ⟨reason, same⟩ := text.reason
    have stop : response.head.length = (utf8Bytes (response.headText reason)).length + 4 := by
      rw [text.head_eq same]
      simp only [crlf, List.length_append, List.length_cons, List.length_nil]
    have taken : (response.head ++ body).take (utf8Bytes (response.headText reason)).length =
        utf8Bytes (response.headText reason) := by
      rw [text.head_eq same, List.append_assoc, List.append_assoc]
      exact List.take_left' rfl
    obtain ⟨result, read, status, chunked, isProtobuf⟩ :=
      readHeaders_spec (n := 0) { status := 200 } (by have := bounded.fields; omega)
        fun field member => ⟨formed.fields field member,
          formed.readable protobuf length field member, text.fields field member⟩
    have fixed : "HTTP/1.".toList = ['H', 'T', 'T', 'P', '/', '1', '.'] := rfl
    have version : "HTTP/1.".toList <+: response.version :=
      fixed ▸ List.prefix_append _ _
    have code : parseUnsigned (2 ^ 16 - 1) okCode = some 200 := by decide +kernel
    refine ⟨result, ?_, status, isProtobuf (.inl protobuf.1), ?_⟩
    · rw [ResponseHead.parse, find_append body found, stop, Nat.add_sub_cancel]
      dsimp only
      rw [ensure, if_pos (stop ▸ small), taken, fromUtf8_utf8Bytes]
      simp only [require, bind, Except.bind, splitCrlf_headText formed text same, headLines,
        List.head?_cons, readStatus formed, List.headD_cons, List.tail_cons, ensure,
        if_pos version, code, read]
      rfl
    · rw [chunked]
      simp

end HttpResponse

/-! ## Reading a chunked body -/

theorem toDigit_bounds {c : Char} (digit : (toDigit 16 c).isSome) :
    48 ≤ c.toNat ∧ c.toNat ≤ 122 ∧ c ≠ ';' := by
  unfold toDigit at digit
  have decimalDigit : '0' ≤ c ∧ c ≤ '9' → 48 ≤ c.toNat ∧ c.toNat ≤ 57 := fun within =>
    ⟨UInt32.le_iff_toNat_le.mp within.1, UInt32.le_iff_toNat_le.mp within.2⟩
  have small : 'a' ≤ c ∧ c ≤ 'z' → 97 ≤ c.toNat ∧ c.toNat ≤ 122 := fun within =>
    ⟨UInt32.le_iff_toNat_le.mp within.1, UInt32.le_iff_toNat_le.mp within.2⟩
  have capital : 'A' ≤ c ∧ c ≤ 'Z' → 65 ≤ c.toNat ∧ c.toNat ≤ 90 := fun within =>
    ⟨UInt32.le_iff_toNat_le.mp within.1, UInt32.le_iff_toNat_le.mp within.2⟩
  have bounds : (48 ≤ c.toNat ∧ c.toNat ≤ 57) ∨ (97 ≤ c.toNat ∧ c.toNat ≤ 122) ∨
      (65 ≤ c.toNat ∧ c.toNat ≤ 90) := by
    by_cases first : '0' ≤ c ∧ c ≤ '9'
    · exact .inl (decimalDigit first)
    by_cases second : 'a' ≤ c ∧ c ≤ 'z'
    · exact .inr (.inl (small second))
    by_cases third : 'A' ≤ c ∧ c ≤ 'Z'
    · exact .inr (.inr (capital third))
    · simp [first, second, third] at digit
  refine ⟨by omega, by omega, ?_⟩
  rintro rfl
  revert bounds
  decide

theorem isSome_toDigit_of_hexNumber {text : Text} {value number : Nat}
    (read : text.foldlM (fun value c => (toDigit 16 c).map (value * 16 + ·)) value =
      some number) : ∀ c ∈ text, (toDigit 16 c).isSome := by
  induction text generalizing value with
  | nil => simp
  | cons c text ih =>
      rw [List.foldlM_cons] at read
      cases digit : toDigit 16 c with
      | none =>
          rw [digit] at read
          cases read
      | some d =>
          rw [digit] at read
          intro other member
          rcases List.mem_cons.mp member with rfl | member
          · rw [digit]
            rfl
          · exact ih read other member

namespace BodyChunk

variable [Platform] {chunk : BodyChunk}

/-- A size line is read as the size of the chunk's data. -/
theorem WellFormed.sizeLine (formed : chunk.WellFormed)
    (text : HttpResponse.IsUtf8 chunk.extension) (small : chunk.data.length ≤ maxChunkBytes)
    (short : chunk.sizeLine.length ≤ 63) : SizeLine chunk.sizeLine chunk.data.length := by
  have digits := isSome_toDigit_of_hexNumber formed.size
  have bounds : ∀ c ∈ chunk.digits, 48 ≤ c.toNat ∧ c.toNat ≤ 122 ∧ c ≠ ';' :=
    fun c member => toDigit_bounds (digits c member)
  have solid : ∀ c ∈ chunk.digits, Solid c := fun c member =>
    solid_of_bounds (by have := (bounds c member).1; omega)
      (by have := (bounds c member).2.1; omega)
  have noMark : ';' ∉ chunk.digits := fun member => (bounds ';' member).2.2 rfl
  obtain ⟨extension, same⟩ := text
  have fits : chunk.data.length ≤ usizeMax := by
    have wide := Platform.wide
    simp only [maxChunkBytes] at small
    omega
  have number := fromStrRadix16_hexNumber formed.nonempty formed.size fits
  have sizeText : trim (((chunk.digits ++ extension).splitOn ';').headD []) =
      chunk.digits := by
    rcases formed.extension with empty | ⟨blank, rest, ows, marked, _⟩
    · obtain rfl : extension = [] := utf8Bytes_injective (same.symm.trans empty)
      rw [List.append_nil, List.splitOn_eq_singleton noMark]
      exact trim_solid solid
    · rw [same] at marked
      have ascii : ∀ c ∈ blank ++ [';'], Ascii c := by
        intro c member
        rcases List.mem_append.mp member with inBlank | mark
        · exact ows.ascii c inBlank
        · obtain rfl := List.mem_singleton.mp mark
          decide
      obtain ⟨back, rfl, -⟩ := utf8Bytes_eq_append ascii marked
      have noMarkBefore : ';' ∉ chunk.digits ++ blank := by
        rw [List.mem_append, not_or]
        refine ⟨noMark, fun member => ?_⟩
        rcases ows _ member with same | same
        · exact absurd same (by decide)
        · exact absurd same (by decide)
      have parts : chunk.digits ++ (blank ++ [';'] ++ back) =
          chunk.digits ++ blank ++ ';' :: back := by
        simp
      have blankNone : ∀ c ∈ ([] : Text), Blank c := by simp
      rw [parts, List.splitOn_append_cons_self_of_not_mem noMarkBefore, List.headD_cons]
      simpa using trim_padded blankNone solid ows.blank
  refine ⟨?_, ?_, short⟩
  · rw [readSizeLine, BodyChunk.sizeLine, same, ← utf8Bytes_append, fromUtf8_utf8Bytes]
    simp only [require, bind, Except.bind, sizeText, number, ensure, if_pos small]
    rfl
  · have absent : '\r' ∉ chunk.digits := fun member =>
      absurd (bounds '\r' member).1 (by decide)
    rw [BodyChunk.sizeLine, List.mem_append, not_or]
    refine ⟨HttpResponse.return_not_mem absent, ?_⟩
    rcases formed.extension with empty | ⟨blank, rest, ows, marked, plain⟩
    · rw [empty]
      exact List.not_mem_nil
    · rw [marked, List.mem_append, not_or]
      refine ⟨HttpResponse.return_not_mem ?_, fun member => (plain 13 member).ne_return rfl⟩
      rw [List.mem_append, List.mem_singleton, not_or]
      refine ⟨fun member => ?_, by decide⟩
      rcases ows _ member with same | same
      · exact absurd same (by decide)
      · exact absurd same (by decide)

theorem incoming_chunks {chunks : List BodyChunk} {last : BodyChunk} (trailer : Bytes)
    (sized : ∀ chunk ∈ chunks, SizeLine chunk.sizeLine chunk.data.length ∧ chunk.data ≠ [])
    (ended : SizeLine last.sizeLine 0) :
    Incoming 0 (chunks.flatMap bytes ++ (last.sizeLine ++ crlf ++ trailer))
      (chunks.flatMap BodyChunk.data) := by
  induction chunks with
  | nil => exact .last ended trailer
  | cons chunk chunks ih =>
      obtain ⟨size, nonempty⟩ := sized chunk List.mem_cons_self
      have rest := ih fun other member => sized other (List.mem_cons_of_mem _ member)
      have positive := List.length_pos_of_ne_nil nonempty
      have whole := Incoming.size size positive (.data nonempty (.separator rest))
      simpa only [List.flatMap_cons, bytes, List.append_assoc] using whole

end BodyChunk

end WindowMlHub
