import WindowMlHub.RevocationSigners

/-!
# What a record of the revocation signer reads as when it is cut short

The record is four lines of text without a checksum or a last mark.  A cut before the
certificate leaves a field out, so what remains is no record; a cut behind the last
digit takes only the end of the line.  Between them stand the digits of the certificate.
An odd number of them is no bytes, and an even number is: there the record names the
same signer with a certificate that is cut short.
-/

namespace WindowMlHub

open FileSystems TextFormats

/-! ## Lines, cut short -/

/-- Lines that were written one after another. -/
def writtenLines (written : List Text) : Text :=
  written.flatMap fun line => line ++ ['\n']

theorem writtenLines_cons (line : Text) (rest : List Text) :
    writtenLines (line :: rest) = line ++ '\n' :: writtenLines rest := by
  simp [writtenLines]

/-- A beginning of lines that were written one after another: all of them, or some and a
beginning of the next. -/
theorem prefix_writtenLines {written : List Text} {kept : Text}
    (part : kept <+: writtenLines written) :
    kept = writtenLines written ∨
      ∃ whole line rest tail, written = whole ++ line :: rest ∧ tail <+: line ∧
        kept = writtenLines whole ++ tail := by
  induction written generalizing kept with
  | nil => exact .inl (List.prefix_nil.mp part)
  | cons line rest ih =>
      rw [writtenLines_cons] at part ⊢
      rcases List.prefix_or_prefix_of_prefix part (List.prefix_append _ _) with inside | beyond
      · exact .inr ⟨[], line, rest, kept, rfl, inside, rfl⟩
      · obtain ⟨later, rfl⟩ := beyond
        have laterPart := (List.prefix_append_right_inj _).mp part
        cases later with
        | nil => exact .inr ⟨[], line, rest, line, rfl, List.prefix_rfl, List.append_nil _⟩
        | cons head later =>
            obtain ⟨rfl, restPart⟩ := List.cons_prefix_cons.mp laterPart
            rcases ih restPart with rfl | ⟨whole, next, others, tail, rfl, begins, rfl⟩
            · exact .inl rfl
            · refine .inr ⟨line :: whole, next, others, tail, rfl, begins, ?_⟩
              rw [writtenLines_cons, List.append_assoc, List.cons_append]

theorem splitOn_writtenLines {whole : List Text} {tail : Text}
    (single : ∀ line ∈ whole, '\n' ∉ line) (tailSingle : '\n' ∉ tail) :
    (writtenLines whole ++ tail).splitOn '\n' = whole ++ [tail] := by
  induction whole with
  | nil => exact List.splitOn_eq_singleton tailSingle
  | cons line rest ih =>
      rw [writtenLines_cons, List.append_assoc, List.cons_append,
        List.splitOn_append_cons_self_of_not_mem (single line List.mem_cons_self),
        ih fun other member => single other (List.mem_cons_of_mem _ member), List.cons_append]

theorem lines_append_tail {whole : List Text} {tail : Text}
    (single : ∀ line ∈ whole, '\n' ∉ line ∧ '\r' ∉ line) (tailSingle : '\n' ∉ tail) :
    lines (writtenLines whole ++ tail) = whole ++ [tail].filter (· ≠ []) := by
  have pieces := splitOn_writtenLines (fun line member => (single line member).1) tailSingle
  have unchanged : whole.map stripReturn = whole := by
    refine (List.map_congr_left ?_).trans (List.map_id _)
    intro line member
    have noReturn : line.getLast? ≠ some '\r' := fun last =>
      (single line member).2 (List.mem_of_getLast? last)
    simp [stripReturn, noReturn]
  simp [lines, pieces, unchanged]

/-! ## Digits, cut short -/

theorem take_hex (bytes : Bytes) (count : Nat) :
    (hex bytes).take (2 * count) = hex (bytes.take count) := by
  induction bytes generalizing count with
  | nil => simp [hex]
  | cons byte rest ih =>
      cases count with
      | zero => simp [hex]
      | succ count => simp [hex_cons, Nat.mul_succ, ih]

theorem length_hex (bytes : Bytes) : (hex bytes).length = 2 * bytes.length := by
  simp [hex, List.length_flatMap, Nat.mul_comm]

theorem even_length_of_unhexPairs {text : Text} {bytes : Bytes}
    (read : unhexPairs text = some bytes) : text.length = 2 * bytes.length := by
  induction text using unhexPairs.induct generalizing bytes with
  | case1 =>
      obtain rfl := Option.some.inj read
      rfl
  | case2 => simp [unhexPairs] at read
  | case3 high low rest ih =>
      simp only [unhexPairs, Option.bind_eq_bind, Option.bind_eq_some_iff] at read
      obtain ⟨_, -, _, -, others, readOthers, same⟩ := read
      obtain rfl := Option.some.inj same
      have := ih readOthers
      simp only [List.length_cons]
      omega

/-- Some of the digits of bytes: an odd number of them is no bytes, and an even number is
the first bytes, unless there are none. -/
theorem unhex_take_hex (bytes : Bytes) {count : Nat} (count_le : count ≤ 2 * bytes.length) :
    unhex ((hex bytes).take count) =
      if count % 2 = 0 ∧ count ≠ 0 then some (bytes.take (count / 2)) else none := by
  have solid : ∀ c ∈ (hex bytes).take count, Solid c := by
    intro c member
    refine forall_mem_hex bytes ?_ c (List.mem_of_mem_take member)
    unfold Solid
    decide
  have length : ((hex bytes).take count).length = count := by
    rw [List.length_take, length_hex, Nat.min_eq_left count_le]
  rcases Nat.mod_two_eq_zero_or_one count with even | odd
  · obtain ⟨half, rfl⟩ : ∃ half, count = 2 * half := ⟨count / 2, by omega⟩
    rcases Nat.eq_zero_or_pos half with rfl | positive
    · simp [unhex, trim_solid]
    · have nonempty : bytes.take half ≠ [] := by
        intro empty
        have := congrArg List.length empty
        simp only [List.length_take, List.length_nil] at this
        omega
      have halved : 2 * half / 2 = half := by omega
      rw [take_hex, unhex_hex nonempty, if_pos ⟨even, by omega⟩, halved]
  · rw [unhex, trim_solid solid, if_neg (by omega : ¬ (count % 2 = 0 ∧ count ≠ 0))]
    split
    · rfl
    · rcases read : unhexPairs ((hex bytes).take count) with _ | others
      · rfl
      · have := even_length_of_unhexPairs read
        omega

/-! ## The record, cut short -/

theorem splitOnce_of_notMem {separator : Char} {text : Text} (absent : separator ∉ text) :
    splitOnce separator text = none := by
  have rest : text.dropWhile (· ≠ separator) = [] := by
    rw [List.dropWhile_eq_nil_iff]
    intro c member
    exact decide_eq_true fun same => absent (same ▸ member)
  simp only [splitOnce, List.span_eq_takeWhile_dropWhile, rest]

theorem splitOnce_eq_some {separator : Char} {text before after : Text}
    (split : splitOnce separator text = some (before, after)) :
    text = before ++ separator :: after := by
  by_cases member : separator ∈ text
  · obtain ⟨front, back, rfl, absent⟩ := List.eq_append_cons_of_mem member
    rw [splitOnce_append absent] at split
    obtain ⟨rfl, rfl⟩ := Prod.mk.inj (Option.some.inj split)
    rfl
  · rw [splitOnce_of_notMem member] at split
    exact absurd split (by simp)

theorem readLine_certificate_of_head {line : Text} (head : line.head? ≠ some 'c')
    (fields : SignerFields) : (fields.readLine line).certificate = fields.certificate := by
  unfold SignerFields.readLine
  split
  · rfl
  next key value split =>
    have isLine : line = key ++ '=' :: value := splitOnce_eq_some split
    split_ifs with isPrincipal isSince isUntil isCertificate
    · rfl
    · rfl
    · rfl
    · subst isCertificate
      subst isLine
      exact absurd rfl head
    · rfl

theorem foldl_readLine_certificate {read : List Text}
    (heads : ∀ line ∈ read, line.head? ≠ some 'c') (fields : SignerFields) :
    (read.foldl SignerFields.readLine fields).certificate = fields.certificate := by
  induction read generalizing fields with
  | nil => rfl
  | cons line rest ih =>
      rw [List.foldl_cons, ih fun other member => heads other (List.mem_cons_of_mem _ member),
        readLine_certificate_of_head (heads line List.mem_cons_self)]

theorem signer_eq_none {fields : SignerFields} (noCertificate : fields.certificate = none) :
    fields.signer = none := by
  simp [SignerFields.signer, noCertificate]

namespace Signer

variable {signer : Signer}

/-- Where the digits of the certificate begin. -/
def certificateStart (signer : Signer) : Nat :=
  (writtenLines signer.namingLines ++ "certificate=".toList).length

theorem length_revokerText (signer : Signer) : (revokerText signer).length =
    signer.certificateStart + 2 * signer.certificate.length + 1 := by
  have text : revokerText signer = writtenLines signer.namingLines ++
      ("certificate=".toList ++ hex signer.certificate ++ ['\n']) := by
    simp [revokerText, revokerLines, writtenLines, namingLines]
  simp only [text, certificateStart, List.length_append, length_hex, List.length_singleton]
  omega

/-- What is left ends among the digits of the certificate, and whole bytes of it are
left, though not all. -/
def CutsCertificate (signer : Signer) (kept : Text) : Prop :=
  ∃ count, 0 < count ∧ count < signer.certificate.length ∧
    kept.length = signer.certificateStart + 2 * count

theorem readLine_tail {tail : Text} (begins : tail <+: "certificate=".toList)
    {fields : SignerFields} (noCertificate : fields.certificate = none) :
    (fields.readLine tail).certificate = none := by
  have cases : ∀ tail ∈ "certificate=".toList.inits,
      splitOnce '=' tail = none ∨ tail = "certificate=".toList := by
    decide +kernel
  rcases cases tail ((List.mem_inits _ _).mpr begins) with unsplit | rfl
  · rw [SignerFields.readLine, unsplit]
    exact noCertificate
  · rfl

theorem readRevoker_tail {whole : List Text} {tail : Text}
    (single : ∀ line ∈ whole, '\n' ∉ line ∧ '\r' ∉ line) (tailSingle : '\n' ∉ tail) :
    readRevoker (writtenLines whole ++ tail) =
      ((whole.foldl SignerFields.readLine {}).readLine tail).signer := by
  rw [readRevoker, lines_append_tail single tailSingle, List.foldl_append]
  by_cases empty : tail = []
  · subst empty
    rfl
  · simp [empty]

/-- A record without its last line names no certificate. -/
theorem Recordable.readRevoker_before (recordable : signer.Recordable)
    {whole rest : List Text} {line tail : Text}
    (naming : signer.namingLines = whole ++ line :: rest) (begins : tail <+: line) :
    readRevoker (writtenLines whole ++ tail) = none ∧
      (writtenLines whole ++ tail).length < signer.certificateStart := by
  have heads : ∀ line ∈ signer.namingLines, line.head? ≠ some 'c' := by
    intro line member
    simp only [namingLines, List.mem_cons, List.not_mem_nil, or_false] at member
    rcases member with rfl | rfl | rfl <;> simp
  have inRecord : ∀ line ∈ signer.namingLines, line ∈ revokerLines signer :=
    fun line member => List.mem_append_left _ member
  rw [naming] at heads inRecord
  have lineMember : line ∈ whole ++ line :: rest :=
    List.mem_append_right _ List.mem_cons_self
  have tailHead : tail.head? ≠ some 'c' := by
    obtain ⟨others, rfl⟩ := begins
    cases tail with
    | nil => simp
    | cons head tail => exact heads (head :: tail ++ others) lineMember
  refine ⟨?_, ?_⟩
  · rw [readRevoker_tail (fun other member => recordable.solid other
      (inRecord other (List.mem_append_left _ member)))
      fun member => (recordable.solid line (inRecord line lineMember)).1
        (begins.subset member)]
    apply signer_eq_none
    rw [readLine_certificate_of_head tailHead,
      foldl_readLine_certificate fun other member => heads other (List.mem_append_left _ member)]
  · have tail_le := begins.length_le
    have all : writtenLines signer.namingLines =
        writtenLines whole ++ (line ++ '\n' :: writtenLines rest) := by
      rw [naming, ← writtenLines_cons]
      exact List.flatMap_append
    simp only [certificateStart, all, List.length_append, List.length_cons]
    omega

/-- A record that ends in the line of the certificate names what its digits are. -/
theorem Recordable.readRevoker_digits (recordable : signer.Recordable) (count : Nat) :
    readRevoker (writtenLines signer.namingLines ++
        ("certificate=".toList ++ (hex signer.certificate).take count)) =
      (unhex ((hex signer.certificate).take count)).map fun certificate =>
        { signer with certificate } := by
  have last : "certificate=".toList ++ (hex signer.certificate).take count <+:
      "certificate=".toList ++ hex signer.certificate :=
    (List.prefix_append_right_inj _).mpr (List.take_prefix _ _)
  have lastSolid := recordable.solid ("certificate=".toList ++ hex signer.certificate)
    (by simp [revokerLines])
  rw [readRevoker_tail (fun line member => recordable.solid line
    (List.mem_append_left _ member)) fun member => lastSolid.1 (last.subset member),
    recordable.foldl_namingLines]
  have read := readLine_append
    ⟨some signer.principal, some signer.sinceMs, some signer.untilMs, none⟩
    "certificate".toList ((hex signer.certificate).take count) (by decide)
  rw [show "certificate=".toList ++ (hex signer.certificate).take count =
    "certificate".toList ++ '=' :: (hex signer.certificate).take count from rfl, read]
  rcases unhex ((hex signer.certificate).take count) with _ | bytes <;> rfl

/-- A record that ends among the digits of the certificate, or behind them. -/
theorem Recordable.readRevoker_cut_digits (recordable : signer.Recordable) {count : Nat}
    (count_le : count ≤ 2 * signer.certificate.length) :
    let kept := writtenLines signer.namingLines ++
      ("certificate=".toList ++ (hex signer.certificate).take count)
    (¬ signer.CutsCertificate kept ∧
        (readRevoker kept = none ∨ readRevoker kept = some signer)) ∨
      ∃ count, 0 < count ∧ count < signer.certificate.length ∧
        kept.length = signer.certificateStart + 2 * count ∧
        readRevoker kept =
          some { signer with certificate := signer.certificate.take count } := by
  intro kept
  have length : kept.length = signer.certificateStart + count := by
    simp only [kept, certificateStart, List.length_append, List.length_take, length_hex,
      Nat.min_eq_left count_le]
    omega
  have read : readRevoker kept = _ := recordable.readRevoker_digits count
  rw [unhex_take_hex _ count_le] at read
  by_cases bytes : count % 2 = 0 ∧ count ≠ 0
  · rw [if_pos bytes, Option.map_some] at read
    rcases Nat.lt_or_ge (count / 2) signer.certificate.length with inside | all
    · exact .inr ⟨count / 2, by omega, inside, by omega, read⟩
    · left
      rw [List.take_of_length_le all] at read
      refine ⟨?_, .inr read⟩
      rintro ⟨other, -, inside, otherLength⟩
      omega
  · left
    rw [if_neg bytes, Option.map_none] at read
    refine ⟨?_, .inl read⟩
    rintro ⟨other, positive, -, otherLength⟩
    omega

/-- **A record that is cut short.**  What is left reads as no record, or as the record,
or it ends among the digits of the certificate and then names a certificate that is cut
short. -/
theorem Recordable.readRevoker_cut (recordable : signer.Recordable) {kept : Text}
    (part : kept <+: revokerText signer) :
    (¬ signer.CutsCertificate kept ∧
        (readRevoker kept = none ∨ readRevoker kept = some signer)) ∨
      ∃ count, 0 < count ∧ count < signer.certificate.length ∧
        kept.length = signer.certificateStart + 2 * count ∧
        readRevoker kept =
          some { signer with certificate := signer.certificate.take count } := by
  rcases prefix_writtenLines part with rfl | ⟨whole, line, rest, tail, written, begins, rfl⟩
  · left
    refine ⟨?_, .inr recordable.readRevoker_revokerText⟩
    rintro ⟨count, -, inside, length⟩
    have whole := signer.length_revokerText
    rw [revokerText, ← writtenLines] at whole
    omega
  · rw [revokerLines_eq] at written
    rcases List.eq_nil_or_concat rest with rfl | ⟨others, last, rfl⟩
    · obtain ⟨rfl, same⟩ := List.append_inj' written rfl
      obtain rfl := (List.cons.inj same).1
      rcases List.prefix_or_prefix_of_prefix begins (List.prefix_append _ _)
        with key | ⟨digits, rfl⟩
      · left
        refine ⟨?_, .inl ?_⟩
        · rintro ⟨count, positive, -, length⟩
          have := key.length_le
          simp only [certificateStart, List.length_append] at length
          omega
        · have keySolid : '\n' ∉ tail := fun member =>
            absurd (key.subset member) (by decide)
          rw [readRevoker_tail (fun line member => recordable.solid line
            (List.mem_append_left _ member)) keySolid]
          exact signer_eq_none (readLine_tail key (by rw [recordable.foldl_namingLines]))
      · have digitsPart := (List.prefix_append_right_inj _).mp begins
        obtain ⟨count, count_le, rfl⟩ : ∃ count, count ≤ 2 * signer.certificate.length ∧
            digits = (hex signer.certificate).take count :=
          ⟨digits.length, length_hex _ ▸ digitsPart.length_le,
            List.prefix_iff_eq_take.mp digitsPart⟩
        exact recordable.readRevoker_cut_digits count_le
    · left
      rw [List.concat_eq_append, ← List.cons_append, ← List.append_assoc] at written
      obtain ⟨naming, -⟩ := List.append_inj' written rfl
      obtain ⟨unread, short⟩ := recordable.readRevoker_before naming begins
      refine ⟨?_, .inl unread⟩
      rintro ⟨count, -, -, length⟩
      omega

theorem take_certificate_ne {count : Nat} (inside : count < signer.certificate.length) :
    { signer with certificate := signer.certificate.take count } ≠ signer := by
  intro same
  have lengths := congrArg (fun signer => signer.certificate.length) same
  simp only [List.length_take] at lengths
  omega

end Signer

/-- **A truncated record of the revocation signer.**  What is left of a record reads as no
record or as the record that was written, if and only if it does not end among the digits
of the certificate after some but not all of its bytes. -/
theorem truncated_revoker_iff {signer : Signer} (recordable : signer.Recordable) {kept : Text}
    (part : kept <+: revokerText signer) :
    (readRevoker kept = none ∨ readRevoker kept = some signer) ↔
      ¬ signer.CutsCertificate kept := by
  obtain ⟨uncut, read⟩ | ⟨count, positive, inside, length, read⟩ :=
    recordable.readRevoker_cut part
  · exact iff_of_true read uncut
  · refine iff_of_false ?_ (not_not_intro ⟨count, positive, inside, length⟩)
    rw [read]
    rintro (none | same)
    · exact absurd none (by simp)
    · exact Signer.take_certificate_ne inside (Option.some.inj same)

/-- A signer whose certificate has two bytes. -/
def shortSigner : Signer where
  principal := List.replicate 64 'a'
  sinceMs := 1
  untilMs := 20
  certificate := [1, 2]

theorem shortSigner_recordable : shortSigner.Recordable where
  principal := by decide +kernel
  sinceMs := by decide
  untilMs := by decide
  certificate := by decide

/-- The record of a certificate of two bytes, without its last digit pair, names a
certificate of one. -/
theorem truncated_revoker_read :
    shortSigner.Recordable ∧ (revokerText shortSigner).dropLast.dropLast.dropLast <+:
        revokerText shortSigner ∧
      readRevoker (revokerText shortSigner).dropLast.dropLast.dropLast =
        some { shortSigner with certificate := [1] } ∧
      { shortSigner with certificate := [1] } ≠ shortSigner :=
  ⟨shortSigner_recordable, by decide +kernel, by decide +kernel, by decide +kernel⟩

theorem truncated_revoker_short :
    readRevoker ((revokerText shortSigner).take 75) = none ∨
      readRevoker ((revokerText shortSigner).take 75) = some shortSigner := by
  refine (truncated_revoker_iff shortSigner_recordable (List.take_prefix _ _)).mpr ?_
  rintro ⟨count, -, -, length⟩
  have start : shortSigner.certificateStart = 110 := by
    decide +kernel
  rw [start, List.length_take] at length
  omega

end WindowMlHub
