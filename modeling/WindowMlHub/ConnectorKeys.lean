import WindowMlHub.ConnectorFiles
import WindowMlHub.LineProtocols

/-!
# The keys of a connector, when making them is interrupted

Pairing makes a connector's two keys once: it creates the file of the identity and
writes its seed, then the file of the agreement.  Neither file is ever overwritten.  A
crash or a failed write may stop this after any step, and the next pairing begins with
what is there.

A seed that is cut short is refused by name, and two whole seeds are the keys from then
on.  One state is neither: the identity is whole and the agreement was not created.
There are no keys to load, and none can be made, because the identity already exists.
-/

namespace WindowMlHub

open TextFormats

/-! ## The files -/

/-- `IDENTITY_FILE` and `AGREEMENT_FILE`. -/
inductive KeyFile
  | identity
  | agreement
  deriving DecidableEq, Repr

/-- What the two files hold, where they exist.  Both are created for their owner only. -/
structure KeyFiles where
  identity : Option Bytes := none
  agreement : Option Bytes := none
  deriving DecidableEq, Repr

/-- Both of a connector's keys, as their seeds. -/
structure Keys where
  identity : Bytes32
  agreement : Bytes32
  deriving DecidableEq

/-- Why there are no keys. -/
inductive KeyError
  | malformed (file : KeyFile)
  | alreadyExists (file : KeyFile)
  deriving DecidableEq, Repr

namespace KeyFiles

def get (files : KeyFiles) : KeyFile → Option Bytes
  | .identity => files.identity
  | .agreement => files.agreement

def put (files : KeyFiles) (bytes : Bytes) : KeyFile → KeyFiles
  | .identity => { files with identity := some bytes }
  | .agreement => { files with agreement := some bytes }

/-- `seed`. -/
def seed (files : KeyFiles) (file : KeyFile) : Except KeyError (Option Bytes32) :=
  match files.get file with
  | none => .ok none
  | some bytes =>
      match (fromUtf8 bytes).bind fun text => unhex32 (trim text) with
      | none => .error (.malformed file)
      | some seed => .ok (some seed)

/-- `keys`: both seeds are read before it is seen whether they are there. -/
def keys (files : KeyFiles) : Except KeyError (Option Keys) := do
  let identity ← files.seed .identity
  let agreement ← files.seed .agreement
  match identity, agreement with
  | some identity, some agreement => return some ⟨identity, agreement⟩
  | _, _ => return none

end KeyFiles

/-! ## Making keys -/

/-- One step on a file: it is created, unless it exists, or one more byte is written. -/
inductive KeyFileStep
  | createNew (file : KeyFile)
  | write (file : KeyFile) (byte : UInt8)
  deriving DecidableEq, Repr

/-- What a step does, or why it fails. -/
def KeyFileStep.perform (files : KeyFiles) : KeyFileStep → Except KeyError KeyFiles
  | createNew file =>
      match files.get file with
      | some _ => .error (.alreadyExists file)
      | none => .ok (files.put [] file)
  | write file byte => .ok (files.put ((files.get file).getD [] ++ [byte]) file)

/-- Steps one after another, up to the first that fails, and the files that they leave. -/
def performAll : List KeyFileStep → KeyFiles → KeyFiles × Except KeyError Unit
  | [], files => (files, .ok ())
  | step :: steps, files =>
      match step.perform files with
      | .ok files' => performAll steps files'
      | .error error => (files, .error error)

/-- `write_secret`, where it does not replace. -/
def writeSecret (file : KeyFile) (bytes : Bytes) : List KeyFileStep :=
  .createNew file :: bytes.map (.write file)

/-- What the file of a seed holds. -/
def seedBytes (seed : Bytes32) : Bytes :=
  utf8Bytes (hex seed.val ++ ['\n'])

/-- The steps of `generate_keys`, with the seeds that it draws. -/
def generateSteps (drawn : Keys) : List KeyFileStep :=
  writeSecret .identity (seedBytes drawn.identity) ++
    writeSecret .agreement (seedBytes drawn.agreement)

/-- `generate_keys`. -/
def generateKeys (drawn : Keys) (files : KeyFiles) : KeyFiles × Except KeyError Keys :=
  let (files, done) := performAll (generateSteps drawn) files
  (files, done.map fun _ => drawn)

/-- What `pair` does before it offers anything: the keys, which it makes if there are
none. -/
def pairKeys (drawn : Keys) (files : KeyFiles) : KeyFiles × Except KeyError Keys :=
  match files.keys with
  | .ok (some keys) => (files, .ok keys)
  | .ok none => generateKeys drawn files
  | .error error => (files, .error error)

/-- An invocation of `pair`: the seeds that it would draw, and after how many steps of
making keys it is interrupted, if it is. -/
structure PairInvocation where
  drawn : Keys
  stop : Option Nat

namespace PairInvocation

/-- The steps of making keys that an invocation comes to. -/
def steps (invocation : PairInvocation) : List KeyFileStep :=
  match invocation.stop with
  | none => generateSteps invocation.drawn
  | some stop => (generateSteps invocation.drawn).take stop

/-- The files after an invocation. -/
def run (invocation : PairInvocation) (files : KeyFiles) : KeyFiles :=
  match files.keys with
  | .ok none => (performAll invocation.steps files).1
  | _ => files

end PairInvocation

/-- The files after invocations, one after another, of a connector that had none. -/
def keysAfter (invocations : List PairInvocation) : KeyFiles :=
  invocations.foldl (fun files invocation => invocation.run files) {}

theorem pairKeys_files (drawn : Keys) (files : KeyFiles) :
    (pairKeys drawn files).1 = PairInvocation.run ⟨drawn, none⟩ files := by
  unfold pairKeys PairInvocation.run
  rcases files.keys with error | _ | keys <;> rfl

/-! ## What a seed reads as -/

theorem seedText_ascii (seed : Bytes32) : ∀ c ∈ hex seed.val ++ ['\n'], Ascii c := by
  intro c member
  rcases List.mem_append.mp member with digit | newline
  · exact forall_mem_hex seed.val (by decide) c digit
  · obtain rfl := List.mem_singleton.mp newline
    decide

theorem length_hex_seed (seed : Bytes32) : (hex seed.val).length = 64 := by
  simp [hex, List.length_flatMap, seed.property]

theorem seedBytes_take (seed : Bytes32) (count : Nat) :
    (seedBytes seed).take count = utf8Bytes ((hex seed.val ++ ['\n']).take count) := by
  have ascii := seedText_ascii seed
  rw [seedBytes, utf8Bytes_ascii ascii,
    utf8Bytes_ascii fun c member => ascii c (List.mem_of_mem_take member), asciiBytes,
    asciiBytes, List.map_take]

theorem length_seedBytes (seed : Bytes32) : (seedBytes seed).length = 65 := by
  rw [seedBytes, utf8Bytes_ascii (seedText_ascii seed)]
  simp [asciiBytes, length_hex_seed]

theorem unhex32_take_hex (seed : Bytes32) {count : Nat} (few : count < 64) :
    unhex32 ((hex seed.val).take count) = none := by
  have small : ∀ c ∈ (hex seed.val).take count, c.utf8Size = 1 := fun c member =>
    @forall_mem_hex (·.utf8Size = 1) seed.val (by decide) c (List.mem_of_mem_take member)
  have length : utf8Length ((hex seed.val).take count) = count := by
    rw [utf8Length, List.map_congr_left small, List.map_const', List.sum_replicate,
      List.length_take, length_hex_seed]
    simp only [smul_eq_mul]
    omega
  rw [unhex32, length, if_neg (by omega)]

theorem seed_take {files : KeyFiles} {file : KeyFile} (seed : Bytes32) {count : Nat}
    (holds : files.get file = some ((seedBytes seed).take count)) :
    files.seed file = if 64 ≤ count then .ok (some seed) else .error (.malformed file) := by
  have solid : ∀ c ∈ hex seed.val, Solid c := by
    apply forall_mem_hex
    unfold Solid
    decide
  have length := length_hex_seed seed
  simp only [KeyFiles.seed, holds, seedBytes_take, fromUtf8_utf8Bytes, Option.bind_some]
  rcases Nat.lt_trichotomy count 64 with few | digits | more
  · rw [List.take_append_of_le_length (by omega),
      trim_solid fun c member => solid c (List.mem_of_mem_take member),
      unhex32_take_hex seed few, if_neg (by omega)]
  · rw [List.take_append_of_le_length (by omega), List.take_of_length_le (by omega),
      trim_solid solid, unhex32_hex, if_pos (by omega)]
  · rw [List.take_of_length_le (by simp; omega), trim_append_whitespace solid (by decide),
      unhex32_hex, if_pos (by omega)]

/-! ## What is left when making keys stops -/

theorem put_put (files : KeyFiles) (file : KeyFile) (first second : Bytes) :
    (files.put first file).put second file = files.put second file := by
  cases file <;> rfl

@[simp]
theorem get_put (files : KeyFiles) (file : KeyFile) (bytes : Bytes) :
    (files.put bytes file).get file = some bytes := by
  cases file <;> rfl

theorem performAll_write {files : KeyFiles} {file : KeyFile} {content : Bytes}
    (holds : files.get file = some content) (bytes : Bytes) :
    performAll (bytes.map (.write file)) files =
      (if bytes = [] then files else files.put (content ++ bytes) file, .ok ()) := by
  induction bytes generalizing files content with
  | nil => rfl
  | cons byte rest ih =>
      rw [List.map_cons, performAll, KeyFileStep.perform, holds]
      simp only [Option.getD_some]
      rw [ih (get_put files file _)]
      by_cases last : rest = []
      · simp [last]
      · simp [last, put_put]

theorem performAll_writeSecret {files : KeyFiles} {file : KeyFile}
    (absent : files.get file = none) (bytes : Bytes) (count : Nat) :
    performAll ((writeSecret file bytes).take (count + 1)) files =
      (files.put (bytes.take count) file, .ok ()) := by
  rw [writeSecret, List.take_succ_cons, ← List.map_take, performAll, KeyFileStep.perform,
    absent]
  simp only
  rw [performAll_write (get_put files file [])]
  by_cases none : bytes.take count = []
  · simp [none]
  · simp [none, put_put]

theorem performAll_append {first : List KeyFileStep} {files after : KeyFiles}
    (done : performAll first files = (after, .ok ())) (second : List KeyFileStep) :
    performAll (first ++ second) files = performAll second after := by
  induction first generalizing files with
  | nil =>
      obtain rfl := (Prod.mk.inj done).1
      rfl
  | cons step rest ih =>
      rw [List.cons_append, performAll]
      rw [performAll] at done
      split at done
      next next performed => exact ih done
      next error failed => exact absurd (Prod.mk.inj done).2 (by simp)

/-- The files after so many steps of making keys, where there were none. -/
def filesAfter (drawn : Keys) (count : Nat) : KeyFiles :=
  (performAll ((generateSteps drawn).take count) {}).1

theorem length_generateSteps (drawn : Keys) : (generateSteps drawn).length = 132 := by
  simp [generateSteps, writeSecret, length_seedBytes]

theorem filesAfter_identity (drawn : Keys) {count : Nat} (few : count < 66) :
    filesAfter drawn (count + 1) =
      { identity := some ((seedBytes drawn.identity).take count) } := by
  have length : (writeSecret .identity (seedBytes drawn.identity)).length = 66 := by
    simp [writeSecret, length_seedBytes]
  rw [filesAfter, generateSteps, List.take_append_of_le_length (by omega),
    performAll_writeSecret rfl]
  rfl

theorem filesAfter_agreement (drawn : Keys) (count : Nat) :
    filesAfter drawn (66 + (count + 1)) =
      { identity := some (seedBytes drawn.identity)
        agreement := some ((seedBytes drawn.agreement).take count) } := by
  have length : (writeSecret .identity (seedBytes drawn.identity)).length = 66 := by
    simp [writeSecret, length_seedBytes]
  have identity := @performAll_writeSecret {} .identity rfl (seedBytes drawn.identity) 65
  rw [List.take_of_length_le length.le, List.take_of_length_le (length_seedBytes _).le]
    at identity
  rw [filesAfter, generateSteps, List.take_append, List.take_of_length_le (by omega), length,
    Nat.add_sub_cancel_left, performAll_append identity, performAll_writeSecret rfl]
  rfl

/-- Once the identity exists, an invocation changes nothing. -/
theorem run_eq_self {files : KeyFiles} (exists_ : files.identity ≠ none)
    (invocation : PairInvocation) : invocation.run files = files := by
  obtain ⟨bytes, holds⟩ := Option.ne_none_iff_exists'.mp exists_
  have taken : files.get .identity = some bytes := holds
  have steps (count : Nat) :
      (performAll ((generateSteps invocation.drawn).take count) files).1 = files := by
    cases count with
    | zero => rfl
    | succ count =>
        simp only [generateSteps, writeSecret, List.cons_append, List.take_succ_cons, performAll,
          KeyFileStep.perform, taken]
  unfold PairInvocation.run PairInvocation.steps
  split
  · split
    · have all := steps (generateSteps invocation.drawn).length
      rwa [List.take_length] at all
    · exact steps _
  · rfl

theorem filesAfter_identity_ne_none (drawn : Keys) {count : Nat} (positive : 0 < count) :
    (filesAfter drawn count).identity ≠ none := by
  rcases Nat.lt_or_ge count 67 with few | many
  · obtain ⟨count, rfl⟩ := Nat.exists_eq_add_of_lt positive
    rw [Nat.zero_add, filesAfter_identity drawn (by omega)]
    exact Option.some_ne_none _
  · obtain ⟨count, rfl⟩ := Nat.exists_eq_add_of_le many
    rw [show 67 + count = 66 + (count + 1) by omega, filesAfter_agreement]
    exact Option.some_ne_none _

/-! ## Invocations one after another -/

namespace PairInvocation

/-- How many steps of making keys an invocation would come to. -/
def count (invocation : PairInvocation) : Nat :=
  invocation.stop.getD (generateSteps invocation.drawn).length

theorem steps_eq (invocation : PairInvocation) :
    invocation.steps = (generateSteps invocation.drawn).take invocation.count := by
  unfold steps count
  cases invocation.stop with
  | none => exact (List.take_length).symm
  | some stop => rfl

/-- An invocation is interrupted when the digits of the identity's seed are written, and
before the file of the agreement is created. -/
def StopsBetween (invocation : PairInvocation) : Prop :=
  ∃ stop, invocation.stop = some stop ∧ 65 ≤ stop ∧ stop ≤ 66

theorem stopsBetween_iff (invocation : PairInvocation) :
    invocation.StopsBetween ↔ 65 ≤ invocation.count ∧ invocation.count ≤ 66 := by
  unfold StopsBetween count
  cases invocation.stop with
  | none => simp [length_generateSteps]
  | some stop => simp

end PairInvocation

theorem foldl_run_eq_self {files : KeyFiles} (exists_ : files.identity ≠ none)
    (later : List PairInvocation) :
    later.foldl (fun files invocation => invocation.run files) files = files := by
  induction later with
  | nil => rfl
  | cons invocation rest ih => rw [List.foldl_cons, run_eq_self exists_, ih]

/-- The first invocation that comes to a step makes all that there will be. -/
theorem keysAfter_eq (invocations : List PairInvocation) :
    keysAfter invocations =
      match invocations.find? fun invocation => decide (0 < invocation.count) with
      | none => {}
      | some first => filesAfter first.drawn first.count := by
  induction invocations with
  | nil => rfl
  | cons invocation rest ih =>
      have now : invocation.run {} = filesAfter invocation.drawn invocation.count := by
        rw [filesAfter, ← invocation.steps_eq]
        rfl
      rw [keysAfter, List.foldl_cons, now, List.find?_cons]
      by_cases positive : 0 < invocation.count
      · simp only [positive, decide_true]
        exact foldl_run_eq_self (filesAfter_identity_ne_none _ positive) rest
      · have none : invocation.count = 0 := Nat.eq_zero_of_not_pos positive
        simp only [none, lt_irrefl, decide_false]
        exact ih

/-! ## The next invocation -/

theorem generateKeys_empty (drawn : Keys) : (generateKeys drawn {}).2 = .ok drawn := by
  have identity := @performAll_writeSecret {} .identity rfl (seedBytes drawn.identity) 65
  have agreement := @performAll_writeSecret { identity := some (seedBytes drawn.identity) }
    .agreement rfl (seedBytes drawn.agreement) 65
  have length (file : KeyFile) (seed : Bytes32) :
      (writeSecret file (seedBytes seed)).length ≤ 66 := by
    simp [writeSecret, length_seedBytes]
  rw [List.take_of_length_le (length _ _), List.take_of_length_le (length_seedBytes _).le]
    at identity agreement
  rw [generateKeys, generateSteps, performAll_append identity]
  change Except.map _ (performAll _ { identity := some (seedBytes drawn.identity) }).2 = _
  rw [agreement]
  rfl

theorem generateKeys_identity {files : KeyFiles} {bytes : Bytes}
    (exists_ : files.identity = some bytes) (drawn : Keys) :
    (generateKeys drawn files).2 = .error (.alreadyExists .identity) := by
  have taken : files.get .identity = some bytes := exists_
  simp only [generateKeys, generateSteps, writeSecret, List.cons_append, performAll,
    KeyFileStep.perform, taken]
  rfl

theorem pairKeys_identity_malformed {files : KeyFiles} (drawn : Keys)
    (malformed : files.seed .identity = .error (.malformed .identity)) :
    (pairKeys drawn files).2 = .error (.malformed .identity) := by
  have keys : files.keys = .error (.malformed .identity) := by
    rw [KeyFiles.keys, malformed]
    rfl
  rw [pairKeys, keys]

theorem pairKeys_agreement_malformed {files : KeyFiles} {identity : Bytes32} (drawn : Keys)
    (whole : files.seed .identity = .ok (some identity))
    (malformed : files.seed .agreement = .error (.malformed .agreement)) :
    (pairKeys drawn files).2 = .error (.malformed .agreement) := by
  have keys : files.keys = .error (.malformed .agreement) := by
    rw [KeyFiles.keys, whole, malformed]
    rfl
  rw [pairKeys, keys]

/-- What `pair` has for keys after an interruption: it makes them if nothing was done, a
seed that is cut short is named, and two whole seeds are the keys.  Between the files it
finds that the identity exists. -/
theorem pairKeys_filesAfter (drawn later : Keys) (count : Nat) :
    (pairKeys later (filesAfter drawn count)).2 =
      if count = 0 then .ok later
      else if count ≤ 64 then .error (.malformed .identity)
      else if count ≤ 66 then .error (.alreadyExists .identity)
      else if count ≤ 130 then .error (.malformed .agreement)
      else .ok drawn := by
  rcases Nat.eq_zero_or_pos count with rfl | positive
  · exact generateKeys_empty later
  rw [if_neg positive.ne']
  rcases Nat.lt_or_ge count 67 with few | many
  · -- only the identity was created
    obtain ⟨written, rfl⟩ := Nat.exists_eq_add_of_lt positive
    rw [Nat.zero_add] at few ⊢
    rw [filesAfter_identity drawn (by omega)]
    have read := @seed_take { identity := some ((seedBytes drawn.identity).take written) }
      .identity drawn.identity written rfl
    by_cases whole : 64 ≤ written
    · rw [if_pos whole] at read
      have keys : KeyFiles.keys
          { identity := some ((seedBytes drawn.identity).take written) } = .ok none := by
        rw [KeyFiles.keys, read]
        rfl
      rw [pairKeys, keys, if_neg (by omega), if_pos (by omega)]
      exact generateKeys_identity rfl later
    · rw [if_neg whole] at read
      rw [if_pos (by omega)]
      exact pairKeys_identity_malformed later read
  · -- the agreement was created behind it
    obtain ⟨written, rfl⟩ := Nat.exists_eq_add_of_le many
    rw [show 67 + written = 66 + (written + 1) by omega, filesAfter_agreement,
      if_neg (by omega), if_neg (by omega)]
    generalize holds : ({ identity := some (seedBytes drawn.identity)
                          agreement := some ((seedBytes drawn.agreement).take written) } :
      KeyFiles) = files
    have identity : files.seed .identity = .ok (some drawn.identity) := by
      have all := @seed_take files .identity drawn.identity 65
        (by rw [← holds, List.take_of_length_le (length_seedBytes _).le]; rfl)
      rwa [if_pos (by omega)] at all
    have agreement := @seed_take files .agreement drawn.agreement written (holds ▸ rfl)
    by_cases whole : 64 ≤ written
    · rw [if_pos whole] at agreement
      have keys : files.keys = .ok (some drawn) := by
        rw [KeyFiles.keys, identity, agreement]
        rfl
      rw [pairKeys, keys, if_neg (by omega)]
    · rw [if_neg whole] at agreement
      rw [if_pos (by omega)]
      exact pairKeys_agreement_malformed later identity agreement

theorem pairKeys_kept {earlier : List PairInvocation} {keys : Keys}
    (whole : (keysAfter earlier).keys = .ok (some keys)) (later : List PairInvocation)
    (drawn : Keys) : (pairKeys drawn (keysAfter (earlier ++ later))).2 = .ok keys := by
  have exists_ : (keysAfter earlier).identity ≠ none := by
    intro absent
    have none : (keysAfter earlier).get .identity = none := absent
    rw [KeyFiles.keys, KeyFiles.seed, none] at whole
    rcases read : (keysAfter earlier).seed .agreement with error | _ | seed <;>
      rw [read] at whole <;> exact absurd whole (by simp [bind, Except.bind, pure, Except.pure])
  rw [keysAfter, List.foldl_append, ← keysAfter, foldl_run_eq_self exists_, pairKeys, whole]

/-- **Making keys, interrupted.**  After any invocations, each interrupted after any step
or not at all, the next one has keys or names a file to delete, and two whole seeds stay
the keys, if and only if the first invocation that came to a step was not interrupted
between the identity's digits and the agreement's file. -/
theorem interrupted_keys_iff (earlier : List PairInvocation) :
    ((∀ drawn, (∃ keys, (pairKeys drawn (keysAfter earlier)).2 = .ok keys) ∨
          ∃ file, (pairKeys drawn (keysAfter earlier)).2 = .error (.malformed file)) ∧
        ∀ keys, (keysAfter earlier).keys = .ok (some keys) → ∀ later drawn,
          (pairKeys drawn (keysAfter (earlier ++ later))).2 = .ok keys) ↔
      ∀ first, earlier.find? (fun invocation => decide (0 < invocation.count)) = some first →
        ¬ first.StopsBetween := by
  have kept : ∀ keys, (keysAfter earlier).keys = .ok (some keys) → ∀ later drawn,
      (pairKeys drawn (keysAfter (earlier ++ later))).2 = .ok keys :=
    fun _ whole later drawn => pairKeys_kept whole later drawn
  rw [and_iff_left kept]
  constructor
  · intro recovers first found between
    obtain ⟨above, below⟩ := first.stopsBetween_iff.mp between
    have outcome := recovers first.drawn
    rw [keysAfter_eq, found, pairKeys_filesAfter, if_neg (by omega), if_neg (by omega),
      if_pos below] at outcome
    simp at outcome
  · intro apart drawn
    have files := keysAfter_eq earlier
    rcases found : earlier.find? fun invocation => decide (0 < invocation.count)
      with _ | first
    · rw [found] at files
      rw [files]
      exact .inl ⟨drawn, generateKeys_empty drawn⟩
    · have notBetween := apart first found
      rw [first.stopsBetween_iff] at notBetween
      rw [found] at files
      simp only [files, pairKeys_filesAfter]
      split_ifs with _ _ inside _
      · exact .inl ⟨drawn, rfl⟩
      · exact .inr ⟨.identity, rfl⟩
      · exact absurd ⟨by omega, inside⟩ notBetween
      · exact .inr ⟨.agreement, rfl⟩
      · exact .inl ⟨first.drawn, rfl⟩

/-- The keys whose seeds are zeros and ones. -/
def plainKeys : Keys where
  identity := ⟨List.replicate 32 0, List.length_replicate⟩
  agreement := ⟨List.replicate 32 1, List.length_replicate⟩

/-- A connector that crashed when it had written its identity, and before it created its
agreement, has no keys to load and cannot make any. -/
theorem interrupted_keys_stuck :
    (keysAfter [⟨plainKeys, some 66⟩]).keys = .ok none ∧
      (pairKeys plainKeys (keysAfter [⟨plainKeys, some 66⟩])).2 =
        .error (.alreadyExists .identity) := by
  decide +kernel

end WindowMlHub
