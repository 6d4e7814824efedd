import WindowMlHub.InterleavedPrograms
import WindowMlHub.TextFormats

/-!
# Files that several programs use at once

A directory maps paths to files, and a file keeps its contents as long as some
program has it open, whether or not a path still leads to it.  Creating a file
exclusively either makes a new one or fails because the path is taken; reading,
writing and removing are operations of their own, and any of them may fail.  A
write may accept only the beginning of what it was given.

What the files hold can be read off the operations performed: a file holds what
was written to it, and a path that nobody removes is created at most once.
-/

namespace FileSystems

open InterleavedPrograms TextFormats

/-- Why an operation failed, as far as programs distinguish it. -/
inductive ErrorKind
  | notFound
  | alreadyExists
  | other
  deriving DecidableEq, Repr

structure IoError where
  kind : ErrorKind
  message : String := ""
  deriving DecidableEq, Repr

/-- An operation on files.  An open file is known by its number. -/
inductive FileOp (Path : Type)
  | probe (path : Path)
  | readToString (path : Path)
  | createNew (path : Path)
  | write (file : Nat) (text : Text)
  | removeFile (path : Path)
  deriving DecidableEq

namespace FileOp

variable {Path : Type}

/-- What an operation replies: a write, how much it accepted. -/
@[reducible]
def Reply : FileOp Path → Type
  | probe _ => Bool
  | readToString _ => Except IoError Text
  | createNew _ => Except IoError Nat
  | write _ _ => Except IoError Nat
  | removeFile _ => Except IoError Unit

end FileOp

/-- The files, and which paths lead to them. -/
structure Files (Path : Type) where
  names : Path → Option Nat := fun _ => none
  contents : Nat → Text := fun _ => []
  next : Nat := 0

abbrev FileEvent (Path : Type) := Event (FileOp Path) FileOp.Reply

section Operations

variable {Path : Type} [DecidableEq Path]

namespace Files

/-- A new empty file under this path. -/
def create (files : Files Path) (path : Path) : Files Path where
  names := Function.update files.names path (some files.next)
  contents := Function.update files.contents files.next []
  next := files.next + 1

/-- Text at the end of a file. -/
def append (files : Files Path) (file : Nat) (text : Text) : Files Path :=
  { files with
    contents := Function.update files.contents file
      (files.contents file ++ text) }

/-- The path leads nowhere any more. -/
def unlink (files : Files Path) (path : Path) : Files Path :=
  { files with names := Function.update files.names path none }

theorem create_names (files : Files Path) (path other : Path) :
    (files.create path).names other =
      if other = path then some files.next else files.names other :=
  Function.update_apply ..

theorem create_contents (files : Files Path) (path : Path) (file : Nat) :
    (files.create path).contents file =
      if file = files.next then [] else files.contents file :=
  Function.update_apply ..

omit [DecidableEq Path] in
theorem append_contents (files : Files Path) (file other : Nat)
    (text : Text) : (files.append file text).contents other =
      if other = file then files.contents file ++ text
      else files.contents other :=
  Function.update_apply ..

theorem unlink_names (files : Files Path) (path other : Path) :
    (files.unlink path).names other =
      if other = path then none else files.names other :=
  Function.update_apply ..

end Files

/-- What an operation may reply and do.  A probe answers no when it cannot
tell. -/
def FileOp.Performs : (op : FileOp Path) → Files Path → op.Reply →
    Files Path → Prop
  | .probe path, files, found, files' =>
      files' = files ∧ (found = true → files.names path ≠ none)
  | .readToString path, files, .ok text, files' =>
      files' = files ∧ ∃ file, files.names path = some file ∧
        files.contents file = text
  | .readToString path, files, .error error, files' =>
      files' = files ∧ (error.kind = .notFound → files.names path = none)
  | .createNew path, files, .ok file, files' =>
      files.names path = none ∧ file = files.next ∧ files' = files.create path
  | .createNew path, files, .error error, files' =>
      files' = files ∧ (error.kind = .alreadyExists → files.names path ≠ none)
  | .write file text, files, .ok accepted, files' =>
      file < files.next ∧ accepted ≤ text.length ∧
        files' = files.append file (text.take accepted)
  | .write _ _, files, .error _, files' => files' = files
  | .removeFile path, files, .ok _, files' =>
      files.names path ≠ none ∧ files' = files.unlink path
  | .removeFile path, files, .error error, files' =>
      files' = files ∧ (error.kind = .notFound → files.names path = none)

/-- The part of a write to a file that was accepted. -/
def accepted (file : Nat) : FileEvent Path → Text
  | ⟨.write target text, .ok count⟩ =>
      if target = file then text.take count else []
  | _ => []

/-- What was written to a file. -/
def written (file : Nat) (events : List (FileEvent Path)) : Text :=
  events.flatMap (accepted file)

omit [DecidableEq Path] in
@[simp]
theorem written_append (file : Nat) (earlier later : List (FileEvent Path)) :
    written file (earlier ++ later) =
      written file earlier ++ written file later :=
  List.flatMap_append

omit [DecidableEq Path] in
@[simp]
theorem written_single (file : Nat) (event : FileEvent Path) :
    written file [event] = accepted file event := by
  simp [written]

end Operations

/-! ## What the history of the files tells -/

section History

variable {Path : Type} [DecidableEq Path] {events : List (FileEvent Path)}
  {files : Files Path} {path : Path} {file : Nat}

/-- The files, as the operations performed on an empty directory describe
them. -/
structure Files.Describes (files : Files Path)
    (events : List (FileEvent Path)) : Prop where
  created : ∀ {path file}, files.names path = some file →
    ⟨.createNew path, .ok file⟩ ∈ events
  named : ∀ {path file}, ⟨.createNew path, .ok file⟩ ∈ events →
    ⟨.removeFile path, .ok ()⟩ ∉ events → files.names path = some file
  old : ∀ {path file}, ⟨.createNew path, .ok file⟩ ∈ events → file < files.next
  contents_eq : ∀ file, files.contents file = written file events
  unwritten : ∀ file, files.next ≤ file → files.contents file = []

omit [DecidableEq Path] in
/-- An operation that does nothing to the files. -/
theorem Files.Describes.idle (describes : files.Describes events)
    {event : FileEvent Path}
    (noCreation : ∀ path file, event ≠ ⟨.createNew path, .ok file⟩)
    (noWrite : ∀ file, accepted file event = []) :
    files.Describes (events ++ [event]) := by
  have old {path : Path} {file : Nat}
      (member : ⟨.createNew path, .ok file⟩ ∈ events ++ [event]) :
      ⟨.createNew path, .ok file⟩ ∈ events := by
    rcases List.mem_append.mp member with before | now
    · exact before
    · exact (noCreation path file (List.mem_singleton.mp now).symm).elim
  refine ⟨fun found => List.mem_append_left _ (describes.created found),
    fun member unremoved => describes.named (old member) fun removed =>
      unremoved (List.mem_append_left _ removed),
    fun member => describes.old (old member), fun file => ?_,
    describes.unwritten⟩
  rw [written_append, written_single, noWrite, List.append_nil]
  exact describes.contents_eq file

theorem Files.Describes.create (describes : files.Describes events)
    (free : files.names path = none) :
    (files.create path).Describes
      (events ++ [⟨.createNew path, .ok files.next⟩]) := by
  refine ⟨fun {other file} found => ?_, fun {other file} member unremoved => ?_,
    fun {other file} member => ?_, fun file => ?_, fun file fresh => ?_⟩
  · rw [create_names] at found
    split at found
    next same =>
      cases found
      exact List.mem_append_right _ (List.mem_singleton.mpr (same ▸ rfl))
    next => exact List.mem_append_left _ (describes.created found)
  · rw [create_names]
    rcases List.mem_append.mp member with before | now
    · have named := describes.named before fun removed =>
        unremoved (List.mem_append_left _ removed)
      split
      next same =>
        rw [same, free] at named
        cases named
      next => exact named
    · cases List.mem_singleton.mp now
      exact if_pos rfl
  · rcases List.mem_append.mp member with before | now
    · exact Nat.lt_succ_of_lt (describes.old before)
    · cases List.mem_singleton.mp now
      exact Nat.lt_succ_self _
  · have nothing : accepted file
        (⟨.createNew path, .ok files.next⟩ : FileEvent Path) = [] := rfl
    rw [written_append, written_single, nothing, List.append_nil,
      ← describes.contents_eq file, create_contents]
    split
    next same => rw [same, describes.unwritten _ (Nat.le_refl _)]
    next => rfl
  · have later : files.next + 1 ≤ file := fresh
    have different : file ≠ files.next := by omega
    rw [create_contents, if_neg different]
    exact describes.unwritten file (Nat.le_of_succ_le later)

omit [DecidableEq Path] in
theorem Files.Describes.append (describes : files.Describes events)
    (opened : file < files.next) (text : Text) (count : Nat) :
    (files.append file (text.take count)).Describes
      (events ++ [⟨.write file text, .ok count⟩]) := by
  have old {path : Path} {created : Nat}
      (member : ⟨.createNew path, .ok created⟩ ∈
        events ++ [⟨.write file text, .ok count⟩]) :
      ⟨.createNew path, .ok created⟩ ∈ events := by
    rcases List.mem_append.mp member with before | now
    · exact before
    · cases List.mem_singleton.mp now
  refine ⟨fun found => List.mem_append_left _ (describes.created found),
    fun member unremoved => describes.named (old member) fun removed =>
      unremoved (List.mem_append_left _ removed),
    fun member => describes.old (old member), fun other => ?_,
    fun other fresh => ?_⟩
  · have taken : accepted other
        (⟨.write file text, .ok count⟩ : FileEvent Path) =
          if file = other then text.take count else [] := rfl
    rw [written_append, written_single, taken, ← describes.contents_eq,
      append_contents]
    split
    next same => rw [same, if_pos rfl]
    next differs => rw [if_neg (Ne.symm differs), List.append_nil]
  · have later : files.next ≤ other := fresh
    have different : other ≠ file := by omega
    rw [append_contents, if_neg different]
    exact describes.unwritten other later

theorem Files.Describes.unlink (describes : files.Describes events)
    (path : Path) :
    (files.unlink path).Describes (events ++ [⟨.removeFile path, .ok ()⟩]) := by
  have old {other : Path} {created : Nat}
      (member : ⟨.createNew other, .ok created⟩ ∈
        events ++ [⟨.removeFile path, .ok ()⟩]) :
      ⟨.createNew other, .ok created⟩ ∈ events := by
    rcases List.mem_append.mp member with before | now
    · exact before
    · cases List.mem_singleton.mp now
  refine ⟨fun {other file} found => ?_, fun {other file} member unremoved => ?_,
    fun member => describes.old (old member), fun file => ?_,
    describes.unwritten⟩
  · rw [unlink_names] at found
    split at found
    · cases found
    · exact List.mem_append_left _ (describes.created found)
  · rw [unlink_names]
    split
    next same =>
      exact (unremoved (List.mem_append_right _
        (List.mem_singleton.mpr (same ▸ rfl)))).elim
    next => exact describes.named (old member) fun removed =>
        unremoved (List.mem_append_left _ removed)
  · have nothing : accepted file
        (⟨.removeFile path, .ok ()⟩ : FileEvent Path) = [] := rfl
    rw [written_append, written_single, nothing, List.append_nil]
    exact describes.contents_eq file

/-- Operations on an empty directory leave what they describe. -/
theorem Files.describes
    (performed : Performs FileOp.Performs ({} : Files Path) events files) :
    files.Describes events := by
  induction performed with
  | start =>
      refine ⟨fun found => ?_, fun member => ?_, fun member => ?_,
        fun _ => rfl, fun _ _ => rfl⟩
      · cases found
      · cases member
      · cases member
  | @snoc events files files' op reply earlier performed ih =>
      cases op with
      | probe path =>
          obtain ⟨rfl, _⟩ := performed
          exact ih.idle (fun _ _ same => by cases same) (fun _ => rfl)
      | readToString path =>
          cases reply with
          | ok text =>
              obtain ⟨rfl, _⟩ := performed
              exact ih.idle (fun _ _ same => by cases same) (fun _ => rfl)
          | error error =>
              obtain ⟨rfl, _⟩ := performed
              exact ih.idle (fun _ _ same => by cases same) (fun _ => rfl)
      | createNew path =>
          cases reply with
          | ok file =>
              obtain ⟨free, rfl, rfl⟩ := performed
              exact ih.create free
          | error error =>
              obtain ⟨rfl, _⟩ := performed
              exact ih.idle (fun _ _ same => by cases same) (fun _ => rfl)
      | write file text =>
          cases reply with
          | ok count =>
              obtain ⟨opened, _, rfl⟩ := performed
              exact ih.append opened text count
          | error error =>
              obtain rfl := performed
              exact ih.idle (fun _ _ same => by cases same) (fun _ => rfl)
      | removeFile path =>
          cases reply with
          | ok done =>
              obtain ⟨_, rfl⟩ := performed
              exact ih.unlink path
          | error error =>
              obtain ⟨rfl, _⟩ := performed
              exact ih.idle (fun _ _ same => by cases same) (fun _ => rfl)

/-- A path that nobody removes is created at most once. -/
theorem created_once
    (performed : Performs FileOp.Performs ({} : Files Path) events files)
    (unremoved : ⟨.removeFile path, .ok ()⟩ ∉ events) :
    events.Pairwise fun first second => ∀ file other,
      first = ⟨.createNew path, .ok file⟩ →
        second ≠ ⟨.createNew path, .ok other⟩ := by
  induction performed with
  | start => exact .nil
  | @snoc events files files' op reply earlier performed ih =>
      have before : ⟨.removeFile path, .ok ()⟩ ∉ events := fun removed =>
        unremoved (List.mem_append_left _ removed)
      refine List.pairwise_append.mpr ⟨ih before, List.pairwise_singleton .., ?_⟩
      rintro first member second isLast file other rfl isCreation
      obtain rfl := List.mem_singleton.mp isLast
      cases isCreation
      have taken := (Files.describes earlier).named member before
      obtain ⟨free, _⟩ := performed
      rw [free] at taken
      cases taken

theorem created_apart
    (performed : Performs FileOp.Performs ({} : Files Path) events files) :
    events.Pairwise fun first second => ∀ path other file,
      first = ⟨.createNew path, .ok file⟩ →
        second ≠ ⟨.createNew other, .ok file⟩ := by
  induction performed with
  | start => exact .nil
  | @snoc events files files' op reply earlier performed ih =>
      refine List.pairwise_append.mpr ⟨ih, List.pairwise_singleton .., ?_⟩
      rintro first member second isLast path other file rfl isCreation
      obtain rfl := List.mem_singleton.mp isLast
      cases isCreation
      have old := (Files.describes earlier).old member
      obtain ⟨_, rfl, _⟩ := performed
      exact Nat.lt_irrefl _ old

theorem read_written {before after : List (FileEvent Path)} {text : Text}
    (performed : Performs FileOp.Performs ({} : Files Path)
      (before ++ ⟨.readToString path, .ok text⟩ :: after) files) :
    ∃ file, ⟨.createNew path, .ok file⟩ ∈ before ∧
      text = written file before := by
  obtain ⟨middle, next, earlier, read⟩ := performed.at_split
  obtain ⟨_, file, named, contents⟩ := read
  have described := Files.describes earlier
  exact ⟨file, described.created named,
    contents.symm.trans (described.contents_eq file)⟩

omit [DecidableEq Path] in
/-- A file to which a line is written piece by piece holds a part of the line. -/
theorem written_part {line : Text}
    (pieces : ∀ before text reply after,
      events = before ++ ⟨.write file text, reply⟩ :: after →
        written file before ++ text <+: line) :
    written file events <+: line := by
  induction events using List.reverseRecOn with
  | nil => exact List.nil_prefix
  | append_singleton events last ih =>
      have earlier := ih fun before text reply after split =>
        pieces before text reply (after ++ [last]) (by simp [split])
      rw [written_append, written_single]
      obtain ⟨op, reply⟩ := last
      cases op with
      | write target text =>
          by_cases same : target = file
          · subst same
            have whole := pieces events text reply [] rfl
            cases reply with
            | ok count =>
                refine List.IsPrefix.trans ?_ whole
                simp only [accepted, if_pos]
                exact (List.prefix_append_right_inj _).mpr
                  (List.take_prefix count text)
            | error error => simpa [accepted] using earlier
          · cases reply with
            | ok count => simpa [accepted, same] using earlier
            | error error => simpa [accepted] using earlier
      | _ => simpa [accepted] using earlier

end History

end FileSystems
