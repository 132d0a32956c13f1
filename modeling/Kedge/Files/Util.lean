import Mathlib.Logic.Function.Basic
import Kedge.Library.PosixPath

/-
  Paths and files in `src/util.cpp`.

  The two ways of joining paths are modelled apart: `+=` of
  `fs::path` concatenates, `/` puts a separator between its
  operands. The file system is a map from locations to
  contents; a write may fail to open its file or stop after
  any number of bytes, and a removal may be refused.

  `save_file` writes through the buffer of a stream, and
  asks whether that went well before the stream is closed.
  What the buffer still holds then is stored afterwards, or
  lost.

  Key definitions include:
    * `pathCat`
    * `pathAppend`
    * `pathEquals`
    * `FileSystem`
    * `Stream`
    * `loadFile`
    * `saveFile`
    * `removeFile`
-/

------------------------------------------------------------
-- Joining Paths
------------------------------------------------------------

namespace Kedge

/- `path_cat`: `fs::path(base) += path`. -/
def pathCat (base path : Str) : Str :=
  base ++ path

/-
  `operator/` of `fs::path`: an absolute operand replaces
  the path, and a separator is added behind a file name.
-/
def pathAppend (base path : Str) : Str :=
  if Posix.isAbsolute path then path
  else if base = [] ∨ base.getLast? = some '/' then
    base ++ path
  else base ++ Posix.separator :: path

/-
  `operator==` of `fs::path`: repeated separators count as
  one, a trailing separator makes a difference.
-/
def pathEquals (a b : Str) : Bool :=
  let names := fun path =>
    (Posix.components path).filter (· ≠ [])
  let trailing := fun path : Str =>
    decide (path.getLast? = some '/' ∧ names path ≠ [])
  Posix.isAbsolute a == Posix.isAbsolute b &&
    names a == names b && trailing a == trailing b

/- A name joined with `/` stands behind a separator. -/
theorem pathAppend_of_isName
    {name : Str}
    (hName : Posix.IsName name)
    (base : Str) :
    pathAppend base name = name ∨
      ∃ directory,
        pathAppend base name =
          directory ++ Posix.separator :: name := by
  have hRelative : Posix.isAbsolute name = false := by
    rcases hName with ⟨hNonempty, _, _, hSeparator⟩
    cases name with
    | nil => exact absurd rfl hNonempty
    | cons c name =>
        have hC := List.ne_of_not_mem_cons hSeparator
        simp [Posix.isAbsolute, hC.symm]
  unfold pathAppend
  rw [if_neg (by simp [hRelative])]
  by_cases hBase : base = [] ∨ base.getLast? = some '/'
  · rw [if_pos hBase]
    rcases hBase with rfl | hTrailing
    · exact Or.inl rfl
    · rcases List.getLast?_eq_some_iff.mp hTrailing with
        ⟨directory, rfl⟩
      refine Or.inr ⟨directory, ?_⟩
      rw [List.append_assoc]
      rfl
  · rw [if_neg hBase]
    exact Or.inr ⟨base, rfl⟩

def sessFile : Str := ".ses_state".toList

def resumeDir : Str := ".resume".toList

def watchDir : Str := "watching".toList

def resumeExt : Str := ".resume".toList

end Kedge

------------------------------------------------------------
-- Loading and Saving
------------------------------------------------------------

namespace Kedge

abbrev Bytes := List UInt8

def FileSystem : Type :=
  Posix.Location → Option Bytes

/-
  The stream of a file: how many of the last bytes of a
  content, by its length, `write` leaves to the buffer. It
  leaves a content there as a whole that fits the buffer.
-/
structure Stream where
  buffer : Nat
  held : Nat → Nat
  held_of_le : ∀ n, n ≤ buffer → held n = n

/-
  How the write of a file goes: it is not opened, or only
  the first bytes of the content are stored in the end.
-/
inductive WriteOutcome where
  | openFailed
  | stored (count : Nat)
  deriving DecidableEq, Repr

/-
  `!f.fail()` behind `write`: what was not left to the
  buffer has been stored.
-/
def WriteOutcome.reported
    (stream : Stream)
    (content : Bytes) : WriteOutcome → Bool
  | .openFailed => false
  | .stored count =>
      content.length - stream.held content.length ≤ count

/- The default of `load_file`'s limit. -/
def loadLimit : Nat := 8000000

/- `load_file`: fails on a missing or too large file. -/
def loadFile
    (files : FileSystem)
    (filename : Str)
    (limit : Nat) : Option Bytes :=
  match files (Posix.locate filename) with
  | none => none
  | some content =>
      if content.length > limit then none else some content

/-
  `save_file`: opening truncates the file, and the result is
  decided before the destructor of the stream stores what
  the buffer holds.
-/
def saveFile
    (stream : Stream)
    (files : FileSystem)
    (filename : Str)
    (content : Bytes)
    (outcome : WriteOutcome) : FileSystem × Bool :=
  (match outcome with
    | .openFailed => files
    | .stored count =>
        Function.update files (Posix.locate filename)
          (some (content.take count)),
    outcome.reported stream content)

@[simp]
theorem saveFile_result
    (stream : Stream)
    (files : FileSystem)
    (filename : Str)
    (content : Bytes)
    (outcome : WriteOutcome) :
    (saveFile stream files filename content outcome).2 =
      outcome.reported stream content := rfl

/- Whether the system lets a file be removed. -/
inductive RemoveOutcome where
  | allowed
  | refused
  deriving DecidableEq, Repr

/- `std::remove`, and whether a file was removed. -/
def removeFile
    (files : FileSystem)
    (filename : Str) : RemoveOutcome → FileSystem × Bool
  | .allowed =>
      (Function.update files (Posix.locate filename) none,
        (files (Posix.locate filename)).isSome)
  | .refused => (files, false)

/-
  The content of a file that was opened and is reported as
  not written is larger than the buffer.
-/
theorem buffer_lt_of_not_reported
    {stream : Stream}
    {content : Bytes}
    {count : Nat}
    (hFailed :
      (WriteOutcome.stored count).reported stream content =
        false) :
    stream.buffer < content.length := by
  by_contra hFits
  have hHeld :=
    stream.held_of_le content.length (Nat.not_lt.mp hFits)
  have hMore := of_decide_eq_false hFailed
  omega

/- A write does not show in any other file. -/
theorem loadFile_saveFile_of_ne
    (stream : Stream)
    (files : FileSystem)
    {filename other : Str}
    (hOther : Posix.locate other ≠ Posix.locate filename)
    (content : Bytes)
    (outcome : WriteOutcome)
    (limit : Nat) :
    loadFile
        (saveFile stream files filename content outcome).1
        other limit =
      loadFile files other limit := by
  unfold loadFile
  cases outcome with
  | openFailed => rfl
  | stored count =>
      have hSame :
          (saveFile stream files filename content
            (.stored count)).1 (Posix.locate other) =
            files (Posix.locate other) :=
        Function.update_of_ne hOther _ _
      rw [hSame]

/-
  A stream that leaves contents of up to 8190 bytes to its
  buffer, and stores larger ones at once.
-/
def plainStream : Stream where
  buffer := 8190
  held := fun n => if n ≤ 8190 then n else 0
  held_of_le := fun _ hFits => if_pos hFits

/- All bytes are stored when the stream is closed. -/
def WriteOutcome.Whole
    (content : Bytes) : WriteOutcome → Prop
  | .openFailed => False
  | .stored count => content.length ≤ count

/- Closing the stream stores what `write` has accepted. -/
def WriteOutcome.Flushed
    (stream : Stream)
    (content : Bytes)
    (outcome : WriteOutcome) : Prop :=
  outcome.reported stream content = true →
    outcome.Whole content

theorem saveFile_whole
    {content : Bytes}
    {outcome : WriteOutcome}
    (stream : Stream)
    (files : FileSystem)
    (filename : Str)
    (hWhole : outcome.Whole content) :
    (saveFile stream files filename content outcome).1
        (Posix.locate filename) =
      some content := by
  cases outcome with
  | openFailed => exact hWhole.elim
  | stored count =>
      exact
        (Function.update_self _ _ _).trans
          (congrArg some (List.take_of_length_le hWhole))

/-
  A file that was written as a whole is read back, unless it
  is larger than the reader's limit.
-/
theorem loadFile_saveFile_self
    {content : Bytes}
    {outcome : WriteOutcome}
    (stream : Stream)
    (files : FileSystem)
    (filename : Str)
    (hWhole : outcome.Whole content)
    (limit : Nat) :
    loadFile
        (saveFile stream files filename content outcome).1
        filename limit =
      if content.length ≤ limit then some content
      else none := by
  unfold loadFile
  rw [saveFile_whole stream files filename hWhole]
  by_cases hLimit : content.length ≤ limit
  · simp [hLimit]
  · simp [hLimit, Nat.lt_of_not_le hLimit]

end Kedge
