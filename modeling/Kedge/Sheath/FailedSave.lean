import Kedge.Files.SessionState
import Kedge.Sheath.Drop

/-
  Saves that fail.

  `save_file` opens its file truncated, so the old content
  is gone before the first byte is stored. Only a content
  that is larger than the buffer of the stream can fail to
  be written; what the buffer holds is stored, or lost, when
  the result is already decided. Resume data and the session
  state are saved over the last good file in this way.

  Main declarations:
    * `Survives`
    * `saveFile_survives_iff`
    * `failed_save_keeps_file_iff`
-/

------------------------------------------------------------
-- The Old Content
------------------------------------------------------------

namespace Kedge

/-
  The condition under which a failed save leaves the old
  content: the file was not opened, or it held just the
  bytes that were stored.
-/
def Survives
    (outcome : WriteOutcome)
    (old : Option Bytes)
    (content : Bytes) : Prop :=
  outcome = .openFailed ∨
    ∃ count,
      outcome = .stored count ∧
        old = some (content.take count)

/- The content of the file after a save. -/
theorem saveFile_survives_iff
    (stream : Stream)
    (files : FileSystem)
    (filename : Str)
    (content : Bytes)
    (outcome : WriteOutcome) :
    (saveFile stream files filename content outcome).1
          (Posix.locate filename) =
        files (Posix.locate filename) ↔
      Survives outcome (files (Posix.locate filename))
        content := by
  unfold Survives
  cases outcome with
  | openFailed => exact iff_of_true rfl (Or.inl rfl)
  | stored count =>
      have hNew :
          (saveFile stream files filename content
              (.stored count)).1 (Posix.locate filename) =
            some (content.take count) :=
        Function.update_self _ _ _
      rw [hNew]
      constructor
      · intro hSame
        exact Or.inr ⟨count, rfl, hSame.symm⟩
      · intro hSurvives
        rcases hSurvives with hOpen | ⟨other, hCount, hOld⟩
        · cases hOpen
        · cases hCount
          exact hOld.symm

end Kedge

------------------------------------------------------------
-- The Last Good File
------------------------------------------------------------

namespace Kedge

namespace Sheath

/- What the handler of resume data does to the file. -/
theorem resumeContent_handle_saved
    (config : Config)
    (s : System)
    (params : AddTorrentParams)
    (rest : List Alert)
    (query : Query)
    (write : WriteOutcome) :
    (s.handle config (.saveResumeData params) rest query
        write).resumeContent config params.infoHash =
      (saveFile config.stream s.files
        (resumeFile config.dirConf params.infoHash)
        (config.writeResumeDataBuf params) write).1
        (Posix.locate
          (resumeFile config.dirConf params.infoHash)) := by
  rfl

/-
  A save that reports a failure leaves the old content
  exactly when the file was not opened or held the bytes
  that were stored; where the file was opened, the content
  is larger than the buffer of the stream. A save that
  reports success, and loses nothing when the stream is
  closed, leaves the new content. The same holds of the
  resume file of a torrent and of the session state.
-/
theorem failed_save_keeps_file_iff
    (outcome : WriteOutcome) :
    (∀ stream files filename content,
      let saved :=
        saveFile stream files filename content outcome
      let file := Posix.locate filename
      (saved.2 = false →
        (outcome = .openFailed ∨
            stream.buffer < content.length) ∧
          (saved.1 file = files file ↔
            Survives outcome (files file) content)) ∧
      (saved.2 = true → outcome.Flushed stream content →
        saved.1 file = some content)) ∧
    (∀ config (s : System) params rest query,
      let content := config.writeResumeDataBuf params
      let next :=
        s.handle config (.saveResumeData params) rest query
          outcome
      let old := s.resumeContent config params.infoHash
      let new := next.resumeContent config params.infoHash
      (outcome.reported config.stream content = false →
        (new = old ↔ Survives outcome old content)) ∧
      (outcome.reported config.stream content = true →
        outcome.Flushed config.stream content →
          new = some content)) ∧
    ∀ stream files dirConf out,
      let saved := saveSession stream files dirConf out outcome
      let file := Posix.locate (fileSesState dirConf)
      (saved.2 = false →
        (saved.1 file = files file ↔
          Survives outcome (files file) out)) ∧
      (saved.2 = true → outcome.Flushed stream out →
        saved.1 file = some out) := by
  have hSave :
      ∀ stream files filename content,
        ((saveFile stream files filename content outcome).1
              (Posix.locate filename) =
            files (Posix.locate filename) ↔
          Survives outcome (files (Posix.locate filename))
            content) ∧
        (outcome.reported stream content = true →
          outcome.Flushed stream content →
            (saveFile stream files filename content
                outcome).1 (Posix.locate filename) =
              some content) := by
    intro stream files filename content
    refine
      ⟨saveFile_survives_iff stream files filename content
        outcome, ?_⟩
    intro hReported hFlushed
    exact
      saveFile_whole stream files filename
        (hFlushed hReported)
  refine ⟨?_, ?_, ?_⟩
  · intro stream files filename content saved file
    rcases hSave stream files filename content with
      ⟨hOld, hNew⟩
    refine ⟨fun hFailed => ⟨?_, hOld⟩, hNew⟩
    cases outcome with
    | openFailed => exact Or.inl rfl
    | stored count =>
        exact Or.inr (buffer_lt_of_not_reported hFailed)
  · intro config s params rest query content next old new
    rcases hSave config.stream s.files
        (resumeFile config.dirConf params.infoHash) content
      with ⟨hOld, hNew⟩
    have hContent :=
      resumeContent_handle_saved config s params rest query
        outcome
    refine ⟨fun _ => ?_, ?_⟩
    · change next.resumeContent config _ = _ ↔ _
      rw [hContent]
      exact hOld
    · intro hReported hFlushed
      exact hContent.trans (hNew hReported hFlushed)
  · intro stream files dirConf out saved file
    rcases hSave stream files (fileSesState dirConf) out with
      ⟨hOld, hNew⟩
    exact ⟨fun _ => hOld, hNew⟩

/- A large content is written past the buffer. -/
theorem reported_plainStream
    {content : Bytes}
    {count : Nat}
    (hLarge : 8190 < content.length)
    (hCount : count < content.length) :
    (WriteOutcome.stored count).reported plainStream
        content =
      false := by
  have hHeld : plainStream.held content.length = 0 :=
    if_neg (Nat.not_le.mpr hLarge)
  unfold WriteOutcome.reported
  rw [hHeld]
  exact decide_eq_false (by omega)

/- The first byte is stored, and the file had only that. -/
theorem failed_save_keeps_file_iff_first_byte :
    (saveSession plainStream (fun _ => some [100]) []
          (List.replicate 100000 100) (.stored 1)).1
        (Posix.locate (fileSesState [])) =
      some [100] := by
  have hLength :
      (List.replicate 100000 (100 : UInt8)).length = 100000 :=
    List.length_replicate
  have hFailed :
      (saveSession plainStream (fun _ => some [100]) []
        (List.replicate 100000 100) (.stored 1)).2 =
          false :=
    (saveFile_result _ _ _ _ _).trans
      (reported_plainStream (by omega) (by omega))
  have hFirst :
      (List.replicate 100000 (100 : UInt8)).take 1 =
        [100] := by
    rw [List.take_replicate]
    rfl
  exact
    (((failed_save_keeps_file_iff (.stored 1)).2.2
      plainStream (fun _ => some [100]) []
      (List.replicate 100000 100)).1 hFailed).mpr
      (Or.inr ⟨1, rfl, congrArg some hFirst.symm⟩)

/-
  A full disk empties the file of the session state, with a
  content that does not fit the buffer.
-/
theorem session_state_emptied :
    let good : Bytes := [100, 101]
    let file :=
      Posix.locate (fileSesState "/root/.config".toList)
    let files : FileSystem :=
      Function.update (fun _ => none) file (some good)
    let saved :=
      saveFile plainStream files
        (fileSesState "/root/.config".toList)
        (List.replicate 100000 100) (.stored 0)
    saved.2 = false ∧ files file = some good ∧
      saved.1 file = some [] := by
  intro good file files saved
  have hLength :
      (List.replicate 100000 (100 : UInt8)).length = 100000 :=
    List.length_replicate
  have hFailed : saved.2 = false :=
    (saveFile_result _ _ _ _ _).trans
      (reported_plainStream (by omega) (by omega))
  refine ⟨hFailed, Function.update_self _ _ _, ?_⟩
  exact Function.update_self file (some []) files

end Sheath

end Kedge
