import Kedge.Sheath.Drop

/-
  Resume files from one run of the program to the next.

  `handle_alert` saves resume data of any size. They are
  read with `load_file`, at the next start and when the
  torrent is added again, and `load_file` refuses files of
  more than its limit. Between the two the file stays as it
  is until the torrent is saved again or dropped.

  Main declarations:
    * `System.Untouched`
    * `System.resumeContent_step`
    * `System.saved_resume_loads`
-/

------------------------------------------------------------
-- Steps That Leave the File Alone
------------------------------------------------------------

namespace Kedge

namespace Sheath

namespace System

/-
  The step neither saves resume data of the torrent nor
  starts to drop it.
-/
def Untouched
    (ih : InfoHash)
    (s : System) : Action → Prop
  | .handle _ _ =>
      ∀ alert rest params,
        s.batch = some (alert :: rest) →
          alert.success? = some params →
            params.infoHash ≠ ih
  | .dropDelete _ other _ _ => other ≠ ih
  | _ => True

theorem resumeContent_step
    {config : Config}
    {s next : System}
    {ih : InfoHash}
    {action : Action}
    (hUntouched : s.Untouched ih action)
    (hStep : s.step config action = some next) :
    next.resumeContent config ih =
      s.resumeContent config ih := by
  cases next_of_step hStep with
  | @handle alert rest query write hBatch =>
      exact resumeContent_handle query write
        (fun params hSuccess =>
          hUntouched alert rest params hBatch hSuccess)
  | @dropDelete thread other withData removal _ =>
      exact resumeContent_dropDelete config s thread
        withData removal hUntouched
  | saveNext _ _ =>
      unfold saveNext
      dsimp only
      split <;> rfl
  | _ => rfl

theorem resumeContent_of_exec
    {config : Config}
    {s final : System}
    {ih : InfoHash}
    {actions : List Action}
    (hMeets :
      Run.Meets (step config) (Untouched ih) s actions)
    (hExec :
      Run.exec (step config) s actions = some final) :
    final.resumeContent config ih =
      s.resumeContent config ih := by
  have hKeep :
      ∀ (t : System) action next,
        t.Untouched ih action →
          t.resumeContent config ih =
              s.resumeContent config ih →
            t.step config action = some next →
              next.resumeContent config ih =
                s.resumeContent config ih :=
    fun _ _ _ hUntouched hSame hStep =>
      (resumeContent_step hUntouched hStep).trans hSame
  exact Run.invariant_of_meets hKeep rfl hMeets hExec

end System

end Sheath

end Kedge

------------------------------------------------------------
-- Saved Files Are Loaded
------------------------------------------------------------

namespace Kedge

namespace Sheath

namespace System

/-
  Resume data that are reported as written, by a stream that
  stores what it has accepted, are read back, at any later
  time before the torrent is saved again or dropped, exactly
  when they do not exceed the limit of `load_file`; larger
  ones are refused.
-/
theorem saved_resume_loads
    (config : Config)
    (s saved final : System)
    (params : AddTorrentParams)
    (rest : List Alert)
    (query : Query)
    (write : WriteOutcome)
    (hBatch :
      s.batch = some (.saveResumeData params :: rest))
    (hStep :
      s.step config (.handle query write) = some saved)
    (hSaved :
      (saveFile config.stream s.files
        (resumeFile config.dirConf params.infoHash)
        (config.writeResumeDataBuf params) write).2 = true)
    (hFlushed :
      write.Flushed config.stream
        (config.writeResumeDataBuf params))
    (later : List Action)
    (hMeets :
      Run.Meets (step config) (Untouched params.infoHash)
        saved later)
    (hExec :
      Run.exec (step config) saved later = some final) :
    loadFile final.files
        (resumeFile config.dirConf params.infoHash)
        loadLimit =
      if (config.writeResumeDataBuf params).length ≤ 8000000
      then some (config.writeResumeDataBuf params)
      else none := by
  have hWritten :
      saved.files =
        (saveFile config.stream s.files
          (resumeFile config.dirConf params.infoHash)
          (config.writeResumeDataBuf params) write).1 := by
    simp only [step, hBatch, Option.some.injEq] at hStep
    rw [← hStep]
    rfl
  have hContent :
      final.files (Posix.locate
          (resumeFile config.dirConf params.infoHash)) =
        saved.files (Posix.locate
          (resumeFile config.dirConf params.infoHash)) :=
    resumeContent_of_exec hMeets hExec
  have hLoad :=
    loadFile_saveFile_self config.stream s.files
      (resumeFile config.dirConf params.infoHash)
      (hFlushed hSaved) loadLimit
  rw [← hWritten] at hLoad
  unfold loadFile at hLoad ⊢
  rw [hContent]
  exact hLoad

/- A torrent whose resume data wait to be saved. -/
def saveWaits : System :=
  { emptySystem with
    torrents := [firstTorrent]
    nextId := 1
    batch := some [.saveResumeData ⟨zeroHash, [1, 2, 3]⟩]
    members := ⟨1, ⟨[], [], 0, 0⟩, ∅⟩ }

/- Three bytes are saved and found after the shutdown. -/
theorem saved_resume_loads_three_bytes :
    ∃ saved final,
      saveWaits.step plainConfig
          (.handle plainQuery (.stored 3)) =
        some saved ∧
      Run.exec (step plainConfig) saved
          [.popDone, .saveAll [], .saveLoopDone,
            .saveReturn, .restart] =
        some final ∧
      loadFile final.files
          (resumeFile plainConfig.dirConf zeroHash)
          loadLimit =
        some [1, 2, 3] := by
  refine ⟨_, _, rfl, rfl, ?_⟩
  refine saved_resume_loads plainConfig saveWaits
    (saveWaits.handle plainConfig
      (.saveResumeData ⟨zeroHash, [1, 2, 3]⟩) [] plainQuery
      (.stored 3))
    _ ⟨zeroHash, [1, 2, 3]⟩ [] plainQuery (.stored 3) rfl rfl
    rfl (fun _ => Nat.le_refl 3)
    [.popDone, .saveAll [], .saveLoopDone, .saveReturn,
      .restart] ?_ rfl
  iterate 5
    refine ⟨trivial, fun _ _ => ?_⟩
  trivial

theorem refused_of_large
    (stream : Stream)
    (files : FileSystem)
    (filename : Str)
    {content : Bytes}
    (hLarge : loadLimit < content.length) :
    ∃ after,
      saveFile stream files filename content
          (.stored content.length) =
        (after, true) ∧
      loadFile after filename loadLimit = none := by
  have hSaved :
      (saveFile stream files filename content
        (.stored content.length)).2 = true :=
    decide_eq_true (Nat.sub_le _ _)
  have hWhole :
      (WriteOutcome.stored content.length).Whole content :=
    Nat.le_refl content.length
  refine ⟨_, Prod.ext rfl hSaved, ?_⟩
  rw [loadFile_saveFile_self stream files filename hWhole,
    if_neg (Nat.not_le_of_lt hLarge)]

/-
  Resume data of one byte more than the limit are written
  without an error and refused by the reader.
-/
theorem saved_resume_refused :
    ∃ after,
      saveFile plainStream (fun _ => none)
          (resumeFile plainConfig.dirConf zeroHash)
          (List.replicate 8000001 0) (.stored 8000001) =
        (after, true) ∧
      loadFile after
          (resumeFile plainConfig.dirConf zeroHash)
          loadLimit =
        none := by
  have hLength :
      (List.replicate 8000001 (0 : UInt8)).length =
        8000001 :=
    List.length_replicate
  have hLarge :
      loadLimit <
        (List.replicate 8000001 (0 : UInt8)).length := by
    rw [hLength]
    exact Nat.lt_succ_self 8000000
  have hRefused :=
    refused_of_large plainStream (fun _ => none)
      (resumeFile plainConfig.dirConf zeroHash) hLarge
  rw [hLength] at hRefused
  exact hRefused

end System

end Sheath

end Kedge
