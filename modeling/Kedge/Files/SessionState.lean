import Kedge.Files.Util

/-
  The session state between two runs of the program.

  `sheath::save_session` writes the state to
  `dir_conf / SESS_FILE`. `load_sess_params` reads it from
  `path_cat(cd, SESS_FILE)`, which puts no separator between
  the directory and the name. The two name different files
  for every configuration directory.

  Main declarations:
    * `saveSession`
    * `loadSessParams`
    * `locate_sessFile_ne`
    * `session_state_never_reloaded`
-/

------------------------------------------------------------
-- Writer and Reader
------------------------------------------------------------

namespace Kedge

/- `sheath::file_ses_state`. -/
def fileSesState (dirConf : Str) : Str :=
  pathAppend dirConf sessFile

/-
  `sheath::save_session` with the bencoded session state, in
  which `libtorrent` has encoded its settings.
-/
def saveSession
    (stream : Stream)
    (files : FileSystem)
    (dirConf : Str)
    (out : Bytes)
    (outcome : WriteOutcome) : FileSystem × Bool :=
  saveFile stream files (fileSesState dirConf) out outcome

/- The bytes that `load_sess_params` decodes, if any. -/
def loadSessParams
    (files : FileSystem)
    (cd : Str) : Option Bytes :=
  loadFile files (pathCat cd sessFile) loadLimit

end Kedge

------------------------------------------------------------
-- The Two File Names
------------------------------------------------------------

namespace Kedge

theorem isName_sessFile : Posix.IsName sessFile := by
  decide

/- A name with the file name behind it is another name. -/
theorem isName_append_sessFile
    {last : Str}
    (hLast : Posix.separator ∉ last) :
    Posix.IsName (last ++ sessFile) := by
  apply Posix.isName_of_length
  · rw [List.length_append]
    exact Nat.lt_add_left last.length (by decide)
  · rw [List.mem_append]
    rintro (hIn | hIn)
    · exact hLast hIn
    · exact isName_sessFile.2.2.2 hIn

/- The last component of a path without a trailing `/`. -/
theorem exists_last_name
    {cd : Str}
    (hNonempty : cd ≠ [])
    (hTrailing : cd.getLast? ≠ some '/') :
    ∃ last,
      last ≠ [] ∧ Posix.separator ∉ last ∧
        (cd = last ∨
          ∃ directory,
            cd = directory ++ Posix.separator :: last) := by
  rcases Posix.exists_last_component cd with
    ⟨last, hLast, hSplit⟩
  refine ⟨last, ?_, hLast, hSplit⟩
  rintro rfl
  rcases hSplit with rfl | ⟨directory, rfl⟩
  · exact hNonempty rfl
  · exact hTrailing List.getLast?_concat

/- The two names locate different files. -/
theorem locate_sessFile_ne
    {cd : Str}
    (hNonempty : cd ≠ [])
    (hTrailing : cd.getLast? ≠ some '/') :
    Posix.locate (pathCat cd sessFile) ≠
      Posix.locate (fileSesState cd) := by
  rcases exists_last_name hNonempty hTrailing with
    ⟨last, hLastNonempty, hLast, hSplit⟩
  have hRead :
      (Posix.normalize (pathCat cd sessFile)).getLast? =
        some (last ++ sessFile) := by
    apply Posix.getLast?_normalize
      (isName_append_sessFile hLast)
    rcases hSplit with rfl | ⟨directory, rfl⟩
    · exact Or.inl rfl
    · exact Or.inr ⟨directory, by simp [pathCat]⟩
  have hWritten :
      (Posix.normalize (fileSesState cd)).getLast? =
        some sessFile :=
    Posix.getLast?_normalize isName_sessFile
      (pathAppend_of_isName isName_sessFile cd)
  intro hSame
  have hNames := congrArg Posix.Location.names hSame
  change
    Posix.normalize (pathCat cd sessFile) =
      Posix.normalize (fileSesState cd) at hNames
  rw [hNames, hWritten, Option.some.injEq] at hRead
  have hEmpty : last = [] := by
    have hLength := congrArg List.length hRead
    rw [List.length_append] at hLength
    exact List.length_eq_zero_iff.mp (by omega)
  exact hLastNonempty hEmpty

end Kedge

------------------------------------------------------------
-- The State Is Never Loaded
------------------------------------------------------------

namespace Kedge

/-
  For no configuration directory does the next start read
  what was written: the names locate different files, what
  is read does not depend on what was saved, and so not
  every saved content is read back.
-/
theorem session_state_never_reloaded
    (stream : Stream)
    (cd : Str)
    (hNonempty : cd ≠ [])
    (hTrailing : cd.getLast? ≠ some '/')
    (files : FileSystem) :
    Posix.locate (pathCat cd sessFile) ≠
        Posix.locate (fileSesState cd) ∧
      (∀ content outcome,
        loadSessParams
            (saveSession stream files cd content outcome).1
            cd =
          loadSessParams files cd) ∧
      ¬ ∀ content : Bytes, content.length ≤ loadLimit →
          ∀ outcome,
            (saveSession stream files cd content
                outcome).2 = true →
              outcome.Flushed stream content →
                loadSessParams
                    (saveSession stream files cd content
                      outcome).1
                    cd =
                  some content := by
  have hDiffer := locate_sessFile_ne hNonempty hTrailing
  have hSame :
      ∀ content outcome,
        loadSessParams
            (saveSession stream files cd content outcome).1
            cd =
          loadSessParams files cd := by
    intro content outcome
    exact loadFile_saveFile_of_ne stream files hDiffer
      content outcome loadLimit
  refine ⟨hDiffer, hSame, ?_⟩
  intro hReload
  -- Two different contents cannot both be what is read.
  have hFirst :=
    hReload [] (by decide) (.stored 0)
      (decide_eq_true (Nat.sub_le 0 _))
      (fun _ => Nat.le_refl 0)
  have hSecond :=
    hReload [0] (by decide) (.stored 1)
      (decide_eq_true (Nat.sub_le 1 _))
      (fun _ => Nat.le_refl 1)
  rw [hSame] at hFirst hSecond
  rw [hFirst] at hSecond
  cases hSecond

theorem session_state_never_reloaded_home :
    Posix.locate
          (pathCat "/root/.config/kedge".toList sessFile) ≠
        Posix.locate
          (fileSesState "/root/.config/kedge".toList) ∧
      loadSessParams
          (saveSession plainStream (fun _ => none)
            "/root/.config/kedge".toList [100, 101]
            (.stored 2)).1
          "/root/.config/kedge".toList =
        loadSessParams (fun _ => none)
          "/root/.config/kedge".toList := by
  have hNever :=
    session_state_never_reloaded plainStream
      "/root/.config/kedge".toList (by decide) (by decide)
      (fun _ => none)
  exact ⟨hNever.1, hNever.2.1 [100, 101] (.stored 2)⟩

/- The state is written to the directory and not found. -/
theorem session_state_lost :
    (saveSession plainStream (fun _ => none)
        "/root/.config/kedge".toList [100, 101]
        (.stored 2)).2 = true ∧
      (saveSession plainStream (fun _ => none)
            "/root/.config/kedge".toList [100, 101]
            (.stored 2)).1
          (Posix.locate
            (fileSesState "/root/.config/kedge".toList)) =
        some [100, 101] ∧
      loadSessParams
          (saveSession plainStream (fun _ => none)
            "/root/.config/kedge".toList [100, 101]
            (.stored 2)).1
          "/root/.config/kedge".toList =
        none := by
  decide

end Kedge
