import Kedge.Files.HexHash
import Kedge.Files.SessionState
import Kedge.Sheath.Accounting
import Kedge.Sheath.Drop
import Kedge.Sheath.AddTorrent

/-
  Torrents from one start of the program to the next:
  `load_resumes`, and what is left on the disk when the
  program ends or crashes.

  `load_resumes` lists the directory of resume files and
  passes what it can read and decode to `libtorrent`. While
  the program runs, resume data are saved and deleted. The
  program ends with `sheath::end`, which saves the session
  state last, or stops anywhere else; a save that is cut
  short is one that stores a part of its bytes.

  As far as the next start is concerned, the directory is a
  map from info-hashes to resume data, on which only
  complete saves and deletions act. A start lists and loads
  the whole directory in one step.

  Key definitions include:
    * `loadResumes`
    * `Store.act`
    * `Process.step`

  Main theorems include:
    * `Process.start_submits_kept`
    * `Process.restart_keeps_answers`
-/

------------------------------------------------------------
-- Loading Resume Files
------------------------------------------------------------

namespace Kedge

namespace Sheath

/- A name that `fs::directory_iterator` finds. -/
structure DirEntry where
  name : Str
  read : ReadOutcome

/- Resume data are used when no error code is set. -/
def decodeResume
    (lt : Libtorrent)
    (data : Bytes) : Option TorrentParams :=
  match lt.readResumeData data with
  | (_, true) => none
  | (atp, false) => some atp

/- The resume data of a file, if they can be decoded. -/
def readResume
    (lt : Libtorrent)
    (files : FileSystem)
    (filename : Str) : Option TorrentParams :=
  match loadFile files filename loadLimit with
  | none => none
  | some data => decodeResume lt data

/- One round of the loop of `sheath::load_resumes`. -/
def loadEntry
    (lt : Libtorrent)
    (dirConf : Str)
    (files : FileSystem)
    (entry : DirEntry) : Option TorrentParams :=
  if isResumeFile entry.name then
    match entry.read with
    | .failed => none
    | .readable =>
        readResume lt files
          (pathAppend (dirResumes dirConf) entry.name)
  else none

/-
  `sheath::load_resumes`: what is passed to
  `async_add_torrent`. No entries are given when the
  directory cannot be listed.
-/
def loadResumes
    (lt : Libtorrent)
    (dirConf : Str)
    (files : FileSystem) :
    Option (List DirEntry) → List TorrentParams
  | none => []
  | some entries =>
      entries.filterMap (loadEntry lt dirConf files)

end Sheath

end Kedge

------------------------------------------------------------
-- What the Next Start Restores
------------------------------------------------------------

namespace Kedge

namespace Sheath

/- What happens to the resume files. -/
inductive StoreEvent where
  | saved (params : AddTorrentParams) (write : WriteOutcome)
  | deleted (ih : InfoHash) (removal : RemoveOutcome)

/- The resume data that the next start can restore. -/
abbrev Store : Type :=
  InfoHash → Option AddTorrentParams

/-
  A file that is opened for a save loses what it held. It
  holds the new data when all of them are stored and they
  are not too large for the reader.
-/
def Store.act
    (encode : AddTorrentParams → Bytes)
    (store : Store) : StoreEvent → Store
  | .saved _ .openFailed => store
  | .saved params (.stored count) =>
      Function.update store params.infoHash
        (if (encode params).length ≤ count ∧
            (encode params).length ≤ loadLimit then
          some params
        else none)
  | .deleted ih .allowed => Function.update store ih none
  | .deleted _ .refused => store

/- What a step of the sheath does to the resume files. -/
def System.observed
    (s : System) : Action → Option StoreEvent
  | .handle _ write =>
      match s.batch with
      | some (alert :: _) =>
          alert.success?.map fun params =>
            .saved params write
      | _ => none
  | .dropDelete _ ih _ removal =>
      some (.deleted ih removal)
  | _ => none

/- The resume data in the files. -/
def kept
    (lt : Libtorrent)
    (config : Config)
    (files : FileSystem) : Store := fun ih =>
  (readResume lt files (resumeFile config.dirConf ih)).map
    TorrentParams.toAddTorrentParams

/-
  Resume data are read as they were written, and their
  bencoding shows when a part of it is missing.
-/
structure Codec
    (lt : Libtorrent)
    (config : Config) : Prop where
  reads :
    ∀ params, ∃ atp,
      lt.readResumeData (config.writeResumeDataBuf params) =
          (atp, false) ∧
        atp.toAddTorrentParams = params
  truncated :
    ∀ params count,
      count < (config.writeResumeDataBuf params).length →
        (lt.readResumeData
            ((config.writeResumeDataBuf params).take
              count)).2 = true

end Sheath

end Kedge

------------------------------------------------------------
-- Steps Act on the Store
------------------------------------------------------------

namespace Kedge

namespace Sheath

variable {lt : Libtorrent}
variable {config : Config}
variable {files : FileSystem}

theorem kept_congr
    {other : FileSystem}
    {ih : InfoHash}
    (hSame :
      other (Posix.locate (resumeFile config.dirConf ih)) =
        files (Posix.locate (resumeFile config.dirConf ih))) :
    kept lt config other ih = kept lt config files ih := by
  unfold kept readResume loadFile
  rw [hSame]

/- A file without resume data restores nothing. -/
theorem kept_of_none
    {ih : InfoHash}
    (hNone :
      files (Posix.locate (resumeFile config.dirConf ih)) =
        none) :
    kept lt config files ih = none := by
  unfold kept readResume loadFile
  rw [hNone]
  rfl

/- The files of different torrents are different files. -/
theorem locate_resumeFile_ne
    {a b : InfoHash}
    (hNe : a ≠ b) :
    Posix.locate (resumeFile config.dirConf a) ≠
      Posix.locate (resumeFile config.dirConf b) :=
  fun hSame => hNe (locate_resumeFile_inj hSame)

/- A deletion acts on the store. -/
theorem kept_removeFile
    (encode : AddTorrentParams → Bytes)
    (ih : InfoHash)
    (removal : RemoveOutcome) :
    kept lt config
        (removeFile files (resumeFile config.dirConf ih)
          removal).1 =
      (kept lt config files).act encode
        (.deleted ih removal) := by
  cases removal with
  | refused => rfl
  | allowed =>
      funext other
      dsimp only [Store.act]
      by_cases hSame : other = ih
      · subst hSame
        rw [Function.update_self]
        exact kept_of_none (Function.update_self _ _ _)
      · rw [Function.update_of_ne hSame]
        apply kept_congr
        exact
          Function.update_of_ne (locate_resumeFile_ne hSame)
            _ _

theorem kept_of_some
    {ih : InfoHash}
    {content : Bytes}
    (hContent :
      files (Posix.locate (resumeFile config.dirConf ih)) =
        some content) :
    kept lt config files ih =
      if content.length ≤ loadLimit then
        (decodeResume lt content).map
          TorrentParams.toAddTorrentParams
      else none := by
  unfold kept readResume loadFile
  rw [hContent]
  by_cases hLimit : content.length ≤ loadLimit
  · rw [if_pos hLimit]
    dsimp only
    rw [if_neg (Nat.not_lt.mpr hLimit)]
  · rw [if_neg hLimit]
    dsimp only
    rw [if_pos (Nat.lt_of_not_le hLimit)]
    rfl

theorem decodeResume_written
    (hCodec : Codec lt config)
    (params : AddTorrentParams) :
    (decodeResume lt
        (config.writeResumeDataBuf params)).map
        TorrentParams.toAddTorrentParams =
      some params := by
  rcases hCodec.reads params with ⟨atp, hReads, hParams⟩
  rw [decodeResume, hReads]
  exact congrArg some hParams

theorem decodeResume_truncated
    (hCodec : Codec lt config)
    {params : AddTorrentParams}
    {count : Nat}
    (hCount :
      count < (config.writeResumeDataBuf params).length) :
    decodeResume lt
        ((config.writeResumeDataBuf params).take count) =
      none := by
  have hTruncated := hCodec.truncated params count hCount
  unfold decodeResume
  split
  · rfl
  · next atp hAccepted =>
    rw [hAccepted] at hTruncated
    cases hTruncated

/- What is read back of a file after a save. -/
theorem kept_of_stored
    (hCodec : Codec lt config)
    {params : AddTorrentParams}
    {count : Nat}
    (hContent :
      files
          (Posix.locate
            (resumeFile config.dirConf params.infoHash)) =
        some
          ((config.writeResumeDataBuf params).take count)) :
    kept lt config files params.infoHash =
      if (config.writeResumeDataBuf params).length ≤ count ∧
          (config.writeResumeDataBuf params).length ≤
            loadLimit then
        some params
      else none := by
  rw [kept_of_some hContent]
  by_cases hWhole :
      (config.writeResumeDataBuf params).length ≤ count
  · rw [List.take_of_length_le hWhole,
      decodeResume_written hCodec]
    simp [hWhole]
  · rw [decodeResume_truncated hCodec
      (Nat.lt_of_not_le hWhole)]
    simp [hWhole]

/- A save acts on the store. -/
theorem kept_saveFile
    (hCodec : Codec lt config)
    (params : AddTorrentParams)
    (write : WriteOutcome) :
    kept lt config
        (saveFile config.stream files
          (resumeFile config.dirConf params.infoHash)
          (config.writeResumeDataBuf params) write).1 =
      (kept lt config files).act config.writeResumeDataBuf
        (.saved params write) := by
  cases write with
  | openFailed => rfl
  | stored count =>
      funext ih
      dsimp only [Store.act]
      by_cases hSame : ih = params.infoHash
      · subst hSame
        rw [Function.update_self]
        exact kept_of_stored hCodec
          (Function.update_self _ _ _)
      · rw [Function.update_of_ne hSame]
        apply kept_congr
        exact
          Function.update_of_ne (locate_resumeFile_ne hSame)
            _ _

/- The session state is saved in another file. -/
theorem kept_saveSession
    (out : Bytes)
    (write : WriteOutcome) :
    kept lt config
        (saveSession config.stream files config.dirConf out
          write).1 =
      kept lt config files := by
  cases write with
  | openFailed => rfl
  | stored count =>
      funext ih
      apply kept_congr
      apply Function.update_of_ne
      intro hSame
      have hNames := congrArg Posix.Location.names hSame
      change
        Posix.normalize (resumeFile config.dirConf ih) =
          Posix.normalize (fileSesState config.dirConf)
        at hNames
      have hLast :
          (Posix.normalize
            (fileSesState config.dirConf)).getLast? =
            some sessFile :=
        Posix.getLast?_normalize isName_sessFile
          (pathAppend_of_isName isName_sessFile _)
      rw [← hNames, getLast?_normalize_resumeFile,
        Option.some.injEq] at hLast
      have hLength := congrArg List.length hLast
      rw [List.length_append, length_toHex] at hLength
      exact absurd hLength (by decide)

theorem System.observed_handle
    {s : System}
    {alert : Alert}
    {rest : List Alert}
    (query : Query)
    (write : WriteOutcome)
    (hBatch : s.batch = some (alert :: rest)) :
    s.observed (.handle query write) =
      alert.success?.map fun params =>
        .saved params write := by
  unfold observed
  rw [hBatch]

/- Every step acts on the store as it is observed. -/
theorem kept_step
    {s next : System}
    {action : Action}
    (hCodec : Codec lt config)
    (hStep : s.step config action = some next) :
    kept lt config next.files =
      (s.observed action).toList.foldl
        (Store.act config.writeResumeDataBuf)
        (kept lt config s.files) := by
  cases System.next_of_step hStep with
  | @handle alert rest query write hBatch =>
      rw [System.observed_handle query write hBatch]
      unfold System.handle
      dsimp only
      rw [handleAlert_saved]
      cases hSuccess : alert.success? with
      | none => rfl
      | some params =>
          exact kept_saveFile hCodec params write
  | dropDelete _ => exact kept_removeFile _ _ _
  | saveNext _ _ =>
      unfold System.saveNext
      dsimp only
      split <;> rfl
  | _ => rfl

end Sheath

end Kedge

------------------------------------------------------------
-- Starts, Ends and Crashes
------------------------------------------------------------

namespace Kedge

namespace Sheath

/-
  The program is stopped, or it runs with what it has loaded
  at its start.
-/
inductive Process where
  | stopped (files : FileSystem)
  | running (system : System) (loaded : List TorrentParams)

/-
  The program starts, takes a step, ends after
  `save_all_resume` has returned, or is gone at once.
-/
inductive ProcessEvent where
  | start (values : SessionValues)
      (entries : Option (List DirEntry))
  | act (action : Action)
  | stop (out : Bytes) (write : WriteOutcome)
  | crash

namespace Process

def step
    (lt : Libtorrent)
    (config : Config) :
    Process → ProcessEvent → Option Process
  | .stopped files, .start values entries =>
      some
        (.running (System.init values files)
          (loadResumes lt config.dirConf files entries))
  | .running system loaded, .act action =>
      (system.step config action).map fun next =>
        .running next loaded
  | .running system _, .stop out write =>
      if system.thread = .returned then
        some
          (.stopped
            (saveSession config.stream system.files
              config.dirConf out write).1)
      else none
  | .running system _, .crash => some (.stopped system.files)
  | _, _ => none

/- The files on the disk. -/
def files : Process → FileSystem
  | .stopped files => files
  | .running system _ => system.files

/- What was submitted when the program started. -/
def loaded : Process → List TorrentParams
  | .stopped _ => []
  | .running _ loaded => loaded

def observed :
    Process → ProcessEvent → Option StoreEvent
  | .running system _, .act action => system.observed action
  | _, _ => none

/-
  What the resume data come to that were on the disk at
  first.
-/
def store
    (lt : Libtorrent)
    (config : Config)
    (files : FileSystem)
    (events : List ProcessEvent) : Store :=
  (Run.trace (step lt config) observed (.stopped files)
    events).foldl
    (Store.act config.writeResumeDataBuf)
    (kept lt config files)

end Process

end Sheath

end Kedge

------------------------------------------------------------
-- The Directory and the Store
------------------------------------------------------------

namespace Kedge

namespace Sheath

variable {lt : Libtorrent}
variable {config : Config}

/- The name of a torrent's resume file. -/
def resumeName (ih : InfoHash) : Str :=
  toHex ih ++ resumeExt

theorem resumeName_injective :
    Function.Injective resumeName :=
  fun _ _ hSame =>
    toHex_injective (List.append_cancel_right hSame)

/-
  Every name is found once, and those of all resume files
  are found.
-/
structure Listing
    (config : Config)
    (files : FileSystem)
    (entries : List DirEntry) : Prop where
  once : (entries.map DirEntry.name).Nodup
  complete :
    ∀ ih,
      (files
          (Posix.locate
            (resumeFile config.dirConf ih))).isSome →
        resumeName ih ∈ entries.map DirEntry.name

/- The file of a torrent can be opened and read. -/
def CanRead
    (entries : List DirEntry)
    (ih : InfoHash) : Prop :=
  ∀ entry ∈ entries, entry.name = resumeName ih →
    entry.read = .readable

theorem loadEntry_readable
    {entry : DirEntry}
    {ih : InfoHash}
    (files : FileSystem)
    (hName : entry.name = resumeName ih)
    (hRead : entry.read = .readable) :
    (loadEntry lt config.dirConf files entry).map
        TorrentParams.toAddTorrentParams =
      kept lt config files ih := by
  have hAccepted : isResumeFile entry.name = true :=
    (isResumeFile_iff entry.name).mpr ⟨ih, hName⟩
  unfold loadEntry
  rw [if_pos hAccepted, hRead, hName]
  rfl

/- What is loaded comes from the file of a torrent. -/
theorem exists_hash_of_loadEntry
    {entry : DirEntry}
    {files : FileSystem}
    {atp : TorrentParams}
    (hLoad :
      loadEntry lt config.dirConf files entry = some atp) :
    ∃ ih,
      entry.name = resumeName ih ∧
        entry.read = .readable ∧
        kept lt config files ih =
          some atp.toAddTorrentParams := by
  have hLoaded := hLoad
  rcases Option.ite_none_right_eq_some.mp hLoad with
    ⟨hAccepted, hEntry⟩
  rcases (isResumeFile_iff entry.name).mp hAccepted with
    ⟨ih, hName⟩
  cases hRead : entry.read with
  | failed =>
      rw [hRead] at hEntry
      cases hEntry
  | readable =>
      refine ⟨ih, hName, rfl, ?_⟩
      rw [← loadEntry_readable files hName hRead, hLoaded]
      rfl

theorem loadResumes_cons
    (files : FileSystem)
    (entry : DirEntry)
    (entries : List DirEntry) :
    loadResumes lt config.dirConf files
        (some (entry :: entries)) =
      (loadEntry lt config.dirConf files entry).toList ++
        loadResumes lt config.dirConf files
          (some entries) := by
  unfold loadResumes
  dsimp only
  rw [List.filterMap_cons]
  cases loadEntry lt config.dirConf files entry <;> rfl

/- One torrent for every entry that is loaded. -/
theorem exists_hashes
    (files : FileSystem)
    {entries : List DirEntry}
    (hOnce : (entries.map DirEntry.name).Nodup) :
    ∃ hashes : List InfoHash,
      hashes.Nodup ∧
        (∀ ih, ih ∈ hashes ↔
          (kept lt config files ih).isSome ∧
            ∃ entry ∈ entries, entry.name = resumeName ih ∧
              entry.read = .readable) ∧
        (loadResumes lt config.dirConf files
            (some entries)).map
            TorrentParams.toAddTorrentParams =
          hashes.filterMap (kept lt config files) := by
  induction entries with
  | nil => exact ⟨[], List.nodup_nil, by simp, rfl⟩
  | cons entry entries hRest =>
      rw [List.map_cons, List.nodup_cons] at hOnce
      rcases hRest hOnce.2 with
        ⟨hashes, hNodup, hMember, hLoaded⟩
      rw [loadResumes_cons]
      cases hLoad :
          loadEntry lt config.dirConf files entry with
      | none =>
          refine ⟨hashes, hNodup, ?_, ?_⟩
          · intro ih
            rw [hMember]
            simp only [List.mem_cons, exists_eq_or_imp]
            constructor
            · rintro ⟨hKept, hListed⟩
              exact ⟨hKept, Or.inr hListed⟩
            · rintro ⟨hKept, ⟨hName, hRead⟩ | hListed⟩
              · rw [← loadEntry_readable files hName hRead,
                  hLoad] at hKept
                cases hKept
              · exact ⟨hKept, hListed⟩
          · exact hLoaded
      | some atp =>
          rcases exists_hash_of_loadEntry hLoad with
            ⟨ih, hName, hRead, hKept⟩
          have hNew : ih ∉ hashes := by
            intro hIn
            rcases ((hMember ih).mp hIn).2 with
              ⟨other, hOther, hSame, _⟩
            rw [← hName] at hSame
            apply hOnce.1
            rw [← hSame]
            exact List.mem_map_of_mem hOther
          refine
            ⟨ih :: hashes,
              List.nodup_cons.mpr ⟨hNew, hNodup⟩, ?_, ?_⟩
          · intro other
            rw [List.mem_cons, hMember]
            simp only [List.mem_cons, exists_eq_or_imp]
            constructor
            · rintro (rfl | ⟨hOther, hListed⟩)
              · exact
                  ⟨by rw [hKept]; rfl,
                    Or.inl ⟨hName, hRead⟩⟩
              · exact ⟨hOther, Or.inr hListed⟩
            · rintro ⟨hOther, ⟨hSame, _⟩ | hListed⟩
              · left
                exact
                  resumeName_injective
                    (hSame.symm.trans hName)
              · exact Or.inr ⟨hOther, hListed⟩
          · rw [List.map_append, hLoaded,
              List.filterMap_cons_some hKept]
            rfl

/- A torrent that is kept has a file. -/
theorem isSome_file_of_kept
    {files : FileSystem}
    {ih : InfoHash}
    (hKept : (kept lt config files ih).isSome) :
    (files
      (Posix.locate
        (resumeFile config.dirConf ih))).isSome := by
  rw [← Option.ne_none_iff_isSome] at hKept ⊢
  intro hNone
  exact hKept (kept_of_none hNone)

/-
  A start submits what is kept, in some order and once for
  each torrent.
-/
theorem exists_hashes_of_listing
    {files : FileSystem}
    {entries : List DirEntry}
    (hListing : Listing config files entries) :
    ∃ hashes : List InfoHash,
      hashes.Nodup ∧
        (∀ ih, ih ∈ hashes ↔
          (kept lt config files ih).isSome ∧
            CanRead entries ih) ∧
        (loadResumes lt config.dirConf files
            (some entries)).map
            TorrentParams.toAddTorrentParams =
          hashes.filterMap (kept lt config files) := by
  rcases exists_hashes files hListing.once with
    ⟨hashes, hNodup, hMember, hLoaded⟩
  refine ⟨hashes, hNodup, ?_, hLoaded⟩
  intro ih
  rw [hMember]
  apply and_congr_right
  intro hKept
  rcases List.mem_map.mp
      (hListing.complete ih (isSome_file_of_kept hKept)) with
    ⟨entry, hEntry, hName⟩
  constructor
  · rintro ⟨found, hFound, hSame, hRead⟩ other hOther hNamed
    have hEq : other = found :=
      List.inj_on_of_nodup_map hListing.once hOther hFound
        (hNamed.trans hSame.symm)
    rw [hEq]
    exact hRead
  · intro hCanRead
    exact ⟨entry, hEntry, hName, hCanRead entry hEntry hName⟩

end Sheath

end Kedge

------------------------------------------------------------
-- Every Start Submits What Is Kept
------------------------------------------------------------

namespace Kedge

namespace Sheath

namespace Process

variable {lt : Libtorrent}
variable {config : Config}

theorem kept_files_step
    {p next : Process}
    {event : ProcessEvent}
    (hCodec : Codec lt config)
    (hStep : p.step lt config event = some next) :
    kept lt config next.files =
      (p.observed event).toList.foldl
        (Store.act config.writeResumeDataBuf)
        (kept lt config p.files) := by
  cases p with
  | stopped files =>
      cases event with
      | start values entries =>
          cases hStep
          rfl
      | _ => cases hStep
  | running system loaded =>
      cases event with
      | start values entries => cases hStep
      | act action =>
          rcases Option.map_eq_some_iff.mp hStep with
            ⟨later, hNext, rfl⟩
          exact kept_step hCodec hNext
      | stop out write =>
          rcases Option.ite_none_right_eq_some.mp hStep with
            ⟨_, hNext⟩
          cases hNext
          exact kept_saveSession out write
      | crash =>
          cases hStep
          rfl

theorem kept_files_of_exec
    {files : FileSystem}
    {events : List ProcessEvent}
    {p : Process}
    (hCodec : Codec lt config)
    (hExec :
      Run.exec (step lt config) (.stopped files) events =
        some p) :
    kept lt config p.files =
      store lt config files events := by
  have hImage :
      kept lt config p.files =
        (Run.trace (step lt config) observed (.stopped files)
          events).foldl
          (Store.act config.writeResumeDataBuf)
          (kept lt config (Process.stopped files).files) :=
    Run.image_eq_foldl_trace
      (fun _ _ _ hStep => kept_files_step hCodec hStep)
      hExec
  exact hImage

/- Resume data are kept under the hash they are of. -/
def Owned (kept : Store) : Prop :=
  ∀ ih params, kept ih = some params → params.infoHash = ih

theorem owned_act
    {kept : Store}
    (encode : AddTorrentParams → Bytes)
    (hOwned : Owned kept)
    (event : StoreEvent) :
    Owned (kept.act encode event) := by
  intro ih params hKept
  cases event with
  | saved saved write =>
      cases write with
      | openFailed => exact hOwned ih params hKept
      | stored count =>
          dsimp only [Store.act] at hKept
          by_cases hSame : ih = saved.infoHash
          · subst hSame
            rw [Function.update_self] at hKept
            rcases Option.ite_none_right_eq_some.mp hKept with
              ⟨_, hParams⟩
            cases hParams
            rfl
          · rw [Function.update_of_ne hSame] at hKept
            exact hOwned ih params hKept
  | deleted other removal =>
      cases removal with
      | refused => exact hOwned ih params hKept
      | allowed =>
          dsimp only [Store.act] at hKept
          by_cases hSame : ih = other
          · rw [hSame, Function.update_self] at hKept
            cases hKept
          · rw [Function.update_of_ne hSame] at hKept
            exact hOwned ih params hKept

theorem owned_store
    {files : FileSystem}
    (events : List ProcessEvent)
    (hOwned : Owned (kept lt config files)) :
    Owned (store lt config files events) :=
  List.foldlRecOn _ _ hOwned
    fun _ hKept event _ => owned_act _ hKept event

/- The hashes of what is kept under these hashes. -/
theorem map_infoHash_filterMap
    {kept : Store}
    (hOwned : Owned kept)
    {hashes : List InfoHash}
    (hKept : ∀ ih ∈ hashes, (kept ih).isSome) :
    (hashes.filterMap kept).map AddTorrentParams.infoHash =
      hashes := by
  induction hashes with
  | nil => rfl
  | cons ih hashes hRest =>
      rcases Option.isSome_iff_exists.mp
          (hKept ih List.mem_cons_self) with
        ⟨params, hParams⟩
      have hTail :=
        hRest fun other hIn =>
          hKept other (List.mem_cons_of_mem ih hIn)
      rw [List.filterMap_cons_some hParams, List.map_cons,
        hTail, hOwned ih params hParams]

end Process

end Sheath

end Kedge

------------------------------------------------------------
-- A Codec
------------------------------------------------------------

namespace Kedge

namespace Sheath

/- Resume data behind the number of their bytes. -/
def writeCounted (params : AddTorrentParams) : Bytes :=
  List.replicate params.fields.length 1 ++
    0 :: (params.fields ++ params.infoHash.bytes)

def readCounted (data : Bytes) : TorrentParams × Bool :=
  let count := (data.takeWhile (· = 1)).length
  let rest := data.drop (count + 1)
  if hHash : (rest.drop count).length = 20 then
    ({ plainParams with
        infoHash := ⟨rest.drop count, hHash⟩
        fields := rest.take count },
      false)
  else (plainParams, true)

def countedConfig : Config :=
  { plainConfig with writeResumeDataBuf := writeCounted }

def countedLibtorrent : Libtorrent :=
  { plainLibtorrent with readResumeData := readCounted }

theorem takeWhile_ones
    (count : Nat)
    (rest : Bytes) :
    (List.replicate count (1 : UInt8) ++ 0 :: rest).takeWhile
        (· = 1) =
      List.replicate count 1 := by
  induction count with
  | zero => rfl
  | succ count hRest =>
      rw [List.replicate_succ, List.cons_append,
        List.takeWhile_cons_of_pos (by decide), hRest]

theorem drop_ones
    (count : Nat)
    (rest : Bytes) :
    (List.replicate count (1 : UInt8) ++ 0 :: rest).drop
        (count + 1) =
      rest := by
  rw [List.drop_append, List.length_replicate,
    Nat.add_sub_cancel_left, List.drop_eq_nil_of_le
      (by rw [List.length_replicate]; omega)]
  rfl

theorem readCounted_ones
    (count : Nat)
    (rest : Bytes) :
    readCounted
        (List.replicate count 1 ++ 0 :: rest) =
      if hHash : (rest.drop count).length = 20 then
        ({ plainParams with
            infoHash := ⟨rest.drop count, hHash⟩
            fields := rest.take count },
          false)
      else (plainParams, true) := by
  unfold readCounted
  simp only [takeWhile_ones, List.length_replicate,
    drop_ones]

theorem codec_counted :
    Codec countedLibtorrent countedConfig where
  reads := by
    intro params
    have hHash :
        ((params.fields ++ params.infoHash.bytes).drop
          params.fields.length).length = 20 := by
      rw [List.drop_left]
      exact params.infoHash.length_bytes
    refine
      ⟨_, (readCounted_ones _ _).trans (dif_pos hHash), ?_⟩
    rcases params with ⟨⟨bytes, hBytes⟩, fields⟩
    simp
  truncated := by
    intro params count hCount
    change count < (writeCounted params).length at hCount
    change
      (readCounted ((writeCounted params).take count)).2 =
        true
    unfold writeCounted at hCount ⊢
    rw [List.take_append, List.length_replicate,
      List.take_replicate]
    rcases Nat.lt_or_ge params.fields.length count with
      hMore | hLess
    · rw [Nat.min_eq_right (Nat.le_of_lt hMore)]
      have hRest :
          count - params.fields.length =
            count - params.fields.length - 1 + 1 := by
        omega
      rw [hRest, List.take_succ_cons, readCounted_ones,
        dif_neg]
      have hBytes := params.infoHash.length_bytes
      simp only [List.length_append, List.length_replicate,
        List.length_cons, List.length_drop,
        List.length_take] at hCount ⊢
      omega
    · rw [Nat.min_eq_left hLess,
        Nat.sub_eq_zero_of_le hLess, List.take_zero,
        List.append_nil]
      unfold readCounted
      simp

/- The only resume file is that of one torrent. -/
def oneResume (params : AddTorrentParams) : FileSystem :=
  Function.update (fun _ => none)
    (Posix.locate
      (resumeFile countedConfig.dirConf params.infoHash))
    (some (writeCounted params))

theorem listing_oneResume
    (params : AddTorrentParams) :
    Listing countedConfig (oneResume params)
      [⟨resumeName params.infoHash, .readable⟩] where
  once := List.nodup_singleton _
  complete := by
    intro ih hFile
    by_cases hSame : ih = params.infoHash
    · rw [hSame]
      exact List.mem_singleton_self _
    · have hNone :
          oneResume params
              (Posix.locate
                (resumeFile countedConfig.dirConf ih)) =
            none :=
        Function.update_of_ne (locate_resumeFile_ne hSame) _ _
      rw [hNone] at hFile
      cases hFile

end Sheath

end Kedge

------------------------------------------------------------
-- Starts After Any Run
------------------------------------------------------------

namespace Kedge

namespace Sheath

namespace Process

/-
  However often the program was started, ended and crashed,
  at every start it submits the resume data that are kept
  for some torrent: those that were last saved completely
  and within the limit of the reader, behind which the file
  was neither opened for another save nor removed. Each is
  submitted once, and no torrent twice when the first start
  found every resume file under the hash of its torrent.
-/
theorem start_submits_kept
    (lt : Libtorrent)
    (config : Config)
    (hCodec : Codec lt config)
    (files : FileSystem)
    (events : List ProcessEvent)
    (p next : Process)
    (hExec :
      Run.exec (step lt config) (.stopped files) events =
        some p)
    (values : SessionValues)
    (entries : List DirEntry)
    (hListing : Listing config p.files entries)
    (hStart :
      p.step lt config (.start values (some entries)) =
        some next) :
    (∃ hashes : List InfoHash,
      hashes.Nodup ∧
        (∀ ih, ih ∈ hashes ↔
          (store lt config files events ih).isSome ∧
            CanRead entries ih) ∧
        next.loaded.map TorrentParams.toAddTorrentParams =
          hashes.filterMap (store lt config files events)) ∧
      (Owned (kept lt config files) →
        (next.loaded.map fun atp => atp.infoHash).Nodup) := by
  have hKept := kept_files_of_exec hCodec hExec
  cases p with
  | running system loaded => cases hStart
  | stopped disk =>
      cases hStart
      rcases exists_hashes_of_listing hListing with
        ⟨hashes, hNodup, hMember, hLoaded⟩
      change kept lt config disk = _ at hKept
      change ∀ ih, ih ∈ hashes ↔
        (kept lt config disk ih).isSome ∧ _ at hMember
      change _ = hashes.filterMap (kept lt config disk)
        at hLoaded
      rw [hKept] at hMember hLoaded
      refine ⟨⟨hashes, hNodup, hMember, hLoaded⟩, ?_⟩
      intro hOwned
      have hHashes :=
        map_infoHash_filterMap (owned_store events hOwned)
          fun ih hIn => ((hMember ih).mp hIn).1
      rw [← hLoaded, List.map_map] at hHashes
      rw [← hHashes] at hNodup
      exact hNodup

/- One torrent is saved, and the program crashes. -/
def saveThenCrash : List ProcessEvent :=
  .start ⟨[], [], 0, 0⟩ (some []) ::
    [.add zeroHash, .post (.addTorrent firstTorrent false),
      .pop, .handle plainQuery (.stored 0), .popDone,
      .answer 0 (.saved [1]), .pop,
      .handle plainQuery (.stored 23)].map .act ++
    [.crash]

theorem start_submits_kept_after_crash :
    ∃ p next,
      Run.exec (step countedLibtorrent countedConfig)
          (.stopped fun _ => none) saveThenCrash =
        some p ∧
      p.step countedLibtorrent countedConfig
          (.start ⟨[], [], 0, 0⟩
            (some [⟨resumeName zeroHash, .readable⟩])) =
        some next ∧
      next.loaded.map TorrentParams.toAddTorrentParams =
        [⟨zeroHash, [1]⟩] ∧
      (next.loaded.map fun atp => atp.infoHash).Nodup := by
  have hExec :
      Run.exec (step countedLibtorrent countedConfig)
          (.stopped fun _ => none) saveThenCrash =
        some (.stopped (oneResume ⟨zeroHash, [1]⟩)) := rfl
  have hOwned :
      Owned
        (kept countedLibtorrent countedConfig
          fun _ => none) := by
    intro ih params hKept
    cases hKept
  refine ⟨_, _, hExec, rfl, by decide, ?_⟩
  exact
    (start_submits_kept countedLibtorrent countedConfig
      codec_counted (fun _ => none) saveThenCrash _ _ hExec
      ⟨[], [], 0, 0⟩ _ (listing_oneResume ⟨zeroHash, [1]⟩)
      rfl).2 hOwned

end Process

end Sheath

end Kedge

------------------------------------------------------------
-- The Last Answers of a Run
------------------------------------------------------------

namespace Kedge

namespace Sheath

/- The resume data of a save. -/
def StoreEvent.saved? :
    StoreEvent → Option AddTorrentParams
  | .saved params _ => some params
  | .deleted _ _ => none

/- The torrent is not dropped, and its saves succeed. -/
def StoreEvent.Preserves
    (encode : AddTorrentParams → Bytes)
    (ih : InfoHash) : StoreEvent → Prop
  | .saved params write =>
      params.infoHash = ih →
        ∃ count, write = .stored count ∧
          (encode params).length ≤ count ∧
          (encode params).length ≤ loadLimit
  | .deleted other _ => other ≠ ih

theorem act_of_preserves
    {encode : AddTorrentParams → Bytes}
    {ih : InfoHash}
    {event : StoreEvent}
    (hPreserves : event.Preserves encode ih)
    (kept : Store) :
    kept.act encode event ih =
      (event.saved?.filter (·.infoHash = ih)).or
        (kept ih) := by
  cases event with
  | saved params write =>
      by_cases hSame : params.infoHash = ih
      · rcases hPreserves hSame with
          ⟨count, rfl, hWhole, hLimit⟩
        subst hSame
        simp [Store.act, StoreEvent.saved?,
          Option.filter_some, hWhole, hLimit]
      · cases write with
        | openFailed =>
            simp [Store.act, StoreEvent.saved?,
              Option.filter_some, hSame]
        | stored count =>
            simp [Store.act, StoreEvent.saved?,
              Option.filter_some, hSame,
              Function.update_of_ne (Ne.symm hSame)]
  | deleted other removal =>
      cases removal with
      | refused => simp [Store.act, StoreEvent.saved?]
      | allowed =>
          simp [Store.act, StoreEvent.saved?,
            Function.update_of_ne (Ne.symm hPreserves)]

/- Without drops and failed saves the last save counts. -/
theorem foldl_act_of_preserves
    {encode : AddTorrentParams → Bytes}
    {ih : InfoHash}
    {events : List StoreEvent}
    (hPreserves :
      ∀ event ∈ events, event.Preserves encode ih)
    (kept : Store) :
    events.foldl (Store.act encode) kept ih =
      ((events.filterMap StoreEvent.saved?).filter
          (·.infoHash = ih)).getLast?.or (kept ih) := by
  induction events generalizing kept with
  | nil => rfl
  | cons event events hRest =>
      have hFirst :=
        act_of_preserves
          (hPreserves event List.mem_cons_self) kept
      have hLater :=
        hRest
          (fun other hIn =>
            hPreserves other (List.mem_cons_of_mem event hIn))
          (kept.act encode event)
      rw [List.foldl_cons, hLater, hFirst]
      cases hSaved : event.saved? with
      | none => rw [List.filterMap_cons_none hSaved]; rfl
      | some params =>
          rw [List.filterMap_cons_some hSaved]
          by_cases hSame : params.infoHash = ih
          · rw [List.filter_cons_of_pos (by simpa using hSame),
              List.getLast?_cons]
            cases
              ((events.filterMap StoreEvent.saved?).filter
                (·.infoHash = ih)).getLast? <;>
              simp [Option.filter_some, hSame]
          · rw [List.filter_cons_of_neg (by simpa using hSame)]
            simp [Option.filter_some, hSame]

variable {lt : Libtorrent}
variable {config : Config}

/- The calls of `save_file` are the saves observed. -/
theorem saves_eq_map_trace
    {s finish : System}
    {actions : List Action}
    (hExec :
      Run.exec (System.step config) s actions =
        some finish) :
    finish.saves =
      s.saves ++
        ((Run.trace (System.step config) System.observed s
          actions).filterMap StoreEvent.saved?).map
          (saveCall config) := by
  induction actions generalizing s with
  | nil =>
      cases hExec
      exact (List.append_nil _).symm
  | cons action actions hRest =>
      rcases Option.bind_eq_some_iff.mp hExec with
        ⟨next, hNext, hLater⟩
      have hFirst :
          next.saves =
            s.saves ++
              ((s.observed action).toList.filterMap
                StoreEvent.saved?).map (saveCall config) := by
        cases System.next_of_step hNext with
        | @handle alert rest query write hBatch =>
            rw [System.observed_handle query write hBatch]
            unfold System.handle
            dsimp only
            rw [handleAlert_saved]
            cases alert.success? <;> rfl
        | dropDelete _ => exact (List.append_nil _).symm
        | saveNext _ _ =>
            unfold System.saveNext
            dsimp only
            split <;> exact (List.append_nil _).symm
        | _ => exact (List.append_nil _).symm
      rw [Run.trace_cons hNext, hRest hLater, hFirst,
        List.filterMap_append, List.map_append,
        List.append_assoc]

/- When `save_all_resume` has returned, all is saved. -/
theorem System.Accounted.saves_of_returned
    {s : System}
    (hAccounted : s.Accounted config)
    (hReturned : s.thread = .returned) :
    s.saves = s.successes.map (saveCall config) := by
  have hCounter := hAccounted.counter
  have hNone := (hAccounted.returned hReturned).2
  have hAnswers : s.alerts.countP Alert.isAnswer = 0 := by
    unfold System.unhandled at hCounter
    omega
  have hSuccesses :
      s.alerts.filterMap Alert.success? = [] := by
    rw [List.filterMap_eq_nil_iff]
    intro alert hIn
    rw [List.countP_eq_zero] at hAnswers
    cases hSuccess : alert.success? with
    | none => rfl
    | some params =>
        exact
          absurd (isAnswer_of_success hSuccess)
            (hAnswers alert hIn)
  have hSaves := hAccounted.saves
  rw [hSuccesses, List.map_nil, List.append_nil] at hSaves
  exact hSaves.symm

theorem saveCall_injective
    (hCodec : Codec lt config) :
    Function.Injective (saveCall config) := by
  intro a b hSame
  have hBytes :
      config.writeResumeDataBuf a =
        config.writeResumeDataBuf b :=
    congrArg Prod.snd hSame
  have hA := decodeResume_written hCodec a
  rw [hBytes, decodeResume_written hCodec b] at hA
  exact (Option.some.inj hA).symm

namespace Process

/- The steps of a run are those of the sheath. -/
theorem exec_act
    {s : System}
    {loaded : List TorrentParams}
    {actions : List Action}
    {p : Process}
    (hExec :
      Run.exec (step lt config) (.running s loaded)
          (actions.map .act) =
        some p) :
    ∃ finish,
      p = .running finish loaded ∧
        Run.exec (System.step config) s actions =
          some finish ∧
        Run.trace (step lt config) observed
            (.running s loaded) (actions.map .act) =
          Run.trace (System.step config) System.observed s
            actions := by
  induction actions generalizing s with
  | nil =>
      cases hExec
      exact ⟨s, rfl, rfl, rfl⟩
  | cons action actions hRest =>
      rcases Option.bind_eq_some_iff.mp hExec with
        ⟨next, hNext, hLater⟩
      rcases Option.map_eq_some_iff.mp hNext with
        ⟨later, hStep, rfl⟩
      rcases hRest hLater with
        ⟨finish, hFinish, hActions, hTrace⟩
      refine ⟨finish, hFinish, ?_, ?_⟩
      · rw [Run.exec_cons, hStep]
        exact hActions
      · rw [Run.trace_cons hStep, ← hTrace, List.map_cons,
          Run.trace_cons hNext]
        rfl

/- What the last answers of a whole run leave behind. -/
theorem kept_of_stop
    (hCodec : Codec lt config)
    {files : FileSystem}
    {values : SessionValues}
    {actions : List Action}
    {s : System}
    {ih : InfoHash}
    (hExec :
      Run.exec (System.step config)
          (System.init values files) actions =
        some s)
    (hReturned : s.thread = .returned)
    (hPreserves :
      ∀ event ∈
          Run.trace (System.step config) System.observed
            (System.init values files) actions,
        event.Preserves config.writeResumeDataBuf ih) :
    kept lt config s.files ih =
      (s.successes.filter (·.infoHash = ih)).getLast?.or
        (kept lt config files ih) := by
  have hKept :
      kept lt config s.files =
        (Run.trace (System.step config) System.observed
            (System.init values files) actions).foldl
          (Store.act config.writeResumeDataBuf)
          (kept lt config (System.init values files).files) :=
    Run.image_eq_foldl_trace
      (fun _ _ _ hStep => kept_step hCodec hStep) hExec
  have hSaves := saves_eq_map_trace hExec
  rw [(System.accounted_of_exec hExec).saves_of_returned
    hReturned] at hSaves
  have hSuccesses :=
    (saveCall_injective hCodec).list_map hSaves
  rw [hKept, foldl_act_of_preserves hPreserves, hSuccesses]
  rfl

/-
  A run that ends after `save_all_resume` loses nothing that
  `libtorrent` had answered: for a torrent that was not
  dropped, and whose saves were complete and within the
  limit of the reader, the next start submits the last
  resume data that `libtorrent` has given in this run or, if
  it gave none, what the run before had left.
-/
theorem restart_keeps_answers
    (lt : Libtorrent)
    (config : Config)
    (hCodec : Codec lt config)
    (files : FileSystem)
    (values later : SessionValues)
    (first : Option (List DirEntry))
    (entries : List DirEntry)
    (actions : List Action)
    (s : System)
    (loaded : List TorrentParams)
    (hExec :
      Run.exec (step lt config) (.stopped files)
          (.start values first :: actions.map .act) =
        some (.running s loaded))
    (out : Bytes)
    (write : WriteOutcome)
    (p next : Process)
    (hStop :
      (Process.running s loaded).step lt config
          (.stop out write) =
        some p)
    (hListing : Listing config p.files entries)
    (hStart :
      p.step lt config (.start later (some entries)) =
        some next)
    (ih : InfoHash)
    (hPreserves :
      ∀ event ∈
          Run.trace (step lt config) observed
            (.stopped files)
            (.start values first :: actions.map .act),
        event.Preserves config.writeResumeDataBuf ih)
    (hCanRead : CanRead entries ih) :
    ∀ params,
      (s.successes.filter (·.infoHash = ih)).getLast?.or
          (kept lt config files ih) =
        some params →
      params ∈
        next.loaded.map
          TorrentParams.toAddTorrentParams := by
  intro params hLast
  rcases Option.ite_none_right_eq_some.mp hStop with
    ⟨hReturned, hStopped⟩
  cases hStopped
  cases hStart
  rcases Option.bind_eq_some_iff.mp hExec with
    ⟨_, hFirst, hActions⟩
  cases hFirst
  rcases exec_act hActions with
    ⟨finish, hFinish, hSystem, hTrace⟩
  cases hFinish
  have hPreserved :
      ∀ event ∈
          Run.trace (System.step config) System.observed
            (System.init values files) actions,
        event.Preserves config.writeResumeDataBuf ih := by
    intro event hIn
    rw [← hTrace] at hIn
    exact hPreserves event hIn
  have hKept :=
    kept_of_stop hCodec hSystem hReturned hPreserved
  rw [hLast] at hKept
  rcases exists_hashes_of_listing hListing with
    ⟨hashes, _, hMember, hLoaded⟩
  have hAfter :
      kept lt config
          (saveSession config.stream s.files config.dirConf
            out write).1
          ih =
        some params := by
    rw [kept_saveSession]
    exact hKept
  have hSubmitted :
      params ∈
        (loadResumes lt config.dirConf
            (saveSession config.stream s.files config.dirConf
              out write).1
            (some entries)).map
          TorrentParams.toAddTorrentParams := by
    have hIn :=
      (hMember ih).mpr
        ⟨Option.isSome_of_eq_some hAfter, hCanRead⟩
    exact
      hLoaded ▸ List.mem_filterMap.mpr ⟨ih, hIn, hAfter⟩
  exact hSubmitted

/- The steps of a run that saves its only torrent. -/
def saveAndReturn : List Action :=
  [.add zeroHash, .saveAll [firstTorrent], .saveNext,
    .saveLoopDone, .answer 0 (.saved [1]), .waitAlert,
    .handle plainQuery (.stored 23), .popDone, .saveReturn]

theorem restart_keeps_answers_one_torrent :
    ∃ s p next,
      Run.exec (step countedLibtorrent countedConfig)
          (.stopped fun _ => none)
          (.start ⟨[], [], 0, 0⟩ none ::
            saveAndReturn.map .act) =
        some (.running s []) ∧
      (Process.running s []).step countedLibtorrent
          countedConfig (.stop [100, 101] .openFailed) =
        some p ∧
      p.step countedLibtorrent countedConfig
          (.start ⟨[], [], 0, 0⟩
            (some [⟨resumeName zeroHash, .readable⟩])) =
        some next ∧
      ⟨zeroHash, [1]⟩ ∈
        next.loaded.map
          TorrentParams.toAddTorrentParams := by
  have hRun :
      ∃ s,
        Run.exec (step countedLibtorrent countedConfig)
            (.stopped fun _ => none)
            (.start ⟨[], [], 0, 0⟩ none ::
              saveAndReturn.map .act) =
          some (.running s []) ∧
        s.thread = .returned ∧
        s.files = oneResume ⟨zeroHash, [1]⟩ ∧
        s.successes = [⟨zeroHash, [1]⟩] :=
    ⟨_, rfl, rfl, rfl, rfl⟩
  rcases hRun with
    ⟨s, hExec, hReturned, hFiles, hSuccesses⟩
  have hStop :
      (Process.running s []).step countedLibtorrent
          countedConfig (.stop [100, 101] .openFailed) =
        some (.stopped (oneResume ⟨zeroHash, [1]⟩)) := by
    rw [← hFiles]
    exact if_pos hReturned
  have hTrace :
      Run.trace (step countedLibtorrent countedConfig)
          observed (.stopped fun _ => none)
          (.start ⟨[], [], 0, 0⟩ none ::
            saveAndReturn.map .act) =
        [.saved ⟨zeroHash, [1]⟩ (.stored 23)] := rfl
  refine ⟨s, _, _, hExec, hStop, rfl, ?_⟩
  refine
    restart_keeps_answers countedLibtorrent countedConfig
      codec_counted (fun _ => none) ⟨[], [], 0, 0⟩
      ⟨[], [], 0, 0⟩ none
      [⟨resumeName zeroHash, .readable⟩] saveAndReturn s []
      hExec [100, 101] .openFailed _ _ hStop
      (listing_oneResume ⟨zeroHash, [1]⟩) rfl zeroHash ?_ ?_
      ⟨zeroHash, [1]⟩ ?_
  · rw [hTrace]
    intro event hIn
    cases List.mem_singleton.mp hIn
    intro _
    exact ⟨23, rfl, by decide, by decide⟩
  · intro entry hIn _
    cases List.mem_singleton.mp hIn
    rfl
  · rw [hSuccesses]
    rfl

end Process

end Sheath

end Kedge
