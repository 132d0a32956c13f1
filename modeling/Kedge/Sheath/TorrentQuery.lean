import Mathlib.Algebra.Group.Int.Defs
import Kedge.Http.Torrent
import Kedge.Library.Cursor
import Kedge.Sheath.Status

/-
  Queries about one torrent: `sheath::get_torrent` in
  `src/sheath.cpp`.

  The list of files is made from four queries: for the
  progress of the files, for the files that are open, for
  the priorities and for the metadata. The torrent may get
  its metadata between any two of them, and what they return
  is combined by the index of the file.

  Key definitions include:
    * `TorrentView`
    * `FileQueries`
    * `getTorrent`
    * `Answering`

  Main theorems include:
    * `query_files_safe_iff`
    * `file_listing_correct`
-/

------------------------------------------------------------
-- What the Queries Return
------------------------------------------------------------

namespace Kedge

namespace Sheath

/- A file of a torrent. -/
structure FileEntry where
  name : Str
  size : Int64
  deriving DecidableEq

/- The files of `lt::torrent_info`, the metadata. -/
structure FileStorage where
  files : List FileEntry
  deriving DecidableEq

/- `rw_mask` of an open mode; `other` is no known mode. -/
inductive OpenMode where
  | readWrite
  | readOnly
  | writeOnly
  | other
  deriving DecidableEq, Repr

/- `lt::open_file_state`. -/
structure OpenFileState where
  fileIndex : ℤ
  openMode : OpenMode
  randomAccess : Bool
  sparse : Bool
  deriving DecidableEq

/-
  A torrent at one moment. The lists have an element for
  each file, and none while the metadata are missing.
-/
structure TorrentView where
  metadata : Option FileStorage
  fileProgress : List Int64
  filePriorities : List UInt8
  fileStatus : List OpenFileState
  length_fileProgress :
    fileProgress.length =
      (metadata.elim [] FileStorage.files).length
  length_filePriorities :
    filePriorities.length =
      (metadata.elim [] FileStorage.files).length

/- Later on the metadata are the same, or have arrived. -/
def TorrentView.Before (a b : TorrentView) : Prop :=
  ∀ ti, a.metadata = some ti → b.metadata = some ti

/- The torrent at the moments of the four queries. -/
structure FileQueries where
  fileProgress : TorrentView
  fileStatus : TorrentView
  filePriorities : TorrentView
  torrentFile : TorrentView
  before_status : fileProgress.Before fileStatus
  before_priorities : fileStatus.Before filePriorities
  before_torrentFile : filePriorities.Before torrentFile

end Sheath

end Kedge

------------------------------------------------------------
-- The List of Files
------------------------------------------------------------

namespace Kedge

open Json

namespace Sheath

/- What must not happen in `get_torrent`. -/
inductive Fault where
  | nullTorrentInfo
  | fileProgress (idx : Nat)
  | filePriorities (idx : Nat)
  deriving DecidableEq, Repr

/- The progress of a file in thousandths. -/
def progressOf (done size : Int64) : Int32 :=
  if size > 0 then (done * 1000 / size).toInt32 else 1000

def isComplete (done size : Int64) : Bool :=
  done = size

/- The members that show how a file is open. -/
def openStates (f : OpenFileState) : List Guarded :=
  let state := "state".toList
  [⟨decide (f.openMode = .readWrite), state,
      .string "read/write".toList⟩,
    ⟨decide (f.openMode = .readOnly), state,
      .string "read".toList⟩,
    ⟨decide (f.openMode = .writeOnly), state,
      .string "write".toList⟩,
    ⟨f.randomAccess, state,
      .string "random_access".toList⟩,
    ⟨f.sparse, state, .string "sparse".toList⟩]

/- The object of a file. -/
def fileObject
    (file : FileEntry)
    (done : Int64)
    (priority : UInt8)
    (opened : Option OpenFileState) : Json.Members :=
  emplaceAll
    [("name".toList, .string file.name),
      ("size".toList, .int64 file.size),
      ("progress".toList,
        jsonInt (progressOf done file.size)),
      ("complete".toList,
        .bool_ (isComplete done file.size)),
      ("priority".toList, .uint64 priority.toUInt64)]
    (opened.elim [] openStates)

/-
  The loop over the files, from the index `idx` on, with the
  cursor `f`. Its assertion is not part of a release build.
-/
def filesLoop
    (fileProgress : List Int64)
    (filePrio : List UInt8) :
    Nat → List OpenFileState → List FileEntry →
      Except Fault (List Value)
  | _, _, [] => .ok []
  | idx, f, file :: files =>
      match fileProgress[idx]?, filePrio[idx]? with
      | none, _ => .error (.fileProgress idx)
      | some _, none => .error (.filePriorities idx)
      | some done, some priority =>
          let cursor :=
            Cursor.advance OpenFileState.fileIndex idx f
          let object := fileObject file done priority cursor.1
          match filesLoop fileProgress filePrio (idx + 1)
              cursor.2 files with
          | .error fault => .error fault
          | .ok data => .ok (.object object :: data)

/- The branch of `get_torrent` that lists the files. -/
def getTorrentFiles (q : FileQueries) : Except Fault Value :=
  match q.torrentFile.metadata with
  | none => .error .nullTorrentInfo
  | some ti =>
      match filesLoop q.fileProgress.fileProgress
          q.filePriorities.filePriorities 0
          q.fileStatus.fileStatus ti.files with
      | .error fault => .error fault
      | .ok data => .ok (.array data)

end Sheath

end Kedge

------------------------------------------------------------
-- All Queries
------------------------------------------------------------

namespace Kedge

open Json

namespace Sheath

/- The members of `lt::peer_info` that are read. -/
structure PeerInfo where
  client : Str
  ip : Str
  port : UInt16
  flags : Int32
  utpSocket : Bool
  source : Int32
  progressPpm : Int32
  downSpeed : Int32
  upSpeed : Int32
  numPieces : Int32
  deriving DecidableEq

/- The object of a peer. -/
def peerObject (i : PeerInfo) : Json.Members :=
  emplaceAll
    [("client".toList, .string i.client),
      ("ip".toList, .string i.ip),
      ("port".toList, .uint64 i.port.toUInt64),
      ("flag".toList, jsonInt i.flags),
      ("source".toList, jsonInt i.source),
      ("progress".toList, jsonInt i.progressPpm),
      ("down_speed".toList, jsonInt i.downSpeed),
      ("up_speed".toList, jsonInt i.upSpeed),
      ("num_pieces".toList, jsonInt i.numPieces)]
    [⟨i.utpSocket, "uTP".toList, .bool_ true⟩]

/- What a torrent of the session answers to the queries. -/
structure TorrentAccess where
  status : TorrentStatus
  peers : List PeerInfo
  files : FileQueries

/- `sheath::get_torrent` with what `find_torrent` finds. -/
def getTorrent
    (th : Option TorrentAccess)
    (flags : Http.QueryFlags) : Except Fault Value :=
  match th with
  | none => .ok .null
  | some t =>
      match flags with
      | .basic =>
          .ok (.object (torrentStatusToJsonObj t.status))
      | .peers =>
          .ok
            (.array (t.peers.map fun i =>
              .object (peerObject i)))
      | .files => getTorrentFiles t.files

/-
  The answers that the handlers get are those of the
  torrents that `find_torrent` finds, as long as
  `get_torrent` returns.
-/
structure Answering
    (findTorrent : InfoHash → Option TorrentAccess)
    (answers : Http.Answers) : Prop where
  exists_ :
    ∀ ih, answers.exists_ ih = (findTorrent ih).isSome
  getTorrent :
    ∀ ih flags value,
      getTorrent (findTorrent ih) flags = .ok value →
        answers.getTorrent ih flags = value

/- These answers, with null where there is none. -/
def answersOf
    (findTorrent : InfoHash → Option TorrentAccess) :
    Http.Answers where
  exists_ := fun ih => (findTorrent ih).isSome
  getTorrent := fun ih flags =>
    (getTorrent (findTorrent ih) flags).toOption.getD .null

theorem answering_answersOf
    (findTorrent : InfoHash → Option TorrentAccess) :
    Answering findTorrent (answersOf findTorrent) where
  exists_ := fun _ => rfl
  getTorrent := by
    intro ih flags value hValue
    unfold answersOf
    dsimp only
    rw [hValue]
    rfl

end Sheath

end Kedge

------------------------------------------------------------
-- The Loop
------------------------------------------------------------

namespace Kedge

open Json

namespace Sheath

/-
  With an element for every index the loop goes through, and
  the entry of a file is made from its own elements and what
  the cursor gives for its index.
-/
theorem exists_filesLoop_eq
    {fileProgress : List Int64}
    {filePrio : List UInt8}
    {idx : Nat}
    {f : List OpenFileState}
    {files : List FileEntry}
    (hProgress : idx + files.length ≤ fileProgress.length)
    (hPrio : idx + files.length ≤ filePrio.length) :
    ∃ data,
      filesLoop fileProgress filePrio idx f files = .ok data ∧
        data.length = files.length ∧
        ∀ (k : Nat) file,
          files[k]? = some file →
            ∃ done priority,
              fileProgress[idx + k]? = some done ∧
                filePrio[idx + k]? = some priority ∧
                data[k]? =
                  some
                    (.object
                      (fileObject file done priority
                        (Cursor.nth OpenFileState.fileIndex
                          idx k f))) := by
  induction files generalizing idx f with
  | nil => exact ⟨[], rfl, rfl, by simp⟩
  | cons file files ih =>
      rw [List.length_cons] at hProgress hPrio
      have hDone : idx < fileProgress.length := by omega
      have hPriority : idx < filePrio.length := by omega
      rcases @ih (idx + 1)
          (Cursor.advance OpenFileState.fileIndex idx f).2
          (by omega) (by omega) with
        ⟨data, hLoop, hLength, hRest⟩
      let entry : Value :=
        .object
          (fileObject file fileProgress[idx] filePrio[idx]
            (Cursor.nth OpenFileState.fileIndex idx 0 f))
      refine ⟨entry :: data, ?_, ?_, ?_⟩
      · rw [filesLoop, List.getElem?_eq_getElem hDone,
          List.getElem?_eq_getElem hPriority]
        dsimp only
        rw [hLoop]
        rfl
      · rw [List.length_cons, List.length_cons, hLength]
      · intro k other hFile
        cases k with
        | zero =>
            cases hFile
            exact ⟨fileProgress[idx], filePrio[idx],
              List.getElem?_eq_getElem hDone,
              List.getElem?_eq_getElem hPriority, rfl⟩
        | succ k =>
            rcases hRest k other hFile with
              ⟨done, priority, hOwn, hOwnPriority, hEntry⟩
            have hIndex : idx + (k + 1) = idx + 1 + k := by
              omega
            rw [hIndex, Cursor.nth, ← Int.natCast_succ]
            exact ⟨done, priority, hOwn, hOwnPriority, hEntry⟩

/- The metadata of the first query are those of the last. -/
theorem metadata_of_fileProgress
    {q : FileQueries}
    {ti : FileStorage}
    (hMeta : q.fileProgress.metadata = some ti) :
    q.filePriorities.metadata = some ti ∧
      q.torrentFile.metadata = some ti := by
  have hStatus := q.before_status ti hMeta
  have hPriorities := q.before_priorities ti hStatus
  exact ⟨hPriorities, q.before_torrentFile ti hPriorities⟩

/- The lists have an element for each file of the torrent. -/
theorem lengths_of_fileProgress
    {q : FileQueries}
    {ti : FileStorage}
    (hMeta : q.fileProgress.metadata = some ti) :
    q.fileProgress.fileProgress.length = ti.files.length ∧
      q.filePriorities.filePriorities.length =
        ti.files.length := by
  have hPriorities := (metadata_of_fileProgress hMeta).1
  have hProgress := q.fileProgress.length_fileProgress
  have hPrio := q.filePriorities.length_filePriorities
  rw [hMeta] at hProgress
  rw [hPriorities] at hPrio
  exact ⟨hProgress, hPrio⟩

end Sheath

end Kedge

------------------------------------------------------------
-- Safety
------------------------------------------------------------

namespace Kedge

open Json

namespace Sheath

/-
  The metadata are there at the first query, or at the last
  one and name no file.
-/
def FileQueries.Listable (q : FileQueries) : Prop :=
  q.fileProgress.metadata ≠ none ∨
    ∃ ti,
      q.torrentFile.metadata = some ti ∧ ti.files = []

theorem getTorrentFiles_ok_iff
    (q : FileQueries) :
    (∃ value, getTorrentFiles q = .ok value) ↔
      q.Listable := by
  unfold getTorrentFiles FileQueries.Listable
  cases hFirst : q.fileProgress.metadata with
  | some ti =>
      have hLengths := lengths_of_fileProgress hFirst
      rcases @exists_filesLoop_eq
          q.fileProgress.fileProgress
          q.filePriorities.filePriorities 0
          q.fileStatus.fileStatus ti.files
          (by omega) (by omega) with ⟨data, hLoop, _⟩
      rw [(metadata_of_fileProgress hFirst).2]
      dsimp only
      rw [hLoop]
      simp
  | none =>
      have hEmpty : q.fileProgress.fileProgress = [] := by
        have hLength := q.fileProgress.length_fileProgress
        rw [hFirst] at hLength
        exact List.eq_nil_of_length_eq_zero hLength
      cases hLast : q.torrentFile.metadata with
      | none => simp
      | some ti =>
          cases hFiles : ti.files with
          | nil => simp [filesLoop, hFiles]
          | cons file files =>
              -- The first index is already out of range.
              simp [filesLoop, hEmpty, hFiles]

/-
  The list of files is made without a null pointer and
  without an index out of range exactly when the metadata
  are there at the first query, or at the last one and name
  no file.
-/
theorem query_files_safe_iff
    (t : TorrentAccess) :
    (∃ value, getTorrent (some t) .files = .ok value) ↔
      t.files.fileProgress.metadata ≠ none ∨
        ∃ ti,
          t.files.torrentFile.metadata = some ti ∧
            ti.files = [] :=
  getTorrentFiles_ok_iff t.files

/- A magnet link whose metadata have not arrived. -/
def waitingView : TorrentView where
  metadata := none
  fileProgress := []
  filePriorities := []
  fileStatus := []
  length_fileProgress := rfl
  length_filePriorities := rfl

/- The same torrent with its only file, which is open. -/
def arrivedView : TorrentView where
  metadata := some ⟨[⟨['a'], 5⟩]⟩
  fileProgress := [4]
  filePriorities := [4]
  fileStatus := [⟨0, .readWrite, true, false⟩]
  length_fileProgress := rfl
  length_filePriorities := rfl

/- All queries see the same torrent. -/
def FileQueries.still (view : TorrentView) : FileQueries where
  fileProgress := view
  fileStatus := view
  filePriorities := view
  torrentFile := view
  before_status := fun _ hMeta => hMeta
  before_priorities := fun _ hMeta => hMeta
  before_torrentFile := fun _ hMeta => hMeta

/- The metadata arrive behind the first query. -/
def FileQueries.late : FileQueries where
  fileProgress := waitingView
  fileStatus := arrivedView
  filePriorities := arrivedView
  torrentFile := arrivedView
  before_status := fun _ hMeta => by cases hMeta
  before_priorities := fun _ hMeta => hMeta
  before_torrentFile := fun _ hMeta => hMeta

def accessWith (files : FileQueries) : TorrentAccess where
  status := { handle := ⟨0, Http.repeatedHash⟩ }
  peers := []
  files := files

/- The metadata never arrive, or behind the first query. -/
theorem query_files_unsafe :
    getTorrent (some (accessWith (.still waitingView)))
          .files =
        .error .nullTorrentInfo ∧
      getTorrent (some (accessWith .late)) .files =
        .error (.fileProgress 0) := by
  exact ⟨rfl, rfl⟩

end Sheath

end Kedge

------------------------------------------------------------
-- The Progress of a File
------------------------------------------------------------

namespace Kedge

open Json

namespace Sheath

/- The product stays within 64 bits. -/
theorem toInt_mul_thousand
    {done : Int64}
    (hLow : 0 ≤ done.toInt)
    (hHigh : done.toInt < 2 ^ 48) :
    (done * 1000).toInt = done.toInt * 1000 := by
  have hThousand : (1000 : Int64).toInt = 1000 := by decide
  rw [Int64.toInt_mul, hThousand]
  exact Int.bmod_eq_of_le_mul_two (by omega) (by omega)

/- The quotient is the one of the integers. -/
theorem toInt_progressOf
    {done size : Int64}
    (hLow : 0 ≤ done.toInt)
    (hHigh : done.toInt ≤ size.toInt)
    (hSize : size.toInt < 2 ^ 48)
    (hPositive : 0 < size.toInt) :
    (progressOf done size).toInt =
      done.toInt * 1000 / size.toInt := by
  have hProduct : (done * 1000).toInt = done.toInt * 1000 :=
    toInt_mul_thousand hLow (by omega)
  have hUpper :
      done.toInt * 1000 / size.toInt ≤ 1000 := by
    apply Int.ediv_le_of_le_mul hPositive
    omega
  have hLower : 0 ≤ done.toInt * 1000 / size.toInt :=
    Int.ediv_nonneg (by omega) (by omega)
  have hOne : size ≠ -1 := by
    rintro rfl
    exact absurd hPositive (by decide)
  have hGuard : size > 0 := Int64.lt_iff_toInt_lt.mpr hPositive
  rw [progressOf, if_pos hGuard, Int64.toInt_toInt32,
    Int64.toInt_div_of_ne_right _ _ hOne, hProduct,
    Int.tdiv_eq_ediv_of_nonneg (by omega)]
  exact Int.bmod_eq_of_le_mul_two (by omega) (by omega)

/- All thousandths are reached with the last byte only. -/
theorem progressOf_bounds
    {done size : Int64}
    (hLow : 0 ≤ done.toInt)
    (hHigh : done.toInt ≤ size.toInt)
    (hSize : size.toInt < 2 ^ 48) :
    0 ≤ (progressOf done size).toInt ∧
      (progressOf done size).toInt ≤ 1000 ∧
      (progressOf done size = 1000 ↔
        isComplete done size = true) := by
  have hThousand : (1000 : Int32).toInt = 1000 := by decide
  have hComplete :
      isComplete done size = true ↔
        done.toInt = size.toInt := by
    rw [isComplete, decide_eq_true_eq, Int64.toInt_inj]
  rw [← Int32.toInt_inj, hThousand, hComplete]
  by_cases hPositive : 0 < size.toInt
  · rw [toInt_progressOf hLow hHigh hSize hPositive]
    refine ⟨Int.ediv_nonneg (by omega) (by omega), ?_, ?_⟩
    · apply Int.ediv_le_of_le_mul hPositive
      omega
    · constructor
      · intro hAll
        have hLeast :
            1000 * size.toInt ≤ done.toInt * 1000 :=
          (Int.le_ediv_iff_mul_le hPositive).mp
            (Int.le_of_eq hAll.symm)
        omega
      · intro hSame
        rw [hSame]
        exact Int.mul_ediv_cancel_left 1000 (by omega)
  · have hGuard : ¬ size > 0 :=
      fun hGreater =>
        hPositive (Int64.lt_iff_toInt_lt.mp hGreater)
    rw [progressOf, if_neg hGuard, hThousand]
    refine ⟨by omega, by omega, ?_⟩
    exact iff_of_true rfl (by omega)

end Sheath

end Kedge

------------------------------------------------------------
-- The List of Files of a Torrent with Metadata
------------------------------------------------------------

namespace Kedge

open Json

namespace Sheath

/-
  What an entry says about an open file: its mode or, where
  that is no known one, the first of the two flags.
-/
def shownState (f : OpenFileState) : Option Str :=
  match f.openMode with
  | .readWrite => some "read/write".toList
  | .readOnly => some "read".toList
  | .writeOnly => some "write".toList
  | .other =>
      if f.randomAccess then some "random_access".toList
      else if f.sparse then some "sparse".toList
      else none

/- The members of the entry of a file. -/
structure Entry
    (file : FileEntry)
    (done : Int64)
    (priority : UInt8)
    (opened : Option OpenFileState)
    (progress : Int64)
    (complete : Bool)
    (entry : Value) : Prop where
  members :
    entry =
      .object
        ([("name".toList, .string file.name),
            ("size".toList, .int64 file.size),
            ("progress".toList, .int64 progress),
            ("complete".toList, .bool_ complete),
            ("priority".toList,
              .uint64 priority.toUInt64)] ++
          ((opened.bind shownState).map fun state =>
            ("state".toList, .string state)).toList)
  progress :
    progress.toInt =
      if 0 < file.size.toInt then
        done.toInt * 1000 / file.size.toInt
      else 1000
  complete : complete = true ↔ done = file.size

/- The state is added once, behind the other members. -/
theorem fileObject_eq
    (file : FileEntry)
    (done : Int64)
    (priority : UInt8)
    (opened : Option OpenFileState) :
    fileObject file done priority opened =
      [("name".toList, .string file.name),
          ("size".toList, .int64 file.size),
          ("progress".toList,
            jsonInt (progressOf done file.size)),
          ("complete".toList,
            .bool_ (isComplete done file.size)),
          ("priority".toList, .uint64 priority.toUInt64)] ++
        ((opened.bind shownState).map fun state =>
          ("state".toList, Value.string state)).toList := by
  cases opened with
  | none => rfl
  | some f =>
      rcases f with ⟨fileIndex, openMode, random, sparse⟩
      cases openMode <;> cases random <;> cases sparse <;>
        rfl

/- The entry shows the progress of its file. -/
theorem entry_fileObject
    {file : FileEntry}
    {done : Int64}
    (hLow : 0 ≤ done.toInt)
    (hHigh : done.toInt ≤ file.size.toInt)
    (hSize : file.size.toInt < 2 ^ 48)
    (priority : UInt8)
    (opened : Option OpenFileState) :
    Entry file done priority opened
      (progressOf done file.size).toInt64
      (isComplete done file.size)
      (.object (fileObject file done priority opened)) where
  members := by
    rw [fileObject_eq]
    rfl
  progress := by
    rw [Int32.toInt_toInt64]
    split
    · next hPositive =>
      exact toInt_progressOf hLow hHigh hSize hPositive
    · next hEmpty =>
      have hGuard : ¬ file.size > 0 :=
        fun hGreater =>
          hEmpty (Int64.lt_iff_toInt_lt.mp hGreater)
      rw [progressOf, if_neg hGuard]
      rfl
  complete := by
    rw [isComplete, decide_eq_true_eq]

/-
  With the metadata there is one entry for each file, in the
  order of the files, made from the progress, the priority
  and the open state of the file itself. The arithmetic
  stays within 64 bits, and a file shows all thousandths
  exactly when it is complete.
-/
theorem file_listing_correct
    (t : TorrentAccess)
    (ti : FileStorage)
    (hMeta : t.files.fileProgress.metadata = some ti)
    (hSizes : ∀ file ∈ ti.files, file.size.toInt < 2 ^ 48)
    (hProgress :
      ∀ (i : Nat) file done,
        ti.files[i]? = some file →
          t.files.fileProgress.fileProgress[i]? = some done →
            0 ≤ done.toInt ∧
              done.toInt ≤ file.size.toInt)
    (hAscending :
      t.files.fileStatus.fileStatus.Pairwise
        (·.fileIndex < ·.fileIndex))
    (hRange :
      ∀ f ∈ t.files.fileStatus.fileStatus,
        0 ≤ f.fileIndex ∧ f.fileIndex < ti.files.length) :
    ∃ data,
      getTorrent (some t) .files = .ok (.array data) ∧
        data.length = ti.files.length ∧
        (∀ f ∈ t.files.fileStatus.fileStatus,
          ∃ i : Nat,
            i < data.length ∧ f.fileIndex = i) ∧
        ∀ (i : Nat) file,
          ti.files[i]? = some file →
            ∃ done priority opened progress complete entry,
              t.files.fileProgress.fileProgress[i]? =
                  some done ∧
                t.files.filePriorities.filePriorities[i]? =
                  some priority ∧
                data[i]? = some entry ∧
                (∀ f,
                  opened = some f ↔
                    f ∈ t.files.fileStatus.fileStatus ∧
                      f.fileIndex = i) ∧
                Entry file done priority opened progress
                  complete entry ∧
                (done * 1000).toInt = done.toInt * 1000 ∧
                0 ≤ progress.toInt ∧
                progress.toInt ≤ 1000 ∧
                (progress.toInt = 1000 ↔
                  complete = true) := by
  have hLengths := lengths_of_fileProgress hMeta
  rcases @exists_filesLoop_eq
      t.files.fileProgress.fileProgress
      t.files.filePriorities.filePriorities 0
      t.files.fileStatus.fileStatus ti.files
      (by omega) (by omega) with
    ⟨data, hLoop, hLength, hEach⟩
  have hAhead :
      Cursor.Ahead OpenFileState.fileIndex (0 : Nat)
        t.files.fileStatus.fileStatus :=
    ⟨hAscending, fun f hMember => (hRange f hMember).1⟩
  refine ⟨data, ?_, hLength, ?_, ?_⟩
  · change getTorrentFiles t.files = _
    rw [getTorrentFiles, (metadata_of_fileProgress hMeta).2]
    dsimp only
    rw [hLoop]
  · intro f hMember
    rcases hRange f hMember with ⟨hLow, hHigh⟩
    exact ⟨f.fileIndex.toNat, by omega, by omega⟩
  · intro i file hFile
    rcases hEach i file hFile with
      ⟨done, priority, hDone, hPriority, hEntry⟩
    rw [Nat.zero_add] at hDone hPriority
    rcases hProgress i file done hFile hDone with
      ⟨hLow, hHigh⟩
    have hSize := hSizes file (List.mem_of_getElem? hFile)
    have hBounds := progressOf_bounds hLow hHigh hSize
    rw [← Int32.toInt_inj, ← Int32.toInt_toInt64] at hBounds
    refine
      ⟨done, priority, _, _, _, _, hDone, hPriority, hEntry,
        ?_, entry_fileObject hLow hHigh hSize priority _,
        toInt_mul_thousand hLow (by omega), hBounds⟩
    intro f
    rw [Cursor.nth_eq_some_iff hAhead]
    simp

/- One file, with its last byte missing. -/
theorem file_listing_correct_last_byte :
    ∃ data : List Value,
      getTorrent (some (accessWith (.still arrivedView)))
          .files = .ok (.array data) ∧
        data.length = 1 := by
  rcases file_listing_correct
      (accessWith (.still arrivedView)) ⟨[⟨['a'], 5⟩]⟩ rfl
      (by decide)
      (by
        intro i file done hFile hDone
        cases i with
        | zero =>
            cases hFile
            cases hDone
            decide
        | succ i => cases hFile)
      (List.pairwise_singleton _ _) (by decide) with
    ⟨data, hData, hLength, _⟩
  exact ⟨data, hData, hLength⟩

end Sheath

end Kedge
