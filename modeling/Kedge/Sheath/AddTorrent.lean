import Kedge.Sheath.System

/-
  Adding torrents: `add_magnet` and the two `add_torrent`
  of `src/sheath.cpp`.

  The three functions parse their input, look for resume
  data of the torrent and pass parameters to `libtorrent`.
  Resume data replace the parameters before anybody has
  looked at the error code. The functions for torrent files
  put the parsed torrent into the parameters afterwards;
  `add_magnet` restores nothing.

  `libtorrent` is a record of functions, with what its
  documentation says about them in `Libtorrent.Documented`.

  Key definitions include:
    * `Libtorrent`
    * `addMagnet`
    * `addTorrentFile`
    * `addTorrentBuffer`
    * `AddRequest.submit`

  Main theorems include:
    * `add_submits_requested_iff`
-/

------------------------------------------------------------
-- Parameters of a Torrent
------------------------------------------------------------

namespace Kedge

namespace Sheath

/- `lt::torrent_info`: the hash and the rest of the file. -/
structure TorrentInfo where
  infoHash : InfoHash
  metainfo : Bytes
  deriving DecidableEq

inductive StorageMode where
  | sparse
  | allocate
  deriving DecidableEq, Repr

/- The members of `lt::add_torrent_params` set here. -/
structure TorrentParams extends AddTorrentParams where
  ti : Option TorrentInfo
  savePath : Str
  maxConnections : Int
  maxUploads : Int
  storageMode : StorageMode
  flags : UInt64
  deriving DecidableEq

/-
  The torrent that `async_add_torrent` adds: that of the
  metadata, or else the one with the given info-hash.
-/
def TorrentParams.identified (p : TorrentParams) : InfoHash :=
  match p.ti with
  | some ti => ti.infoHash
  | none => p.infoHash

/-
  What is called of `libtorrent`. A parser that sets its
  error code returns none; `readResumeData` also returns
  whether it has set the error code.
-/
structure Libtorrent where
  defaultParams : TorrentParams
  duplicateIsError : UInt64
  parseMagnetUri : Str → Option TorrentParams
  torrentInfoFile : Str → Option TorrentInfo
  torrentInfoBuffer : Bytes → Option TorrentInfo
  readResumeData : Bytes → TorrentParams × Bool

/-
  Default parameters have no torrent, a magnet link has no
  metadata, and rejected resume data give the default.
-/
structure Libtorrent.Documented
    (lt : Libtorrent) : Prop where
  noTorrent :
    lt.defaultParams.ti = none ∧
      lt.defaultParams.infoHash = zeroHash
  noMetadata :
    ∀ uri p, lt.parseMagnetUri uri = some p → p.ti = none
  rejected :
    ∀ data p, lt.readResumeData data = (p, true) →
      p = lt.defaultParams

end Sheath

end Kedge

------------------------------------------------------------
-- The Functions
------------------------------------------------------------

namespace Kedge

namespace Sheath

/- Whether the resume file can be opened and read. -/
inductive ReadOutcome where
  | readable
  | failed
  deriving DecidableEq, Repr

/- What the functions read besides their arguments. -/
structure AddContext where
  lt : Libtorrent
  dirConf : Str
  dirStore : Str
  files : FileSystem
  read : ReadOutcome

namespace AddContext

/- `load_file(resume_file(ih), resume_data)`. -/
def loadResume
    (ctx : AddContext)
    (ih : InfoHash) : Option Bytes :=
  match ctx.read with
  | .failed => none
  | .readable =>
      loadFile ctx.files (resumeFile ctx.dirConf ih) loadLimit

/-
  Resume data replace the parameters, also when
  `read_resume_data` sets its error code.
-/
def withResume
    (ctx : AddContext)
    (ih : InfoHash)
    (p : TorrentParams) : TorrentParams :=
  match ctx.loadResume ih with
  | some data => (ctx.lt.readResumeData data).1
  | none => p

/- `sheath::set_torrent_params`. -/
def setTorrentParams
    (ctx : AddContext)
    (p : TorrentParams) : TorrentParams :=
  { p with
    maxConnections := maxConnectionsPerTorrent
    maxUploads := -1
    savePath :=
      if p.savePath = [] then ctx.dirStore else p.savePath
    storageMode := .sparse }

/- The parsed torrent is put into the parameters. -/
def setTorrentInfo
    (ctx : AddContext)
    (ti : TorrentInfo)
    (p : TorrentParams) : TorrentParams :=
  { p with
    ti := some ti
    flags := p.flags &&& ~~~ctx.lt.duplicateIsError }

/-
  `sheath::add_magnet`: the parameters that are passed to
  `async_add_torrent`, or none when it returns false.
-/
def addMagnet
    (ctx : AddContext)
    (uri : Str) : Option TorrentParams :=
  match ctx.lt.parseMagnetUri uri with
  | none => none
  | some p =>
      some (ctx.setTorrentParams
        (ctx.withResume p.infoHash p))

/- `sheath::add_torrent` with the name of a file. -/
def addTorrentFile
    (ctx : AddContext)
    (filename : Str) : Option TorrentParams :=
  match ctx.lt.torrentInfoFile filename with
  | none => none
  | some ti =>
      some (ctx.setTorrentInfo ti
        (ctx.setTorrentParams
          (ctx.withResume ti.infoHash
            ctx.lt.defaultParams)))

/-
  `sheath::add_torrent` with the content of a file. The flag
  says whether the directory exists or could be created.
-/
def addTorrentBuffer
    (ctx : AddContext)
    (buffer : Bytes)
    (savePath : Str)
    (hasDirectory : Bool) : Option TorrentParams :=
  match ctx.lt.torrentInfoBuffer buffer with
  | none => none
  | some ti =>
      if hasDirectory then
        some (ctx.setTorrentInfo ti
          (ctx.setTorrentParams
            { ctx.withResume ti.infoHash
                ctx.lt.defaultParams with
              savePath := savePath }))
      else none

end AddContext

/- A call of one of the three functions. -/
inductive AddRequest where
  | magnet (uri : Str)
  | file (filename : Str)
  | buffer (data : Bytes) (savePath : Str)
      (hasDirectory : Bool)

namespace AddRequest

def submit
    (ctx : AddContext) : AddRequest → Option TorrentParams
  | .magnet uri => ctx.addMagnet uri
  | .file filename => ctx.addTorrentFile filename
  | .buffer data savePath hasDirectory =>
      ctx.addTorrentBuffer data savePath hasDirectory

/- The info-hash parsed from the input. -/
def parsed
    (ctx : AddContext) : AddRequest → Option InfoHash
  | .magnet uri =>
      (ctx.lt.parseMagnetUri uri).map (·.infoHash)
  | .file filename =>
      (ctx.lt.torrentInfoFile filename).map (·.infoHash)
  | .buffer data _ _ =>
      (ctx.lt.torrentInfoBuffer data).map (·.infoHash)

end AddRequest

end Sheath

end Kedge

------------------------------------------------------------
-- What Is Submitted
------------------------------------------------------------

namespace Kedge

namespace Sheath

namespace AddContext

variable {ctx : AddContext}

/- The resume file is read, and its content rejected. -/
def Rejects (ctx : AddContext) (ih : InfoHash) : Prop :=
  ∃ data, ctx.loadResume ih = some data ∧
    (ctx.lt.readResumeData data).2 = true

/- Resume data that are accepted are of that torrent. -/
def ValidResume (ctx : AddContext) (ih : InfoHash) : Prop :=
  ∀ data p, ctx.loadResume ih = some data →
    ctx.lt.readResumeData data = (p, false) →
      p.identified = ih

theorem savePath_setTorrentParams
    (hStore : ctx.dirStore ≠ [])
    (p : TorrentParams) :
    (ctx.setTorrentParams p).savePath ≠ [] := by
  unfold setTorrentParams
  dsimp only
  split
  · exact hStore
  · assumption

/-
  The parameters after the look at the resume file: default
  ones when it was rejected, else those of the torrent.
-/
theorem identified_withResume
    (hLt : ctx.lt.Documented)
    {ih : InfoHash}
    (hValid : ctx.ValidResume ih)
    {p : TorrentParams}
    (hParams : p.identified = ih) :
    (ctx.Rejects ih →
        (ctx.withResume ih p).identified = zeroHash) ∧
      (¬ ctx.Rejects ih →
        (ctx.withResume ih p).identified = ih) := by
  unfold withResume Rejects
  cases hLoad : ctx.loadResume ih with
  | none => simp [hParams]
  | some data =>
      rcases hRead : ctx.lt.readResumeData data with
        ⟨q, failed⟩
      cases failed with
      | true =>
          have hDefault := hLt.rejected data q hRead
          have hZero : q.identified = zeroHash := by
            rw [hDefault, TorrentParams.identified,
              hLt.noTorrent.1]
            exact hLt.noTorrent.2
          simp [hRead, hZero]
      | false =>
          simp [hRead, hValid data q hLoad hRead]

end AddContext

/-
  Every function passes on parameters of the torrent that
  was asked for, with a save path, exactly when it is not
  `add_magnet` at a resume file that can be read and is then
  rejected. The parameters without info-hash that are passed
  on there are those of the hash of zeros.
-/
theorem add_submits_requested_iff
    (ctx : AddContext)
    (hLt : ctx.lt.Documented)
    (hStore : ctx.dirStore ≠ [])
    (request : AddRequest)
    (ih : InfoHash)
    (hParsed : request.parsed ctx = some ih)
    (hValid : ctx.ValidResume ih) :
    (∀ p, request.submit ctx = some p →
        p.identified = ih ∧ p.savePath ≠ []) ↔
      (∀ uri, request ≠ .magnet uri) ∨
        ¬ ctx.Rejects ih ∨ ih = zeroHash := by
  have hPath :=
    AddContext.savePath_setTorrentParams hStore
  cases request with
  | magnet uri =>
      rcases Option.map_eq_some_iff.mp hParsed with
        ⟨p, hUri, rfl⟩
      have hParams : p.identified = p.infoHash := by
        rw [TorrentParams.identified,
          hLt.noMetadata uri p hUri]
      have hSubmit :
          AddRequest.submit ctx (.magnet uri) =
            some (ctx.setTorrentParams
              (ctx.withResume p.infoHash p)) := by
        simp [AddRequest.submit, AddContext.addMagnet, hUri]
      have hSame :
          ∀ q, (ctx.setTorrentParams q).identified =
            q.identified := fun _ => rfl
      rcases AddContext.identified_withResume hLt hValid
          hParams with ⟨hRejected, hAccepted⟩
      rw [hSubmit]
      by_cases hRejects : ctx.Rejects p.infoHash
      · simp [hSame, hRejected hRejects, hPath, hRejects,
          eq_comm]
      · simp [hSame, hAccepted hRejects, hPath, hRejects]
  | file filename =>
      rcases Option.map_eq_some_iff.mp hParsed with
        ⟨ti, hFile, rfl⟩
      simp [AddRequest.submit, AddContext.addTorrentFile,
        hFile, AddContext.setTorrentInfo,
        TorrentParams.identified, hPath]
  | buffer data savePath hasDirectory =>
      rcases Option.map_eq_some_iff.mp hParsed with
        ⟨ti, hData, rfl⟩
      cases hasDirectory <;>
        simp [AddRequest.submit,
          AddContext.addTorrentBuffer, hData,
          AddContext.setTorrentInfo,
          TorrentParams.identified, hPath]

/- The info-hash of twenty ones and its magnet link. -/
def oneHash : InfoHash where
  bytes := List.replicate 20 1
  length_bytes := rfl

def oneMagnet : Str :=
  "magnet:?xt=urn:btih:".toList ++ toHex oneHash

/- Parameters as `libtorrent` constructs them. -/
def plainParams : TorrentParams where
  infoHash := zeroHash
  fields := []
  ti := none
  savePath := []
  maxConnections := -1
  maxUploads := -1
  storageMode := .sparse
  flags := 0

/- `libtorrent` on that link and on broken resume data. -/
def plainLibtorrent : Libtorrent where
  defaultParams := plainParams
  duplicateIsError := 64
  parseMagnetUri := fun uri =>
    if uri = oneMagnet then
      some { plainParams with infoHash := oneHash }
    else none
  torrentInfoFile := fun _ => none
  torrentInfoBuffer := fun _ => none
  readResumeData := fun _ => (plainParams, true)

theorem documented_plainLibtorrent :
    plainLibtorrent.Documented where
  noTorrent := ⟨rfl, rfl⟩
  noMetadata := by
    intro uri p hUri
    rcases Option.ite_none_right_eq_some.mp hUri with
      ⟨_, hParams⟩
    cases hParams
    rfl
  rejected := by
    intro data p hRead
    cases hRead
    rfl

/- The files are given; everything can be read. -/
def plainContext (files : FileSystem) : AddContext where
  lt := plainLibtorrent
  dirConf := plainConfig.dirConf
  dirStore := "/srv/store".toList
  files := files
  read := .readable

/- The accepted resume data of this `libtorrent`: none. -/
theorem validResume_plainContext
    (files : FileSystem)
    (ih : InfoHash) :
    (plainContext files).ValidResume ih := by
  intro data p _ hRead
  cases hRead

theorem add_submits_requested_iff_fresh :
    ∃ p,
      (AddRequest.magnet oneMagnet).submit
          (plainContext fun _ => none) =
        some p ∧
      p.identified = oneHash ∧ p.savePath ≠ [] := by
  have hFresh :
      ¬ (plainContext fun _ => none).Rejects oneHash := by
    rintro ⟨data, hLoad, _⟩
    cases hLoad
  have hSubmitted :=
    (add_submits_requested_iff (plainContext fun _ => none)
      documented_plainLibtorrent (by decide)
      (.magnet oneMagnet) oneHash (by decide)
      (validResume_plainContext _ oneHash)).mpr
        (Or.inr (Or.inl hFresh))
  exact ⟨_, rfl, hSubmitted _ rfl⟩

/- A file system whose only file is a broken resume file. -/
def brokenResume : FileSystem :=
  Function.update (fun _ => none)
    (Posix.locate (resumeFile plainConfig.dirConf oneHash))
    (some [120])

/-
  The resume file of a magnet link is a single byte: the
  parameters that are passed on name the hash of zeros.
-/
theorem magnet_loses_hash :
    (plainContext brokenResume).lt.Documented ∧
    (plainContext brokenResume).dirStore ≠ [] ∧
    (AddRequest.magnet oneMagnet).parsed
        (plainContext brokenResume) =
      some oneHash ∧
    ∃ p,
      (AddRequest.magnet oneMagnet).submit
          (plainContext brokenResume) =
        some p ∧
      p.identified ≠ oneHash := by
  refine
    ⟨documented_plainLibtorrent, by decide, by decide, _,
      rfl, ?_⟩
  decide

end Sheath

end Kedge
