import Kedge.Http.Session
import Kedge.Sheath.System
import Kedge.Sheath.TorrentQuery

/-
  Requests for a torrent that the session does not have.

  `exists` and `get_torrent` tell the handler that nothing
  was found, and so does the result of `drop_torrent`, which
  the handler ignores: a deletion is answered as if it had
  removed the torrent.

  Key definitions include:
    * `System.dropTorrent`
    * `System.afterCalls`
    * `AnsweredBy`

  Main theorems include:
    * `System.exec_dropTorrent`
    * `unknown_torrent_not_found_iff`
-/

------------------------------------------------------------
-- The Operations on the Session
------------------------------------------------------------

namespace Kedge

namespace Sheath

namespace System

/- `sheath::exists`. -/
def exists_ (s : System) (ih : InfoHash) : Bool :=
  (s.findTorrent ih).isSome

/- `sheath::drop_torrent`, with nothing else in between. -/
def dropTorrent
    (config : Config)
    (s : System)
    (thread : Nat)
    (ih : InfoHash)
    (withData : Bool)
    (removal : RemoveOutcome) : System × Bool :=
  let deleted :=
    s.dropDelete config thread ih withData removal
  match deleted.findTorrent ih with
  | some th =>
      (deleted.dropRemove thread th withData, true)
  | none =>
      ({ deleted with
          drops := Function.update deleted.drops thread .idle },
        false)

/- The steps that the thread takes in that call. -/
def dropActions
    (s : System)
    (thread : Nat)
    (ih : InfoHash)
    (withData : Bool)
    (removal : RemoveOutcome) : List Action :=
  .dropDelete thread ih withData removal ::
    .dropFind thread ::
      if s.exists_ ih then [.dropRemove thread] else []

/- The call is a run of the thread's steps. -/
theorem exec_dropTorrent
    (config : Config)
    {s : System}
    {thread : Nat}
    (hIdle : s.drops thread = .idle)
    (ih : InfoHash)
    (withData : Bool)
    (removal : RemoveOutcome) :
    Run.exec (step config) s
        (s.dropActions thread ih withData removal) =
      some
        (s.dropTorrent config thread ih withData
          removal).1 := by
  have hDelete :
      s.step config
          (.dropDelete thread ih withData removal) =
        some
          (s.dropDelete config thread ih withData removal) :=
    if_pos hIdle
  have hFind :
      (s.dropDelete config thread ih withData
          removal).findTorrent ih =
        s.findTorrent ih := rfl
  have hDrop :
      (s.dropDelete config thread ih withData removal).drops
          thread =
        .deleted ih withData :=
    Function.update_self _ _ _
  unfold dropActions dropTorrent exists_
  dsimp only
  rw [Run.exec, hDelete, Option.bind_some, Run.exec, hFind]
  cases hTorrent : s.findTorrent ih with
  | none =>
      simp [step, hDrop, hFind, hTorrent]
  | some th =>
      simp [step, hDrop, hFind, hTorrent, Run.exec,
        dropRemove]

/-
  What an operation that the handler calls does to the
  session. All but the removal leave its torrents in place.
-/
def afterCall
    (config : Config)
    (thread : Nat)
    (removal : RemoveOutcome)
    (s : System) : Http.Call → System
  | .dropTorrent ih withData =>
      (s.dropTorrent config thread ih withData removal).1
  | _ => s

def afterCalls
    (config : Config)
    (thread : Nat)
    (removal : RemoveOutcome)
    (s : System)
    (calls : List Http.Call) : System :=
  calls.foldl (afterCall config thread removal) s

/- Dropping an unknown torrent removes none. -/
theorem torrents_dropTorrent
    (config : Config)
    {s : System}
    (thread : Nat)
    {ih : InfoHash}
    (withData : Bool)
    (removal : RemoveOutcome)
    (hUnknown : s.findTorrent ih = none) :
    (s.dropTorrent config thread ih withData
        removal).1.torrents =
      s.torrents := by
  have hFind :
      (s.dropDelete config thread ih withData
          removal).findTorrent ih = none :=
    hUnknown
  unfold dropTorrent
  dsimp only
  rw [hFind]
  rfl

end System

/-
  The answers the handlers get are those of the sheath, with
  what the torrents of the session answer to queries.
-/
def AnsweredBy
    (s : System)
    (access : Handle → TorrentAccess)
    (answers : Http.Answers) : Prop :=
  Answering (fun ih => (s.findTorrent ih).map access)
    answers

end Sheath

end Kedge

------------------------------------------------------------
-- Unknown Torrents
------------------------------------------------------------

namespace Kedge

namespace Sheath

open Http

/- What the handler asks of the session, and its status. -/
theorem torrentOutcome_of_unknown
    (config : Config)
    {s : System}
    (thread : Nat)
    (removal : RemoveOutcome)
    {access : Handle → TorrentAccess}
    {answers : Answers}
    (hAnswers : AnsweredBy s access answers)
    {req : Request}
    (hMethod :
      req.method = .get ∨ req.method = .head ∨
        req.method = .delete_)
    {ih : InfoHash}
    (hUnknown : s.findTorrent ih = none)
    (act : Str) :
    (s.afterCalls config thread removal
          (torrentOutcome answers req ih act).calls).torrents =
        s.torrents ∧
      ((torrentOutcome answers req ih act).response.status =
          .notFound ↔
        req.method ≠ .delete_) := by
  have hExists : answers.exists_ ih = false := by
    rw [hAnswers.exists_ ih, hUnknown]
    rfl
  have hGet : ∀ flags, answers.getTorrent ih flags = .null := by
    intro flags
    apply hAnswers.getTorrent ih flags
    rw [hUnknown]
    rfl
  rcases hMethod with hMethod | hMethod | hMethod
  · simp [torrentOutcome, actOnTorrent, hMethod, hGet,
      Json.Value.kind, System.afterCalls,
      System.afterCall, makeResp404, makeResp]
  · simp [torrentOutcome, headTorrent, hMethod, hExists,
      System.afterCalls, System.afterCall, makeResp404,
      makeResp]
  · have hTorrents :=
      System.torrents_dropTorrent config thread
        (withDataAct act) removal hUnknown
    simp [torrentOutcome, actOnTorrent, hMethod,
      System.afterCalls, System.afterCall, hTorrents,
      makeResp204, makeResp]

/-
  A request for an unknown torrent leaves the torrents of
  the session as they are, and the handlers answer it with
  404 exactly when it is no deletion. That response is sent
  unless the target is refused beforehand.
-/
theorem unknown_torrent_not_found_iff
    {readHash : Str → Option InfoHash}
    (hReads : ReadsHash readHash)
    (config : Config)
    (s : System)
    (thread : Nat)
    (removal : RemoveOutcome)
    (access : Handle → TorrentAccess)
    (service : Service)
    (hAnswers : AnsweredBy s access service.toAnswers)
    (msg : Message)
    (hMethod :
      msg.method = .get ∨ msg.method = .head ∨
        msg.method = .delete_)
    (digits : Str)
    (ih : InfoHash)
    (hSpells : Spells digits ih)
    (hUnknown : s.findTorrent ih = none)
    (act : Option Str)
    (hTarget :
      msg.target =
        torrentApi ++ digits ++ act.elim [] ('/' :: ·)) :
    ∃ outcome,
      handleTorrent readHash service.toAnswers msg.toRequest
          13 = .ok outcome ∧
        respond readHash service msg =
          .ok (some outcome.response) ∧
        (s.afterCalls config thread removal
            outcome.calls).torrents = s.torrents ∧
        (outcome.response.status = .notFound ↔
          msg.method ≠ .delete_) ∧
        ∀ openFile uiRoot,
          ∃ sent,
            sendResponse readHash service openFile uiRoot
                msg = .ok sent ∧
              (sent.status = .notFound ↔
                msg.method ≠ .delete_ ∧
                  legalTarget msg.target = true) := by
  rcases handleTorrent_of_digits hReads service.toAnswers
      msg.method hSpells (act.elim [] ('/' :: ·)) with
    ⟨action, hHandle⟩
  rw [← hTarget] at hHandle
  have hCall :
      sbCall msg.toRequest = .ok (some (.torrent 13)) := by
    apply sbCall_of_torrentApi
    rw [hTarget, List.append_assoc]
    exact List.prefix_append _ _
  have hRespond :
      respond readHash service msg =
        .ok
          (some
            (torrentOutcome service.toAnswers msg.toRequest
              ih action).response) := by
    unfold respond
    rw [hCall]
    dsimp only [callHandler]
    rw [hHandle]
    rfl
  have hOutcome :=
    @torrentOutcome_of_unknown config s thread removal access
      service.toAnswers hAnswers msg.toRequest hMethod ih
      hUnknown action
  refine ⟨_, hHandle, hRespond, hOutcome.1, hOutcome.2, ?_⟩
  intro openFile uiRoot
  rw [← hOutcome.2]
  exact exists_sendResponse_of_respond openFile uiRoot
    hRespond

/- A session with one torrent, and what it answers. -/
def oneTorrentSystem : System :=
  { emptySystem with
    torrents := [firstTorrent]
    nextId := 1 }

def oneTorrentService : Service :=
  { silentService with
    toAnswers :=
      answersOf fun ih =>
        (oneTorrentSystem.findTorrent ih).map fun _ =>
          accessWith (.still arrivedView) }

/- Another torrent than the only one is asked for. -/
theorem unknown_torrent_not_found_iff_get :
    oneTorrentSystem.findTorrent zeroHash =
        some firstTorrent ∧
      ∃ outcome,
        handleTorrent readSha1 oneTorrentService.toAnswers
            (requestFor .get "/files".toList) 13 =
          .ok outcome ∧
        outcome.response.status = .notFound := by
  refine ⟨rfl, ?_⟩
  rcases unknown_torrent_not_found_iff readsHash_readSha1
      plainConfig oneTorrentSystem 0 .allowed
      (fun _ => accessWith (.still arrivedView))
      oneTorrentService (answering_answersOf _)
      ⟨requestFor .get "/files".toList, [], []⟩
      (Or.inl rfl) (toHex repeatedHash) repeatedHash
      (map_toLower_toHex repeatedHash) (by decide)
      (some "files".toList) rfl with
    ⟨outcome, hOutcome, _, _, hStatus, _⟩
  refine ⟨outcome, hOutcome, hStatus.mpr ?_⟩
  intro hDelete
  cases hDelete

/- A deletion is answered with 204 in an empty session. -/
theorem unknown_torrent_deleted :
    emptySystem.findTorrent repeatedHash = none ∧
      ∃ outcome,
        handleTorrent readSha1 silentService.toAnswers
            (requestFor .delete_ []) 13 =
          .ok outcome ∧
        outcome.response.status = .noContent := by
  refine ⟨rfl,
    ⟨[.dropTorrent repeatedHash false], makeResp204⟩, ?_,
    rfl⟩
  rw [handleTorrent_eq]
  rfl

end Sheath

end Kedge
