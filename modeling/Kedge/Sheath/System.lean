import Kedge.Library.Run
import Kedge.Sheath.Alert

/-
  The sheath among its threads: `libtorrent`, the session
  thread and the threads that serve HTTP requests.

  The session thread pops all queued alerts at once and
  handles them one by one, in `doLoop`, in the loop of
  `save_all_resume` and while that function waits for the
  answers. An HTTP thread runs `drop_torrent` in three
  steps: it tries to delete the resume file, looks up the
  torrent and removes it. `libtorrent` adds torrents, posts
  alerts, and answers each save request once, with one of
  the two alerts it posts for no other reason.

  Key definitions include:
    * `System`
    * `Action`
    * `System.step`
    * `System.Next`
-/

------------------------------------------------------------
-- States
------------------------------------------------------------

namespace Kedge

namespace Sheath

/- Where the session thread stands outside `pop_alerts`. -/
inductive Thread where
  | loop
  | saving (rest : List Handle) (idx : Nat)
  | waiting
  | returned
  deriving DecidableEq

/- Where an HTTP thread stands in `drop_torrent`. -/
inductive Drop where
  | idle
  | deleted (ih : InfoHash) (withData : Bool)
  | found (handle : Handle) (withData : Bool)
  deriving DecidableEq

/- The torrent whose resume file was to be deleted. -/
def Drop.deleted? : Drop → Option InfoHash
  | .idle => none
  | .deleted ih _ => some ih
  | .found handle _ => some handle.infoHash

/-
  `torrents` to `queue` belong to `libtorrent`: its session,
  the save requests without an answer, and the alert queue.
  `batch` holds the alerts of a running `pop_alerts` that
  are still to be handled. The fields from `logged` on only
  record what happened: the alerts that were printed, the
  requests issued and the answers handled, the resume data
  of successful answers, the calls of `save_file`, the
  torrents removed with their data flag, and the info-hashes
  for which `drop_torrent` has returned true since the
  torrent was last added.
-/
structure System where
  torrents : List Handle
  nextId : Nat
  outstanding : List Handle
  queue : List Alert
  thread : Thread
  batch : Option (List Alert)
  members : Members
  drops : Nat → Drop
  files : FileSystem
  logged : List Alert
  issued : Nat
  answered : Nat
  successes : List AddTorrentParams
  saves : List (Str × Bytes)
  removed : List (Handle × Bool)
  dropped : InfoHash → Bool

namespace System

def init
    (values : SessionValues)
    (files : FileSystem) : System where
  torrents := []
  nextId := 0
  outstanding := []
  queue := []
  thread := .loop
  batch := none
  members := ⟨0, values, ∅⟩
  drops := fun _ => .idle
  files := files
  logged := []
  issued := 0
  answered := 0
  successes := []
  saves := []
  removed := []
  dropped := fun _ => false

/- The alerts still to be handled, in that order. -/
def alerts (s : System) : List Alert :=
  s.batch.getD [] ++ s.queue

end System

end Sheath

end Kedge

------------------------------------------------------------
-- Steps
------------------------------------------------------------

namespace Kedge

namespace Sheath

/- How a save request is answered. -/
inductive Answer where
  | saved (fields : Bytes)
  | failed (error : SaveError)
  deriving DecidableEq

def Answer.alert (handle : Handle) : Answer → Alert
  | .saved fields => .saveResumeData ⟨handle.infoHash, fields⟩
  | .failed error => .saveResumeDataFailed error

/-
  The steps of `libtorrent`, of the session thread and of
  the HTTP threads. `saveAll` is given the torrents that
  `get_torrent_status` returns.
-/
inductive Action where
  | add (ih : InfoHash)
  | post (alert : Alert)
  | answer (i : Nat) (reply : Answer)
  | pop
  | handle (query : Query) (write : WriteOutcome)
  | popDone
  | saveAll (handles : List Handle)
  | saveNext
  | saveLoopDone
  | waitTimeout
  | waitAlert
  | saveReturn
  | restart
  | dropDelete (thread : Nat) (ih : InfoHash)
      (withData : Bool) (removal : RemoveOutcome)
  | dropFind (thread : Nat)
  | dropRemove (thread : Nat)

namespace System

/- `torrent_handle::save_resume_data`. -/
def request (s : System) (handles : List Handle) : System :=
  { s with
    outstanding := s.outstanding ++ handles
    issued := s.issued + handles.length }

/- A torrent enters the session. -/
def add (s : System) (ih : InfoHash) : System :=
  { s with
    torrents := s.torrents ++ [⟨s.nextId, ih⟩]
    nextId := s.nextId + 1
    dropped := Function.update s.dropped ih false }

/- `libtorrent` answers one of the outstanding requests. -/
def answer
    (s : System)
    (i : Nat)
    (handle : Handle)
    (reply : Answer) : System :=
  { s with
    outstanding := s.outstanding.eraseIdx i
    queue := s.queue ++ [reply.alert handle]
    successes := s.successes ++
      (reply.alert handle).success?.toList }

/- The first half of `sheath::pop_alerts`. -/
def popAlerts (s : System) : System :=
  { s with
    queue := []
    batch := some s.queue }

/- One round of its loop. -/
def handle
    (config : Config)
    (s : System)
    (alert : Alert)
    (rest : List Alert)
    (query : Query)
    (write : WriteOutcome) : System :=
  let handled := handleAlert config query s.members alert
  { s.request handled.requests with
    batch := some rest
    members := handled.members
    files :=
      match handled.saved with
      | none => s.files
      | some (filename, content) =>
          (saveFile config.stream s.files filename content
            write).1
    logged :=
      if handled.result then s.logged
      else s.logged ++ [alert]
    answered :=
      s.answered + if alert.isAnswer then 1 else 0
    saves := s.saves ++ handled.saved.toList }

/- One round of the loop of `sheath::save_all_resume`. -/
def saveNext
    (s : System)
    (handle : Handle)
    (rest : List Handle)
    (idx : Nat) : System :=
  let requested :=
    { s.request [handle] with
      members := s.members.countUp
      thread := .saving rest (idx + 1) }
  if (idx + 1) % 32 = 0 then requested.popAlerts
  else requested

/-
  The deletion of the resume file in `drop_torrent`, whose
  result is only logged.
-/
def dropDelete
    (config : Config)
    (s : System)
    (thread : Nat)
    (ih : InfoHash)
    (withData : Bool)
    (removal : RemoveOutcome) : System :=
  { s with
    drops :=
      Function.update s.drops thread (.deleted ih withData)
    files :=
      (removeFile s.files (resumeFile config.dirConf ih)
        removal).1 }

/- `drop_torrent` removes the torrent and returns true. -/
def dropRemove
    (s : System)
    (thread : Nat)
    (handle : Handle)
    (withData : Bool) : System :=
  { s with
    torrents := s.torrents.erase handle
    drops := Function.update s.drops thread .idle
    removed := s.removed ++ [(handle, withData)]
    dropped :=
      Function.update s.dropped handle.infoHash true }

def findTorrent (s : System) (ih : InfoHash) : Option Handle :=
  s.torrents.find? (·.infoHash = ih)

def step
    (config : Config)
    (s : System) :
    Action → Option System
  | .add ih =>
      if s.findTorrent ih = none then some (s.add ih)
      else none
  | .post alert =>
      if alert.isAnswer = false then
        some { s with queue := s.queue ++ [alert] }
      else none
  | .answer i reply =>
      match s.outstanding[i]? with
      | some handle => some (s.answer i handle reply)
      | none => none
  | .pop =>
      if s.thread = .loop ∧ s.batch = none then
        some s.popAlerts
      else none
  | .handle query write =>
      match s.batch with
      | some (alert :: rest) =>
          some (s.handle config alert rest query write)
      | _ => none
  | .popDone =>
      match s.batch with
      | some [] => some { s with batch := none }
      | _ => none
  | .saveAll handles =>
      if s.thread = .loop ∧ s.batch = none then
        some { s with thread := .saving handles 0 }
      else none
  | .saveNext =>
      match s.batch, s.thread with
      | none, .saving (handle :: rest) idx =>
          some (s.saveNext handle rest idx)
      | _, _ => none
  | .saveLoopDone =>
      match s.batch, s.thread with
      | none, .saving [] _ =>
          some { s with thread := .waiting }
      | _, _ => none
  | .waitTimeout =>
      if s.thread = .waiting ∧ s.batch = none ∧
          s.members.numOutstandingResumeData > 0 then some s
      else none
  | .waitAlert =>
      if s.thread = .waiting ∧ s.batch = none ∧
          s.members.numOutstandingResumeData > 0 ∧
            s.queue ≠ [] then
        some s.popAlerts
      else none
  | .saveReturn =>
      if s.thread = .waiting ∧ s.batch = none ∧
          ¬ s.members.numOutstandingResumeData > 0 then
        some { s with thread := .returned }
      else none
  | .restart =>
      if s.thread = .returned then
        some { s with thread := .loop }
      else none
  | .dropDelete thread ih withData removal =>
      if s.drops thread = .idle then
        some
          (s.dropDelete config thread ih withData removal)
      else none
  | .dropFind thread =>
      match s.drops thread with
      | .deleted ih withData =>
          match s.findTorrent ih with
          | some handle =>
              some { s with
                drops := Function.update s.drops thread
                  (.found handle withData) }
          | none =>
              some { s with
                drops :=
                  Function.update s.drops thread .idle }
      | _ => none
  | .dropRemove thread =>
      match s.drops thread with
      | .found handle withData =>
          some (s.dropRemove thread handle withData)
      | _ => none

end System

end Sheath

end Kedge

------------------------------------------------------------
-- What One Step Can Do
------------------------------------------------------------

namespace Kedge

namespace Sheath

namespace System

/-
  The steps as a relation, one rule for each way a step can
  go. The look-up of a torrent has two.
-/
inductive Next
    (config : Config)
    (s : System) :
    Action → System → Prop where
  | add {ih} :
      Next config s (.add ih) (s.add ih)
  | post {alert}
      (hAlert : alert.isAnswer = false) :
      Next config s (.post alert)
        { s with queue := s.queue ++ [alert] }
  | answer {i handle reply}
      (hRequest : s.outstanding[i]? = some handle) :
      Next config s (.answer i reply)
        (s.answer i handle reply)
  | pop
      (hThread : s.thread = .loop)
      (hBatch : s.batch = none) :
      Next config s .pop s.popAlerts
  | handle {alert rest query write}
      (hBatch : s.batch = some (alert :: rest)) :
      Next config s (.handle query write)
        (s.handle config alert rest query write)
  | popDone
      (hBatch : s.batch = some []) :
      Next config s .popDone { s with batch := none }
  | saveAll {handles}
      (hThread : s.thread = .loop)
      (hBatch : s.batch = none) :
      Next config s (.saveAll handles)
        { s with thread := .saving handles 0 }
  | saveNext {handle rest idx}
      (hThread : s.thread = .saving (handle :: rest) idx)
      (hBatch : s.batch = none) :
      Next config s .saveNext (s.saveNext handle rest idx)
  | saveLoopDone {idx}
      (hThread : s.thread = .saving [] idx)
      (hBatch : s.batch = none) :
      Next config s .saveLoopDone { s with thread := .waiting }
  | waitTimeout : Next config s .waitTimeout s
  | waitAlert
      (hThread : s.thread = .waiting)
      (hBatch : s.batch = none) :
      Next config s .waitAlert s.popAlerts
  | saveReturn
      (hThread : s.thread = .waiting)
      (hBatch : s.batch = none)
      (hNone : s.members.numOutstandingResumeData ≤ 0) :
      Next config s .saveReturn { s with thread := .returned }
  | restart
      (hThread : s.thread = .returned) :
      Next config s .restart { s with thread := .loop }
  | dropDelete {thread ih withData removal}
      (hDrop : s.drops thread = .idle) :
      Next config s
        (.dropDelete thread ih withData removal)
        (s.dropDelete config thread ih withData removal)
  | dropFound {thread ih withData handle}
      (hDrop : s.drops thread = .deleted ih withData)
      (hHash : handle.infoHash = ih) :
      Next config s (.dropFind thread)
        { s with
          drops := Function.update s.drops thread
            (.found handle withData) }
  | dropMissed {thread ih withData}
      (hDrop : s.drops thread = .deleted ih withData) :
      Next config s (.dropFind thread)
        { s with
          drops := Function.update s.drops thread .idle }
  | dropRemove {thread handle withData}
      (hDrop : s.drops thread = .found handle withData) :
      Next config s (.dropRemove thread)
        (s.dropRemove thread handle withData)

theorem infoHash_of_findTorrent
    {s : System}
    {ih : InfoHash}
    {handle : Handle}
    (hFind : s.findTorrent ih = some handle) :
    handle.infoHash = ih := by
  have hTest := List.find?_some hFind
  simpa using hTest

/- Every step follows one of the rules. -/
theorem next_of_step
    {config : Config}
    {s next : System}
    {action : Action}
    (hStep : s.step config action = some next) :
    Next config s action next := by
  cases action with
  | add ih =>
      rcases Option.ite_none_right_eq_some.mp hStep with
        ⟨_, hNext⟩
      cases hNext
      exact .add
  | post alert =>
      rcases Option.ite_none_right_eq_some.mp hStep with
        ⟨hAlert, hNext⟩
      cases hNext
      exact .post hAlert
  | answer i reply =>
      simp only [step] at hStep
      split at hStep
      · next handle hRequest =>
        cases hStep
        exact .answer hRequest
      · cases hStep
  | pop =>
      rcases Option.ite_none_right_eq_some.mp hStep with
        ⟨⟨hThread, hBatch⟩, hNext⟩
      cases hNext
      exact .pop hThread hBatch
  | handle query write =>
      simp only [step] at hStep
      split at hStep
      · next alert rest hBatch =>
        cases hStep
        exact .handle hBatch
      · cases hStep
  | popDone =>
      simp only [step] at hStep
      split at hStep
      · next hBatch =>
        cases hStep
        exact .popDone hBatch
      · cases hStep
  | saveAll handles =>
      rcases Option.ite_none_right_eq_some.mp hStep with
        ⟨⟨hThread, hBatch⟩, hNext⟩
      cases hNext
      exact .saveAll hThread hBatch
  | saveNext =>
      simp only [step] at hStep
      split at hStep
      · next handle rest idx hBatch hThread =>
        cases hStep
        exact .saveNext hThread hBatch
      · cases hStep
  | saveLoopDone =>
      simp only [step] at hStep
      split at hStep
      · next idx hBatch hThread =>
        cases hStep
        exact .saveLoopDone hThread hBatch
      · cases hStep
  | waitTimeout =>
      rcases Option.ite_none_right_eq_some.mp hStep with
        ⟨_, hNext⟩
      cases hNext
      exact .waitTimeout
  | waitAlert =>
      rcases Option.ite_none_right_eq_some.mp hStep with
        ⟨⟨hThread, hBatch, _⟩, hNext⟩
      cases hNext
      exact .waitAlert hThread hBatch
  | saveReturn =>
      rcases Option.ite_none_right_eq_some.mp hStep with
        ⟨⟨hThread, hBatch, hNone⟩, hNext⟩
      cases hNext
      exact .saveReturn hThread hBatch (Int.not_lt.mp hNone)
  | restart =>
      rcases Option.ite_none_right_eq_some.mp hStep with
        ⟨hThread, hNext⟩
      cases hNext
      exact .restart hThread
  | dropDelete thread ih withData removal =>
      rcases Option.ite_none_right_eq_some.mp hStep with
        ⟨hDrop, hNext⟩
      cases hNext
      exact .dropDelete hDrop
  | dropFind thread =>
      simp only [step] at hStep
      split at hStep
      · next ih withData hDrop =>
        split at hStep
        · next handle hFind =>
          cases hStep
          exact .dropFound hDrop
            (infoHash_of_findTorrent hFind)
        · cases hStep
          exact .dropMissed hDrop
      · cases hStep
  | dropRemove thread =>
      simp only [step] at hStep
      split at hStep
      · next handle withData hDrop =>
        cases hStep
        exact .dropRemove hDrop
      · cases hStep

end System

end Sheath

end Kedge

------------------------------------------------------------
-- A Small Instance
------------------------------------------------------------

namespace Kedge

namespace Sheath

/- A configuration whose resume data are the fields. -/
def plainConfig : Config where
  dirConf := "/root/.config/kedge".toList
  dirMoved := []
  peer := none
  writeResumeDataBuf := AddTorrentParams.fields
  stream := plainStream

def zeroHash : InfoHash where
  bytes := List.replicate 20 0
  length_bytes := rfl

/- The first torrent of a session, with that hash. -/
def firstTorrent : Handle where
  id := 0
  infoHash := zeroHash

def plainQuery : Query where
  status := { handle := firstTorrent }
  movedExists := false

/- A start without counters and resume files. -/
def emptySystem : System :=
  System.init ⟨[], [], 0, 0⟩ (fun _ => none)

end Sheath

end Kedge

------------------------------------------------------------
-- The Waiting Alerts
------------------------------------------------------------

namespace Kedge

namespace Sheath

namespace System

variable {s : System}

theorem alerts_post
    (s : System)
    (alert : Alert) :
    alerts { s with queue := s.queue ++ [alert] } =
      s.alerts ++ [alert] :=
  (List.append_assoc _ _ _).symm

theorem alerts_answer
    (s : System)
    (i : Nat)
    (handle : Handle)
    (reply : Answer) :
    (s.answer i handle reply).alerts =
      s.alerts ++ [reply.alert handle] :=
  (List.append_assoc _ _ _).symm

/- Popping the queue hands on its alerts in order. -/
theorem alerts_popAlerts
    (hBatch : s.batch = none) :
    s.popAlerts.alerts = s.alerts := by
  simp [alerts, popAlerts, hBatch]

theorem alerts_popDone
    (hBatch : s.batch = some []) :
    alerts { s with batch := none } = s.alerts := by
  simp [alerts, hBatch]

/- The handler takes the alert that has waited longest. -/
theorem alerts_handle
    {alert : Alert}
    {rest : List Alert}
    (config : Config)
    (query : Query)
    (write : WriteOutcome)
    (hBatch : s.batch = some (alert :: rest)) :
    s.alerts =
      alert ::
        (s.handle config alert rest query write).alerts := by
  simp [alerts, handle, request, hBatch]

end System

end Sheath

end Kedge
