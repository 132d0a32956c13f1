import Kedge.Library.Table
import Kedge.Sheath.Status

/-
  Alerts and their handler: `sheath::handle_alert` in
  `src/sheath.cpp`.

  `libtorrent` is outside of the model. What the handler
  asks of a torrent are commands that it issues, and what it
  learns by asking back is given with the alert. The encoder
  of resume data is a parameter. The statistics of the DHT,
  which no modelled function reads, are left out.

  Key definitions include:
    * `Alert`
    * `Command`
    * `Members`
    * `handleAlert`

  Main theorems include:
    * `handleAlert_numOutstanding`
    * `handleAlert_saved`
-/

------------------------------------------------------------
-- Torrents and Alerts
------------------------------------------------------------

namespace Kedge

namespace Sheath

/-
  `lt::add_torrent_params`: the info-hash and an opaque
  value for all its other members.
-/
structure AddTorrentParams where
  infoHash : InfoHash
  fields : Bytes
  deriving DecidableEq

/- The errors of a failed save that are told apart. -/
inductive SaveError where
  | resumeDataNotModified
  | other
  deriving DecidableEq, Repr

/- Where a peer was disconnected, and why. -/
inductive PeerOperation where
  | connect
  | other
  deriving DecidableEq, Repr

inductive PeerError where
  | timedOutNoHandshake
  | other
  deriving DecidableEq, Repr

/- The alerts in the order of the tests in the handler. -/
inductive Alert where
  | sessionStats (counters : List Int64) (timestamp : UInt64)
  | dhtStats
  | peerConnect
  | incomingConnection
  | peerDisconnected (op : PeerOperation) (error : PeerError)
  | metadataReceived (handle : Handle)
  | addTorrent (handle : Handle) (failed : Bool)
  | torrentFinished (handle : Handle)
  | saveResumeData (params : AddTorrentParams)
  | saveResumeDataFailed (error : SaveError)
  | torrentPaused (handle : Handle)
  | stateUpdate (status : List TorrentStatus)
  | torrentRemoved (handle : Handle)
  | other
  deriving DecidableEq

/- The resume data that a successful save delivers. -/
def Alert.success? : Alert → Option AddTorrentParams
  | .saveResumeData params => some params
  | _ => none

/- The two answers to a save request. -/
def Alert.isAnswer : Alert → Bool
  | .saveResumeData _ => true
  | .saveResumeDataFailed _ => true
  | _ => false

end Sheath

end Kedge

------------------------------------------------------------
-- The Members of the Sheath
------------------------------------------------------------

namespace Kedge

namespace Sheath

/- `sessionValues`: the last two sets of counters. -/
structure SessionValues where
  cnt0 : List Int64
  cnt1 : List Int64
  timestamp0 : UInt64
  timestamp1 : UInt64

/- `sessionValues::updateCounters`. -/
def SessionValues.updateCounters
    (values : SessionValues)
    (sc : List Int64)
    (t : UInt64) : SessionValues :=
  let swapped :=
    if t - values.timestamp1 > 2000000 then
      { values with
        cnt0 := values.cnt1
        cnt1 := values.cnt0
        timestamp1 := values.timestamp0 }
    else values
  { swapped with cnt0 := sc, timestamp0 := t }

/- `m_all_handles`: an entry for each torrent known. -/
abbrev TorrentTable :=
  AList fun _ : Handle => TorrentStatus

/-
  The members that alerts change. The counter is an `int`;
  every request it counts is an object of `libtorrent`.
-/
structure Members where
  numOutstandingResumeData : Int
  svs : SessionValues
  allHandles : TorrentTable

/- One round of the loop: add a new entry or update it. -/
def setTorrent
    (table : TorrentTable)
    (st : TorrentStatus) : TorrentTable :=
  match table.lookup st.handle with
  | none => table.insert st.handle st
  | some _ => table.replace st.handle st

/- `sheath::set_all_torrents`. -/
def setAllTorrents
    (table : TorrentTable)
    (status : List TorrentStatus) : TorrentTable :=
  status.foldl setTorrent table

/- `sheath::remove_torrent_with_handle`. -/
def removeTorrentWithHandle
    (table : TorrentTable)
    (h : Handle) : TorrentTable :=
  match table.lookup h with
  | none => table
  | some _ => table.erase h

/-
  What stays fixed: the directories, the prepared peer,
  `lt::write_resume_data_buf`, and the streams that write
  files.
-/
structure Config where
  dirConf : Str
  dirMoved : Str
  peer : Option Str
  writeResumeDataBuf : AddTorrentParams → Bytes
  stream : Stream

end Sheath

end Kedge

------------------------------------------------------------
-- Handling an Alert
------------------------------------------------------------

namespace Kedge

namespace Sheath

/- The flags of `torrent_handle::save_resume_data`. -/
inductive SaveFlag where
  | saveInfoDict
  | onlyIfModified
  deriving DecidableEq, Repr

/- What the handler asks of a torrent. -/
inductive Command where
  | saveResumeData (handle : Handle) (flags : List SaveFlag)
  | connectPeer (handle : Handle) (peer : Str)
  | setMaxConnections (handle : Handle) (limit : Nat)
  | moveStorage (handle : Handle) (dir : Str)
  deriving DecidableEq

/- The torrent that a command asks to save. -/
def Command.saveRequest? : Command → Option Handle
  | .saveResumeData handle _ => some handle
  | _ => none

/-
  The handler's result: the members, the commands it issued,
  the call of `save_file` it made, and whether the alert
  needs no log entry.
-/
structure Handled where
  members : Members
  commands : List Command
  saved : Option (Str × Bytes)
  result : Bool

/- The save requests among the commands. -/
def Handled.requests (handled : Handled) : List Handle :=
  handled.commands.filterMap Command.saveRequest?

/- What the handler learns of a finished torrent. -/
structure Query where
  status : TorrentStatus
  movedExists : Bool

def maxConnectionsPerTorrent : Nat := 50

/- `PERCENT_DONE`. -/
def percentDone : Int32 := 100 * 10000

/- `sheath::on_torrent_finished`. -/
def onTorrentFinished
    (config : Config)
    (query : Query)
    (th : Handle) : List Command :=
  let st := query.status
  if config.dirMoved = [] then []
  else if st.progressPpm < percentDone ∨
      0 = st.totalPayloadDownload then []
  else if pathEquals st.savePath config.dirMoved then []
  else if query.movedExists then
    [.moveStorage th config.dirMoved]
  else []

/- The call of `save_file` for an answer. -/
def saveCall
    (config : Config)
    (params : AddTorrentParams) : Str × Bytes :=
  (resumeFile config.dirConf params.infoHash,
    config.writeResumeDataBuf params)

/- `++num_outstanding_resume_data`. -/
def Members.countUp (m : Members) : Members :=
  { m with
    numOutstandingResumeData :=
      m.numOutstandingResumeData + 1 }

/- `--num_outstanding_resume_data`. -/
def Members.countDown (m : Members) : Members :=
  { m with
    numOutstandingResumeData :=
      m.numOutstandingResumeData - 1 }

/- `sheath::handle_alert`. -/
def handleAlert
    (config : Config)
    (query : Query)
    (m : Members) : Alert → Handled
  | .sessionStats counters timestamp =>
      ⟨{ m with
          svs := m.svs.updateCounters counters timestamp },
        [], none, true⟩
  | .dhtStats => ⟨m, [], none, true⟩
  | .peerConnect => ⟨m, [], none, true⟩
  | .incomingConnection => ⟨m, [], none, true⟩
  | .peerDisconnected op error =>
      ⟨m, [], none,
        op = .connect ∨ error = .timedOutNoHandshake⟩
  | .metadataReceived h =>
      ⟨m.countUp, [.saveResumeData h [.saveInfoDict]], none,
        false⟩
  | .addTorrent h failed =>
      if failed then ⟨m, [], none, false⟩
      else
        ⟨m.countUp,
          .saveResumeData h
              [.saveInfoDict, .onlyIfModified] ::
            (config.peer.map (.connectPeer h)).toList,
          none, false⟩
  | .torrentFinished h =>
      ⟨m.countUp,
        .setMaxConnections h (maxConnectionsPerTorrent / 2) ::
          .saveResumeData h [.saveInfoDict] ::
            onTorrentFinished config query h,
        none, false⟩
  | .saveResumeData params =>
      ⟨m.countDown, [], some (saveCall config params), false⟩
  | .saveResumeDataFailed error =>
      ⟨m.countDown, [], none, error = .resumeDataNotModified⟩
  | .torrentPaused h =>
      ⟨m.countUp, [.saveResumeData h [.saveInfoDict]], none,
        false⟩
  | .stateUpdate status =>
      ⟨{ m with
          allHandles := setAllTorrents m.allHandles status },
        [], none, true⟩
  | .torrentRemoved h =>
      ⟨{ m with
          allHandles :=
            removeTorrentWithHandle m.allHandles h },
        [], none, false⟩
  | .other => ⟨m, [], none, false⟩

end Sheath

end Kedge

------------------------------------------------------------
-- What the Handler Does
------------------------------------------------------------

namespace Kedge

namespace Sheath

variable (config : Config)
variable (query : Query)

/- Moving a finished torrent saves nothing. -/
theorem filterMap_onTorrentFinished
    (th : Handle) :
    (onTorrentFinished config query th).filterMap
      Command.saveRequest? = [] := by
  unfold onTorrentFinished
  dsimp only
  split
  · rfl
  · split
    · rfl
    · split
      · rfl
      · split <;> rfl

/-
  The counter goes up by the requests the handler issues and
  down by the answer it handles.
-/
theorem handleAlert_numOutstanding
    (m : Members)
    (alert : Alert) :
    (handleAlert config query m
        alert).members.numOutstandingResumeData =
      m.numOutstandingResumeData +
        (handleAlert config query m alert).requests.length -
        (if alert.isAnswer then 1 else 0) := by
  cases alert with
  | torrentFinished h =>
      simp [handleAlert, Handled.requests, Alert.isAnswer,
        List.filterMap_cons, Command.saveRequest?,
        Members.countUp, filterMap_onTorrentFinished]
  | addTorrent h failed =>
      cases failed with
      | true =>
          simp [handleAlert, Handled.requests, Alert.isAnswer]
      | false =>
          cases hPeer : config.peer <;>
            simp [handleAlert, Handled.requests, hPeer,
              Alert.isAnswer, List.filterMap_cons,
              Command.saveRequest?, Members.countUp]
  | _ =>
      simp [handleAlert, Handled.requests, Alert.isAnswer,
        Command.saveRequest?, Members.countUp,
        Members.countDown]

/- Exactly the successful answers are saved. -/
theorem handleAlert_saved
    (m : Members)
    (alert : Alert) :
    (handleAlert config query m alert).saved =
      alert.success?.map (saveCall config) := by
  cases alert with
  | addTorrent h failed => cases failed <;> rfl
  | _ => rfl

/- A successful answer is an answer. -/
theorem isAnswer_of_success
    {alert : Alert}
    {params : AddTorrentParams}
    (hSuccess : alert.success? = some params) :
    alert.isAnswer = true := by
  cases alert with
  | saveResumeData _ => rfl
  | _ => cases hSuccess

end Sheath

end Kedge
