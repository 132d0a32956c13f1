import Kedge.Files.ResumeFile
import Kedge.Library.Json.Object

/-
  The status of a torrent and its JSON object.

  `torrent_status_to_json_obj` of `src/sheath.cpp` puts some
  members into every object and adds the others only when
  they say something. Numbers have the width they have in
  `lt::torrent_status`; times with a fraction are counted in
  nanoseconds and shown in whole seconds.

  Key definitions include:
    * `Handle`
    * `TorrentStatus`
    * `torrentStatusToJsonObj`
-/

------------------------------------------------------------
-- Torrents and Their Status
------------------------------------------------------------

namespace Kedge

open Json

namespace Sheath

/- `lt::torrent_handle`: a torrent of the session. -/
structure Handle where
  id : Nat
  infoHash : InfoHash
  deriving DecidableEq

/- The earliest `high_resolution_clock::time_point`. -/
def hrMin : Int64 := Int64.minValue

/-
  The members of `lt::torrent_status` that are read here, in
  the order of the JSON object and with the values of a
  status that says nothing.
-/
structure TorrentStatus where
  handle : Handle
  addedTime : Int64 := 0
  state : UInt8 := 0
  flags : UInt64 := 0
  savePath : Str := []
  name : Str := []
  infoHash : InfoHash := handle.infoHash
  currentTracker : Str := []
  nextAnnounce : Int64 := 0
  activeDuration : Int64 := 0
  isFinished : Bool := false
  progress : Rat := 0
  progressPpm : Int32 := 0
  downloadPayloadRate : Int32 := 0
  uploadPayloadRate : Int32 := 0
  totalDone : Int64 := 0
  totalWanted : Int64 := 0
  completedTime : Int64 := 0
  finishedDuration : Int64 := 0
  seedingDuration : Int64 := 0
  totalDownload : Int64 := 0
  totalUpload : Int64 := 0
  allTimeDownload : Int64 := 0
  allTimeUpload : Int64 := 0
  totalPayloadDownload : Int64 := 0
  totalPayloadUpload : Int64 := 0
  totalFailedBytes : Int64 := 0
  totalRedundantBytes : Int64 := 0
  total : Int64 := 0
  totalWantedDone : Int64 := 0
  lastSeenComplete : Int64 := 0
  lastDownload : Int64 := hrMin
  lastUpload : Int64 := hrMin
  downloadRate : Int32 := 0
  uploadRate : Int32 := 0
  numSeeds : Int32 := 0
  numPeers : Int32 := 0
  numComplete : Int32 := 0
  numIncomplete : Int32 := 0
  listSeeds : Int32 := 0
  listPeers : Int32 := 0
  connectCandidates : Int32 := 0
  numPieces : Int32 := 0
  distributedFullCopies : Int32 := 0
  distributedFraction : Int32 := 0
  blockSize : Int32 := 0
  numUploads : Int32 := 0
  numConnections : Int32 := 0
  movingStorage : Bool := false
  isSeeding : Bool := false
  hasMetadata : Bool := false
  hasIncoming : Bool := false
  errc : Int32 := 0
  deriving DecidableEq

end Sheath

end Kedge

------------------------------------------------------------
-- The JSON Object of a Status
------------------------------------------------------------

namespace Kedge

open Json

namespace Sheath

/- `duration_cast<seconds>` of nanoseconds. -/
def wholeSeconds (nanoseconds : Int64) : Int64 :=
  nanoseconds / 1000000000

/- A JSON number from an `int`. -/
def jsonInt (number : Int32) : Value :=
  .int64 number.toInt64

/- A member that is added only when it is positive. -/
def positive64 (key : String) (number : Int64) : Guarded :=
  ⟨decide (number > 0), key.toList, .int64 number⟩

def positive32 (key : String) (number : Int32) : Guarded :=
  ⟨decide (number > 0), key.toList, jsonInt number⟩

/- A member that is added only when it is not zero. -/
def nonzero64 (key : String) (number : Int64) : Guarded :=
  ⟨decide (number ≠ 0), key.toList, .int64 number⟩

/- A point in time that is added only when it was set. -/
def timePoint (key : String) (time : Int64) : Guarded :=
  ⟨decide (time > hrMin), key.toList,
    .int64 (wholeSeconds time)⟩

/- A flag that is added only when it is set. -/
def flagged (key : String) (flag : Bool) : Guarded :=
  ⟨flag, key.toList, .bool_ flag⟩

/- The members of every status object. -/
def statusMembers (st : TorrentStatus) : Members :=
  [("added_time".toList, .int64 st.addedTime),
    ("state".toList, .int64 st.state.toUInt64.toInt64),
    ("flags".toList, jsonInt st.flags.toUInt32.toInt32),
    ("save_path".toList, .string st.savePath),
    ("name".toList, .string st.name),
    ("info_hash".toList, .string (toHex st.infoHash)),
    ("current_tracker".toList, .string st.currentTracker),
    ("next_announce".toList,
      .int64 (wholeSeconds st.nextAnnounce)),
    ("active_duration".toList, .int64 st.activeDuration),
    ("is_finished".toList, .bool_ st.isFinished),
    ("progress".toList, .double_ st.progress),
    ("progress_ppm".toList, jsonInt st.progressPpm),
    ("rates".toList,
      jsonInt (st.downloadPayloadRate + st.uploadPayloadRate)),
    ("total_done".toList, .int64 st.totalDone),
    ("total_wanted".toList, .int64 st.totalWanted)]

/- The members that are added under a condition. -/
def statusExtras (st : TorrentStatus) : List Guarded :=
  [positive64 "completed_time" st.completedTime,
    nonzero64 "finished_duration" st.finishedDuration,
    nonzero64 "seeding_duration" st.seedingDuration,
    positive64 "total_download" st.totalDownload,
    positive64 "total_upload" st.totalUpload,
    positive64 "all_time_download" st.allTimeDownload,
    positive64 "all_time_upload" st.allTimeUpload,
    positive64 "total_payload_download"
      st.totalPayloadDownload,
    positive64 "total_payload_upload" st.totalPayloadUpload,
    positive64 "total_failed_bytes" st.totalFailedBytes,
    positive64 "total_redundant_bytes"
      st.totalRedundantBytes,
    positive64 "total" st.total,
    positive64 "total_wanted_done" st.totalWantedDone,
    positive64 "last_seen_complete" st.lastSeenComplete,
    timePoint "last_download" st.lastDownload,
    timePoint "last_upload" st.lastUpload,
    positive32 "download_rate" st.downloadRate,
    positive32 "upload_rate" st.uploadRate,
    positive32 "download_payload_rate"
      st.downloadPayloadRate,
    positive32 "upload_payload_rate" st.uploadPayloadRate,
    positive32 "num_seeds" st.numSeeds,
    positive32 "num_peers" st.numPeers,
    positive32 "num_complete" st.numComplete,
    positive32 "num_incomplete" st.numIncomplete,
    positive32 "list_seeds" st.listSeeds,
    positive32 "list_peers" st.listPeers,
    positive32 "connect_candidates" st.connectCandidates,
    positive32 "num_pieces" st.numPieces,
    positive32 "distributed_full_copies"
      st.distributedFullCopies,
    positive32 "distributed_fraction"
      st.distributedFraction,
    positive32 "block_size" st.blockSize,
    positive32 "num_uploads" st.numUploads,
    positive32 "num_connections" st.numConnections,
    flagged "moving_storage" st.movingStorage,
    flagged "is_seeding" st.isSeeding,
    flagged "has_metadata" st.hasMetadata,
    flagged "has_incoming" st.hasIncoming,
    ⟨decide (st.errc ≠ 0), "errc".toList, jsonInt st.errc⟩]

/- `torrent_status_to_json_obj`. -/
def torrentStatusToJsonObj (st : TorrentStatus) : Members :=
  emplaceAll (statusMembers st) (statusExtras st)

end Sheath

end Kedge
