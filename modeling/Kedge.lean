import Kedge.Library.Text
import Kedge.Library.Run
import Kedge.Library.Progress
import Kedge.Library.Table
import Kedge.Library.PosixPath
import Kedge.Library.Cursor
import Kedge.Library.Directory
import Kedge.Library.Window
import Kedge.Library.Numeral
import Kedge.Library.ProgramOptions
import Kedge.Library.Json.Value
import Kedge.Library.Json.Document
import Kedge.Library.Json.Patch
import Kedge.Library.Json.Object
import Kedge.Library.Json.Location
import Kedge.JsonDiff.Diff
import Kedge.JsonDiff.Correctness
import Kedge.JsonDiff.Replica
import Kedge.JsonDiff.Positions
import Kedge.JsonDiff.Locality
import Kedge.Sync.Caller
import Kedge.Sync.Convergence
import Kedge.Sync.Delivery
import Kedge.Sync.Serial
import Kedge.Sync.Versions
import Kedge.Sync.EndToEnd
import Kedge.Sync.Hub
import Kedge.Sync.Frames
import Kedge.Sync.Lifetime
import Kedge.WebSocket.WriteQueue
import Kedge.Sync.Wire
import Kedge.Sync.Published
import Kedge.WebSocket.ClientId
import Kedge.Files.Util
import Kedge.Files.SessionState
import Kedge.Files.ResumeFile
import Kedge.Files.HexHash
import Kedge.Http.Dispatch
import Kedge.Http.StaticFile
import Kedge.Http.Torrent
import Kedge.Http.Caller
import Kedge.Http.Session
import Kedge.Http.Connection
import Kedge.Http.Listener
import Kedge.Http.Availability
import Kedge.Http.Query
import Kedge.Sheath.Status
import Kedge.Sheath.TorrentQuery
import Kedge.Sheath.Alert
import Kedge.Sheath.System
import Kedge.Sheath.UnknownTorrent
import Kedge.Sheath.Accounting
import Kedge.Sheath.Shutdown
import Kedge.Sheath.Drop
import Kedge.Sheath.FailedSave
import Kedge.Sheath.SyncStats
import Kedge.Sheath.SessionStats
import Kedge.Sheath.StatsWindow
import Kedge.Sheath.LiveSync
import Kedge.Sheath.LiveTable
import Kedge.Sheath.SessionInfo
import Kedge.Sheath.Resume
import Kedge.Sheath.AddTorrent
import Kedge.Sheath.Restart
import Kedge.Sheath.WatchDir
import Kedge.Sheath.Moved
import Kedge.Sheath.PauseResume
import Kedge.Http.Api
import Kedge.Http.Deleted
import Kedge.Main.Options
import Kedge.Main.Threads
import Kedge.Main.Order
import Kedge.Main.Exit
