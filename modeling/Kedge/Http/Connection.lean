import Kedge.Library.Run
import Kedge.Http.Session
import Kedge.Sheath.TorrentQuery

/-
  A connection: `http_session` in `src/http_session.cpp`.

  The session reads a request, answers it, and reads the
  next one when the response was written. There is no flag
  for what it is doing: `on_read` starts the write, and
  `on_write` the next read. What a read or a write yields
  comes from outside, and a request comes with the state of
  the sheath and of the files when it is answered. A read
  may also bring a websocket upgrade, to which the socket
  is handed over.

  Neither `handle_request` nor `get_torrent` is safe for
  every request and every torrent. Where one of them goes
  out of range, no response follows.

  Key definitions include:
    * `Exchange`
    * `Exchange.serve`
    * `Connection`
    * `Connection.step`
    * `Connection.InTurn`

  Main theorems include:
    * `Connection.inTurn_step`
    * `Connection.one_exchange_at_a_time`
-/

------------------------------------------------------------
-- The Session
------------------------------------------------------------

namespace Kedge

namespace Http

open Sheath

/-
  A request, whether it asks to keep the connection, and
  what the server is like when it is answered: the torrents
  that `find_torrent` finds, the answers they make up, and
  the files.
-/
structure Exchange where
  msg : Message
  keepAlive : Bool
  findTorrent : InfoHash → Option TorrentAccess
  service : Service
  answering : Answering findTorrent service.toAnswers
  openFile : Str → OpenedFile

/- The call of `get_torrent` does not return. -/
def Call.faults
    (findTorrent : InfoHash → Option TorrentAccess) :
    Call → Bool
  | .getTorrent ih flags =>
      match Sheath.getTorrent (findTorrent ih) flags with
      | .error _ => true
      | .ok _ => false
  | _ => false

/- What `handleTorrent` calls, where it is selected. -/
def Exchange.calls
    (readHash : Str → Option InfoHash)
    (exchange : Exchange) : List Call :=
  match sbCall exchange.msg.toRequest with
  | .ok (some (.torrent offset)) =>
      match handleTorrent readHash exchange.service.toAnswers
          exchange.msg.toRequest offset with
      | .ok outcome => outcome.calls
      | .error _ => []
  | _ => []

/- The response of `handle_request`, if it comes to one. -/
def Exchange.serve
    (readHash : Str → Option InfoHash)
    (uiRoot : Str)
    (exchange : Exchange) : Option Sent :=
  if legalTarget exchange.msg.target = true ∧
      (exchange.calls readHash).any
        (Call.faults exchange.findTorrent) then
    none
  else
    (sendResponse readHash exchange.service
      exchange.openFile uiRoot exchange.msg).toOption

/- What a read yields, in the order of the tests. -/
inductive ReadResult where
  | endOfStream
  | timeout
  | failed
  | upgrade
  | request (exchange : Exchange)

/-
  `reads` counts the reads that have not completed; `writes`
  has an entry for each write that has not, which tells
  whether the connection closes behind it. The next four
  say that sending was shut down, that the socket was given
  to a websocket session, that an error was logged, and that
  a handler went out of range. The other fields record the
  requests, the responses handed to `async_write`, and how
  many of them were written.
-/
structure Connection where
  reads : Nat
  writes : List Bool
  isShutdown : Bool
  isReleased : Bool
  isFailed : Bool
  isCrashed : Bool
  requests : List Exchange
  sent : List Sent
  written : Nat

namespace Connection

def init : Connection where
  reads := 0
  writes := []
  isShutdown := false
  isReleased := false
  isFailed := false
  isCrashed := false
  requests := []
  sent := []
  written := 0

/- `http_session::do_read`. -/
def doRead (c : Connection) : Connection :=
  { c with reads := c.reads + 1 }

/- `http_session::run`. -/
def run : Connection :=
  init.doRead

/- The argument of `body_limit`. -/
def bodyLimit : Nat := 1048576

variable (readHash : Str → Option InfoHash)
variable (uiRoot : Str)

/-
  `http_session::on_read`. All responses tell their length,
  so that `need_eof` is whether the request does not keep
  the connection.
-/
def onRead (c : Connection) : ReadResult → Connection
  | .endOfStream => { c with isShutdown := true }
  | .timeout => { c with isShutdown := true }
  | .failed => { c with isFailed := true }
  | .upgrade => { c with isReleased := true }
  | .request exchange =>
      match exchange.serve readHash uiRoot with
      | none =>
          { c with
            isCrashed := true
            requests := c.requests ++ [exchange] }
      | some response =>
          { c with
            writes := c.writes ++ [!exchange.keepAlive]
            requests := c.requests ++ [exchange]
            sent := c.sent ++ [response] }

/- `http_session::on_write`. -/
def onWrite
    (c : Connection)
    (failed close : Bool) : Connection :=
  if failed then { c with isFailed := true }
  else
    let done := { c with written := c.written + 1 }
    if close then { done with isShutdown := true }
    else done.doRead

end Connection

/- What happens to a connection. -/
inductive ConnectionEvent where
  | readDone (result : ReadResult)
  | writeDone (i : Nat) (failed : Bool)

/- A body beyond the limit makes the read fail. -/
def ReadResult.fits : ReadResult → Bool
  | .request exchange =>
      exchange.msg.body.length ≤ Connection.bodyLimit
  | _ => true

/- Only what was started completes, and only once. -/
def Connection.step
    (readHash : Str → Option InfoHash)
    (uiRoot : Str)
    (c : Connection) :
    ConnectionEvent → Option Connection
  | .readDone result =>
      if 0 < c.reads ∧ c.isCrashed = false ∧
          result.fits = true then
        some
          (onRead readHash uiRoot
            { c with reads := c.reads - 1 } result)
      else none
  | .writeDone i failed =>
      match c.writes[i]? with
      | some close =>
          if c.isCrashed = false then
            some
              (onWrite
                { c with writes := c.writes.eraseIdx i }
                failed close)
          else none
      | none => none

end Http

end Kedge

------------------------------------------------------------
-- The Invariant
------------------------------------------------------------

namespace Kedge

namespace Http

namespace Connection

variable (readHash : Str → Option InfoHash)
variable (uiRoot : Str)

/- The response is what the request is answered with. -/
def Answers (exchange : Exchange) (response : Sent) : Prop :=
  sendResponse readHash exchange.service exchange.openFile
      uiRoot exchange.msg =
    .ok response

/- The signs that nothing will happen any more. -/
def ends (c : Connection) : Nat :=
  c.isShutdown.toNat + c.isReleased.toNat +
    c.isFailed.toNat + c.isCrashed.toNat

/- Every request asks to keep the connection. -/
def AllKeepAlive (exchanges : List Exchange) : Prop :=
  ∀ exchange ∈ exchanges, exchange.keepAlive = true

/-
  The session reads a request with all responses written,
  or writes the response to the last request, or has ended.
-/
inductive InTurn : Connection → Prop where
  | reading {c}
      (hReads : c.reads = 1)
      (hWrites : c.writes = [])
      (hEnds : c.ends = 0)
      (hAnswers :
        List.Forall₂ (Answers readHash uiRoot) c.requests
          c.sent)
      (hWritten : c.written = c.sent.length)
      (hKeep : AllKeepAlive c.requests) :
      InTurn c
  | writing {c earlier last}
      (hReads : c.reads = 0)
      (hWrites : c.writes = [!last.keepAlive])
      (hEnds : c.ends = 0)
      (hAnswers :
        List.Forall₂ (Answers readHash uiRoot) c.requests
          c.sent)
      (hWritten : c.written + 1 = c.sent.length)
      (hRequests : c.requests = earlier ++ [last])
      (hKeep : AllKeepAlive earlier) :
      InTurn c
  | ended {c answered unanswered}
      (hReads : c.reads = 0)
      (hWrites : c.writes = [])
      (hEnds : c.ends = 1)
      (hRequests : c.requests = answered ++ unanswered)
      (hUnanswered : unanswered.length = c.isCrashed.toNat)
      (hAnswers :
        List.Forall₂ (Answers readHash uiRoot) answered
          c.sent)
      (hWritten : c.written ≤ c.sent.length)
      (hMissing : c.sent.length ≤ c.written + 1)
      (hKeep : AllKeepAlive c.requests.dropLast) :
      InTurn c

end Connection

end Http

end Kedge

------------------------------------------------------------
-- Every Step Keeps the Invariant
------------------------------------------------------------

namespace Kedge

namespace Http

namespace Connection

variable {readHash : Str → Option InfoHash}
variable {uiRoot : Str}
variable {c : Connection}

theorem inTurn_run :
    InTurn readHash uiRoot run :=
  .reading rfl rfl rfl .nil rfl (by
    intro exchange hMember
    cases hMember)

theorem AllKeepAlive.dropLast
    {exchanges : List Exchange}
    (hKeep : AllKeepAlive exchanges) :
    AllKeepAlive exchanges.dropLast :=
  fun exchange hMember =>
    hKeep exchange (List.mem_of_mem_dropLast hMember)

theorem AllKeepAlive.concat
    {exchanges : List Exchange}
    {last : Exchange}
    (hKeep : AllKeepAlive exchanges)
    (hLast : last.keepAlive = true) :
    AllKeepAlive (exchanges ++ [last]) := by
  intro exchange hMember
  rcases List.mem_append.mp hMember with hOld | hNew
  · exact hKeep exchange hOld
  · rw [List.mem_singleton.mp hNew]
    exact hLast

/- No sign of an end is set. -/
theorem ends_eq_zero_iff :
    c.ends = 0 ↔
      c.isShutdown = false ∧ c.isReleased = false ∧
        c.isFailed = false ∧ c.isCrashed = false := by
  unfold ends
  cases c.isShutdown <;> cases c.isReleased <;>
    cases c.isFailed <;> cases c.isCrashed <;> simp

/- What is sent is the response of `handle_request`. -/
theorem answers_of_serve
    {exchange : Exchange}
    {response : Sent}
    (hServe :
      exchange.serve readHash uiRoot = some response) :
    Answers readHash uiRoot exchange response := by
  rcases Option.ite_none_left_eq_some.mp hServe with
    ⟨_, hSent⟩
  unfold Answers
  cases hResponse :
      sendResponse readHash exchange.service
        exchange.openFile uiRoot exchange.msg with
  | error error =>
      rw [hResponse] at hSent
      cases hSent
  | ok sent =>
      rw [hResponse] at hSent
      cases hSent
      rfl

/- The answer to a request that was just read. -/
theorem inTurn_request
    (hEnds : c.ends = 0)
    (hWrites : c.writes = [])
    (hReads : c.reads = 0)
    (hAnswers :
      List.Forall₂ (Answers readHash uiRoot) c.requests
        c.sent)
    (hWritten : c.written = c.sent.length)
    (hKeep : AllKeepAlive c.requests)
    (exchange : Exchange) :
    InTurn readHash uiRoot
      (c.onRead readHash uiRoot (.request exchange)) := by
  rcases ends_eq_zero_iff.mp hEnds with
    ⟨hShutdown, hReleased, hFailed, hCrashed⟩
  simp only [onRead]
  cases hResponse : exchange.serve readHash uiRoot with
  | none =>
      refine .ended hReads hWrites ?_ rfl ?_ hAnswers
        (by simp [hWritten]) (by simp [hWritten]) ?_
      · simp [ends, hShutdown, hReleased, hFailed]
      · rfl
      · simpa using hKeep
  | some response =>
      refine .writing hReads ?_ ?_ ?_ ?_ rfl hKeep
      · simp [hWrites]
      · simp [ends, hShutdown, hReleased, hFailed, hCrashed]
      · exact
          List.rel_append hAnswers
            (.cons (answers_of_serve hResponse) .nil)
      · simp [hWritten]

theorem inTurn_readDone
    (hTurn : InTurn readHash uiRoot c)
    (hReads : 0 < c.reads)
    (result : ReadResult) :
    InTurn readHash uiRoot
      (onRead readHash uiRoot
        { c with reads := c.reads - 1 } result) := by
  cases hTurn with
  | writing hNone => omega
  | ended hNone => omega
  | reading hOne hWrites hEnds hAnswers hWritten hKeep =>
      have hZero : c.reads - 1 = 0 := by omega
      rcases ends_eq_zero_iff.mp hEnds with
        ⟨hShutdown, hReleased, hFailed, hCrashed⟩
      cases result with
      | request exchange =>
          apply inTurn_request
          · exact hEnds
          · exact hWrites
          · exact hZero
          · exact hAnswers
          · exact hWritten
          · exact hKeep
      | endOfStream | timeout | failed | upgrade =>
          refine .ended hZero hWrites ?_
            (List.append_nil _).symm ?_ hAnswers
            (by simp [onRead, hWritten])
            (by simp [onRead, hWritten]) hKeep.dropLast
          · simp [onRead, ends, hShutdown, hReleased,
              hFailed, hCrashed]
          · simp [onRead, hCrashed]

theorem inTurn_writeDone
    {i : Nat}
    {close : Bool}
    (hTurn : InTurn readHash uiRoot c)
    (hWrite : c.writes[i]? = some close)
    (failed : Bool) :
    InTurn readHash uiRoot
      (onWrite { c with writes := c.writes.eraseIdx i } failed
        close) := by
  cases hTurn with
  | reading _ hWrites => simp [hWrites] at hWrite
  | ended _ hWrites => simp [hWrites] at hWrite
  | @writing earlier last hReads hWrites hEnds hAnswers hWritten
      hRequests hKeep =>
      rcases ends_eq_zero_iff.mp hEnds with
        ⟨hShutdown, hReleased, hFailed, hCrashed⟩
      rw [hWrites] at hWrite ⊢
      -- There is one write, the response to the last request.
      have hFirst : i = 0 ∧ close = !last.keepAlive := by
        cases i with
        | zero => simpa using hWrite.symm
        | succ i => simp at hWrite
      rcases hFirst with ⟨rfl, hClose⟩
      have hEarlier :
          AllKeepAlive c.requests.dropLast := by
        rw [hRequests, List.dropLast_concat]
        exact hKeep
      unfold onWrite
      cases failed with
      | true =>
          refine .ended hReads rfl ?_
            (List.append_nil _).symm ?_ hAnswers ?_ ?_ hEarlier
          · simp [ends, hShutdown, hReleased, hCrashed]
          · simp [hCrashed]
          · simp only [if_true]
            omega
          · simp only [if_true]
            omega
      | false =>
          cases hLast : last.keepAlive with
          | true =>
              rw [hLast] at hClose
              rw [hClose]
              refine .reading ?_ rfl ?_ hAnswers hWritten ?_
              · simp [doRead, hReads]
              · simp [doRead, ends, hShutdown, hReleased,
                  hFailed, hCrashed]
              · change AllKeepAlive c.requests
                rw [hRequests]
                exact hKeep.concat hLast
          | false =>
              rw [hLast] at hClose
              rw [hClose]
              refine .ended hReads rfl ?_
                (List.append_nil _).symm ?_ hAnswers
                hWritten.le ?_ hEarlier
              · simp [ends, hReleased, hFailed, hCrashed]
              · simp [hCrashed]
              · exact hWritten.ge.trans (Nat.le_succ _)

theorem inTurn_step
    {next : Connection}
    {event : ConnectionEvent}
    (hTurn : InTurn readHash uiRoot c)
    (hStep : c.step readHash uiRoot event = some next) :
    InTurn readHash uiRoot next := by
  cases event with
  | readDone result =>
      rcases Option.ite_none_right_eq_some.mp hStep with
        ⟨⟨hReads, _⟩, hNext⟩
      cases hNext
      exact inTurn_readDone hTurn hReads result
  | writeDone i failed =>
      simp only [step] at hStep
      split at hStep
      · next close hWrite =>
        rcases Option.ite_none_right_eq_some.mp hStep with
          ⟨_, hNext⟩
        cases hNext
        exact inTurn_writeDone hTurn hWrite failed
      · cases hStep

theorem inTurn_of_exec
    {events : List ConnectionEvent}
    (hExec :
      Run.exec (step readHash uiRoot) run events = some c) :
    InTurn readHash uiRoot c :=
  Run.invariant
    (fun _ _ _ hTurn hStep => inTurn_step hTurn hStep)
    inTurn_run hExec

end Connection

end Http

end Kedge

------------------------------------------------------------
-- One Exchange at a Time
------------------------------------------------------------

namespace Kedge

namespace Http

namespace Connection

/-
  In every run a connection has one operation under way or
  has come to one of its ends, never both. The responses are
  the answers to the requests, in order and one for each,
  but for a last request whose handler went out of range.
  All requests but the last one asked to keep the
  connection. A request is only read when every response was
  written and every request asked to keep the connection.
-/
theorem one_exchange_at_a_time
    (readHash : Str → Option InfoHash)
    (uiRoot : Str)
    (events : List ConnectionEvent)
    (c : Connection)
    (hExec :
      Run.exec (step readHash uiRoot) run events = some c) :
    c.reads + c.writes.length + c.isShutdown.toNat +
        c.isReleased.toNat + c.isFailed.toNat +
        c.isCrashed.toNat = 1 ∧
      (∃ answered unanswered,
        c.requests = answered ++ unanswered ∧
        unanswered.length = c.isCrashed.toNat ∧
        List.Forall₂
          (fun exchange response =>
            sendResponse readHash exchange.service
                exchange.openFile uiRoot exchange.msg =
              .ok response)
          answered c.sent) ∧
      (∀ exchange ∈ c.requests.dropLast,
        exchange.keepAlive = true) ∧
      c.written ≤ c.sent.length ∧
      c.sent.length ≤ c.written + 1 ∧
      (0 < c.reads →
        c.written = c.sent.length ∧
          ∀ exchange ∈ c.requests,
            exchange.keepAlive = true) := by
  cases inTurn_of_exec hExec with
  | reading hReads hWrites hEnds hAnswers hWritten hKeep =>
      rcases ends_eq_zero_iff.mp hEnds with
        ⟨hShutdown, hReleased, hFailed, hCrashed⟩
      refine
        ⟨?_, ⟨c.requests, [], ?_, ?_, hAnswers⟩,
          hKeep.dropLast, hWritten.le, ?_,
          fun _ => ⟨hWritten, hKeep⟩⟩
      · simp [hReads, hWrites, hShutdown, hReleased, hFailed,
          hCrashed]
      · rw [List.append_nil]
      · simp [hCrashed]
      · omega
  | @writing earlier last hReads hWrites hEnds hAnswers hWritten
      hRequests hKeep =>
      rcases ends_eq_zero_iff.mp hEnds with
        ⟨hShutdown, hReleased, hFailed, hCrashed⟩
      refine
        ⟨?_, ⟨c.requests, [], ?_, ?_, hAnswers⟩, ?_, ?_,
          hWritten.ge, ?_⟩
      · simp [hReads, hWrites, hShutdown, hReleased, hFailed,
          hCrashed]
      · rw [List.append_nil]
      · simp [hCrashed]
      · rw [hRequests, List.dropLast_concat]
        exact hKeep
      · omega
      · intro hPositive
        omega
  | @ended answered unanswered hReads hWrites hEnds hRequests
      hUnanswered hAnswers hWritten hMissing hKeep =>
      refine
        ⟨?_, ⟨answered, unanswered, hRequests, hUnanswered,
          hAnswers⟩, hKeep, hWritten, hMissing, ?_⟩
      · unfold ends at hEnds
        rw [hReads, hWrites, List.length_nil]
        omega
      · intro hPositive
        omega

/- The answers of a sheath without torrents. -/
theorem answering_silentService :
    Sheath.Answering (fun _ => none)
      silentService.toAnswers where
  exists_ := fun _ => rfl
  getTorrent := by
    intro ih flags value hValue
    cases hValue
    rfl

/- A request for a file that the server does not have. -/
def missingFile (keepAlive : Bool) : Exchange where
  msg :=
    { method := .get
      target := "/a".toList
      fields := []
      body := [] }
  keepAlive := keepAlive
  findTorrent := fun _ => none
  service := silentService
  answering := answering_silentService
  openFile := fun _ => .noSuchFile

/- The second request closes the connection. -/
theorem one_exchange_at_a_time_two_requests :
    ∃ c,
      Run.exec (step readSha1 "/ui".toList) run
          [.readDone (.request (missingFile true)),
            .writeDone 0 false,
            .readDone (.request (missingFile false)),
            .writeDone 0 false] =
        some c ∧
      c.isShutdown = true ∧ c.sent.length = 2 ∧
      ∀ exchange ∈ c.requests.dropLast,
        exchange.keepAlive = true := by
  have hRun :
      ∃ c,
        Run.exec (step readSha1 "/ui".toList) run
            [.readDone (.request (missingFile true)),
              .writeDone 0 false,
              .readDone (.request (missingFile false)),
              .writeDone 0 false] =
          some c ∧
        c.isShutdown = true ∧ c.sent.length = 2 :=
    ⟨_, rfl, rfl, rfl⟩
  rcases hRun with ⟨c, hExec, hShutdown, hSent⟩
  have hTurns :=
    one_exchange_at_a_time readSha1 "/ui".toList _ c hExec
  exact ⟨c, hExec, hShutdown, hSent, hTurns.2.2.1⟩

end Connection

end Http

end Kedge
