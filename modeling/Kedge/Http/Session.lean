import Kedge.Http.Caller
import Kedge.Http.StaticFile

/-
  The response to a request: `handle_request` in
  `src/http_session.cpp` to its end.

  A response carries a text, a file, or nothing at all. The
  file system is given by what opening a path yields. Only
  two of the exits look whether the request is a `HEAD`
  request, whose response must not have a body.

  Key definitions include:
    * `mimeType`
    * `Sent`
    * `sendResponse`
    * `HeadAnswered`

  Main theorems include:
    * `head_without_body_iff`
-/

------------------------------------------------------------
-- Mime Types
------------------------------------------------------------

namespace Kedge

namespace Http

/- What follows the last dot of a path, with the dot. -/
def extension (path : Str) : Str :=
  match Text.rfind '.' path with
  | none => []
  | some pos => path.drop pos

/- The tests of `mime_type`, in order. -/
def mimeTypes : List (Str × Str) :=
  [(".html".toList, "text/html".toList),
    (".css".toList, "text/css".toList),
    (".txt".toList, "text/plain".toList),
    (".js".toList, "application/javascript".toList),
    (".json".toList, "application/json".toList),
    (".png".toList, "image/png".toList),
    (".jpe".toList, "image/jpeg".toList),
    (".jpeg".toList, "image/jpeg".toList),
    (".jpg".toList, "image/jpeg".toList),
    (".gif".toList, "image/gif".toList),
    (".ico".toList, "image/vnd.microsoft.icon".toList),
    (".svg".toList, "image/svg+xml".toList),
    (".svgz".toList, "image/svg+xml".toList)]

/- `mime_type`. -/
def mimeType (path : Str) : Str :=
  match mimeTypes.find? fun entry =>
      iequals (extension path) entry.1 with
  | some entry => entry.2
  | none => "application/text".toList

end Http

end Kedge

------------------------------------------------------------
-- Responses
------------------------------------------------------------

namespace Kedge

namespace Http

/- What opening the requested file yields. -/
inductive OpenedFile where
  | ok (content : Bytes)
  | noSuchFile
  | failed (message : Str)
  deriving DecidableEq

/-
  The response that is sent, by the type of its body; the
  length is given where it is not that of the body.
-/
inductive Sent where
  | stringBody (response : Response)
  | emptyBody (contentType : Str) (contentLength : Nat)
  | fileBody (contentType : Str) (content : Bytes)

/- The serialized value is never the empty text. -/
def Body.isEmpty : Body → Bool
  | .text content => content.isEmpty
  | .json _ => false

/- The payload of the response is empty. -/
def Sent.isEmpty : Sent → Bool
  | .stringBody response => response.body.isEmpty
  | .emptyBody _ _ => true
  | .fileBody _ content => content.isEmpty

/- The status of the response. -/
def Sent.status : Sent → Status
  | .stringBody response => response.status
  | .emptyBody _ _ => .ok
  | .fileBody _ _ => .ok

/- The exits of `handle_request` behind the file. -/
def sendFile
    (msg : Message)
    (path : Str) : OpenedFile → Sent
  | .noSuchFile => .stringBody (makeResp404 msg.target)
  | .failed message => .stringBody (makeResp500 message)
  | .ok content =>
      if msg.method = .head then
        .emptyBody (mimeType path) content.length
      else .fileBody (mimeType path) content

/- `handle_request`, with the response that it sends. -/
def sendResponse
    (readHash : Str → Option InfoHash)
    (service : Service)
    (openFile : Str → OpenedFile)
    (uiRoot : Str)
    (msg : Message) : Except Error Sent :=
  match handleRequest uiRoot msg.toRequest with
  | .error error => .error error
  | .ok (.badRequest why) =>
      .ok
        (.stringBody (makeResp (.text why) ctText .badRequest))
  | .ok (.handled handler) =>
      (callHandler readHash service msg handler).map
        .stringBody
  | .ok (.opened path) =>
      .ok (sendFile msg path (openFile path))

/- Other targets are refused before any handler. -/
theorem sendResponse_of_not_legal
    (readHash : Str → Option InfoHash)
    (service : Service)
    (openFile : Str → OpenedFile)
    (uiRoot : Str)
    {msg : Message}
    (hLegal : legalTarget msg.target = false) :
    sendResponse readHash service openFile uiRoot msg =
      .ok
        (.stringBody
          (makeResp (.text "Illegal request-target".toList)
            ctText .badRequest)) := by
  unfold sendResponse handleRequest
  rw [if_pos hLegal]

/- The handlers answer with what `sbCall` returns. -/
theorem sendResponse_of_respond
    {readHash : Str → Option InfoHash}
    {service : Service}
    {msg : Message}
    {response : Response}
    (openFile : Str → OpenedFile)
    (uiRoot : Str)
    (hLegal : legalTarget msg.target = true)
    (hRespond :
      respond readHash service msg = .ok (some response)) :
    sendResponse readHash service openFile uiRoot msg =
      .ok (.stringBody response) := by
  unfold sendResponse handleRequest
  unfold respond at hRespond
  simp only [hLegal, Bool.true_eq_false, if_false]
  cases hCall : sbCall msg.toRequest with
  | error error => simp [hCall] at hRespond
  | ok selected =>
      cases selected with
      | none => simp [hCall] at hRespond
      | some handler =>
          simp only [hCall] at hRespond ⊢
          cases hHandler :
              callHandler readHash service msg handler with
          | error error =>
              simp [hHandler, Except.map] at hRespond
          | ok answered =>
              simp only [hHandler, Except.map,
                Except.ok.injEq, Option.some.injEq]
                at hRespond ⊢
              rw [hRespond]

/- The client sees the status of a response it may ask for. -/
theorem exists_sendResponse_of_respond
    {readHash : Str → Option InfoHash}
    {service : Service}
    {msg : Message}
    {response : Response}
    (openFile : Str → OpenedFile)
    (uiRoot : Str)
    (hRespond :
      respond readHash service msg = .ok (some response)) :
    ∃ sent,
      sendResponse readHash service openFile uiRoot msg =
          .ok sent ∧
        (sent.status = .notFound ↔
          response.status = .notFound ∧
            legalTarget msg.target = true) := by
  cases hLegal : legalTarget msg.target with
  | false =>
      refine ⟨_,
        sendResponse_of_not_legal readHash service openFile
          uiRoot hLegal, ?_⟩
      simp [Sent.status, makeResp]
  | true =>
      refine ⟨.stringBody response,
        sendResponse_of_respond openFile uiRoot hLegal
          hRespond, ?_⟩
      simp [Sent.status]

end Http

end Kedge

------------------------------------------------------------
-- The Exits of a HEAD Request
------------------------------------------------------------

namespace Kedge

namespace Http

/- How a `HEAD` request is dispatched. -/
theorem sbCall_head
    {req : Request}
    (hHead : req.method = .head) :
    sbCall req = .ok (some .torrents) ∧
        TorrentsRoute req.target ∨
      sbCall req = .ok (some (.torrent 13)) ∧
        TorrentRoute req.target ∨
      sbCall req = .ok none ∧
        ¬ TorrentsRoute req.target ∧
        ¬ TorrentRoute req.target := by
  unfold TorrentsRoute TorrentRoute
  rw [sbCall_eq, ← Text.isSome_find_iff,
    ← Text.find_eq_zero_iff, hHead]
  by_cases hFind : (Text.find apiPrefix req.target).isSome
  · rw [if_pos hFind]
    generalize stripQuery (req.target.drop 4) = uri
    by_cases hTorrents : uri = "/torrents".toList
    · simp [route, hFind, hTorrents]
    · by_cases hTorrent : Text.find torrentPrefix uri = some 0
      · have hRoute :=
          route_of_torrentPrefix .head
            ((Text.find_eq_zero_iff _ _).mp hTorrent)
        exact Or.inr (Or.inl ⟨by rw [hRoute], hFind, hTorrent⟩)
      · have hRoute : route .head uri = none := by
          unfold route
          rw [if_neg (by simp), if_neg (by simp),
            if_neg (by simp), if_neg hTorrents,
            if_neg hTorrent, if_neg (by simp)]
        refine Or.inr (Or.inr ⟨by rw [hRoute], ?_, ?_⟩)
        · exact fun hIs => hTorrents hIs.2
        · exact fun hIs => hTorrent hIs.2
  · rw [if_neg hFind]
    exact Or.inr (Or.inr
      ⟨rfl, fun hIs => hFind hIs.1, fun hIs => hFind hIs.1⟩)

theorem isEmpty_makeResp404
    (target : Str) :
    (makeResp404 target).body.isEmpty = false := rfl

theorem isEmpty_makeResp400
    (why : Str) :
    (makeResp400 why).body.isEmpty = false := rfl

/- A `HEAD` request for a torrent that the session has. -/
theorem handleTorrent_head_isEmpty_iff
    (readHash : Str → Option InfoHash)
    (answers : Answers)
    {req : Request}
    (hHead : req.method = .head) :
    ∃ outcome,
      handleTorrent readHash answers req 13 =
          .ok outcome ∧
        (outcome.response.body.isEmpty = true ↔
          ∃ ih,
            fromHex readHash
                (((pathPart req.target).drop 13).take 40) =
              some ih ∧
            answers.exists_ ih = true) := by
  rw [handleTorrent_eq]
  generalize pathPart req.target = path
  by_cases hShort : path.length < 13 + 40
  · rw [if_pos hShort]
    refine ⟨_, rfl, ?_⟩
    -- Fewer than forty characters are no hash.
    have hNone :
        fromHex readHash ((path.drop 13).take 40) = none := by
      unfold fromHex
      rw [if_pos]
      rw [List.length_take, List.length_drop]
      omega
    simp [isEmpty_makeResp404, hNone]
  · rw [if_neg hShort]
    cases hHash :
        fromHex readHash ((path.drop 13).take 40) with
    | none =>
        refine ⟨_, rfl, ?_⟩
        simp [isEmpty_makeResp400]
    | some ih =>
        refine ⟨_, rfl, ?_⟩
        cases hExists : answers.exists_ ih with
        | true =>
            simp [torrentOutcome, hHead, headTorrent,
              hExists, makeResp204, makeResp, Body.isEmpty]
        | false =>
            simp [torrentOutcome, hHead, headTorrent,
              hExists, isEmpty_makeResp404]

/-
  The `HEAD` requests that are answered as such: those for a
  torrent of the session, and those for a file that can be
  opened.
-/
def HeadAnswered
    (readHash : Str → Option InfoHash)
    (service : Service)
    (openFile : Str → OpenedFile)
    (uiRoot target : Str) : Prop :=
  legalTarget target = true ∧
    (TorrentRoute target ∧
        (∃ ih,
          fromHex readHash
              (((pathPart target).drop 13).take 40) =
            some ih ∧
          service.exists_ ih = true) ∨
      ¬ TorrentsRoute target ∧ ¬ TorrentRoute target ∧
        ∃ content,
          openFile (openedPath uiRoot target) = .ok content)

/- No target has both routes. -/
theorem not_torrentRoute_of_torrentsRoute
    {target : Str}
    (hTorrents : TorrentsRoute target) :
    ¬ TorrentRoute target := by
  rintro ⟨_, hPrefix⟩
  rw [hTorrents.2] at hPrefix
  exact absurd hPrefix (by decide)

/-
  A `HEAD` request is always answered, and without a body
  exactly when it asks for a torrent of the session or for a
  file that can be opened.
-/
theorem head_without_body_iff
    (readHash : Str → Option InfoHash)
    (service : Service)
    (openFile : Str → OpenedFile)
    (uiRoot : Str)
    (msg : Message)
    (hHead : msg.method = .head) :
    ∃ sent,
      sendResponse readHash service openFile uiRoot msg =
          .ok sent ∧
        (sent.isEmpty = true ↔
          HeadAnswered readHash service openFile uiRoot
            msg.target) := by
  unfold sendResponse handleRequest HeadAnswered
  cases hLegal : legalTarget msg.target with
  | false => exact ⟨_, rfl, by simp [Sent.isEmpty]; rfl⟩
  | true =>
      simp only [Bool.true_eq_false, if_false, true_and]
      rcases sbCall_head hHead with
        ⟨hCall, hTorrents⟩ | ⟨hCall, hTorrent⟩ |
          ⟨hCall, hTorrents, hTorrent⟩
      · rw [hCall]
        have hNot :=
          not_torrentRoute_of_torrentsRoute hTorrents
        let refusal := makeResp400 "Unsupported method".toList
        have hHandler :
            callHandler readHash service msg .torrents =
              .ok refusal := by
          simp [callHandler, handleTorrents, hHead, refusal]
        refine ⟨.stringBody refusal, ?_, ?_⟩
        · simp only [hHandler, Except.map]
        · simp [Sent.isEmpty, refusal, isEmpty_makeResp400,
            hNot, hTorrents]
      · rw [hCall]
        rcases handleTorrent_head_isEmpty_iff readHash
            service.toAnswers hHead with
          ⟨outcome, hOutcome, hEmpty⟩
        refine ⟨.stringBody outcome.response, ?_, ?_⟩
        · simp [callHandler, hOutcome, Except.map]
        · simp only [Sent.isEmpty, hEmpty, hTorrent,
            true_and, not_true_eq_false, false_and, and_false,
            or_false]
      · rw [hCall]
        refine ⟨_, rfl, ?_⟩
        simp only [hTorrents, hTorrent, not_false_eq_true,
          true_and, false_and, false_or]
        cases hOpen :
            openFile (openedPath uiRoot msg.target) with
        | ok content =>
            simp [sendFile, hHead, Sent.isEmpty]
        | noSuchFile =>
            simp [sendFile, Sent.isEmpty,
              isEmpty_makeResp404]
        | failed message =>
            simp [sendFile, Sent.isEmpty, makeResp500,
              makeResp, Body.isEmpty]

/- The index page is asked for, and exists. -/
theorem head_without_body_iff_index :
    ∃ sent,
      sendResponse readSha1 silentService
          (fun _ => .ok [60]) "/srv/ui".toList
          ⟨⟨.head, "/".toList⟩, [], []⟩ =
        .ok sent ∧
      sent.isEmpty = true := by
  rcases head_without_body_iff readSha1 silentService
      (fun _ => .ok [60]) "/srv/ui".toList
      ⟨⟨.head, "/".toList⟩, [], []⟩ rfl with
    ⟨sent, hSent, hEmpty⟩
  refine ⟨sent, hSent, hEmpty.mpr ⟨by decide, Or.inr ?_⟩⟩
  refine ⟨?_, ?_, [60], rfl⟩
  · exact fun hRoute => absurd hRoute.1 (by decide)
  · exact fun hRoute => absurd hRoute.1 (by decide)

/- The list of torrents and a missing file have bodies. -/
theorem head_answered_with_body :
    sendResponse readSha1 silentService
          (fun _ => .noSuchFile) "/srv/ui".toList
          ⟨⟨.head, "/api/torrents".toList⟩, [], []⟩ =
        .ok
          (.stringBody
            (makeResp400 "Unsupported method".toList)) ∧
      (makeResp400
        "Unsupported method".toList).body.isEmpty = false ∧
      sendResponse readSha1 silentService
          (fun _ => .noSuchFile) "/srv/ui".toList
          ⟨⟨.head, "/a.css".toList⟩, [], []⟩ =
        .ok (.stringBody (makeResp404 "/a.css".toList)) ∧
      (makeResp404 "/a.css".toList).body.isEmpty =
        false := by
  exact ⟨rfl, rfl, rfl, rfl⟩

end Http

end Kedge
