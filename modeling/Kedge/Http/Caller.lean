import Kedge.Http.Torrent

/-
  The API handlers: `httpCaller::sbCall` in
  `src/handlers.cpp` with the responses it returns.

  The handlers read the method, the target, the header
  fields and the body of a request. What the sheath answers
  is given. A new torrent is logged before it is added, and
  the log asks for the length of the body without a look
  whether the request has such a field.

  Key definitions include:
    * `Message`
    * `Service`
    * `handleTorrents`
    * `respond`

  Main theorems include:
    * `handleTorrents_total_iff`
    * `respond_total_iff`
-/

------------------------------------------------------------
-- Requests with Fields and Body
------------------------------------------------------------

namespace Kedge

namespace Http

/- A request with its header fields and its body. -/
structure Message extends Request where
  fields : List (Str × Str)
  body : Str

/- Equality of field names, without regard to case. -/
def iequals (a b : Str) : Bool :=
  a.map Char.toLower = b.map Char.toLower

/- `find`: the value of the field, or the end iterator. -/
def Message.find (msg : Message) (name : Str) : Option Str :=
  (msg.fields.find? fun field => iequals field.1 name).map
    Prod.snd

/- `operator[]`: a missing field reads as empty. -/
def Message.get (msg : Message) (name : Str) : Str :=
  (msg.find name).getD []

def contentLength : Str := "Content-Length".toList

def contentType : Str := "Content-Type".toList

def savePathField : Str := "x-save-path".toList

def ctTorrent : Str := "application/x-bittorrent".toList

end Http

end Kedge

------------------------------------------------------------
-- The Handlers
------------------------------------------------------------

namespace Kedge

namespace Http

/- The answers of the sheath that the handlers use. -/
structure Service extends Answers where
  dirStore : Str
  getSessionInfo : Json.Value
  getSessionStats : Json.Value
  getSyncStats : Json.Value
  getTorrents : Json.Value
  togglePauseResume : Bool
  addTorrent : (buffer savePath : Str) → Bool
  addMagnet : (uri : Str) → Bool

/- The part of `handleTorrents` behind the log entry. -/
def addPosted (service : Service) (msg : Message) : Response :=
  let dir := (msg.find savePathField).getD service.dirStore
  if msg.get contentType = ctTorrent then
    if service.addTorrent msg.body dir then makeResp204
    else makeResp500 "failed to add with metainfo".toList
  else if service.addMagnet msg.body then makeResp204
  else makeResp500 "failed to add with magnet".toList

/-
  `httpCaller::handleTorrents`. `main` opens the log at its
  most detailed level, so the operands of the log entry are
  evaluated.
-/
def handleTorrents
    (service : Service)
    (msg : Message) : Except Error Response :=
  match msg.method with
  | .get =>
      .ok (makeResp (.json service.getTorrents) ctJSON .ok)
  | .post =>
      match msg.find contentLength with
      | none => .error .endIterator
      | some _ => .ok (addPosted service msg)
  | _ => .ok (makeResp400 "Unsupported method".toList)

/- The call of the handler that was selected. -/
def callHandler
    (readHash : Str → Option InfoHash)
    (service : Service)
    (msg : Message) : Handler → Except Error Response
  | .sessionInfo =>
      .ok (makeResp (.json service.getSessionInfo) ctJSON .ok)
  | .sessionStats =>
      .ok
        (makeResp (.json service.getSessionStats) ctJSON .ok)
  | .syncStats =>
      .ok (makeResp (.json service.getSyncStats) ctJSON .ok)
  | .torrents => handleTorrents service msg
  | .torrent offset =>
      (handleTorrent readHash service.toAnswers msg.toRequest
        offset).map Outcome.response
  | .sessionToggle =>
      .ok
        (makeResp
          (.json
            (.object
              [("isPaused".toList,
                .bool_ service.togglePauseResume)]))
          ctJSON .ok)

/- `httpCaller::sbCall` with the response, if any. -/
def respond
    (readHash : Str → Option InfoHash)
    (service : Service)
    (msg : Message) : Except Error (Option Response) :=
  match sbCall msg.toRequest with
  | .error error => .error error
  | .ok none => .ok none
  | .ok (some handler) =>
      (callHandler readHash service msg handler).map some

end Http

end Kedge

------------------------------------------------------------
-- Routes
------------------------------------------------------------

namespace Kedge

namespace Http

/- The target is routed to `handleTorrents`. -/
def TorrentsRoute (target : Str) : Prop :=
  apiPrefix <:+: target ∧
    stripQuery (target.drop 4) = "/torrents".toList

/- The target is routed to `handleTorrent`. -/
def TorrentRoute (target : Str) : Prop :=
  apiPrefix <:+: target ∧
    torrentPrefix <+: stripQuery (target.drop 4)

/- The hash in the path of a request for one torrent. -/
def namedHash
    (readHash : Str → Option InfoHash)
    (target : Str) : Option InfoHash :=
  fromHex readHash (((pathPart target).drop 13).take 40)

theorem sbCall_ne_error
    (req : Request)
    (error : Error) :
    sbCall req ≠ .error error := by
  rw [sbCall_eq]
  split
  · simp
  · simp

/- The route of all torrents is open to every method. -/
theorem sbCall_torrents_iff
    (req : Request) :
    sbCall req = .ok (some .torrents) ↔
      TorrentsRoute req.target := by
  rw [sbCall_eq, TorrentsRoute, ← Text.isSome_find_iff]
  by_cases hFind : (Text.find apiPrefix req.target).isSome
  · rw [if_pos hFind]
    constructor
    · intro hCall
      have hRoute :
          route req.method (stripQuery (req.target.drop 4)) =
            some .torrents := by
        simpa using hCall
      exact ⟨hFind, route_serves hRoute⟩
    · rintro ⟨_, hUri⟩
      rw [hUri]
      have hRoute :
          route req.method "/torrents".toList =
            some .torrents := by
        simp [route]
      rw [hRoute]
  · rw [if_neg hFind]
    simp [hFind]

end Http

end Kedge

------------------------------------------------------------
-- Requests for One Torrent
------------------------------------------------------------

namespace Kedge

namespace Http

theorem sbCall_of_torrentApi
    {req : Request}
    (hTarget : torrentApi <+: req.target) :
    sbCall req = .ok (some (.torrent 13)) := by
  have hApi : apiPrefix <+: req.target :=
    List.IsPrefix.trans (by decide) hTarget
  have hUri :
      torrentPrefix <+: stripQuery (req.target.drop 4) := by
    rw [← (pathPart_of_apiPath hApi).2, pathPart_split hTarget,
      List.append_assoc]
    exact List.prefix_append torrentPrefix _
  rw [sbCall_eq,
    if_pos ((Text.isSome_find_iff _ _).mpr hApi.isInfix),
    route_of_torrentPrefix req.method hUri]

/- The path of a torrent, up to its digits and behind. -/
theorem pathPart_torrent
    {digits : Str}
    {ih : InfoHash}
    (hSpells : Spells digits ih)
    (tail : Str) :
    ∃ rest,
      pathPart (torrentApi ++ digits ++ tail) =
        torrentApi ++ digits ++ rest := by
  have hPlain : '?' ∉ torrentApi ++ digits := by
    intro hMark
    rcases List.mem_append.mp hMark with hIn | hIn
    · exact absurd hIn (by decide)
    · exact absurd (hSpells.mem_hexDigit hIn) (by decide)
  exact ⟨tail.takeWhile (· ≠ '?'),
    Text.takeWhile_append_of_not_mem hPlain tail⟩

/- The handler reads the digits of the target. -/
theorem handleTorrent_of_digits
    {readHash : Str → Option InfoHash}
    (hReads : ReadsHash readHash)
    (answers : Answers)
    (method : Verb)
    {digits : Str}
    {ih : InfoHash}
    (hSpells : Spells digits ih)
    (tail : Str) :
    ∃ act,
      handleTorrent readHash answers
          ⟨method, torrentApi ++ digits ++ tail⟩ 13 =
        .ok
          (torrentOutcome answers
            ⟨method, torrentApi ++ digits ++ tail⟩ ih
            act) := by
  rcases pathPart_torrent hSpells tail with ⟨rest, hPath⟩
  have hCount := hSpells.length_eq
  have hDigits :
      ((torrentApi ++ digits ++ rest).drop 13).take 40 =
        digits := by
    rw [List.append_assoc,
      List.drop_left' length_torrentApi,
      List.take_left' hCount]
  have hLong :
      ¬ (torrentApi ++ digits ++ rest).length < 13 + 40 := by
    rw [List.length_append, List.length_append,
      length_torrentApi, hCount]
    omega
  refine
    ⟨(torrentApi ++ digits ++ rest).drop (13 + 40 + 1), ?_⟩
  rw [handleTorrent_eq]
  dsimp only
  rw [hPath, if_neg hLong, hDigits,
    (fromHex_eq_some_iff hReads digits ih).mpr hSpells]

end Http

end Kedge

------------------------------------------------------------
-- Requests That Are Handled without an Error
------------------------------------------------------------

namespace Kedge

namespace Http

/- Only the log entry of a new torrent can go wrong. -/
theorem handleTorrents_total_iff
    (service : Service)
    (msg : Message) :
    (∃ response, handleTorrents service msg = .ok response) ↔
      ¬ (msg.method = .post ∧
        msg.find contentLength = none) := by
  unfold handleTorrents
  cases hMethod : msg.method with
  | post =>
      cases hLength : msg.find contentLength with
      | none => simp
      | some length => simp
  | get => simp
  | head => simp
  | put => simp
  | delete_ => simp
  | other => simp

/- The cuts of the target and the hash stay in range. -/
theorem handleTorrent_total
    (readHash : Str → Option InfoHash)
    (answers : Answers)
    (req : Request)
    (offset : Nat) :
    ∃ outcome,
      handleTorrent readHash answers req offset =
        .ok outcome := by
  rw [handleTorrent_eq]
  split
  · exact ⟨_, rfl⟩
  · split
    · exact ⟨_, rfl⟩
    · exact ⟨_, rfl⟩

/-
  A request is answered, or handed on, without an access out
  of range exactly when it does not add a torrent without
  saying how long its body is.
-/
theorem respond_total_iff
    (readHash : Str → Option InfoHash)
    (service : Service)
    (msg : Message) :
    (∃ answer, respond readHash service msg = .ok answer) ↔
      ¬ (msg.method = .post ∧ TorrentsRoute msg.target ∧
        msg.find contentLength = none) := by
  unfold respond
  rw [← sbCall_torrents_iff]
  cases hCall : sbCall msg.toRequest with
  | error error =>
      exact absurd hCall (sbCall_ne_error _ error)
  | ok selected =>
      cases selected with
      | none => simp
      | some handler =>
          cases handler with
          | torrents =>
              have hTotal :=
                handleTorrents_total_iff service msg
              simp only [callHandler, true_and]
              rw [← hTotal]
              cases handleTorrents service msg with
              | error error => simp [Except.map]
              | ok response => simp [Except.map]
          | torrent offset =>
              rcases handleTorrent_total readHash
                  service.toAnswers msg.toRequest offset with
                ⟨outcome, hOutcome⟩
              simp [callHandler, hOutcome, Except.map]
          | sessionInfo => simp [callHandler, Except.map]
          | sessionStats => simp [callHandler, Except.map]
          | syncStats => simp [callHandler, Except.map]
          | sessionToggle => simp [callHandler, Except.map]

def silentService : Service where
  toAnswers := noAnswers
  dirStore := []
  getSessionInfo := .null
  getSessionStats := .null
  getSyncStats := .null
  getTorrents := .null
  togglePauseResume := false
  addTorrent := fun _ _ => false
  addMagnet := fun _ => false

/- A magnet link in a chunked body. -/
theorem posted_without_length :
    respond readSha1 silentService
        { method := .post
          target := "/api/torrents".toList
          fields :=
            [("Transfer-Encoding".toList, "chunked".toList)]
          body := "magnet:?xt=urn:btih:".toList } =
      .error .endIterator := by
  rfl

end Http

end Kedge
