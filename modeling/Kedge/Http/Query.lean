import Kedge.Http.Session

/-
  Targets with a query string.

  The handlers of the API cut the query off, `sbCall` behind
  the first four characters and `handleTorrent` in the whole
  target. The two agree below the API prefix, and the query
  changes neither the handler nor what it asks of the
  session. The path of a static file is made from the whole
  target, and the query is part of the name that is opened.

  Key definitions include:
    * `Message.withTarget`
    * `withQuery`

  Main theorems include:
    * `api_ignores_query`
    * `static_files_keep_query`
-/

------------------------------------------------------------
-- The Path before a Query
------------------------------------------------------------

namespace Kedge

namespace Http

def Message.withTarget
    (msg : Message)
    (target : Str) : Message :=
  { msg with target := target }

/- A target with a query string. -/
def withQuery (path query : Str) : Str :=
  path ++ '?' :: query

theorem pathPart_of_not_mem
    {path : Str}
    (hPlain : '?' ∉ path) :
    pathPart path = path :=
  Text.takeWhile_of_not_mem hPlain

theorem pathPart_withQuery
    {path : Str}
    (hPlain : '?' ∉ path)
    (query : Str) :
    pathPart (withQuery path query) = path := by
  rw [pathPart, withQuery,
    Text.takeWhile_append_of_not_mem hPlain]
  simp

/- The dispatch strips the query below the API prefix. -/
theorem sbCall_withQuery
    (method : Verb)
    {path : Str}
    (hApi : apiPrefix <+: path)
    (hPlain : '?' ∉ path)
    (query : Str) :
    sbCall ⟨method, withQuery path query⟩ =
      sbCall ⟨method, path⟩ := by
  have hQueried : apiPrefix <+: withQuery path query :=
    hApi.trans (List.prefix_append path _)
  have hFind :
      ∀ target, apiPrefix <+: target →
        (Text.find apiPrefix target).isSome = true :=
    fun target hPrefix =>
      (Text.isSome_find_iff _ _).mpr hPrefix.isInfix
  have hUri :
      stripQuery ((withQuery path query).drop 4) =
        stripQuery (path.drop 4) := by
    rw [← (pathPart_of_apiPath hQueried).2,
      ← (pathPart_of_apiPath hApi).2,
      pathPart_withQuery hPlain, pathPart_of_not_mem hPlain]
  rw [sbCall_eq, sbCall_eq]
  dsimp only
  rw [if_pos (hFind _ hQueried), if_pos (hFind _ hApi), hUri]

end Http

end Kedge

------------------------------------------------------------
-- Requests for a Torrent
------------------------------------------------------------

namespace Kedge

namespace Http

/- Only the text of a 404 response shows the target. -/
theorem torrentOutcome_congr
    (answers : Answers)
    (ih : InfoHash)
    (act : Str)
    {a b : Request}
    (hMethod : a.method = b.method) :
    (torrentOutcome answers a ih act).calls =
        (torrentOutcome answers b ih act).calls ∧
      (torrentOutcome answers a ih act).response.status =
        (torrentOutcome answers b ih
          act).response.status := by
  unfold torrentOutcome headTorrent actOnTorrent
  rw [hMethod]
  constructor
  · split
    · rfl
    · split <;> rfl
  · split
    · dsimp only
      split <;> rfl
    · split
      · dsimp only
        split <;> rfl
      · rfl
      · rfl
      · rfl

/- The handler sees of a target no more than its path. -/
theorem handleTorrent_congr
    (readHash : Str → Option InfoHash)
    (answers : Answers)
    (offset : Nat)
    {a b : Request}
    (hMethod : a.method = b.method)
    (hPath : pathPart a.target = pathPart b.target) :
    ∃ x y,
      handleTorrent readHash answers a offset = .ok x ∧
        handleTorrent readHash answers b offset = .ok y ∧
        x.calls = y.calls ∧
        x.response.status = y.response.status := by
  rw [handleTorrent_eq, handleTorrent_eq, hPath]
  by_cases hShort :
      (pathPart b.target).length < offset + 40
  · rw [if_pos hShort, if_pos hShort]
    exact ⟨_, _, rfl, rfl, rfl, rfl⟩
  · rw [if_neg hShort, if_neg hShort]
    cases fromHex readHash
        (((pathPart b.target).drop offset).take 40) with
    | none => exact ⟨_, _, rfl, rfl, rfl, rfl⟩
    | some ih =>
        exact ⟨_, _, rfl, rfl,
          torrentOutcome_congr answers ih _ hMethod⟩

/-
  Below the API prefix a query changes neither the handler
  nor, for a torrent, the operations it calls, nor the
  status of the response.
-/
theorem api_ignores_query
    (readHash : Str → Option InfoHash)
    (service : Service)
    (msg : Message)
    (path query : Str)
    (hApi : apiPrefix <+: path)
    (hPlain : '?' ∉ path) :
    let queried := msg.withTarget (withQuery path query)
    let plain := msg.withTarget path
    sbCall queried.toRequest = sbCall plain.toRequest ∧
      (∀ offset,
        sbCall plain.toRequest =
            .ok (some (.torrent offset)) →
          ∃ a b,
            handleTorrent readHash service.toAnswers
                queried.toRequest offset = .ok a ∧
              handleTorrent readHash service.toAnswers
                plain.toRequest offset = .ok b ∧
              a.calls = b.calls ∧
              a.response.status = b.response.status) ∧
      (respond readHash service queried).map
          (Option.map Response.status) =
        (respond readHash service plain).map
          (Option.map Response.status) := by
  intro queried plain
  have hCall :
      sbCall queried.toRequest = sbCall plain.toRequest :=
    sbCall_withQuery msg.method hApi hPlain query
  have hTorrent :
      ∀ offset,
        ∃ a b,
          handleTorrent readHash service.toAnswers
              queried.toRequest offset = .ok a ∧
            handleTorrent readHash service.toAnswers
              plain.toRequest offset = .ok b ∧
            a.calls = b.calls ∧
            a.response.status = b.response.status := by
    intro offset
    apply handleTorrent_congr
    · rfl
    · exact (pathPart_withQuery hPlain query).trans
        (pathPart_of_not_mem hPlain).symm
  refine ⟨hCall, fun offset _ => hTorrent offset, ?_⟩
  unfold respond
  rw [hCall]
  cases sbCall plain.toRequest with
  | error error => rfl
  | ok selected =>
      cases selected with
      | none => rfl
      | some handler =>
          cases handler with
          | torrent offset =>
              rcases hTorrent offset with
                ⟨a, b, hA, hB, _, hStatus⟩
              simp [callHandler, hA, hB, Except.map, hStatus]
          | _ => rfl

/- The query looks like an action, and is not one. -/
theorem api_ignores_query_action :
    sbCall
        ⟨.delete_,
          withQuery (torrentApi ++ toHex repeatedHash)
            "/with_data".toList⟩ =
      sbCall
        ⟨.delete_, torrentApi ++ toHex repeatedHash⟩ :=
  (api_ignores_query readSha1 silentService
    ⟨⟨.delete_, []⟩, [], []⟩
    (torrentApi ++ toHex repeatedHash) "/with_data".toList
    (by decide) (by decide)).1

end Http

end Kedge

------------------------------------------------------------
-- Static Files
------------------------------------------------------------

namespace Kedge

namespace Http

/- A query without `..` keeps the target legal. -/
theorem legalTarget_withQuery
    {path query : Str}
    (hLegal : legalTarget path = true)
    (hQuery : ¬ Posix.dotdot <:+: query) :
    legalTarget (withQuery path query) = true := by
  unfold legalTarget at hLegal ⊢
  rw [decide_eq_true_eq] at hLegal ⊢
  rcases hLegal with ⟨hHead, hFind⟩
  rw [Text.find_eq_none_iff] at hFind ⊢
  constructor
  · rw [withQuery, List.head?_append, hHead]
    rfl
  · intro hInfix
    rcases Text.infix_append_cons (by decide) hInfix with
      hPath | hIn
    · exact hFind hPath
    · exact hQuery hIn

/- The name that is opened contains the query. -/
theorem openedPath_withQuery_ne
    (uiRoot path query : Str) :
    openedPath uiRoot (withQuery path query) ≠
      openedPath uiRoot path := by
  intro hSame
  have hCut :
      ∀ target,
        ∃ tail,
          (tail = [] ∨ tail = indexFile) ∧
            openedPath uiRoot target =
              uiRoot ++ (target ++ tail) := by
    intro target
    unfold openedPath pathCat
    dsimp only
    split
    · exact ⟨indexFile, Or.inr rfl, List.append_assoc _ _ _⟩
    · exact ⟨[], Or.inl rfl, by rw [List.append_nil]⟩
  rcases hCut (withQuery path query) with ⟨a, _, hQueried⟩
  rcases hCut path with ⟨b, hB, hPath⟩
  rw [hQueried, hPath, List.append_cancel_left_eq, withQuery,
    List.append_assoc, List.append_cancel_left_eq] at hSame
  -- The index file does not start with a question mark.
  rcases hB with rfl | rfl
  · cases hSame
  · have hHead : some '?' = some 'i' :=
      congrArg List.head? hSame
    exact absurd hHead (by decide)

/-
  Whatever the path and the query, if both targets are left
  to the static files they open different names.
-/
theorem static_files_keep_query
    (uiRoot : Str)
    (method : Verb)
    (path query : Str)
    (hLegal : legalTarget path = true)
    (hQuery : ¬ Posix.dotdot <:+: query)
    (hPath : sbCall ⟨method, path⟩ = .ok none)
    (hQueried :
      sbCall ⟨method, withQuery path query⟩ = .ok none) :
    ∃ plain queried,
      handleRequest uiRoot ⟨method, path⟩ =
          .ok (.opened plain) ∧
        handleRequest uiRoot
            ⟨method, withQuery path query⟩ =
          .ok (.opened queried) ∧
        ¬ (queried = plain ∧
          mimeType queried = mimeType plain) := by
  have hOpened :
      ∀ target,
        legalTarget target = true →
          sbCall ⟨method, target⟩ = .ok none →
            handleRequest uiRoot ⟨method, target⟩ =
              .ok (.opened (openedPath uiRoot target)) := by
    intro target hTarget hNone
    unfold handleRequest
    rw [if_neg (by simp [hTarget]), hNone]
  refine ⟨_, _, hOpened path hLegal hPath,
    hOpened _ (legalTarget_withQuery hLegal hQuery)
      hQueried, ?_⟩
  exact fun hSame =>
    openedPath_withQuery_ne uiRoot path query hSame.1

/- The query of a style sheet hides its extension. -/
theorem style_sheet_with_query :
    handleRequest "/srv/ui".toList
          ⟨.get, "/a.css".toList⟩ =
        .ok (.opened "/srv/ui/a.css".toList) ∧
      handleRequest "/srv/ui".toList
          ⟨.get, withQuery "/a.css".toList "v=1".toList⟩ =
        .ok (.opened "/srv/ui/a.css?v=1".toList) ∧
      mimeType "/srv/ui/a.css?v=1".toList =
        "application/text".toList ∧
      mimeType "/srv/ui/a.css".toList =
        "text/css".toList := by
  decide

theorem static_files_keep_query_style_sheet :
    ∃ plain queried,
      handleRequest "/srv/ui".toList
            ⟨.get, "/a.css".toList⟩ =
          .ok (.opened plain) ∧
        handleRequest "/srv/ui".toList
            ⟨.get,
              withQuery "/a.css".toList "v=1".toList⟩ =
          .ok (.opened queried) ∧
        ¬ (queried = plain ∧
          mimeType queried = mimeType plain) :=
  static_files_keep_query "/srv/ui".toList .get
    "/a.css".toList "v=1".toList (by decide) (by decide)
    (by decide) (by decide)

end Http

end Kedge
