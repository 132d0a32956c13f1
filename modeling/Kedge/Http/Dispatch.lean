import Kedge.Library.Text

/-
  Dispatch of API requests: `httpCaller::sbCall` in
  `src/handlers.cpp`.

  The guard searches the target for `/api/` anywhere, the
  route is read from the fifth character on. The two agree
  on targets that start with `/api/`; for other targets that
  contain it, any four characters in front of a route are
  accepted.

  Key definitions include:
    * `Request`
    * `Handler`
    * `route`
    * `sbCall`
    * `pathPart`

  Main theorems include:
    * `sbCall_eq`
    * `route_serves`
    * `sbCall_under_api_iff`
-/

------------------------------------------------------------
-- Requests and Handlers
------------------------------------------------------------

namespace Kedge

namespace Http

/- The methods that the handlers tell apart. -/
inductive Verb where
  | get
  | head
  | post
  | put
  | delete_
  | other
  deriving DecidableEq, Repr

/- What the dispatch reads of a request. -/
structure Request where
  method : Verb
  target : Str
  deriving DecidableEq, Repr

/- The handlers, with the offset passed to `handleTorrent`. -/
inductive Handler where
  | sessionInfo
  | sessionStats
  | syncStats
  | torrents
  | torrent (offset : Nat)
  | sessionToggle
  deriving DecidableEq, Repr

/-
  `std::out_of_range`, thrown by `substr`, and the use of
  the end iterator of the header fields.
-/
inductive Error where
  | outOfRange
  | endIterator
  deriving DecidableEq, Repr

end Http

end Kedge

------------------------------------------------------------
-- Dispatch
------------------------------------------------------------

namespace Kedge

namespace Http

def apiPrefix : Str := "/api/".toList

def torrentPrefix : Str := "/torrent/".toList

/- Strip the query string if present. -/
def stripQuery (uri : Str) : Str :=
  match Text.find ['?'] uri with
  | some queryPos => uri.take queryPos
  | none => uri

/- The tests of `sbCall` on the stripped URI, in order. -/
def route (method : Verb) (uri : Str) : Option Handler :=
  if method = .get ∧ uri = "/session".toList then
    some .sessionInfo
  else if method = .get ∧ uri = "/session/stats".toList then
    some .sessionStats
  else if method = .get ∧ uri = "/sync/stats".toList then
    some .syncStats
  else if uri = "/torrents".toList then some .torrents
  else if Text.find torrentPrefix uri = some 0 then
    some (.torrent 13)
  else if method = .put ∧ uri = "/session/toggle".toList then
    some .sessionToggle
  else none

/- `httpCaller::sbCall`: the handler it calls, if any. -/
def sbCall (req : Request) : Except Error (Option Handler) :=
  match Text.find apiPrefix req.target with
  | none => .ok none
  | some _ =>
      match Text.substr req.target 4 req.target.length with
      | none => .error .outOfRange
      | some uri => .ok (route req.method (stripQuery uri))

/- The path part of a target: what precedes the query. -/
def pathPart (target : Str) : Str :=
  target.takeWhile (· ≠ '?')

/- The routes below `/api` a handler is registered for. -/
def Handler.Serves : Handler → Str → Prop
  | .sessionInfo, path => path = "/session".toList
  | .sessionStats, path => path = "/session/stats".toList
  | .syncStats, path => path = "/sync/stats".toList
  | .torrents, path => path = "/torrents".toList
  | .torrent _, path => torrentPrefix <+: path
  | .sessionToggle, path => path = "/session/toggle".toList

end Http

end Kedge

------------------------------------------------------------
-- What the Dispatch Computes
------------------------------------------------------------

namespace Kedge

namespace Http

theorem stripQuery_eq_takeWhile
    (uri : Str) :
    stripQuery uri = uri.takeWhile (· ≠ '?') := by
  unfold stripQuery
  cases hFind : Text.find ['?'] uri with
  | some queryPos =>
      exact Text.take_find_singleton '?' uri queryPos hFind
  | none =>
      rw [Text.find_eq_none_iff,
        List.singleton_infix_iff] at hFind
      exact (Text.takeWhile_of_not_mem hFind).symm

/- `substr` stays in range wherever the guard lets it run. -/
theorem sbCall_eq
    (req : Request) :
    sbCall req =
      if (Text.find apiPrefix req.target).isSome then
        .ok (route req.method
          (stripQuery (req.target.drop 4)))
      else .ok none := by
  unfold sbCall
  cases hFind : Text.find apiPrefix req.target with
  | none => rfl
  | some pos =>
      have hInfix : apiPrefix <:+: req.target := by
        rw [← Text.isSome_find_iff, hFind]
        rfl
      have hLength : 4 ≤ req.target.length :=
        le_trans (by decide) hInfix.length_le
      have hTake :
          (req.target.drop 4).take req.target.length =
            req.target.drop 4 :=
        List.take_of_length_le (by simp)
      simp [Text.substr, hLength, hTake]

/- A handler is only selected for a route it serves. -/
theorem route_serves
    {method : Verb}
    {uri : Str}
    {handler : Handler}
    (hRoute : route method uri = some handler) :
    handler.Serves uri := by
  unfold route at hRoute
  split at hRoute
  · next hMatch =>
    cases hRoute
    exact hMatch.2
  split at hRoute
  · next hMatch =>
    cases hRoute
    exact hMatch.2
  split at hRoute
  · next hMatch =>
    cases hRoute
    exact hMatch.2
  split at hRoute
  · next hMatch =>
    cases hRoute
    exact hMatch
  split at hRoute
  · next hMatch =>
    cases hRoute
    exact (Text.find_eq_zero_iff torrentPrefix uri).mp hMatch
  split at hRoute
  · next hMatch =>
    cases hRoute
    exact hMatch.2
  · cases hRoute

/- What the routes say about their handlers. -/
theorem route_eq_some
    {method : Verb}
    {uri : Str}
    {handler : Handler}
    (hRoute : route method uri = some handler) :
    (handler = .sessionToggle → method = .put) ∧
      ∀ offset, handler = .torrent offset → offset = 13 := by
  unfold route at hRoute
  repeat'
    split at hRoute
  all_goals
    cases hRoute
  all_goals
    simp_all

/- The route of one torrent is open to every method. -/
theorem route_of_torrentPrefix
    (method : Verb)
    {uri : Str}
    (hPrefix : torrentPrefix <+: uri) :
    route method uri = some (.torrent 13) := by
  have hNe :
      ∀ other : Str,
        ¬ torrentPrefix <+: other → uri ≠ other := by
    rintro other hOther rfl
    exact hOther hPrefix
  have hFind : Text.find torrentPrefix uri = some 0 :=
    (Text.find_eq_zero_iff _ _).mpr hPrefix
  have hInfo := hNe "/session".toList (by decide)
  have hStats := hNe "/session/stats".toList (by decide)
  have hSync := hNe "/sync/stats".toList (by decide)
  have hTorrents := hNe "/torrents".toList (by decide)
  unfold route
  rw [if_neg (fun hIs => hInfo hIs.2),
    if_neg (fun hIs => hStats hIs.2),
    if_neg (fun hIs => hSync hIs.2), if_neg hTorrents,
    if_pos hFind]

/- The path part of a target that starts with `/api/`. -/
theorem pathPart_of_apiPath
    {target : Str}
    (hPrefix : apiPrefix <+: target) :
    apiPrefix <+: pathPart target ∧
      (pathPart target).drop 4 =
        stripQuery (target.drop 4) := by
  rcases hPrefix with ⟨rest, rfl⟩
  have hPath :
      pathPart (apiPrefix ++ rest) =
        apiPrefix ++ rest.takeWhile (· ≠ '?') :=
    Text.takeWhile_append_of_not_mem (by decide) rest
  rw [hPath, stripQuery_eq_takeWhile]
  refine ⟨List.prefix_append _ _, ?_⟩
  rfl

end Http

end Kedge

------------------------------------------------------------
-- Dispatch under the API Prefix
------------------------------------------------------------

namespace Kedge

namespace Http

/-
  `sbCall` calls handlers only under the API prefix and for
  their own routes exactly when the target starts with
  `/api/`, does not contain it, or spells no route of the
  method behind its first four characters.
-/
theorem sbCall_under_api_iff
    (req : Request) :
    (∀ handler, sbCall req = .ok (some handler) →
        apiPrefix <+: pathPart req.target ∧
          handler.Serves ((pathPart req.target).drop 4)) ↔
      apiPrefix <+: req.target ∨
        ¬ apiPrefix <:+: req.target ∨
        route req.method (stripQuery (req.target.drop 4)) =
          none := by
  constructor
  · intro hUnder
    by_cases hInfix : apiPrefix <:+: req.target
    · cases hRoute :
          route req.method (stripQuery (req.target.drop 4)) with
      | none => exact Or.inr (Or.inr rfl)
      | some handler =>
          have hFind :=
            (Text.isSome_find_iff apiPrefix req.target).mpr
              hInfix
          have hCall : sbCall req = .ok (some handler) := by
            rw [sbCall_eq, if_pos hFind, hRoute]
          have hPath := (hUnder handler hCall).1
          exact Or.inl
            (hPath.trans (List.takeWhile_prefix _))
    · exact Or.inr (Or.inl hInfix)
  · intro hCondition handler hCall
    rw [sbCall_eq] at hCall
    split at hCall
    · next hFind =>
      have hRoute :
          route req.method (stripQuery (req.target.drop 4)) =
            some handler := by
        simpa using hCall
      rcases hCondition with hPrefix | hAbsent | hNone
      · rcases pathPart_of_apiPath hPrefix with
          ⟨hPath, hRest⟩
        rw [hRest]
        exact ⟨hPath, route_serves hRoute⟩
      · rw [Text.isSome_find_iff] at hFind
        exact absurd hFind hAbsent
      · rw [hNone] at hRoute
        cases hRoute
    · cases hCall

/-
  Four arbitrary characters stand for `/api` once the text
  occurs in the query.
-/
theorem sbCall_outside_api :
    sbCall ⟨.get, "/foo/session?x=/api/".toList⟩ =
        .ok (some .sessionInfo) ∧
      ¬ apiPrefix <+:
          pathPart "/foo/session?x=/api/".toList := by
  decide

end Http

end Kedge
