import Kedge.Files.HexHash
import Kedge.Library.Json.Value
import Kedge.Http.Dispatch

/-
  Requests for one torrent: `httpCaller::handleTorrent` in
  `src/handlers.cpp`.

  The handler expects the path of a torrent to be
  `/api/torrent/{info_hash}/{act}`, with the action left out
  or not. It cuts the path at fixed positions: forty
  characters behind the prefix are the hash, the next one is
  skipped without a look, and the rest is the action.

  What the handler asks of the session is recorded, and the
  answers it uses are given.

  Key definitions include:
    * `Response`
    * `Call`
    * `handleTorrent`
    * `InGrammar`

  Main theorems include:
    * `handleTorrent_eq`
    * `torrent_paths_in_grammar_iff`
-/

------------------------------------------------------------
-- Responses
------------------------------------------------------------

namespace Kedge

namespace Http

inductive Status where
  | ok
  | noContent
  | badRequest
  | notFound
  | internalServerError
  deriving DecidableEq, Repr

/- A text, or a value that is serialized. -/
inductive Body where
  | text (content : Str)
  | json (value : Json.Value)

structure Response where
  status : Status
  contentType : Str
  body : Body

/- `make_resp`: a response without content has no body. -/
def makeResp
    (body : Body)
    (contentType : Str)
    (status : Status) : Response where
  status := status
  contentType := contentType
  body := if status = .noContent then .text [] else body

def ctJSON : Str := "application/json".toList

def ctText : Str := "text/plain".toList

def makeResp204 : Response :=
  makeResp (.text []) [] .noContent

def makeResp400 (why : Str) : Response :=
  makeResp (.text ("Bad request: ".toList ++ why)) ctText
    .badRequest

def makeResp404 (target : Str) : Response :=
  makeResp
    (.text
      ("The resource '".toList ++ target ++
        "' was not found.".toList))
    ctText .notFound

def makeResp500 (what : Str) : Response :=
  makeResp
    (.text
      ("An error occurred: '".toList ++ what ++ "'".toList))
    ctText .internalServerError

end Http

end Kedge

------------------------------------------------------------
-- The Handler
------------------------------------------------------------

namespace Kedge

namespace Http

inductive QueryFlags where
  | basic
  | peers
  | files
  deriving DecidableEq, Repr

/- The operations of the sheath that the handler calls. -/
inductive Call where
  | exists_ (ih : InfoHash)
  | getTorrent (ih : InfoHash) (flag : QueryFlags)
  | dropTorrent (ih : InfoHash) (withData : Bool)
  | pauseResumeTorrent (ih : InfoHash)
  | resumeTorrent (ih : InfoHash)
  deriving DecidableEq

def Call.infoHash : Call → InfoHash
  | .exists_ ih => ih
  | .getTorrent ih _ => ih
  | .dropTorrent ih _ => ih
  | .pauseResumeTorrent ih => ih
  | .resumeTorrent ih => ih

/- The answers of the sheath that the handler uses. -/
structure Answers where
  exists_ : InfoHash → Bool
  getTorrent : InfoHash → QueryFlags → Json.Value

/- The operations that were called and the response. -/
structure Outcome where
  calls : List Call
  response : Response

/- The flag of a `GET` request. -/
def queryFlag (act : Str) : QueryFlags :=
  if act = "peers".toList then .peers
  else if act = "files".toList then .files
  else .basic

/- The data are deleted as well. -/
def withDataAct (act : Str) : Bool :=
  act = "yes".toList ∨ act = "with_data".toList

def toggleAct (act : Str) : Bool :=
  act = "toggle".toList ∨ act = "pause".toList

def startAct (act : Str) : Bool :=
  act = "start".toList ∨ act = "resume".toList

/- A `HEAD` request, which has no action. -/
def headTorrent
    (answers : Answers)
    (req : Request)
    (ih : InfoHash) : Outcome :=
  ⟨[.exists_ ih],
    if answers.exists_ ih then makeResp204
    else makeResp404 req.target⟩

/- The methods other than `HEAD`. -/
def actOnTorrent
    (answers : Answers)
    (req : Request)
    (ih : InfoHash)
    (act : Str) : Outcome :=
  match req.method with
  | .get =>
      let value := answers.getTorrent ih (queryFlag act)
      ⟨[.getTorrent ih (queryFlag act)],
        if value.kind = .null then makeResp404 req.target
        else makeResp (.json value) ctJSON .ok⟩
  | .delete_ =>
      ⟨[.dropTorrent ih (withDataAct act)], makeResp204⟩
  | .put =>
      ⟨if toggleAct act then [.pauseResumeTorrent ih]
        else if startAct act then [.resumeTorrent ih]
        else [],
        makeResp204⟩
  | _ => ⟨[], makeResp400 "Unsupported method".toList⟩

/- `httpCaller::handleTorrent`. -/
def handleTorrent
    (readHash : Str → Option InfoHash)
    (answers : Answers)
    (req : Request)
    (offset : Nat) : Except Error Outcome :=
  let s := stripQuery req.target
  let minSize := offset + 40
  if s.length < minSize then
    .ok ⟨[], makeResp404 req.target⟩
  else
    match Text.substr s offset 40 with
    | none => .error .outOfRange
    | some digits =>
        match fromHex readHash digits with
        | none =>
            .ok ⟨[],
              makeResp400 "invalid hash string".toList⟩
        | some ih =>
            if req.method = .head then
              .ok (headTorrent answers req ih)
            else if s.length > minSize + 1 then
              match Text.substr s (minSize + 1) s.length with
              | none => .error .outOfRange
              | some act =>
                  .ok (actOnTorrent answers req ih act)
            else .ok (actOnTorrent answers req ih [])

end Http

end Kedge

------------------------------------------------------------
-- What the Handler Calls
------------------------------------------------------------

namespace Kedge

namespace Http

/- The outcome for a path with a readable hash. -/
def torrentOutcome
    (answers : Answers)
    (req : Request)
    (ih : InfoHash)
    (act : Str) : Outcome :=
  if req.method = .head then headTorrent answers req ih
  else actOnTorrent answers req ih act

/-
  The cuts stay in range, and the action is what follows the
  fifty-fourth character.
-/
theorem handleTorrent_eq
    (readHash : Str → Option InfoHash)
    (answers : Answers)
    (req : Request)
    (offset : Nat) :
    handleTorrent readHash answers req offset =
      if (pathPart req.target).length < offset + 40 then
        .ok ⟨[], makeResp404 req.target⟩
      else
        match fromHex readHash
            (((pathPart req.target).drop offset).take 40) with
        | none =>
            .ok ⟨[],
              makeResp400 "invalid hash string".toList⟩
        | some ih =>
            .ok (torrentOutcome answers req ih
              ((pathPart req.target).drop
                (offset + 40 + 1))) := by
  have hPath :
      stripQuery req.target = pathPart req.target :=
    stripQuery_eq_takeWhile req.target
  unfold handleTorrent
  rw [hPath]
  generalize pathPart req.target = path
  dsimp only
  split
  · rfl
  · next hLong =>
    rw [Text.substr, if_pos (by omega)]
    dsimp only
    cases fromHex readHash ((path.drop offset).take 40) with
    | none => rfl
    | some ih =>
        unfold torrentOutcome
        dsimp only
        split
        · rfl
        · split
          · next hAct =>
            rw [Text.substr, if_pos (by omega),
              List.take_of_length_le (by simp)]
          · next hNone =>
            rw [List.drop_eq_nil_of_le (by omega)]

/- The requests that call an operation on the torrent. -/
def Operates (method : Verb) (act : Str) : Prop :=
  method = .head ∨ method = .get ∨ method = .delete_ ∨
    method = .put ∧
      (toggleAct act = true ∨ startAct act = true)

theorem infoHash_of_mem_calls
    {answers : Answers}
    {req : Request}
    {ih : InfoHash}
    {act : Str}
    {call : Call}
    (hCall :
      call ∈ (torrentOutcome answers req ih act).calls) :
    call.infoHash = ih := by
  unfold torrentOutcome at hCall
  split at hCall
  · rw [List.mem_singleton.mp hCall]
    rfl
  · unfold actOnTorrent at hCall
    split at hCall
    · rw [List.mem_singleton.mp hCall]
      rfl
    · rw [List.mem_singleton.mp hCall]
      rfl
    · dsimp only at hCall
      split at hCall
      · rw [List.mem_singleton.mp hCall]
        rfl
      · split at hCall
        · rw [List.mem_singleton.mp hCall]
          rfl
        · cases hCall
    · cases hCall

theorem calls_ne_nil
    (answers : Answers)
    (req : Request)
    (ih : InfoHash)
    {act : Str}
    (hOperates : Operates req.method act) :
    (torrentOutcome answers req ih act).calls ≠ [] := by
  unfold torrentOutcome
  rcases hOperates with hHead | hGet | hDelete | ⟨hPut, hAct⟩
  · simp [hHead, headTorrent]
  · simp [hGet, actOnTorrent]
  · simp [hDelete, actOnTorrent]
  · rcases hAct with hToggle | hStart
    · simp [hPut, actOnTorrent, hToggle]
    · by_cases hToggle : toggleAct act = true <;>
        simp [hPut, actOnTorrent, hStart, hToggle]

theorem operates_of_calls
    {answers : Answers}
    {req : Request}
    {ih : InfoHash}
    {act : Str}
    {call : Call}
    (hCall :
      call ∈ (torrentOutcome answers req ih act).calls) :
    Operates req.method act := by
  by_contra hIdle
  simp only [Operates, not_or, not_and] at hIdle
  rcases hIdle with ⟨hHead, hGet, hDelete, hPut⟩
  unfold torrentOutcome at hCall
  rw [if_neg hHead] at hCall
  unfold actOnTorrent at hCall
  cases hMethod : req.method with
  | get => exact hGet hMethod
  | head => exact hHead hMethod
  | delete_ => exact hDelete hMethod
  | put =>
      rcases hPut hMethod with ⟨hToggle, hStart⟩
      simp [hMethod, hToggle, hStart] at hCall
  | post => simp [hMethod] at hCall
  | other => simp [hMethod] at hCall

/- Data are deleted only for the two actions that say so. -/
theorem act_of_dropTorrent
    {answers : Answers}
    {req : Request}
    {ih other : InfoHash}
    {act : Str}
    (hCall :
      .dropTorrent other true ∈
        (torrentOutcome answers req ih act).calls) :
    act = "yes".toList ∨ act = "with_data".toList := by
  unfold torrentOutcome at hCall
  split at hCall
  · cases List.mem_singleton.mp hCall
  · unfold actOnTorrent at hCall
    split at hCall
    · cases List.mem_singleton.mp hCall
    · have hDrop := List.mem_singleton.mp hCall
      have hData : withDataAct act = true :=
        (Call.dropTorrent.inj hDrop).2.symm
      unfold withDataAct at hData
      exact of_decide_eq_true hData
    · dsimp only at hCall
      split at hCall
      · cases List.mem_singleton.mp hCall
      · split at hCall
        · cases List.mem_singleton.mp hCall
        · cases hCall
    · cases hCall

end Http

end Kedge

------------------------------------------------------------
-- The Grammar of the Paths
------------------------------------------------------------

namespace Kedge

namespace Http

def torrentApi : Str := "/api/torrent/".toList

/- A hash, and an action behind a slash or none. -/
def InGrammar (path : Str) (ih : InfoHash) : Prop :=
  ∃ digits,
    Spells digits ih ∧
      (path = torrentApi ++ digits ∨
        ∃ act, path = torrentApi ++ digits ++ '/' :: act)

/- The paths that delete the data of a torrent as well. -/
def InDataGrammar (path : Str) (ih : InfoHash) : Prop :=
  ∃ digits,
    Spells digits ih ∧
      (path = torrentApi ++ digits ++ "/yes".toList ∨
        path = torrentApi ++ digits ++ "/with_data".toList)

/- Every call that was made is one of the grammar. -/
def CallsInGrammar (path : Str) (calls : List Call) : Prop :=
  ∀ call ∈ calls,
    InGrammar path call.infoHash ∧
      ∀ ih, call = .dropTorrent ih true →
        InDataGrammar path ih

theorem length_torrentApi : torrentApi.length = 13 := by
  decide

/- The path is cut at its prefix and behind the digits. -/
theorem pathPart_split
    {target : Str}
    (hTarget : torrentApi <+: target) :
    pathPart target =
      torrentApi ++ ((pathPart target).drop 13).take 40 ++
        (pathPart target).drop 53 := by
  rcases hTarget with ⟨rest, rfl⟩
  have hPlain : '?' ∉ torrentApi := by
    decide
  have hPath :
      pathPart (torrentApi ++ rest) =
        torrentApi ++ rest.takeWhile (· ≠ '?') :=
    Text.takeWhile_append_of_not_mem hPlain rest
  have hDrop :
      (torrentApi ++ rest.takeWhile (· ≠ '?')).drop 13 =
        rest.takeWhile (· ≠ '?') :=
    List.drop_left' length_torrentApi
  have hTail :
      (torrentApi ++ rest.takeWhile (· ≠ '?')).drop 53 =
        (rest.takeWhile (· ≠ '?')).drop 40 := by
    rw [← hDrop, List.drop_drop, hDrop]
  rw [hPath, hDrop, hTail, List.append_assoc,
    List.take_append_drop]

/- Behind the digits stands nothing or a slash. -/
theorem inGrammar_append_iff
    {digits : Str}
    {ih : InfoHash}
    (hSpells : Spells digits ih)
    (tail : Str) :
    InGrammar (torrentApi ++ digits ++ tail) ih ↔
      tail = [] ∨ tail.head? = some '/' := by
  constructor
  · rintro ⟨others, hOthers, hPath⟩
    have hLength : digits.length = others.length :=
      hSpells.length_eq.trans hOthers.length_eq.symm
    rcases hPath with hPath | ⟨act, hPath⟩
    · rw [List.append_assoc, List.append_cancel_left_eq]
        at hPath
      have hNone :=
        (List.append_inj
          (hPath.trans (List.append_nil others).symm)
          hLength).2
      exact Or.inl hNone
    · rw [List.append_assoc, List.append_assoc,
        List.append_cancel_left_eq] at hPath
      have hAct := (List.append_inj hPath hLength).2
      rw [hAct]
      exact Or.inr rfl
  · rintro (rfl | hSlash)
    · exact ⟨digits, hSpells, Or.inl (List.append_nil _)⟩
    · rcases List.head?_eq_some_iff.mp hSlash with
        ⟨act, rfl⟩
      exact ⟨digits, hSpells, Or.inr ⟨act, rfl⟩⟩

/- A path of the grammar with one of the two actions. -/
theorem inDataGrammar_of_act
    {digits tail act : Str}
    {ih : InfoHash}
    (hSpells : Spells digits ih)
    (hTail : tail = [] ∨ tail.head? = some '/')
    (hDrop : tail.drop 1 = act)
    (hAct : act = "yes".toList ∨ act = "with_data".toList) :
    InDataGrammar (torrentApi ++ digits ++ tail) ih := by
  subst hDrop
  rcases hTail with rfl | hSlash
  · rcases hAct with hYes | hData
    · exact absurd hYes (by decide)
    · exact absurd hData (by decide)
  · rcases List.head?_eq_some_iff.mp hSlash with ⟨act, rfl⟩
    rcases hAct with hYes | hData
    · have hAct : act = "yes".toList := hYes
      exact ⟨digits, hSpells, Or.inl (by rw [hAct]; rfl)⟩
    · have hAct : act = "with_data".toList := hData
      exact ⟨digits, hSpells, Or.inr (by rw [hAct]; rfl)⟩

/-
  With a readable hash the calls keep to the grammar exactly
  when the text behind the digits does, or when there are
  none.
-/
theorem callsInGrammar_torrentOutcome_iff
    (answers : Answers)
    (req : Request)
    {digits tail act : Str}
    {ih : InfoHash}
    (hSpells : Spells digits ih)
    (hDrop : tail.drop 1 = act) :
    CallsInGrammar (torrentApi ++ digits ++ tail)
        (torrentOutcome answers req ih act).calls ↔
      tail = [] ∨ tail.head? = some '/' ∨
        ¬ Operates req.method act := by
  have hGrammar := inGrammar_append_iff hSpells tail
  constructor
  · intro hCalls
    by_cases hOperates : Operates req.method act
    · rcases List.exists_mem_of_ne_nil _
          (calls_ne_nil answers req ih hOperates) with
        ⟨call, hCall⟩
      have hIn := (hCalls call hCall).1
      rw [infoHash_of_mem_calls hCall] at hIn
      rcases hGrammar.mp hIn with hNone | hSlash
      · exact Or.inl hNone
      · exact Or.inr (Or.inl hSlash)
    · exact Or.inr (Or.inr hOperates)
  · intro hCondition call hCall
    have hTail : tail = [] ∨ tail.head? = some '/' := by
      rcases hCondition with hNone | hSlash | hIdle
      · exact Or.inl hNone
      · exact Or.inr hSlash
      · exact absurd (operates_of_calls hCall) hIdle
    constructor
    · rw [infoHash_of_mem_calls hCall]
      exact hGrammar.mpr hTail
    · rintro other rfl
      have hSame : other = ih := infoHash_of_mem_calls hCall
      rw [hSame]
      exact inDataGrammar_of_act hSpells hTail hDrop
        (act_of_dropTorrent hCall)

/-
  The character behind the digits is never looked at. So the
  handler keeps to the grammar exactly when that character
  is missing or a slash, or when it calls nothing.
-/
theorem torrent_paths_in_grammar_iff
    {readHash : Str → Option InfoHash}
    (hReads : ReadsHash readHash)
    (answers : Answers)
    (req : Request)
    (hTarget : torrentApi <+: req.target) :
    (∀ outcome,
        handleTorrent readHash answers req 13 = .ok outcome →
        CallsInGrammar (pathPart req.target)
          outcome.calls) ↔
      (pathPart req.target).length ≤ 53 ∨
        (pathPart req.target)[53]? = some '/' ∨
        fromHex readHash
          (((pathPart req.target).drop 13).take 40) = none ∨
        ¬ Operates req.method
          ((pathPart req.target).drop 54) := by
  have hSplit := pathPart_split hTarget
  rw [handleTorrent_eq]
  generalize pathPart req.target = path at *
  by_cases hShort : path.length < 13 + 40
  · rw [if_pos hShort]
    refine iff_of_true ?_ (Or.inl (by omega))
    intro outcome hOutcome call hCall
    cases hOutcome
    cases hCall
  · rw [if_neg hShort]
    cases hHash :
        fromHex readHash ((path.drop 13).take 40) with
    | none =>
        refine iff_of_true ?_ (Or.inr (Or.inr (Or.inl rfl)))
        intro outcome hOutcome call hCall
        cases hOutcome
        cases hCall
    | some ih =>
        have hSpells :=
          (fromHex_eq_some_iff hReads _ ih).mp hHash
        have hCalls :=
          callsInGrammar_torrentOutcome_iff answers req
            hSpells
            (List.drop_drop :
              (path.drop 53).drop 1 = path.drop 54)
        rw [← hSplit, List.drop_eq_nil_iff, List.head?_drop]
          at hCalls
        constructor
        · intro hAll
          rcases hCalls.mp (hAll _ rfl) with
            hNone | hSlash | hIdle
          · exact Or.inl hNone
          · exact Or.inr (Or.inl hSlash)
          · exact Or.inr (Or.inr (Or.inr hIdle))
        · intro hCondition outcome hOutcome
          cases hOutcome
          apply hCalls.mpr
          rcases hCondition with
            hNone | hSlash | hUnread | hIdle
          · exact Or.inl hNone
          · exact Or.inr (Or.inl hSlash)
          · cases hUnread
          · exact Or.inr (Or.inr hIdle)

end Http

end Kedge

------------------------------------------------------------
-- A Deletion without a Separator
------------------------------------------------------------

namespace Kedge

namespace Http

def noAnswers : Answers where
  exists_ := fun _ => false
  getTorrent := fun _ _ => .null

/- The info-hash with the digits `ab`, twenty times. -/
def repeatedHash : InfoHash where
  bytes := List.replicate 20 171
  length_bytes := rfl

/- The path of that torrent, and what follows it. -/
def requestFor (method : Verb) (tail : Str) : Request where
  method := method
  target := torrentApi ++ toHex repeatedHash ++ tail

theorem torrent_paths_in_grammar_iff_with_data :
    CallsInGrammar
      (pathPart (requestFor .delete_ "/yes".toList).target)
      [.dropTorrent repeatedHash true] :=
  (torrent_paths_in_grammar_iff readsHash_readSha1 noAnswers
    (requestFor .delete_ "/yes".toList)
    ⟨_, (List.append_assoc _ _ _).symm⟩).mpr
    (Or.inr (Or.inl (by decide)))
    ⟨[.dropTorrent repeatedHash true], makeResp204⟩
    (by rw [handleTorrent_eq]; rfl)

/- A letter stands for the slash, and the data are deleted. -/
theorem deleted_without_separator :
    ∃ outcome,
      handleTorrent readSha1 noAnswers
          (requestFor .delete_ "Xyes".toList) 13 =
        .ok outcome ∧
      .dropTorrent repeatedHash true ∈ outcome.calls ∧
      ¬ InGrammar
        (pathPart
          (requestFor .delete_ "Xyes".toList).target)
        repeatedHash := by
  refine ⟨⟨[.dropTorrent repeatedHash true], makeResp204⟩,
    ?_, List.mem_singleton_self _, ?_⟩
  · rw [handleTorrent_eq]
    rfl
  · have hPath :
        pathPart (requestFor .delete_ "Xyes".toList).target =
          torrentApi ++ toHex repeatedHash ++
            "Xyes".toList := by
      decide
    have hSpells : Spells (toHex repeatedHash) repeatedHash := by
      unfold Spells
      decide
    rw [hPath, inGrammar_append_iff hSpells]
    decide

end Http

end Kedge
