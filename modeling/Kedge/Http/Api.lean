import Kedge.Http.Session
import Kedge.Sheath.AddTorrent
import Kedge.Sheath.PauseResume
import Kedge.Sheath.Resume
import Kedge.Sheath.UnknownTorrent

/-
  The API as a whole: requests to `handle_request` that are
  served one after the other, with what their handlers do to
  the torrents, their flags and their resume files, to the
  pause of the session, and to the torrents submitted.

  What the handlers read of `libtorrent` and of the disk
  comes with a request. A request whose handler goes out of
  range has no next state.

  Key definitions include:
    * `Backend`
    * `Backend.effect`
    * `Backend.step`

  Main theorems include:
    * `Backend.exists_response_iff`
    * `Backend.requests_touch_named_torrents`
-/

------------------------------------------------------------
-- The State behind the Handlers
------------------------------------------------------------

namespace Kedge

namespace Http

open Sheath

/- What the handlers change. -/
structure Backend where
  system : System
  flags : InfoHash → TorrentFlags
  isPaused : Bool
  submitted : List TorrentParams

/-
  A request and the thread that serves it, with the context
  of added torrents, whether the directory of a posted one
  exists, whether a resume file can be removed, and the
  values that the queries return.
-/
structure Served where
  msg : Message
  thread : Nat
  ctx : AddContext
  hasDirectory : Bool
  removal : RemoveOutcome
  values : Service

/- The bytes of a request's body. -/
def bodyBytes (body : Str) : Bytes :=
  body.map fun c => UInt8.ofNat c.toNat

namespace Backend

/- The torrent that a `POST` request submits, if any. -/
def posted
    (r : Served)
    (buffer savePath : Str) : Option TorrentParams :=
  r.ctx.addTorrentBuffer (bodyBytes buffer) savePath
    r.hasDirectory

/- The answers of the sheath in this state. -/
def service (b : Backend) (r : Served) : Service :=
  { r.values with
    exists_ := b.system.exists_
    dirStore := r.ctx.dirStore
    togglePauseResume := !b.isPaused
    addTorrent := fun buffer savePath =>
      (posted r buffer savePath).isSome
    addMagnet := fun uri => (r.ctx.addMagnet uri).isSome }

/- One of the two functions, run by one thread alone. -/
def control
    (function : TorrentFlags → FlagCall)
    (b : Backend)
    (ih : InfoHash) : Backend :=
  if b.system.exists_ ih then
    { b with
      flags :=
        Function.update b.flags ih
          ((function (b.flags ih)).finish (b.flags ih)) }
  else b

def afterCall
    (config : Config)
    (thread : Nat)
    (removal : RemoveOutcome)
    (b : Backend) : Call → Backend
  | .pauseResumeTorrent ih =>
      b.control FlagCall.pauseResumeTorrent ih
  | .resumeTorrent ih => b.control FlagCall.resumeTorrent ih
  | call =>
      { b with
        system :=
          b.system.afterCall config thread removal call }

/- What `handleTorrents` does behind the log entry. -/
def addPosted (b : Backend) (r : Served) : Backend :=
  let dir :=
    (r.msg.find savePathField).getD r.ctx.dirStore
  let added :=
    if r.msg.get contentType = ctTorrent then
      posted r r.msg.body dir
    else r.ctx.addMagnet r.msg.body
  { b with submitted := b.submitted ++ added.toList }

/- What a handler does. -/
def effect
    (readHash : Str → Option InfoHash)
    (config : Config)
    (b : Backend)
    (r : Served) : Handler → Except Error Backend
  | .torrents =>
      match r.msg.method with
      | .post =>
          match r.msg.find contentLength with
          | none => .error .endIterator
          | some _ => .ok (b.addPosted r)
      | _ => .ok b
  | .torrent offset =>
      (handleTorrent readHash (b.service r).toAnswers
        r.msg.toRequest offset).map fun outcome =>
          outcome.calls.foldl
            (afterCall config r.thread r.removal) b
  | .sessionToggle =>
      .ok { b with isPaused := !b.isPaused }
  | .sessionInfo => .ok b
  | .sessionStats => .ok b
  | .syncStats => .ok b

/- A request is served. -/
def step
    (readHash : Str → Option InfoHash)
    (uiRoot : Str)
    (config : Config)
    (b : Backend)
    (r : Served) : Option Backend :=
  match handleRequest uiRoot r.msg.toRequest with
  | .ok (.handled handler) =>
      (b.effect readHash config r handler).toOption
  | .ok (.badRequest _) => some b
  | .ok (.opened _) => some b
  | .error _ => none

end Backend

end Http

end Kedge

------------------------------------------------------------
-- Effects and Responses
------------------------------------------------------------

namespace Kedge

namespace Http

namespace Backend

open Sheath

variable {readHash : Str → Option InfoHash}
variable {uiRoot : Str}
variable {config : Config}

/- A handler fails in its effect and in its response. -/
theorem effect_ok_iff
    (b : Backend)
    (r : Served)
    (handler : Handler) :
    (∃ next,
        b.effect readHash config r handler = .ok next) ↔
      ∃ response,
        callHandler readHash (b.service r) r.msg handler =
          .ok response := by
  cases handler with
  | torrents =>
      unfold effect callHandler handleTorrents
      dsimp only
      cases r.msg.method with
      | post => cases r.msg.find contentLength <;> simp
      | _ => simp
  | torrent offset =>
      unfold effect callHandler
      dsimp only
      cases handleTorrent readHash (b.service r).toAnswers
        r.msg.toRequest offset <;>
        simp [Except.map]
  | _ => simp [effect, callHandler]

/- A request is served exactly when it is answered. -/
theorem exists_response_iff
    (openFile : Str → OpenedFile)
    (b : Backend)
    (r : Served) :
    (∃ next,
        b.step readHash uiRoot config r = some next) ↔
      ∃ sent,
        sendResponse readHash (b.service r) openFile uiRoot
            r.msg =
          .ok sent := by
  unfold step sendResponse
  cases handleRequest uiRoot r.msg.toRequest with
  | error error => simp
  | ok reply =>
      cases reply with
      | handled handler =>
          have hIff :
              (∃ next,
                  b.effect readHash config r handler =
                    .ok next) ↔
                ∃ response,
                  callHandler readHash (b.service r) r.msg
                      handler =
                    .ok response :=
            effect_ok_iff b r handler
          dsimp only
          cases hEffect :
              b.effect readHash config r handler with
          | error error =>
              cases hCall :
                  callHandler readHash (b.service r) r.msg
                    handler with
              | error _ => simp [Except.toOption, Except.map]
              | ok response => simp [hEffect, hCall] at hIff
          | ok next =>
              cases hCall :
                  callHandler readHash (b.service r) r.msg
                    handler with
              | error _ => simp [hEffect, hCall] at hIff
              | ok response =>
                  simp [Except.toOption, Except.map]
      | _ => simp

end Backend

end Http

end Kedge

------------------------------------------------------------
-- What a Request Leaves Alone
------------------------------------------------------------

namespace Kedge

namespace Http

open Sheath

theorem find?_erase_of_ne
    {α : Type}
    [BEq α]
    [LawfulBEq α]
    {test : α → Bool}
    {a : α}
    (hOther : test a = false)
    (l : List α) :
    (l.erase a).find? test = l.find? test := by
  induction l with
  | nil => rfl
  | cons b l ih =>
      by_cases hSame : b = a
      · subst hSame
        rw [List.erase_cons_head, List.find?_cons, hOther]
      · rw [List.erase_cons_tail (by simpa using hSame),
          List.find?_cons, List.find?_cons, ih]

namespace Backend

variable {readHash : Str → Option InfoHash}
variable {uiRoot : Str}
variable {config : Config}

/- A torrent with its flags and its resume file. -/
structure SameTorrent
    (config : Config)
    (ih : InfoHash)
    (b next : Backend) : Prop where
  torrent :
    next.system.findTorrent ih = b.system.findTorrent ih
  flags : next.flags ih = b.flags ih
  resume :
    next.system.resumeContent config ih =
      b.system.resumeContent config ih

theorem SameTorrent.refl
    (ih : InfoHash)
    (b : Backend) :
    SameTorrent config ih b b :=
  ⟨rfl, rfl, rfl⟩

theorem SameTorrent.trans
    {ih : InfoHash}
    {first second third : Backend}
    (hFirst : SameTorrent config ih first second)
    (hSecond : SameTorrent config ih second third) :
    SameTorrent config ih first third where
  torrent := hSecond.torrent.trans hFirst.torrent
  flags := hSecond.flags.trans hFirst.flags
  resume := hSecond.resume.trans hFirst.resume

/- Dropping one torrent leaves the others. -/
theorem sameTorrent_dropTorrent
    (b : Backend)
    (thread : Nat)
    (removal : RemoveOutcome)
    {ih other : InfoHash}
    (withData : Bool)
    (hOther : other ≠ ih) :
    SameTorrent config ih b
      { b with
        system :=
          (b.system.dropTorrent config thread other
            withData removal).1 } := by
  have hDeleted :=
    System.resumeContent_dropDelete config b.system thread
      withData removal hOther
  unfold System.dropTorrent
  dsimp only
  cases hFind :
      (b.system.dropDelete config thread other withData
        removal).findTorrent other with
  | none => exact ⟨rfl, rfl, hDeleted⟩
  | some handle =>
      have hHash := System.infoHash_of_findTorrent hFind
      refine ⟨?_, rfl, hDeleted⟩
      apply find?_erase_of_ne
      rw [hHash]
      exact decide_eq_false hOther

theorem sameTorrent_control
    (function : TorrentFlags → FlagCall)
    (b : Backend)
    {ih other : InfoHash}
    (hOther : other ≠ ih) :
    SameTorrent config ih b (b.control function other) := by
  unfold control
  split
  · exact
      ⟨rfl, Function.update_of_ne (Ne.symm hOther) _ _, rfl⟩
  · exact .refl ih b

theorem sameTorrent_afterCall
    (b : Backend)
    (thread : Nat)
    (removal : RemoveOutcome)
    {ih : InfoHash}
    {call : Call}
    (hOther : call.infoHash ≠ ih) :
    SameTorrent config ih b
      (b.afterCall config thread removal call) := by
  cases call with
  | dropTorrent other withData =>
      exact sameTorrent_dropTorrent b thread removal withData
        hOther
  | pauseResumeTorrent other =>
      exact sameTorrent_control _ b hOther
  | resumeTorrent other =>
      exact sameTorrent_control _ b hOther
  | _ => exact .refl ih b

theorem sameTorrent_afterCalls
    (b : Backend)
    (thread : Nat)
    (removal : RemoveOutcome)
    {ih : InfoHash}
    {calls : List Call}
    (hOther : ∀ call ∈ calls, call.infoHash ≠ ih) :
    SameTorrent config ih b
      (calls.foldl (afterCall config thread removal) b) := by
  induction calls generalizing b with
  | nil => exact .refl ih b
  | cons call calls hRest =>
      have hFirst :
          SameTorrent config ih b
            (b.afterCall config thread removal call) :=
        sameTorrent_afterCall b thread removal
          (hOther call List.mem_cons_self)
      have hLater :=
        hRest (b.afterCall config thread removal call)
          fun other hIn =>
            hOther other (List.mem_cons_of_mem call hIn)
      exact hFirst.trans hLater

/- Calls for other methods only ask. -/
theorem afterCalls_of_asking
    (b : Backend)
    (thread : Nat)
    (removal : RemoveOutcome)
    {answers : Answers}
    {req : Request}
    {ih : InfoHash}
    {act : Str}
    (hPut : req.method ≠ .put)
    (hDelete : req.method ≠ .delete_) :
    (torrentOutcome answers req ih act).calls.foldl
        (afterCall config thread removal) b =
      b := by
  unfold torrentOutcome
  split
  · rfl
  · unfold actOnTorrent
    cases hMethod : req.method with
    | put => exact absurd hMethod hPut
    | delete_ => exact absurd hMethod hDelete
    | _ => rfl

/- What `handleTorrent` does is what its outcome says. -/
theorem effect_torrent
    {b next : Backend}
    {r : Served}
    (hEffect :
      b.effect readHash config r (.torrent 13) = .ok next) :
    next = b ∨
      ∃ ih act,
        namedHash readHash r.msg.target = some ih ∧
          next =
            (torrentOutcome (b.service r).toAnswers
              r.msg.toRequest ih act).calls.foldl
              (afterCall config r.thread r.removal) b := by
  unfold effect at hEffect
  dsimp only at hEffect
  rw [handleTorrent_eq] at hEffect
  split at hEffect
  · cases hEffect
    exact Or.inl rfl
  · split at hEffect
    · cases hEffect
      exact Or.inl rfl
    · next ih hHash =>
      cases hEffect
      exact Or.inr ⟨ih, _, hHash, rfl⟩

theorem handler_of_handleRequest
    {req : Request}
    {handler : Handler}
    (hHandled :
      handleRequest uiRoot req = .ok (.handled handler)) :
    (handler = .sessionToggle → req.method = .put) ∧
      ∀ offset, handler = .torrent offset → offset = 13 := by
  have hCall : sbCall req = .ok (some handler) := by
    unfold handleRequest at hHandled
    split at hHandled
    · cases hHandled
    · split at hHandled
      · cases hHandled
      · next hCalled =>
        cases hHandled
        exact hCalled
      · cases hHandled
  unfold sbCall at hCall
  split at hCall
  · cases hCall
  · split at hCall
    · cases hCall
    · exact route_eq_some (Except.ok.inj hCall)

/- The ways in which a request can be served. -/
theorem step_cases
    {b next : Backend}
    {r : Served}
    (hStep : b.step readHash uiRoot config r = some next) :
    next = b ∨
      r.msg.method = .post ∧ next = b.addPosted r ∨
      r.msg.method = .put ∧
          next = { b with isPaused := !b.isPaused } ∨
      ∃ ih act,
        namedHash readHash r.msg.target = some ih ∧
          next =
            (torrentOutcome (b.service r).toAnswers
              r.msg.toRequest ih act).calls.foldl
              (afterCall config r.thread r.removal) b := by
  unfold step at hStep
  split at hStep
  · next handler hHandled =>
    rcases handler_of_handleRequest hHandled with
      ⟨hToggle, hOffset⟩
    cases hEffect :
        b.effect readHash config r handler with
    | error error =>
        rw [hEffect] at hStep
        cases hStep
    | ok after =>
        rw [hEffect] at hStep
        cases hStep
        cases handler with
        | torrents =>
            unfold effect at hEffect
            dsimp only at hEffect
            split at hEffect
            · next hPost =>
              split at hEffect
              · cases hEffect
              · cases hEffect
                exact Or.inr (Or.inl ⟨hPost, rfl⟩)
            · cases hEffect
              exact Or.inl rfl
        | torrent offset =>
            rw [hOffset offset rfl] at hEffect
            rcases effect_torrent hEffect with
              rfl | hOutcome
            · exact Or.inl rfl
            · exact Or.inr (Or.inr (Or.inr hOutcome))
        | sessionToggle =>
            cases hEffect
            exact Or.inr (Or.inr (Or.inl ⟨hToggle rfl, rfl⟩))
        | _ =>
            cases hEffect
            exact Or.inl rfl
  · cases hStep
    exact Or.inl rfl
  · cases hStep
    exact Or.inl rfl
  · cases hStep

/- The request asks about the torrent at most. -/
def Spares
    (readHash : Str → Option InfoHash)
    (ih : InfoHash)
    (r : Served) : Prop :=
  namedHash readHash r.msg.target = some ih →
    r.msg.method ≠ .put ∧ r.msg.method ≠ .delete_

theorem sameTorrent_step
    {b next : Backend}
    {r : Served}
    {ih : InfoHash}
    (hSpares : Spares readHash ih r)
    (hStep : b.step readHash uiRoot config r = some next) :
    SameTorrent config ih b next := by
  rcases step_cases hStep with
    rfl | ⟨_, rfl⟩ | ⟨_, rfl⟩ | ⟨named, act, hNamed, rfl⟩
  · exact .refl ih next
  · exact ⟨rfl, rfl, rfl⟩
  · exact ⟨rfl, rfl, rfl⟩
  · by_cases hSame : named = ih
    · subst hSame
      rcases hSpares hNamed with ⟨hPut, hDelete⟩
      rw [afterCalls_of_asking b r.thread r.removal hPut
        hDelete]
      exact .refl named b
    · apply sameTorrent_afterCalls
      intro call hCall
      rw [infoHash_of_mem_calls hCall]
      exact hSame

theorem session_control
    (function : TorrentFlags → FlagCall)
    (b : Backend)
    (ih : InfoHash) :
    (b.control function ih).submitted = b.submitted ∧
      (b.control function ih).isPaused = b.isPaused := by
  unfold control
  split <;> exact ⟨rfl, rfl⟩

/- Calls for a torrent are not about the session. -/
theorem session_afterCalls
    (b : Backend)
    (thread : Nat)
    (removal : RemoveOutcome)
    (calls : List Call) :
    (calls.foldl (afterCall config thread removal) b).submitted =
        b.submitted ∧
      (calls.foldl (afterCall config thread removal) b).isPaused =
        b.isPaused := by
  induction calls generalizing b with
  | nil => exact ⟨rfl, rfl⟩
  | cons call calls hRest =>
      have hFirst :
          (b.afterCall config thread removal call).submitted =
              b.submitted ∧
            (b.afterCall config thread removal call).isPaused =
              b.isPaused := by
        cases call with
        | pauseResumeTorrent ih => exact session_control _ b ih
        | resumeTorrent ih => exact session_control _ b ih
        | _ => exact ⟨rfl, rfl⟩
      rcases hRest (b.afterCall config thread removal call) with
        ⟨hSubmitted, hPaused⟩
      exact
        ⟨hSubmitted.trans hFirst.1, hPaused.trans hFirst.2⟩

theorem submitted_step
    {b next : Backend}
    {r : Served}
    (hPost : r.msg.method ≠ .post)
    (hStep : b.step readHash uiRoot config r = some next) :
    next.submitted = b.submitted := by
  rcases step_cases hStep with
    rfl | ⟨hMethod, _⟩ | ⟨_, rfl⟩ | ⟨_, _, _, rfl⟩
  · rfl
  · exact absurd hMethod hPost
  · rfl
  · exact (session_afterCalls b r.thread r.removal _).1

theorem isPaused_step
    {b next : Backend}
    {r : Served}
    (hPut : r.msg.method ≠ .put)
    (hStep : b.step readHash uiRoot config r = some next) :
    next.isPaused = b.isPaused := by
  rcases step_cases hStep with
    rfl | ⟨_, rfl⟩ | ⟨hMethod, _⟩ | ⟨_, _, _, rfl⟩
  · rfl
  · rfl
  · exact absurd hMethod hPut
  · exact (session_afterCalls b r.thread r.removal _).2

/- A request with any other method only asks. -/
theorem step_of_asking
    {b next : Backend}
    {r : Served}
    (hPost : r.msg.method ≠ .post)
    (hPut : r.msg.method ≠ .put)
    (hDelete : r.msg.method ≠ .delete_)
    (hStep : b.step readHash uiRoot config r = some next) :
    next = b := by
  rcases step_cases hStep with
    rfl | ⟨hMethod, _⟩ | ⟨hMethod, _⟩ | ⟨_, _, _, rfl⟩
  · rfl
  · exact absurd hMethod hPost
  · exact absurd hMethod hPut
  · exact afterCalls_of_asking b r.thread r.removal hPut
        hDelete

end Backend

end Http

end Kedge

------------------------------------------------------------
-- Requests One after the Other
------------------------------------------------------------

namespace Kedge

namespace Http

namespace Backend

open Sheath

/- A relation that every step of a run keeps. -/
theorem of_exec
    {readHash : Str → Option InfoHash}
    {uiRoot : Str}
    {config : Config}
    {condition : Served → Prop}
    {Kept : Backend → Prop}
    {b finish : Backend}
    {requests : List Served}
    (hStep :
      ∀ (s : Backend) r next,
        condition r → Kept s →
          s.step readHash uiRoot config r = some next →
            Kept next)
    (hStart : Kept b)
    (hRequests : ∀ r ∈ requests, condition r)
    (hExec :
      Run.exec (step readHash uiRoot config) b requests =
        some finish) :
    Kept finish :=
  Run.invariant_of_meets hStep hStart
    (Run.meets_of_forall (fun r hIn _ => hRequests r hIn) b)
    hExec

/-
  Whatever requests are served one after the other, a
  torrent, its flags and its resume file are as before
  unless a `PUT` or a `DELETE` names it in its path. Only
  `POST` submits torrents, only `PUT` pauses or resumes the
  session, and requests with any other method change
  nothing.
-/
theorem requests_touch_named_torrents
    (readHash : Str → Option InfoHash)
    (uiRoot : Str)
    (config : Config)
    (b finish : Backend)
    (requests : List Served)
    (hExec :
      Run.exec (step readHash uiRoot config) b requests =
        some finish) :
    (∀ ih,
        (∀ r ∈ requests, Spares readHash ih r) →
          SameTorrent config ih b finish) ∧
      ((∀ r ∈ requests, r.msg.method ≠ .post) →
        finish.submitted = b.submitted) ∧
      ((∀ r ∈ requests, r.msg.method ≠ .put) →
        finish.isPaused = b.isPaused) ∧
      ((∀ r ∈ requests,
          r.msg.method ≠ .post ∧ r.msg.method ≠ .put ∧
            r.msg.method ≠ .delete_) →
        finish = b) := by
  refine ⟨?_, ?_, ?_, ?_⟩
  · intro ih hSpares
    exact
      of_exec
        (fun _ _ _ hSpare hSame hStep =>
          hSame.trans (sameTorrent_step hSpare hStep))
        (.refl ih b) hSpares hExec
  · intro hPost
    have hKeep :
        ∀ (s : Backend) (r : Served) next,
          r.msg.method ≠ .post →
            s.submitted = b.submitted →
              s.step readHash uiRoot config r = some next →
                next.submitted = b.submitted :=
      fun _ _ _ hMethod hSame hStep =>
        (submitted_step hMethod hStep).trans hSame
    exact of_exec hKeep rfl hPost hExec
  · intro hPut
    have hKeep :
        ∀ (s : Backend) (r : Served) next,
          r.msg.method ≠ .put →
            s.isPaused = b.isPaused →
              s.step readHash uiRoot config r = some next →
                next.isPaused = b.isPaused :=
      fun _ _ _ hMethod hSame hStep =>
        (isPaused_step hMethod hStep).trans hSame
    exact of_exec hKeep rfl hPut hExec
  · intro hAsking
    have hKeep :
        ∀ (s : Backend) (r : Served) next,
          r.msg.method ≠ .post ∧ r.msg.method ≠ .put ∧
              r.msg.method ≠ .delete_ →
            s = b →
              s.step readHash uiRoot config r = some next →
                next = b := by
      rintro s r next ⟨hPost, hPut, hDelete⟩ rfl hStep
      exact step_of_asking hPost hPut hDelete hStep
    exact
      @of_exec readHash uiRoot config _ (fun s => s = b) b
        finish requests hKeep rfl hAsking hExec

/- A session with one torrent. -/
def oneTorrentBackend : Backend where
  system := oneTorrentSystem
  flags := fun _ => ⟨true, false⟩
  isPaused := false
  submitted := []

/- A request for another torrent. -/
def requestServed (method : Verb) (tail : Str) : Served where
  msg := ⟨requestFor method tail, [], []⟩
  thread := 0
  ctx := plainContext fun _ => none
  hasDirectory := true
  removal := .allowed
  values := silentService

/- Another torrent is stopped and dropped. -/
theorem requests_touch_named_torrents_other :
    ∃ finish,
      Run.exec (step readSha1 "/ui".toList plainConfig)
          oneTorrentBackend
          [requestServed .put "/pause".toList,
            requestServed .delete_ "/yes".toList] =
        some finish ∧
      finish.system.findTorrent zeroHash =
        some firstTorrent := by
  have hNamed :
      namedHash readSha1
          (requestServed .put "/pause".toList).msg.target =
        some repeatedHash := rfl
  have hNamedToo :
      namedHash readSha1
          (requestServed .delete_ "/yes".toList).msg.target =
        some repeatedHash := rfl
  have hNe : repeatedHash ≠ zeroHash := by decide
  have hSpares :
      ∀ r ∈ [requestServed .put "/pause".toList,
          requestServed .delete_ "/yes".toList],
        Spares readSha1 zeroHash r := by
    intro r hIn hSame
    rcases List.mem_pair.mp hIn with rfl | rfl
    · rw [hNamed] at hSame
      exact absurd (Option.some.inj hSame) hNe
    · rw [hNamedToo] at hSame
      exact absurd (Option.some.inj hSame) hNe
  have hRun :
      ∃ finish,
        Run.exec (step readSha1 "/ui".toList plainConfig)
            oneTorrentBackend
            [requestServed .put "/pause".toList,
              requestServed .delete_ "/yes".toList] =
          some finish :=
    ⟨_, rfl⟩
  rcases hRun with ⟨finish, hExec⟩
  have hSame :=
    (requests_touch_named_torrents readSha1 "/ui".toList
      plainConfig oneTorrentBackend finish _ hExec).1
      zeroHash hSpares
  exact ⟨finish, hExec, hSame.torrent⟩

end Backend

end Http

end Kedge
