import Kedge.Http.Api

/-
  Torrents that were deleted over the API, when the session
  goes on between the requests: alerts are handled, resume
  data are saved, and other threads drop torrents.

  Key definitions include:
    * `Moment`
    * `Backend.advance`
    * `System.Distinct`

  Main theorems include:
    * `Backend.distinct_advance`
    * `Backend.deleted_torrents_not_found`
-/

------------------------------------------------------------
-- Requests and the Session
------------------------------------------------------------

namespace Kedge

namespace Http

open Sheath

/- A request is served, or the session takes a step. -/
inductive Moment where
  | served (r : Served)
  | session (action : Action)

namespace Backend

def advance
    (readHash : Str → Option InfoHash)
    (uiRoot : Str)
    (config : Config)
    (b : Backend) : Moment → Option Backend
  | .served r => b.step readHash uiRoot config r
  | .session action =>
      (b.system.step config action).map fun system =>
        { b with system := system }

end Backend

/- A request that is routed to the handler of a torrent. -/
structure Names
    (readHash : Str → Option InfoHash)
    (uiRoot : Str)
    (ih : InfoHash)
    (r : Served) : Prop where
  routed :
    handleRequest uiRoot r.msg.toRequest =
      .ok (.handled (.torrent 13))
  hash : namedHash readHash r.msg.target = some ih

end Http

end Kedge

------------------------------------------------------------
-- The Torrents of the Session
------------------------------------------------------------

namespace Kedge

namespace Sheath

namespace System

/- No two torrents have the same hash. -/
def Distinct (s : System) : Prop :=
  (s.torrents.map Handle.infoHash).Nodup

theorem findTorrent_eq_none_iff
    {s : System}
    {ih : InfoHash} :
    s.findTorrent ih = none ↔
      ih ∉ s.torrents.map Handle.infoHash := by
  unfold findTorrent
  rw [List.find?_eq_none]
  simp

/- The torrents that are left are among the old ones. -/
theorem Distinct.of_sublist
    {s next : System}
    (hDistinct : s.Distinct)
    (hLeft : next.torrents.Sublist s.torrents) :
    next.Distinct :=
  List.Nodup.sublist (hLeft.map Handle.infoHash) hDistinct

theorem findTorrent_of_sublist
    {s next : System}
    {ih : InfoHash}
    (hNone : s.findTorrent ih = none)
    (hLeft : next.torrents.Sublist s.torrents) :
    next.findTorrent ih = none := by
  rw [findTorrent_eq_none_iff] at hNone ⊢
  intro hIn
  exact hNone ((hLeft.map Handle.infoHash).subset hIn)

/- Only a torrent that is added is new. -/
theorem torrents_of_next
    {config : Config}
    {s next : System}
    {action : Action}
    (hNext : Next config s action next) :
    next.torrents.Sublist s.torrents ∨
      ∃ ih,
        action = .add ih ∧
          next.torrents = s.torrents ++ [⟨s.nextId, ih⟩] := by
  cases hNext with
  | @add ih => exact Or.inr ⟨ih, rfl, rfl⟩
  | saveNext =>
      refine Or.inl ?_
      unfold saveNext
      dsimp only
      split <;> exact List.Sublist.refl _
  | dropRemove => exact Or.inl List.erase_sublist
  | _ => exact Or.inl (List.Sublist.refl _)

theorem distinct_step
    {config : Config}
    {s next : System}
    {action : Action}
    (hDistinct : s.Distinct)
    (hStep : s.step config action = some next) :
    next.Distinct := by
  rcases torrents_of_next (next_of_step hStep) with
    hLeft | ⟨ih, rfl, hTorrents⟩
  · exact hDistinct.of_sublist hLeft
  · have hNew :=
      (Option.ite_none_right_eq_some.mp hStep).1
    rw [findTorrent_eq_none_iff] at hNew
    unfold Distinct
    rw [hTorrents, List.map_append]
    exact List.Nodup.append hDistinct
      (List.nodup_singleton ih)
      (by simpa [List.disjoint_singleton] using hNew)

/- The whole call leaves some of the torrents. -/
theorem sublist_dropTorrent
    (config : Config)
    (s : System)
    (thread : Nat)
    (removal : RemoveOutcome)
    (ih : InfoHash)
    (withData : Bool) :
    (s.dropTorrent config thread ih withData
        removal).1.torrents.Sublist s.torrents := by
  unfold dropTorrent
  dsimp only
  split
  · exact List.erase_sublist
  · exact List.Sublist.refl _

/- One torrent at most has the hash that is dropped. -/
theorem findTorrent_dropTorrent
    (config : Config)
    {s : System}
    (hDistinct : s.Distinct)
    (thread : Nat)
    (removal : RemoveOutcome)
    (ih : InfoHash)
    (withData : Bool) :
    (s.dropTorrent config thread ih withData
        removal).1.findTorrent ih = none := by
  unfold dropTorrent
  dsimp only
  split
  · next handle hFind =>
    have hHash := infoHash_of_findTorrent hFind
    have hIn : handle ∈ s.torrents :=
      List.mem_of_find?_eq_some hFind
    rw [findTorrent_eq_none_iff]
    intro hLeft
    rcases List.mem_map.mp hLeft with ⟨other, hOther, hSame⟩
    have hNodup : s.torrents.Nodup := hDistinct.of_map
    rcases hNodup.mem_erase_iff.mp hOther with ⟨hNe, hOld⟩
    exact hNe
      (List.inj_on_of_nodup_map hDistinct hOld hIn
        (hSame.trans hHash.symm))
  · next hNone => exact hNone

end System

end Sheath

end Kedge

------------------------------------------------------------
-- What the Session Keeps
------------------------------------------------------------

namespace Kedge

namespace Http

namespace Backend

open Sheath

variable {readHash : Str → Option InfoHash}
variable {uiRoot : Str}
variable {config : Config}

theorem system_control
    (function : TorrentFlags → FlagCall)
    (b : Backend)
    (ih : InfoHash) :
    (b.control function ih).system = b.system := by
  unfold control
  split <;> rfl

theorem sublist_afterCall
    (b : Backend)
    (thread : Nat)
    (removal : RemoveOutcome)
    (call : Call) :
    List.Sublist
      (b.afterCall config thread removal call).system.torrents
      b.system.torrents := by
  cases call with
  | dropTorrent ih withData =>
      exact
        System.sublist_dropTorrent config b.system thread
          removal ih withData
  | pauseResumeTorrent ih =>
      exact (system_control _ b ih).symm ▸ .refl _
  | resumeTorrent ih =>
      exact (system_control _ b ih).symm ▸ .refl _
  | _ => exact List.Sublist.refl _

theorem sublist_afterCalls
    (b : Backend)
    (thread : Nat)
    (removal : RemoveOutcome)
    (calls : List Call) :
    (calls.foldl (afterCall config thread removal)
        b).system.torrents.Sublist
      b.system.torrents := by
  induction calls generalizing b with
  | nil => exact List.Sublist.refl _
  | cons call calls hRest =>
      exact
        (hRest (b.afterCall config thread removal call)).trans
          (sublist_afterCall b thread removal call)

/- No request adds a torrent by itself. -/
theorem sublist_step
    {b next : Backend}
    {r : Served}
    (hStep : b.step readHash uiRoot config r = some next) :
    next.system.torrents.Sublist b.system.torrents := by
  rcases step_cases hStep with
    rfl | ⟨_, rfl⟩ | ⟨_, rfl⟩ | ⟨_, _, _, rfl⟩
  · exact List.Sublist.refl _
  · exact List.Sublist.refl _
  · exact List.Sublist.refl _
  · exact sublist_afterCalls b r.thread r.removal _

/- No two torrents ever have the same hash. -/
theorem distinct_advance
    {b next : Backend}
    {moment : Moment}
    (hDistinct : b.system.Distinct)
    (hStep :
      b.advance readHash uiRoot config moment = some next) :
    next.system.Distinct := by
  cases moment with
  | served r =>
      exact hDistinct.of_sublist (sublist_step hStep)
  | session action =>
      rcases Option.map_eq_some_iff.mp hStep with
        ⟨system, hSystem, rfl⟩
      exact System.distinct_step hDistinct hSystem

/- An unknown torrent stays so until it is added. -/
theorem findTorrent_advance
    {b next : Backend}
    {moment : Moment}
    {ih : InfoHash}
    (hAdd : moment ≠ .session (.add ih))
    (hNone : b.system.findTorrent ih = none)
    (hStep :
      b.advance readHash uiRoot config moment = some next) :
    next.system.findTorrent ih = none := by
  cases moment with
  | served r =>
      exact
        System.findTorrent_of_sublist hNone
          (sublist_step hStep)
  | session action =>
      rcases Option.map_eq_some_iff.mp hStep with
        ⟨system, hSystem, rfl⟩
      rcases System.torrents_of_next
          (System.next_of_step hSystem) with
        hLeft | ⟨other, rfl, hTorrents⟩
      · exact System.findTorrent_of_sublist hNone hLeft
      · have hOther : ih ≠ other := by
          rintro rfl
          exact hAdd rfl
        rw [System.findTorrent_eq_none_iff] at hNone ⊢
        rw [hTorrents]
        simpa [hOther] using hNone

/- What a request for one torrent does and is answered. -/
theorem step_of_names
    (config : Config)
    (b : Backend)
    {r : Served}
    {ih : InfoHash}
    (hNames : Names readHash uiRoot ih r) :
    ∃ act,
      b.step readHash uiRoot config r =
          some
            ((torrentOutcome (b.service r).toAnswers
              r.msg.toRequest ih act).calls.foldl
              (afterCall config r.thread r.removal) b) ∧
        ∀ openFile,
          sendResponse readHash (b.service r) openFile uiRoot
              r.msg =
            .ok
              (.stringBody
                (torrentOutcome (b.service r).toAnswers
                  r.msg.toRequest ih act).response) := by
  have hLong :
      ¬ (pathPart r.msg.target).length < 13 + 40 := by
    intro hShort
    have hHash := hNames.hash
    unfold namedHash fromHex at hHash
    rw [if_pos (by simp; omega)] at hHash
    cases hHash
  have hHandle :
      handleTorrent readHash (b.service r).toAnswers
          r.msg.toRequest 13 =
        .ok
          (torrentOutcome (b.service r).toAnswers
            r.msg.toRequest ih
            ((pathPart r.msg.target).drop (13 + 40 + 1))) := by
    have hHash := hNames.hash
    unfold namedHash at hHash
    rw [handleTorrent_eq, if_neg hLong, hHash]
  refine ⟨(pathPart r.msg.target).drop (13 + 40 + 1), ?_, ?_⟩
  · unfold step effect
    rw [hNames.routed]
    dsimp only
    rw [hHandle]
    rfl
  · intro openFile
    unfold sendResponse callHandler
    rw [hNames.routed]
    dsimp only
    rw [hHandle]
    rfl

/- A deletion leaves no torrent with its hash. -/
theorem findTorrent_of_deleted
    {b next : Backend}
    {r : Served}
    {ih : InfoHash}
    (hDistinct : b.system.Distinct)
    (hNames : Names readHash uiRoot ih r)
    (hDelete : r.msg.method = .delete_)
    (hStep : b.step readHash uiRoot config r = some next) :
    next.system.findTorrent ih = none := by
  rcases step_of_names config b hNames with
    ⟨act, hServed, _⟩
  cases hServed.symm.trans hStep
  have hCalls :
      (torrentOutcome (b.service r).toAnswers
          r.msg.toRequest ih act).calls =
        [.dropTorrent ih (withDataAct act)] := by
    simp [torrentOutcome, actOnTorrent, hDelete]
  rw [hCalls]
  exact
    System.findTorrent_dropTorrent config hDistinct r.thread
      r.removal ih (withDataAct act)

end Backend

end Http

end Kedge

------------------------------------------------------------
-- Requests for a Deleted Torrent
------------------------------------------------------------

namespace Kedge

namespace Http

namespace Backend

open Sheath

variable {readHash : Str → Option InfoHash}
variable {uiRoot : Str}
variable {config : Config}

/- A look-up for an unknown torrent, with true answers. -/
def LooksUp (b : Backend) (asked : Served) : Prop :=
  asked.msg.method = .head ∨
    asked.msg.method = .get ∧
      ∃ access,
        AnsweredBy b.system access
          (b.service asked).toAnswers

theorem response_of_unknown
    {b : Backend}
    {ih : InfoHash}
    (hUnknown : b.system.findTorrent ih = none)
    {asked : Served}
    (hLooksUp : b.LooksUp asked)
    (act : Str) :
    (torrentOutcome (b.service asked).toAnswers
        asked.msg.toRequest ih act).response =
      makeResp404 asked.msg.target := by
  rcases hLooksUp with hHead | ⟨hGet, access, hAnswers⟩
  · have hExists :
        (b.service asked).toAnswers.exists_ ih = false := by
      change b.system.exists_ ih = false
      unfold System.exists_
      rw [hUnknown]
      rfl
    simp [torrentOutcome, headTorrent, hHead, hExists]
  · have hNull :
        (b.service asked).toAnswers.getTorrent ih
            (queryFlag act) =
          .null := by
      apply hAnswers.getTorrent ih (queryFlag act)
      rw [hUnknown]
      rfl
    simp [torrentOutcome, actOnTorrent, hGet, hNull,
      Json.Value.kind]

/- An unknown torrent is neither stopped nor started. -/
theorem afterCalls_of_put
    {b : Backend}
    {ih : InfoHash}
    (hUnknown : b.system.findTorrent ih = none)
    {asked : Served}
    (hPut : asked.msg.method = .put)
    (act : Str) :
    (torrentOutcome (b.service asked).toAnswers
        asked.msg.toRequest ih act).calls.foldl
        (afterCall config asked.thread asked.removal) b =
      b := by
  have hControl :
      ∀ function, b.control function ih = b := by
    intro function
    unfold control System.exists_
    rw [hUnknown]
    rfl
  unfold torrentOutcome actOnTorrent
  rw [if_neg (by simp [hPut]), hPut]
  dsimp only
  split
  · exact hControl _
  · split
    · exact hControl _
    · rfl

/-
  Once a torrent is deleted over the API, it is gone for as
  long as no torrent with its hash is added, whatever other
  requests are served and whatever the session does
  meanwhile. Requests that ask for it are answered with 404,
  and requests that stop or start it change nothing.
-/
theorem deleted_torrents_not_found
    (readHash : Str → Option InfoHash)
    (uiRoot : Str)
    (config : Config)
    (b finish : Backend)
    (before after : List Moment)
    (r : Served)
    (ih : InfoHash)
    (hDistinct : b.system.Distinct)
    (hNames : Names readHash uiRoot ih r)
    (hDelete : r.msg.method = .delete_)
    (hAdd : ∀ moment ∈ after, moment ≠ .session (.add ih))
    (hExec :
      Run.exec (advance readHash uiRoot config) b
          (before ++ .served r :: after) =
        some finish) :
    finish.system.exists_ ih = false ∧
      ∀ asked, Names readHash uiRoot ih asked →
        (finish.LooksUp asked →
          ∀ openFile,
            sendResponse readHash (finish.service asked)
                openFile uiRoot asked.msg =
              .ok
                (.stringBody
                  (makeResp404 asked.msg.target))) ∧
        (asked.msg.method = .put →
          finish.step readHash uiRoot config asked =
            some finish) := by
  rw [Run.exec_append] at hExec
  rcases Option.bind_eq_some_iff.mp hExec with
    ⟨mid, hBefore, hRest⟩
  rcases Option.bind_eq_some_iff.mp hRest with
    ⟨deleted, hStep, hAfter⟩
  have hMid : mid.system.Distinct :=
    Run.invariant
      (fun _ _ _ hBoth hNext => distinct_advance hBoth hNext)
      hDistinct hBefore
  have hUnknown : finish.system.findTorrent ih = none :=
    Run.invariant_of_meets
      (fun _ _ _ hOther hNone hNext =>
        findTorrent_advance hOther hNone hNext)
      (findTorrent_of_deleted hMid hNames hDelete hStep)
      (Run.meets_of_forall
        (fun moment hIn _ => hAdd moment hIn) deleted)
      hAfter
  refine ⟨?_, ?_⟩
  · unfold System.exists_
    rw [hUnknown]
    rfl
  · intro asked hAsked
    rcases step_of_names config finish hAsked with
      ⟨act, hServed, hSent⟩
    refine ⟨?_, ?_⟩
    · intro hLooksUp openFile
      rw [hSent, response_of_unknown hUnknown hLooksUp]
    · intro hPut
      rw [hServed, afterCalls_of_put hUnknown hPut]

/- A session with the torrent that the requests name. -/
def repeatedTorrentBackend : Backend :=
  { oneTorrentBackend with
    system :=
      { emptySystem with
        torrents := [⟨0, repeatedHash⟩]
        nextId := 1 } }

theorem names_requestServed
    (method : Verb)
    (hMethod : method = .head ∨ method = .delete_) :
    Names readSha1 "/ui".toList repeatedHash
      (requestServed method []) := by
  rcases hMethod with rfl | rfl <;> exact ⟨rfl, rfl⟩

/- It is deleted, alerts are popped, and it is asked for. -/
theorem deleted_torrents_not_found_head :
    ∃ finish,
      Run.exec (advance readSha1 "/ui".toList plainConfig)
          repeatedTorrentBackend
          [.served (requestServed .delete_ []),
            .session .pop] =
        some finish ∧
      ∀ openFile,
        sendResponse readSha1
            (finish.service (requestServed .head []))
            openFile "/ui".toList
            (requestServed .head []).msg =
          .ok
            (.stringBody
              (makeResp404
                (requestServed .head []).msg.target)) := by
  have hRun :
      ∃ finish,
        Run.exec (advance readSha1 "/ui".toList plainConfig)
            repeatedTorrentBackend
            [.served (requestServed .delete_ []),
              .session .pop] =
          some finish :=
    ⟨_, rfl⟩
  rcases hRun with ⟨finish, hExec⟩
  have hGone :=
    deleted_torrents_not_found readSha1 "/ui".toList
      plainConfig repeatedTorrentBackend finish []
      [.session .pop] (requestServed .delete_ [])
      repeatedHash (List.nodup_singleton repeatedHash)
      (names_requestServed .delete_ (Or.inr rfl)) rfl
      (by simp) hExec
  have hAsked :=
    hGone.2 (requestServed .head [])
      (names_requestServed .head (Or.inl rfl))
  exact ⟨finish, hExec, hAsked.1 (Or.inl rfl)⟩

end Backend

end Http

end Kedge
