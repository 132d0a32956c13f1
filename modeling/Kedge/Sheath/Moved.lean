import Kedge.Library.Run
import Kedge.Sheath.System

/-
  Finished torrents and the directory they are moved to:
  `sheath::on_torrent_finished` in `src/sheath.cpp`, over
  every run of alerts.

  `libtorrent` keeps the status of each torrent. It changes
  the path of the data only where it completes a move that
  it was asked for, which can happen at any later time and
  can fail.

  Key definitions include:
    * `Storage`
    * `Storage.step`
    * `Storage.issued`

  Main theorems include:
    * `Storage.mem_issued`
    * `Storage.finished_torrents_moved_once`
-/

------------------------------------------------------------
-- Moves
------------------------------------------------------------

namespace Kedge

namespace Sheath

/- The torrent that an alert says is finished. -/
def Alert.finished? : Alert → Option Handle
  | .torrentFinished h => some h
  | _ => none

/- The torrent to be moved, and where to. -/
def Command.move? : Command → Option (Handle × Str)
  | .moveStorage h dir => some (h, dir)
  | _ => none

/-
  The members of the sheath, what `libtorrent` answers about
  a torrent, and the moves it was asked for that it has not
  completed.
-/
structure Storage where
  members : Members
  status : Handle → TorrentStatus
  asked : List (Handle × Str)

/-
  An alert is handled, the status of a torrent changes, and
  a move is completed or fails.
-/
inductive StorageEvent where
  | alert (alert : Alert) (query : Query)
  | changed (st : TorrentStatus)
  | moved (i : Nat)
  | failed (i : Nat)

namespace Storage

/- The handler is told the status of the torrent. -/
def Tells (s : Storage) (alert : Alert) (query : Query) :
    Prop :=
  ∀ h, alert.finished? = some h → query.status = s.status h

instance decidableTells
    (s : Storage)
    (alert : Alert)
    (query : Query) : Decidable (s.Tells alert query) :=
  match hFinished : alert.finished? with
  | none =>
      .isTrue fun h hSome => by simp [hFinished] at hSome
  | some th =>
      decidable_of_iff (query.status = s.status th)
        (by simp [Tells, hFinished])

/- The moves that a step asks for. -/
def issued
    (config : Config)
    (s : Storage) : StorageEvent → List (Handle × Str)
  | .alert alert query =>
      if s.Tells alert query then
        (handleAlert config query s.members
          alert).commands.filterMap Command.move?
      else []
  | _ => []

def step
    (config : Config)
    (s : Storage)
    (e : StorageEvent) : Option Storage :=
  match e with
  | .alert alert query =>
      if s.Tells alert query then
        some
          { s with
            members :=
              (handleAlert config query s.members
                alert).members
            asked := s.asked ++ s.issued config e }
      else none
  | .changed st =>
      if st.savePath = (s.status st.handle).savePath then
        some
          { s with
            status :=
              Function.update s.status st.handle st }
      else none
  | .moved i =>
      match s.asked[i]? with
      | some (h, dir) =>
          some
            { s with
              status :=
                Function.update s.status h
                  { s.status h with savePath := dir }
              asked := s.asked.eraseIdx i }
      | none => none
  | .failed i =>
      if i < s.asked.length then
        some { s with asked := s.asked.eraseIdx i }
      else none

end Storage

end Sheath

end Kedge

------------------------------------------------------------
-- When a Torrent Is Moved
------------------------------------------------------------

namespace Kedge

namespace Sheath

/- The torrent has all its data, some of them downloaded. -/
def TorrentStatus.IsDownloaded (st : TorrentStatus) : Prop :=
  percentDone ≤ st.progressPpm ∧ st.totalPayloadDownload ≠ 0

/- Only a finished torrent is moved by an alert. -/
theorem moves_handleAlert
    (config : Config)
    (query : Query)
    (m : Members)
    (alert : Alert) :
    (handleAlert config query m alert).commands.filterMap
        Command.move? =
      (alert.finished?.elim []
          (onTorrentFinished config query)).filterMap
        Command.move? := by
  cases alert with
  | addTorrent h failed =>
      cases failed with
      | true => rfl
      | false =>
          cases hPeer : config.peer <;>
            simp [handleAlert, hPeer, Alert.finished?,
              Command.move?]
  | _ => rfl

theorem mem_moves_onTorrentFinished
    {config : Config}
    {query : Query}
    {th h : Handle}
    {dir : Str} :
    (h, dir) ∈
        (onTorrentFinished config query th).filterMap
          Command.move? ↔
      h = th ∧ dir = config.dirMoved ∧
        config.dirMoved ≠ [] ∧
        query.status.IsDownloaded ∧
        pathEquals query.status.savePath config.dirMoved =
          false ∧
        query.movedExists = true := by
  unfold onTorrentFinished TorrentStatus.IsDownloaded
  dsimp only
  split
  · next hEmpty => simp [hEmpty]
  · next hDir =>
    split
    · next hUnfinished =>
      simp only [List.filterMap_nil, List.not_mem_nil,
        false_iff]
      rintro ⟨_, _, _, ⟨hProgress, hTotal⟩, _⟩
      rcases hUnfinished with hLess | hZero
      · exact absurd hProgress (by simpa using hLess)
      · exact hTotal hZero.symm
    · next hFinished =>
      rw [not_or] at hFinished
      have hProgress :
          percentDone ≤ query.status.progressPpm := by
        simpa using hFinished.1
      have hTotal : query.status.totalPayloadDownload ≠ 0 :=
        fun hZero => hFinished.2 hZero.symm
      split
      · next hSame => simp [hSame]
      · next hElsewhere =>
        split
        · next hExists =>
          simp [Command.move?, hDir, hProgress, hTotal,
            hElsewhere, hExists]
        · next hMissing => simp [hMissing]

namespace Storage

variable {config : Config}

/- What is true of a torrent that is asked to move. -/
theorem mem_issued
    {s : Storage}
    {e : StorageEvent}
    {h : Handle}
    {dir : Str}
    (hIssued : (h, dir) ∈ s.issued config e) :
    dir = config.dirMoved ∧ config.dirMoved ≠ [] ∧
      (s.status h).IsDownloaded ∧
      pathEquals (s.status h).savePath config.dirMoved =
        false := by
  cases e with
  | alert alert query =>
      unfold issued at hIssued
      dsimp only at hIssued
      split at hIssued
      · next hTells =>
        rw [moves_handleAlert] at hIssued
        cases hFinished : alert.finished? with
        | none => simp [hFinished] at hIssued
        | some th =>
            rw [hFinished] at hIssued
            rcases mem_moves_onTorrentFinished.mp hIssued with
              ⟨rfl, hDir, hNamed, hDone, hElsewhere, _⟩
            rw [hTells h hFinished] at hDone hElsewhere
            exact ⟨hDir, hNamed, hDone, hElsewhere⟩
      · cases hIssued
  | _ => cases hIssued

end Storage

end Sheath

end Kedge

------------------------------------------------------------
-- Where the Data Are
------------------------------------------------------------

namespace Kedge

namespace Sheath

namespace Storage

variable {config : Config}

/- Every move under way goes to the directory. -/
def AskedRight (config : Config) (s : Storage) : Prop :=
  ∀ move ∈ s.asked, move.2 = config.dirMoved

/- The path of a torrent's data. -/
def savePath (s : Storage) (h : Handle) : Str :=
  (s.status h).savePath

theorem savePath_update
    (s : Storage)
    (st : TorrentStatus)
    (h : Handle)
    (asked : List (Handle × Str)) :
    savePath
        { s with
          status := Function.update s.status h st
          asked := asked } =
      Function.update s.savePath h st.savePath := by
  funext other
  unfold savePath
  dsimp only
  by_cases hHandle : other = h
  · subst hHandle
    rw [Function.update_self, Function.update_self]
  · rw [Function.update_of_ne hHandle,
      Function.update_of_ne hHandle]

/- Moves come from alerts. -/
theorem asked_of_step
    {s next : Storage}
    {e : StorageEvent}
    (hStep : s.step config e = some next) :
    next.asked = s.asked ++ s.issued config e ∨
      ∃ i, next.asked = s.asked.eraseIdx i := by
  cases e with
  | alert alert query =>
      rcases Option.ite_none_right_eq_some.mp hStep with
        ⟨_, hNext⟩
      cases hNext
      exact Or.inl rfl
  | changed st =>
      rcases Option.ite_none_right_eq_some.mp hStep with
        ⟨_, hNext⟩
      cases hNext
      exact Or.inl (List.append_nil s.asked).symm
  | moved i =>
      unfold step at hStep
      dsimp only at hStep
      split at hStep
      · cases hStep
        exact Or.inr ⟨i, rfl⟩
      · cases hStep
  | failed i =>
      rcases Option.ite_none_right_eq_some.mp hStep with
        ⟨_, hNext⟩
      cases hNext
      exact Or.inr ⟨i, rfl⟩

/- Data get elsewhere by a move that was asked for. -/
theorem savePath_of_step
    {s next : Storage}
    {e : StorageEvent}
    (hStep : s.step config e = some next) :
    next.savePath = s.savePath ∨
      ∃ i h dir,
        e = .moved i ∧ s.asked[i]? = some (h, dir) ∧
          next.savePath =
            Function.update s.savePath h dir := by
  cases e with
  | alert alert query =>
      rcases Option.ite_none_right_eq_some.mp hStep with
        ⟨_, hNext⟩
      cases hNext
      exact Or.inl rfl
  | changed st =>
      rcases Option.ite_none_right_eq_some.mp hStep with
        ⟨hSame, hNext⟩
      cases hNext
      refine Or.inl ?_
      rw [savePath_update s st st.handle s.asked, hSame]
      exact Function.update_eq_self st.handle s.savePath
  | moved i =>
      unfold step at hStep
      dsimp only at hStep
      split at hStep
      · next h dir hAsked =>
        cases hStep
        exact
          Or.inr
            ⟨i, h, dir, rfl, hAsked, savePath_update s _ h _⟩
      · cases hStep
  | failed i =>
      rcases Option.ite_none_right_eq_some.mp hStep with
        ⟨_, hNext⟩
      cases hNext
      exact Or.inl rfl

theorem askedRight_step
    {s next : Storage}
    {e : StorageEvent}
    (hRight : AskedRight config s)
    (hStep : s.step config e = some next) :
    AskedRight config next := by
  intro move hIn
  rcases asked_of_step hStep with hAsked | ⟨i, hAsked⟩
  · rw [hAsked] at hIn
    rcases List.mem_append.mp hIn with hOld | hNew
    · exact hRight move hOld
    · exact (mem_issued hNew).1
  · rw [hAsked] at hIn
    exact hRight move (List.mem_of_mem_eraseIdx hIn)

/- The data of a torrent stay, or come to the directory. -/
theorem savePath_step
    {s next : Storage}
    {e : StorageEvent}
    (hRight : AskedRight config s)
    (hStep : s.step config e = some next)
    (h : Handle) :
    next.savePath h = s.savePath h ∨
      next.savePath h = config.dirMoved := by
  rcases savePath_of_step hStep with
    hSame | ⟨i, other, dir, _, hAsked, hPath⟩
  · exact Or.inl (congrFun hSame h)
  · rw [hPath]
    by_cases hHandle : h = other
    · subst hHandle
      rw [Function.update_self]
      exact
        Or.inr
          (hRight (h, dir) (List.mem_of_getElem? hAsked))
    · exact Or.inl (Function.update_of_ne hHandle _ _)

/- The data of the torrent are in the directory. -/
def Settled (config : Config) (h : Handle) (s : Storage) :
    Prop :=
  AskedRight config s ∧ s.savePath h = config.dirMoved

theorem settled_step
    {s next : Storage}
    {e : StorageEvent}
    {h : Handle}
    (hSettled : s.Settled config h)
    (hStep : s.step config e = some next) :
    next.Settled config h := by
  refine ⟨askedRight_step hSettled.1 hStep, ?_⟩
  rcases savePath_step hSettled.1 hStep h with hSame | hMoved
  · exact hSame.trans hSettled.2
  · exact hMoved

/- A completed move settles its torrent. -/
theorem settled_of_moved
    {s next : Storage}
    {i : Nat}
    {h : Handle}
    {dir : Str}
    (hRight : AskedRight config s)
    (hAsked : s.asked[i]? = some (h, dir))
    (hStep : s.step config (.moved i) = some next) :
    next.Settled config h := by
  refine ⟨askedRight_step hRight hStep, ?_⟩
  unfold step at hStep
  dsimp only at hStep
  rw [hAsked] at hStep
  cases hStep
  rw [savePath_update, Function.update_self]
  exact hRight (h, dir) (List.mem_of_getElem? hAsked)

theorem not_issued_of_settled
    {s : Storage}
    {h : Handle}
    (hSettled : s.Settled config h)
    (e : StorageEvent)
    (dir : Str) :
    (h, dir) ∉ s.issued config e := by
  intro hIssued
  rcases mem_issued hIssued with ⟨_, _, _, hElsewhere⟩
  have hPath : (s.status h).savePath = config.dirMoved :=
    hSettled.2
  rw [hPath] at hElsewhere
  simp [pathEquals] at hElsewhere

end Storage

end Sheath

end Kedge

------------------------------------------------------------
-- Runs
------------------------------------------------------------

namespace Kedge

namespace Sheath

namespace Storage

variable {config : Config}

theorem askedRight_of_exec
    {s finish : Storage}
    {events : List StorageEvent}
    (hRight : AskedRight config s)
    (hExec :
      Run.exec (step config) s events = some finish) :
    AskedRight config finish :=
  Run.invariant
    (fun _ _ _ hMid hStep => askedRight_step hMid hStep)
    hRight hExec

/- The data are where they were, or in the directory. -/
theorem savePath_of_exec
    {s finish : Storage}
    {events : List StorageEvent}
    (hRight : AskedRight config s)
    (hExec :
      Run.exec (step config) s events = some finish)
    (h : Handle) :
    finish.savePath h = s.savePath h ∨
      finish.savePath h = config.dirMoved := by
  have hKeep :
      ∀ (mid : Storage) e next,
        AskedRight config mid ∧
            (mid.savePath h = s.savePath h ∨
              mid.savePath h = config.dirMoved) →
          mid.step config e = some next →
            AskedRight config next ∧
              (next.savePath h = s.savePath h ∨
                next.savePath h = config.dirMoved) := by
    rintro mid e next ⟨hMid, hPath⟩ hStep
    refine ⟨askedRight_step hMid hStep, ?_⟩
    rcases savePath_step hMid hStep h with hSame | hMoved
    · rw [hSame]
      exact hPath
    · exact Or.inr hMoved
  exact (Run.invariant hKeep ⟨hRight, Or.inl rfl⟩ hExec).2

/- No later step asks a settled torrent to move. -/
theorem meets_of_settled
    {s : Storage}
    {h : Handle}
    (hSettled : s.Settled config h)
    (events : List StorageEvent) :
    Run.Meets (step config)
      (fun mid e => ∀ dir, (h, dir) ∉ mid.issued config e)
      s events := by
  have hKeep :
      ∀ (mid : Storage) e later,
        True → mid.Settled config h →
          mid.step config e = some later →
            later.Settled config h :=
    fun _ _ _ _ hBoth hNext => settled_step hBoth hNext
  have hMeets :=
    Run.Meets.and_invariant hKeep hSettled
      (Run.meets_true s events)
  exact
    hMeets.mono fun _ e hBoth dir =>
      not_issued_of_settled hBoth.2 e dir

/-
  In every run, only torrents that have all their data, and
  some of them from this session, are asked to move, and
  only to the directory of moved torrents. The data of a
  torrent are where they were or in that directory, and
  once a move is completed its torrent stays there and is
  never asked to move again.
-/
theorem finished_torrents_moved_once
    (config : Config)
    (s finish : Storage)
    (events : List StorageEvent)
    (hNone : s.asked = [])
    (hExec :
      Run.exec (step config) s events = some finish) :
    Run.Meets (step config)
        (fun mid e =>
          ∀ h dir, (h, dir) ∈ mid.issued config e →
            dir = config.dirMoved ∧ config.dirMoved ≠ [] ∧
              (mid.status h).IsDownloaded)
        s events ∧
      (∀ h,
        finish.savePath h = s.savePath h ∨
          finish.savePath h = config.dirMoved) ∧
      ∀ before after i h dir moving next,
        events = before ++ .moved i :: after →
          Run.exec (step config) s before = some moving →
            moving.asked[i]? = some (h, dir) →
              moving.step config (.moved i) = some next →
                finish.savePath h = config.dirMoved ∧
                  Run.Meets (step config)
                    (fun mid e =>
                      ∀ dir, (h, dir) ∉ mid.issued config e)
                    next after := by
  have hRight : AskedRight config s := by
    intro move hIn
    rw [hNone] at hIn
    cases hIn
  refine ⟨?_, ?_, ?_⟩
  · refine Run.meets_of_forall (fun e _ mid => ?_) s
    intro h dir hIssued
    rcases mem_issued hIssued with ⟨hDir, hNamed, hDone, _⟩
    exact ⟨hDir, hNamed, hDone⟩
  · exact fun h => savePath_of_exec hRight hExec h
  · rintro before after i h dir moving next rfl hBefore hAsked
      hStep
    have hSettled :=
      settled_of_moved (askedRight_of_exec hRight hBefore)
        hAsked hStep
    rw [Run.exec_append, hBefore, Option.bind_some,
      Run.exec_cons, hStep, Option.bind_some] at hExec
    have hFinish : finish.Settled config h :=
      Run.invariant
        (fun _ _ _ hMid hNext => settled_step hMid hNext)
        hSettled hExec
    exact ⟨hFinish.2, meets_of_settled hSettled after⟩

/- A session in front of its first finished torrent. -/
def downloadedStorage : Storage where
  members := emptySystem.members
  status := fun h =>
    { handle := h
      savePath := "/store".toList
      progressPpm := percentDone
      totalPayloadDownload := 1 }
  asked := []

def movingConfig : Config :=
  { plainConfig with dirMoved := "/moved".toList }

/- What its handler is told, with the data at the path. -/
def downloadedQuery (path : Str) : Query where
  status :=
    { downloadedStorage.status firstTorrent with
      savePath := path }
  movedExists := true

/- It is finished, moved, and finished again. -/
def finishedTwice : List StorageEvent :=
  [.alert (.torrentFinished firstTorrent)
      (downloadedQuery "/store".toList),
    .moved 0,
    .alert (.torrentFinished firstTorrent)
      (downloadedQuery "/moved".toList)]

theorem finished_torrents_moved_once_one_torrent :
    ∃ finish,
      Run.exec (step movingConfig) downloadedStorage
          finishedTwice =
        some finish ∧
      finish.savePath firstTorrent = "/moved".toList := by
  have hRun :
      ∃ finish,
        Run.exec (step movingConfig) downloadedStorage
            finishedTwice =
          some finish :=
    ⟨_, rfl⟩
  rcases hRun with ⟨finish, hExec⟩
  have hOnce :=
    (finished_torrents_moved_once movingConfig
      downloadedStorage finish finishedTwice rfl hExec).2.2
      _ _ 0 firstTorrent "/moved".toList _ _
      (List.singleton_append).symm rfl rfl rfl
  exact ⟨finish, hExec, hOnce.1⟩

end Storage

end Sheath

end Kedge
