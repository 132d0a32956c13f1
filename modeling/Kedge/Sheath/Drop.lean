import Kedge.Sheath.System

/-
  The resume file of a dropped torrent.

  `drop_torrent` deletes the resume file, then removes the
  torrent, also when the deletion has failed. The file comes
  back when resume data that were saved before are handled
  after the deletion: they may wait in the alert queue, or
  `libtorrent` may answer a request while the call is still
  running. With the file deleted and without such answers it
  stays away until the torrent is added again.

  Main declarations:
    * `System.Dropping`
    * `System.KeepsAway`
    * `System.Gone`
    * `System.gone_step`
    * `System.dropped_stays_gone`
-/

------------------------------------------------------------
-- The Invariant
------------------------------------------------------------

namespace Kedge

namespace Sheath

namespace System

/-
  The resume file is meant to be gone: some thread was to
  delete it and is about to remove the torrent, or
  `drop_torrent` has returned true and the torrent was not
  added since.
-/
def Dropping (s : System) (ih : InfoHash) : Prop :=
  s.dropped ih = true ∨
    ∃ thread, (s.drops thread).deleted? = some ih

/- No resume data of the torrent wait to be saved. -/
def NothingToSave (s : System) (ih : InfoHash) : Prop :=
  ∀ alert ∈ s.alerts, ∀ params,
    alert.success? = some params → params.infoHash ≠ ih

/- The content of the resume file. -/
def resumeContent
    (config : Config)
    (s : System)
    (ih : InfoHash) : Option Bytes :=
  s.files (Posix.locate (resumeFile config.dirConf ih))

/-
  The steps that keep the file away: it can be deleted, or
  there is none, when no resume data of the torrent wait to
  be saved, and from then on no request to save the torrent
  is answered with resume data.
-/
def KeepsAway
    (config : Config)
    (s : System) : Action → Prop
  | .answer i (.saved _) =>
      ∀ handle, s.outstanding[i]? = some handle →
        ¬ s.Dropping handle.infoHash
  | .dropDelete _ ih _ removal =>
      s.NothingToSave ih ∧
        (removal = .allowed ∨
          s.resumeContent config ih = none)
  | _ => True

/- While a torrent is dropped its file is gone for good. -/
def Gone
    (config : Config)
    (s : System)
    (ih : InfoHash) : Prop :=
  s.Dropping ih →
    s.NothingToSave ih ∧ s.resumeContent config ih = none

theorem gone_init
    (config : Config)
    (values : SessionValues)
    (files : FileSystem)
    (ih : InfoHash) :
    (init values files).Gone config ih := by
  rintro (hDropped | ⟨thread, hDrop⟩)
  · cases hDropped
  · cases hDrop

end System

end Sheath

end Kedge

------------------------------------------------------------
-- Every Step Keeps the File Away
------------------------------------------------------------

namespace Kedge

namespace Sheath

namespace System

variable {config : Config}
variable {s : System}
variable {ih : InfoHash}

/- A step that drops nothing and brings no resume data. -/
theorem Gone.of_quiet
    {next : System}
    (hGone : s.Gone config ih)
    (hDropping : next.Dropping ih → s.Dropping ih)
    (hAlerts :
      s.Dropping ih → ∀ alert ∈ next.alerts,
        alert ∈ s.alerts ∨
          ∀ params, alert.success? = some params →
            params.infoHash ≠ ih)
    (hFiles :
      s.Dropping ih → s.NothingToSave ih →
        next.resumeContent config ih =
          s.resumeContent config ih) :
    next.Gone config ih := by
  intro hNext
  have hOld := hDropping hNext
  rcases hGone hOld with ⟨hNothing, hNone⟩
  refine ⟨?_, (hFiles hOld hNothing).trans hNone⟩
  intro alert hMember
  rcases hAlerts hOld alert hMember with hWaits | hOther
  · exact hNothing alert hWaits
  · exact hOther

/- The same for a step that keeps the waiting alerts. -/
theorem Gone.of_alerts
    {next : System}
    (hGone : s.Gone config ih)
    (hDropping : next.Dropping ih → s.Dropping ih)
    (hAlerts : next.alerts = s.alerts)
    (hFiles : next.files = s.files) :
    next.Gone config ih := by
  refine hGone.of_quiet hDropping ?_ ?_
  · intro _ alert hMember
    rw [hAlerts] at hMember
    exact Or.inl hMember
  · intro _ _
    unfold resumeContent
    rw [hFiles]

/- The new alert is no resume data of a dropped torrent. -/
theorem gone_answer
    {i : Nat}
    {handle : Handle}
    {reply : Answer}
    (hGone : s.Gone config ih)
    (hKeeps : s.KeepsAway config (.answer i reply))
    (hRequest : s.outstanding[i]? = some handle) :
    (s.answer i handle reply).Gone config ih := by
  refine hGone.of_quiet (fun hNext => hNext) ?_
    (fun _ _ => rfl)
  intro hDropping alert hMember
  have hSplit :
      alert ∈ s.alerts ∨ alert = reply.alert handle := by
    rw [alerts_answer, List.mem_append,
      List.mem_singleton] at hMember
    exact hMember
  rcases hSplit with hWaits | rfl
  · exact Or.inl hWaits
  · right
    intro params hSuccess
    cases reply with
    | saved fields =>
        cases hSuccess
        intro hHash
        change handle.infoHash = ih at hHash
        rw [← hHash] at hDropping
        exact hKeeps handle hRequest hDropping
    | failed error => cases hSuccess

/- Saving another torrent leaves the file alone. -/
theorem resumeContent_handle
    {alert : Alert}
    {rest : List Alert}
    (query : Query)
    (write : WriteOutcome)
    (hOther :
      ∀ params, alert.success? = some params →
        params.infoHash ≠ ih) :
    (s.handle config alert rest query write).resumeContent
        config ih =
      s.resumeContent config ih := by
  unfold resumeContent handle
  dsimp only
  rw [handleAlert_saved]
  cases hSuccess : alert.success? with
  | none => rfl
  | some params =>
      have hFile :
          Posix.locate (resumeFile config.dirConf ih) ≠
            Posix.locate
              (resumeFile config.dirConf
                params.infoHash) := by
        intro hSame
        exact hOther params hSuccess
          (locate_resumeFile_inj hSame).symm
      cases write with
      | openFailed => rfl
      | stored count => exact Function.update_of_ne hFile _ _

theorem gone_handle
    {alert : Alert}
    {rest : List Alert}
    (query : Query)
    (write : WriteOutcome)
    (hGone : s.Gone config ih)
    (hBatch : s.batch = some (alert :: rest)) :
    (s.handle config alert rest query write).Gone config
      ih := by
  have hAlerts :=
    alerts_handle config query write hBatch
  refine hGone.of_quiet (fun hNext => hNext) ?_ ?_
  · intro _ waiting hMember
    rw [hAlerts]
    exact Or.inl (List.mem_cons_of_mem alert hMember)
  · intro _ hNothing
    apply resumeContent_handle
    apply hNothing
    rw [hAlerts]
    exact List.mem_cons_self

/- The deletion of another file leaves this one alone. -/
theorem resumeContent_dropDelete
    {other : InfoHash}
    (config : Config)
    (s : System)
    (thread : Nat)
    (withData : Bool)
    (removal : RemoveOutcome)
    (hOther : other ≠ ih) :
    (s.dropDelete config thread other withData
        removal).resumeContent config ih =
      s.resumeContent config ih := by
  have hFile :
      Posix.locate (resumeFile config.dirConf ih) ≠
        Posix.locate (resumeFile config.dirConf other) :=
    fun hEq => hOther (locate_resumeFile_inj hEq).symm
  cases removal with
  | allowed => exact Function.update_of_ne hFile _ _
  | refused => rfl

/- The deletion is where a torrent starts to be dropped. -/
theorem gone_dropDelete
    {thread : Nat}
    {other : InfoHash}
    {withData : Bool}
    {removal : RemoveOutcome}
    (hGone : s.Gone config ih)
    (hKeeps :
      s.KeepsAway config
        (.dropDelete thread other withData removal)) :
    (s.dropDelete config thread other withData
      removal).Gone config ih := by
  intro hNext
  by_cases hSame : ih = other
  · subst hSame
    refine ⟨hKeeps.1, ?_⟩
    cases removal with
    | allowed => exact Function.update_self _ _ _
    | refused => exact hKeeps.2.resolve_left (by simp)
  · have hOld : s.Dropping ih := by
      rcases hNext with hDropped | ⟨other', hDrop⟩
      · exact Or.inl hDropped
      · refine Or.inr ⟨other', ?_⟩
        by_cases hThread : other' = thread
        · subst hThread
          have hHash : other = ih := by
            simpa [dropDelete, Drop.deleted?] using hDrop
          exact absurd hHash.symm hSame
        · simpa [dropDelete, hThread] using hDrop
    rcases hGone hOld with ⟨hNothing, hNone⟩
    refine ⟨hNothing, ?_⟩
    rw [resumeContent_dropDelete config s thread withData
      removal (Ne.symm hSame)]
    exact hNone

/- A thread moves on without deleting another file. -/
theorem dropping_of_update
    {thread : Nat}
    {drop : Drop}
    (hDrop :
      drop.deleted? = some ih →
        (s.drops thread).deleted? = some ih)
    (hNext :
      ∃ other,
        (Function.update s.drops thread drop
          other).deleted? = some ih) :
    ∃ other, (s.drops other).deleted? = some ih := by
  rcases hNext with ⟨other, hOther⟩
  by_cases hThread : other = thread
  · subst hThread
    rw [Function.update_self] at hOther
    exact ⟨other, hDrop hOther⟩
  · rw [Function.update_of_ne hThread] at hOther
    exact ⟨other, hOther⟩

theorem gone_step
    {next : System}
    {action : Action}
    (hKeeps : s.KeepsAway config action)
    (hGone : s.Gone config ih)
    (hStep : s.step config action = some next) :
    next.Gone config ih := by
  cases next_of_step hStep with
  | @add added =>
      refine hGone.of_alerts ?_ (by rfl) (by rfl)
      rintro (hDropped | hRunning)
      · left
        by_cases hSame : ih = added
        · simp [add, hSame] at hDropped
        · simpa [add, hSame] using hDropped
      · exact Or.inr hRunning
  | @post alert hAlert =>
      refine hGone.of_quiet (fun hNext => hNext) ?_
        (fun _ _ => rfl)
      intro _ waiting hMember
      have hSplit :
          waiting ∈ s.alerts ∨ waiting = alert := by
        rw [alerts_post, List.mem_append,
          List.mem_singleton] at hMember
        exact hMember
      rcases hSplit with hWaits | rfl
      · exact Or.inl hWaits
      · right
        intro params hSuccess
        rw [isAnswer_of_success hSuccess] at hAlert
        cases hAlert
  | answer hRequest => exact gone_answer hGone hKeeps hRequest
  | handle hBatch => exact gone_handle _ _ hGone hBatch
  | pop _ hBatch | waitAlert _ hBatch =>
      exact hGone.of_alerts (fun hNext => hNext)
        (alerts_popAlerts hBatch) (by rfl)
  | popDone hBatch =>
      exact hGone.of_alerts (fun hNext => hNext)
        (alerts_popDone hBatch) (by rfl)
  | saveNext _ hBatch =>
      unfold saveNext
      dsimp only
      split
      · exact hGone.of_alerts (fun hNext => hNext)
          (alerts_popAlerts hBatch) (by rfl)
      · exact hGone.of_alerts (fun hNext => hNext) (by rfl)
          (by rfl)
  | dropDelete _ => exact gone_dropDelete hGone hKeeps
  | dropFound hDrop hHash =>
      refine hGone.of_alerts ?_ (by rfl) (by rfl)
      rintro (hDropped | hRunning)
      · exact Or.inl hDropped
      · refine Or.inr (dropping_of_update ?_ hRunning)
        intro hFound
        rw [hDrop]
        simpa [Drop.deleted?, hHash] using hFound
  | dropMissed hDrop =>
      refine hGone.of_alerts ?_ (by rfl) (by rfl)
      rintro (hDropped | hRunning)
      · exact Or.inl hDropped
      · refine Or.inr (dropping_of_update ?_ hRunning)
        intro hIdle
        cases hIdle
  | @dropRemove thread handle withData hDrop =>
      refine hGone.of_alerts ?_ (by rfl) (by rfl)
      rintro (hDropped | hRunning)
      · by_cases hSame : ih = handle.infoHash
        · refine Or.inr ⟨thread, ?_⟩
          rw [hDrop, hSame]
          rfl
        · left
          simpa [dropRemove, hSame] using hDropped
      · refine Or.inr (dropping_of_update ?_ hRunning)
        intro hIdle
        cases hIdle
  | waitTimeout => exact hGone
  | _ =>
      exact hGone.of_alerts (fun hNext => hNext) (by rfl)
        (by rfl)

end System

end Sheath

end Kedge

------------------------------------------------------------
-- A Dropped Torrent Stays Gone
------------------------------------------------------------

namespace Kedge

namespace Sheath

namespace System

/-
  In every run in which resume files are deleted and no save
  is late, a torrent for which `drop_torrent` has returned
  true and that was not added again has no resume file.
-/
theorem dropped_stays_gone
    (config : Config)
    (values : SessionValues)
    (files : FileSystem)
    (actions : List Action)
    (s : System)
    (hMeets :
      Run.Meets (step config) (KeepsAway config)
        (init values files) actions)
    (hExec :
      Run.exec (step config) (init values files) actions =
        some s)
    (ih : InfoHash)
    (hDropped : s.dropped ih = true) :
    s.resumeContent config ih = none := by
  have hKeep :
      ∀ s action next,
        KeepsAway config s action → s.Gone config ih →
          s.step config action = some next →
            next.Gone config ih :=
    fun _ _ _ hKeeps hGone hStep =>
      gone_step hKeeps hGone hStep
  have hGone :=
    Run.invariant_of_meets hKeep
      (gone_init config values files ih) hMeets hExec
  exact (hGone (Or.inl hDropped)).2

/- The torrent was saved, and is dropped afterwards. -/
def saveThenDrop : List Action :=
  [.add zeroHash, .post (.addTorrent firstTorrent false),
    .pop, .handle plainQuery (.stored 0), .popDone,
    .answer 0 (.saved [1]), .pop,
    .handle plainQuery (.stored 1), .popDone,
    .dropDelete 1 zeroHash false .allowed, .dropFind 1,
    .dropRemove 1]

theorem dropped_stays_gone_after_save :
    ∃ s,
      Run.exec (step plainConfig) emptySystem saveThenDrop =
        some s ∧
      s.dropped zeroHash = true ∧
      s.resumeContent plainConfig zeroHash = none := by
  have hMeets :
      Run.Meets (step plainConfig) (KeepsAway plainConfig)
        emptySystem saveThenDrop := by
    iterate 5
      refine ⟨trivial, ?_⟩
      rintro _ ⟨⟩
    refine ⟨?_, ?_⟩
    · rintro _ ⟨⟩ (hDropped | ⟨thread, hDrop⟩)
      · exact absurd hDropped (by decide)
      · cases hDrop
    rintro _ ⟨⟩
    iterate 3
      refine ⟨trivial, ?_⟩
      rintro _ ⟨⟩
    refine ⟨⟨?_, Or.inl rfl⟩, ?_⟩
    · intro alert hMember
      cases hMember
    rintro _ ⟨⟩
    iterate 2
      refine ⟨trivial, ?_⟩
      rintro _ ⟨⟩
    trivial
  refine ⟨_, rfl, rfl, ?_⟩
  exact
    dropped_stays_gone plainConfig ⟨[], [], 0, 0⟩
      (fun _ => none) saveThenDrop _ hMeets rfl zeroHash rfl

/-
  The resume data are in the alert queue when the file is
  deleted: after `drop_torrent` has returned true and every
  alert was handled, the file is there again.
-/
theorem dropped_comes_back :
    ∃ s,
      Run.exec (step plainConfig) emptySystem
          [.add zeroHash,
            .post (.addTorrent firstTorrent false), .pop,
            .handle plainQuery (.stored 0), .popDone,
            .answer 0 (.saved [1]),
            .dropDelete 1 zeroHash false .allowed,
            .dropFind 1, .dropRemove 1, .pop,
            .handle plainQuery (.stored 1), .popDone] =
        some s ∧
      s.dropped zeroHash = true ∧ s.outstanding = [] ∧
      s.alerts = [] ∧
      s.resumeContent plainConfig zeroHash = some [1] := by
  refine ⟨_, rfl, rfl, rfl, rfl, ?_⟩
  decide

end System

end Sheath

end Kedge
