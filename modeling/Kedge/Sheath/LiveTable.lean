import Kedge.Sheath.LiveSync

/-
  What the web clients list, in terms of the alerts.

  A pass with connected clients brings them the table as it
  is then: every torrent that was reported and not removed
  since, with the last status reported. Until the next pass
  they keep it, and so do the clients that join meanwhile,
  whatever alerts are handled. Joins, leaves and passes take
  place one at a time, and no client sends text frames.

  Key definitions include:
    * `LiveAction.alert?`
    * `ListsReported`

  Main theorems include:
    * `listsReported_of_perm`
    * `Live.clients_list_reported_torrents`
-/

------------------------------------------------------------
-- Listed Torrents
------------------------------------------------------------

namespace Kedge

namespace Sheath

/- The entries are the last statuses reported. -/
structure ListsReported
    (reports : List Report)
    (entries : List (Σ _ : Handle, TorrentStatus)) :
    Prop where
  once : (entries.map Sigma.fst).Nodup
  last :
    ∀ h st,
      ⟨h, st⟩ ∈ entries ↔
        (reportedSince h reports).getLast? = some st

/- The table is listed in any order. -/
theorem listsReported_of_perm
    (config : Config)
    (values : SessionValues)
    (alerts : List (Query × Alert))
    {entries : List (Σ _ : Handle, TorrentStatus)}
    (hPerm :
      entries.Perm
        (tableAfter config values alerts).entries) :
    ListsReported (reportsOf alerts) entries where
  once :=
    (hPerm.map Sigma.fst).nodup_iff.mpr (AList.keys_nodup _)
  last := by
    intro h st
    have hLookup :
        (tableAfter config values alerts).lookup h =
          (reportedSince h (reportsOf alerts)).getLast? := by
      rw [tableAfter, allHandles_handleAlerts]
      exact lookup_applyReports h (reportsOf alerts)
    rw [hPerm.mem_iff, ← hLookup]
    exact AList.mem_lookup_iff.symm

/- The alert that a step handles, with what it learns. -/
def LiveAction.alert? : LiveAction → Option (Query × Alert)
  | .alert query handled => some (query, handled)
  | _ => none

def LiveAction.isPass : LiveAction → Bool
  | .pass _ _ => true
  | _ => false

end Sheath

end Kedge

------------------------------------------------------------
-- Alerts and Passes
------------------------------------------------------------

namespace Kedge

namespace Sheath

namespace Live

open Sync (jsonFormat SessionId)

variable {config : Config}
variable {idx : Metrics ℤ}
variable {rate : Int64 → UInt64 → Int32}
variable {s next : Live}

theorem members_of_call
    {action : Sync.SerialAction Json.Value}
    (hStep : s.call action = some next) :
    next.members = s.members := by
  rcases Option.map_eq_some_iff.mp hStep with
    ⟨caller, _, rfl⟩
  rfl

/- Only alerts change the members of the sheath. -/
theorem members_of_step
    {action : LiveAction}
    (hStep : s.step config idx rate action = some next) :
    next.members =
      handleAlerts config s.members action.alert?.toList := by
  cases action with
  | alert query alert =>
      cases hStep
      rfl
  | join session qid random reading =>
      simp only [step] at hStep
      split at hStep
      · rcases Option.bind_eq_some_iff.mp hStep with
          ⟨stats, _, hJoin⟩
        exact members_of_call hJoin
      · exact members_of_call hStep
  | leave session => exact members_of_call hStep
  | pass reading order =>
      simp only [step] at hStep
      split at hStep
      · cases hStep
        rfl
      · rcases Option.bind_eq_some_iff.mp hStep with
          ⟨stats, _, hPass⟩
        exact members_of_call hPass

theorem members_of_exec
    {values : SessionValues}
    {actions : List LiveAction}
    (hExec :
      Run.exec (step config idx rate) (init values) actions =
        some s) :
    s.members =
      handleAlerts config ⟨0, values, ∅⟩
        (actions.filterMap LiveAction.alert?) := by
  have hKeep :
      ∀ (past : List LiveAction) (s : Live) action next,
        s.members =
            handleAlerts config ⟨0, values, ∅⟩
              (past.filterMap LiveAction.alert?) →
          s.step config idx rate action = some next →
            next.members =
              handleAlerts config ⟨0, values, ∅⟩
                ((past ++ [action]).filterMap
                  LiveAction.alert?) := by
    intro past s action next hPast hStep
    rw [members_of_step hStep, hPast, List.filterMap_append]
    unfold handleAlerts
    rw [List.foldl_append]
    cases action <;> rfl
  exact Run.invariant_of_past hKeep rfl hExec

/- A pass sends the table as it is. -/
theorem currStats_of_pass
    {reading : Reading}
    {order : List SessionId}
    (hFollowing : s.Following)
    (hSessions : s.caller.sessions ≠ [])
    (hStep :
      s.step config idx rate (.pass reading order) =
        some next) :
    ∃ stats entries,
      next.caller.currStats =
          getSyncStats (toJsonObject stats) entries ∧
        entries.Perm s.members.allHandles.entries := by
  simp only [step, if_neg hSessions] at hStep
  rcases Option.bind_eq_some_iff.mp hStep with
    ⟨document, hDocument, hPass⟩
  rcases Option.map_eq_some_iff.mp hPass with
    ⟨caller, hCaller, rfl⟩
  rcases Option.ite_none_right_eq_some.mp hDocument with
    ⟨hPerm, hSync⟩
  rcases Option.map_eq_some_iff.mp hSync with
    ⟨stats, _, rfl⟩
  rcases Sync.Caller.serialStep_pass hFollowing.atRest
      hFollowing.tracked hSessions hCaller with
    ⟨_, hCurr, _, _⟩
  exact
    ⟨stats, reading.entries, hCurr, List.isPerm_iff.mp hPerm⟩

/- Without a pass the current document stays. -/
theorem currStats_of_step
    {action : LiveAction}
    (hSome : jsonFormat.isNull s.caller.currStats = false)
    (hNoPass : action.isPass = false)
    (hStep : s.step config idx rate action = some next) :
    next.caller.currStats = s.caller.currStats := by
  cases action with
  | alert query alert =>
      cases hStep
      rfl
  | join session qid random reading =>
      simp only [step, hSome, Bool.false_eq_true,
        if_false] at hStep
      rcases Option.map_eq_some_iff.mp hStep with
        ⟨caller, hCaller, rfl⟩
      rcases Option.ite_none_right_eq_some.mp hCaller with
        ⟨_, hNext⟩
      cases hNext
      change Sync.Caller.statsForJoin _ _ _ = _
      simp [Sync.Caller.statsForJoin, hSome]
  | leave session =>
      rcases Option.map_eq_some_iff.mp hStep with
        ⟨caller, hCaller, rfl⟩
      rcases Option.ite_none_right_eq_some.mp hCaller with
        ⟨_, hNext⟩
      cases hNext
      rfl
  | pass reading order => cases hNoPass

end Live

end Sheath

end Kedge

------------------------------------------------------------
-- Clients
------------------------------------------------------------

namespace Kedge

namespace Sheath

namespace Live

open Sync (jsonFormat SessionId)

/-
  With joins, leaves and passes one at a time and without
  text frames of clients: after a pass with connected
  clients, and until the next one, every connected client
  shows the torrents that the alerts before the pass have
  reported and not removed since, once each and with the
  last status reported.
-/
theorem clients_list_reported_torrents
    (config : Config)
    (idx : Metrics ℤ)
    (rate : Int64 → UInt64 → Int32)
    (values : SessionValues)
    (past later : List LiveAction)
    (reading : Reading)
    (order : List SessionId)
    (s finish : Live)
    (hPast :
      Run.exec (step config idx rate) (init values) past =
        some s)
    (hSessions : s.caller.sessions ≠ [])
    (hLater : ∀ action ∈ later, action.isPass = false)
    (hExec :
      Run.exec (step config idx rate) (init values)
          (past ++ .pass reading order :: later) =
        some finish)
    (hGrows :
      Run.Meets (step config idx rate) GrowsByOne
        (init values)
        (past ++ .pass reading order :: later)) :
    ∀ w ∈ finish.caller.sessions,
      ∃ document stats entries,
        Sync.clientDocument
            ((finish.caller.onSend w).map
              Sync.Message.toJson) =
          some document ∧
        document.equals
            (getSyncStats (toJsonObject stats) entries) =
          true ∧
        ListsReported
          (reportsOf (past.filterMap LiveAction.alert?))
          entries := by
  have hMeets := Run.Meets.of_append hGrows hPast
  have hFollowing : s.Following :=
    Run.invariant_of_meets
      (fun _ _ _ hGrow hBoth hNext =>
        following_step hGrow hBoth hNext)
      (following_init values) hMeets.1 hPast
  rw [Run.exec_append, hPast, Option.bind_some] at hExec
  rcases Option.bind_eq_some_iff.mp hExec with
    ⟨next, hPass, hRest⟩
  rcases currStats_of_pass hFollowing hSessions hPass with
    ⟨stats, entries, hCurr, hPerm⟩
  -- The current document is the one of the pass to the end.
  have hKeep :
      ∀ (mid : Live) action after,
        action.isPass = false →
          mid.caller.currStats = next.caller.currStats →
            mid.step config idx rate action = some after →
              after.caller.currStats =
                next.caller.currStats := by
    intro mid action after hNoPass hSame hStep
    have hSome :
        jsonFormat.isNull mid.caller.currStats = false := by
      rw [hSame, hCurr]
      rfl
    exact
      (currStats_of_step hSome hNoPass hStep).trans hSame
  have hFinish :
      finish.caller.currStats = next.caller.currStats :=
    Run.invariant_of_meets hKeep rfl
      (Run.meets_of_forall
        (fun action hIn _ => hLater action hIn) next)
      hRest
  have hUpToDate : finish.UpToDate :=
    Following.upToDate
      (Run.invariant_of_meets
        (fun _ _ _ hGrow hBoth hNext =>
          following_step hGrow hBoth hNext)
        hFollowing hMeets.2 hExec)
  intro w hMember
  rcases hUpToDate w hMember with
    ⟨document, hDocument, hEquals⟩
  rw [hFinish, hCurr] at hEquals
  refine ⟨document, stats, entries, hDocument, hEquals, ?_⟩
  rw [members_of_exec hPast] at hPerm
  exact
    listsReported_of_perm config values
      (past.filterMap LiveAction.alert?) hPerm

/- A client joins, and a torrent is reported. -/
def oneReported : List LiveAction :=
  [.join 1 [] 1000 (readingOf []),
    .alert plainQuery
      (.stateUpdate [{ handle := firstTorrent }])]

def oneReportedReading : Reading :=
  readingOf [⟨firstTorrent, { handle := firstTorrent }⟩]

/- A pass, and the torrent is removed behind it. -/
theorem clients_list_reported_torrents_until_removed :
    ∃ finish,
      Run.exec (step plainConfig rowOfMetrics (fun _ _ => 0))
          (init ⟨[], [], 0, 0⟩)
          (oneReported ++
            [.pass oneReportedReading [1],
              .alert plainQuery
                (.torrentRemoved firstTorrent)]) =
        some finish ∧
      ∃ document stats entries,
        Sync.clientDocument
            ((finish.caller.onSend 1).map
              Sync.Message.toJson) =
          some document ∧
        document.equals
            (getSyncStats (toJsonObject stats) entries) =
          true ∧
        ⟨firstTorrent, { handle := firstTorrent }⟩ ∈
          entries := by
  have hRun :
      ∃ s finish,
        Run.exec
            (step plainConfig rowOfMetrics (fun _ _ => 0))
            (init ⟨[], [], 0, 0⟩) oneReported =
          some s ∧
        s.caller.sessions = [1] ∧
        Run.exec
            (step plainConfig rowOfMetrics (fun _ _ => 0))
            (init ⟨[], [], 0, 0⟩)
            (oneReported ++
              [.pass oneReportedReading [1],
                .alert plainQuery
                  (.torrentRemoved firstTorrent)]) =
          some finish ∧
        finish.caller.sessions = [1] :=
    ⟨_, _, rfl, rfl, rfl, rfl⟩
  rcases hRun with
    ⟨s, finish, hPast, hSessions, hExec, hListed⟩
  have hClients :=
    clients_list_reported_torrents plainConfig rowOfMetrics
      (fun _ _ => 0) ⟨[], [], 0, 0⟩ oneReported
      [.alert plainQuery (.torrentRemoved firstTorrent)]
      oneReportedReading [1] s finish hPast
      (by rw [hSessions]; exact List.cons_ne_nil 1 [])
      (by simp [LiveAction.isPass]) hExec
      (by
        refine ⟨trivial, ?_⟩
        rintro _ ⟨⟩
        refine ⟨trivial, ?_⟩
        rintro _ ⟨⟩
        refine ⟨fun _ _ => Nat.le_refl 1, ?_⟩
        exact fun _ _ => ⟨trivial, fun _ _ => trivial⟩)
      1 (by rw [hListed]; exact List.mem_singleton_self 1)
  rcases hClients with
    ⟨document, stats, entries, hDocument, hEquals, hReported⟩
  refine
    ⟨finish, hExec, document, stats, entries, hDocument,
      hEquals, ?_⟩
  exact (hReported.last firstTorrent _).mpr (by decide)

end Live

end Sheath

end Kedge
