import Mathlib.Data.List.Perm.Basic
import Kedge.Sheath.System
import Kedge.Sync.EndToEnd

/-
  The table of torrents and the document made from it.

  `handle_alert` keeps a table of the torrents with their
  last status: a `state_update_alert` brings any number of
  statuses, a `torrent_removed_alert` takes one torrent out.
  `getSyncStats` lists the table in the unspecified order of
  an unordered map. The object of the session statistics,
  which stands beside the list, is given to it.

  Main declarations:
    * `Report`
    * `reportedSince`
    * `getSyncStats`
    * `lookup_applyReports`
    * `torrent_table_follows_alerts`
-/

------------------------------------------------------------
-- Reports about Torrents
------------------------------------------------------------

namespace Kedge

namespace Sheath

/- What an alert says about one torrent. -/
inductive Report where
  | status (st : TorrentStatus)
  | removed (h : Handle)
  deriving DecidableEq

/- What an alert reports, in order. -/
def Alert.reports : Alert → List Report
  | .stateUpdate status => status.map .status
  | .torrentRemoved h => [.removed h]
  | _ => []

/- The status that is reported for the torrent, if any. -/
def Report.statusOf
    (h : Handle) : Report → Option TorrentStatus
  | .status st => if st.handle = h then some st else none
  | .removed _ => none

/-
  The statuses reported for a torrent after its last
  removal, oldest first.
-/
def reportedSince
    (h : Handle)
    (reports : List Report) : List TorrentStatus :=
  (reports.reverse.takeWhile
    (· ≠ .removed h)).reverse.filterMap (Report.statusOf h)

/- Handle alerts one after the other. -/
def handleAlerts
    (config : Config)
    (m : Members)
    (alerts : List (Query × Alert)) : Members :=
  alerts.foldl
    (fun m alert =>
      (handleAlert config alert.1 m alert.2).members)
    m

/- The table after the alerts, empty at the start. -/
def tableAfter
    (config : Config)
    (values : SessionValues)
    (alerts : List (Query × Alert)) : TorrentTable :=
  (handleAlerts config ⟨0, values, ∅⟩ alerts).allHandles

/- What the alerts report, in order. -/
def reportsOf (alerts : List (Query × Alert)) : List Report :=
  alerts.flatMap (·.2.reports)

/-
  `sheath::getSyncStats` with the object of the session
  statistics and the entries in the order of the loop.
-/
def getSyncStats
    (stats : Json.Members)
    (entries : List (Σ _ : Handle, TorrentStatus)) :
    Json.Value :=
  .object
    [("stats".toList, .object stats),
      ("torrents".toList,
        .array (entries.map fun entry =>
          .object (torrentStatusToJsonObj entry.2)))]

end Sheath

end Kedge

------------------------------------------------------------
-- The Last Report Wins
------------------------------------------------------------

namespace Kedge

namespace Sheath

/- What a report does to the table. -/
def applyReport
    (table : TorrentTable) : Report → TorrentTable
  | .status st => setTorrent table st
  | .removed h => removeTorrentWithHandle table h

/- An alert changes the table by what it reports. -/
theorem allHandles_handleAlert
    (config : Config)
    (query : Query)
    (m : Members)
    (alert : Alert) :
    (handleAlert config query m alert).members.allHandles =
      alert.reports.foldl applyReport m.allHandles := by
  cases alert with
  | addTorrent h failed => cases failed <;> rfl
  | stateUpdate status =>
      change setAllTorrents m.allHandles status = _
      simp only [Alert.reports, List.foldl_map, applyReport]
      rfl
  | _ => rfl

theorem allHandles_handleAlerts
    (config : Config)
    (m : Members)
    (alerts : List (Query × Alert)) :
    (handleAlerts config m alerts).allHandles =
      (reportsOf alerts).foldl applyReport
        m.allHandles := by
  induction alerts generalizing m with
  | nil => rfl
  | cons alert alerts ih =>
      rw [reportsOf, List.flatMap_cons, List.foldl_append,
        ← allHandles_handleAlert config alert.1]
      exact ih _

theorem lookup_setTorrent_self
    (table : TorrentTable)
    (st : TorrentStatus) :
    (setTorrent table st).lookup st.handle = some st := by
  unfold setTorrent
  cases hFind : table.lookup st.handle with
  | none => exact AList.lookup_insert table
  | some old =>
      apply AList.lookup_replace_self
      rw [← AList.lookup_isSome, hFind]
      rfl

theorem lookup_setTorrent_ne
    (table : TorrentTable)
    {st : TorrentStatus}
    {h : Handle}
    (hOther : h ≠ st.handle) :
    (setTorrent table st).lookup h = table.lookup h := by
  unfold setTorrent
  split
  · exact AList.lookup_insert_ne hOther
  · exact AList.lookup_replace_ne hOther

theorem lookup_remove_self
    (table : TorrentTable)
    (h : Handle) :
    (removeTorrentWithHandle table h).lookup h = none := by
  unfold removeTorrentWithHandle
  split
  · next hAbsent => exact hAbsent
  · exact AList.lookup_erase h table

theorem lookup_remove_ne
    (table : TorrentTable)
    {h other : Handle}
    (hOther : other ≠ h) :
    (removeTorrentWithHandle table h).lookup other =
      table.lookup other := by
  unfold removeTorrentWithHandle
  split
  · rfl
  · exact AList.lookup_erase_ne hOther

theorem reportedSince_append_status
    (h : Handle)
    (reports : List Report)
    (st : TorrentStatus) :
    reportedSince h (reports ++ [.status st]) =
      reportedSince h reports ++
        if st.handle = h then [st] else [] := by
  by_cases hHandle : st.handle = h <;>
    simp [reportedSince, Report.statusOf, hHandle]

theorem reportedSince_append_removed
    (h other : Handle)
    (reports : List Report) :
    reportedSince h (reports ++ [.removed other]) =
      if other = h then [] else reportedSince h reports := by
  by_cases hOther : other = h <;>
    simp [reportedSince, Report.statusOf, hOther]

/- The table holds the last status since the last removal. -/
theorem lookup_applyReports
    (h : Handle)
    (reports : List Report) :
    (reports.foldl applyReport ∅).lookup h =
      (reportedSince h reports).getLast? := by
  induction reports using List.reverseRecOn with
  | nil => rfl
  | append_singleton reports report ih =>
      rw [List.foldl_append]
      cases report with
      | status st =>
          rw [reportedSince_append_status]
          by_cases hHandle : st.handle = h
          · subst hHandle
            rw [if_pos rfl, List.getLast?_concat]
            exact lookup_setTorrent_self _ st
          · rw [if_neg hHandle, List.append_nil, ← ih]
            exact lookup_setTorrent_ne _ (Ne.symm hHandle)
      | removed other =>
          rw [reportedSince_append_removed]
          by_cases hOther : other = h
          · subst hOther
            rw [if_pos rfl]
            exact lookup_remove_self _ other
          · rw [if_neg hOther, ← ih]
            exact lookup_remove_ne _ (Ne.symm hOther)

end Sheath

end Kedge

------------------------------------------------------------
-- Keys of the Document
------------------------------------------------------------

namespace Kedge

namespace Sheath

open Json

variable {P : List Str → Prop}

/- The members of a status are numbers, texts and flags. -/
theorem keysSatisfy_torrentStatusToJsonObj
    {st : TorrentStatus}
    (hKeys : P (keys (torrentStatusToJsonObj st))) :
    Value.KeysSatisfy P
      (.object (torrentStatusToJsonObj st)) := by
  apply (Value.keysSatisfy_object_iff _).mpr
  refine ⟨hKeys, ?_⟩
  apply forall_values_emplaceAll
  · simp [statusMembers, jsonInt, Value.KeysSatisfy]
  · simp [statusExtras, positive64, positive32, nonzero64,
      timePoint, flagged, jsonInt, Value.KeysSatisfy]

theorem nodup_keys_torrentStatusToJsonObj
    (st : TorrentStatus) :
    (keys (torrentStatusToJsonObj st)).Nodup := by
  apply keys_emplaceAll_nodup
  simp [statusMembers]

theorem plain_keys_torrentStatusToJsonObj
    (st : TorrentStatus) :
    ∀ key ∈ keys (torrentStatusToJsonObj st),
      Value.PlainKey key := by
  apply forall_keys_emplaceAll
  · simp [statusMembers, Value.PlainKey]
  · simp [statusExtras, positive64, positive32, nonzero64,
      timePoint, flagged, Value.PlainKey]

theorem keysSatisfy_getSyncStats
    {stats : Json.Members}
    {entries : List (Σ _ : Handle, TorrentStatus)}
    (hOuter : P ["stats".toList, "torrents".toList])
    (hStats : Value.KeysSatisfy P (.object stats))
    (hTorrents :
      ∀ st, P (keys (torrentStatusToJsonObj st))) :
    Value.KeysSatisfy P (getSyncStats stats entries) := by
  apply (Value.keysSatisfy_object_iff _).mpr
  refine ⟨hOuter, ?_⟩
  intro m hM
  simp only [List.mem_cons, List.not_mem_nil,
    or_false] at hM
  rcases hM with rfl | rfl
  · exact hStats
  · apply (Value.keysSatisfy_array_iff _).mpr
    intro element hElement
    rcases List.mem_map.mp hElement with ⟨entry, _, rfl⟩
    exact keysSatisfy_torrentStatusToJsonObj
      (hTorrents entry.2)

/-
  The documents that are synchronized have distinct keys
  without the characters that JSON pointers escape, if the
  session statistics do: what the sync protocol asks of the
  documents it sends.
-/
theorem wellFormed_getSyncStats
    {stats : Json.Members}
    (hStats : Sync.WellFormed (.object stats))
    (entries : List (Σ _ : Handle, TorrentStatus)) :
    Sync.WellFormed (getSyncStats stats entries) := by
  constructor
  · exact keysSatisfy_getSyncStats (by simp) hStats.1
      nodup_keys_torrentStatusToJsonObj
  · exact keysSatisfy_getSyncStats
      (by simp [Value.PlainKey]) hStats.2
      plain_keys_torrentStatusToJsonObj

end Sheath

end Kedge

------------------------------------------------------------
-- The Table Follows the Alerts
------------------------------------------------------------

namespace Kedge

namespace Sheath

/-
  After any alerts the table maps every torrent to the last
  status reported for it since it was last removed, and to
  nothing when there is none; the array of torrents has one
  element for each torrent with such a status, made from it,
  in whatever order the table is listed.
-/
theorem torrent_table_follows_alerts
    (config : Config)
    (values : SessionValues)
    (alerts : List (Query × Alert)) :
    (∀ h,
      (tableAfter config values alerts).lookup h =
        (reportedSince h (reportsOf alerts)).getLast?) ∧
    ∀ stats order,
      order.Perm (tableAfter config values alerts).entries →
      ∃ handles elements,
        getSyncStats stats order =
          .object
            [("stats".toList, .object stats),
              ("torrents".toList, .array elements)] ∧
        handles.Nodup ∧
        (∀ h,
          h ∈ handles ↔
            reportedSince h (reportsOf alerts) ≠ []) ∧
        List.Forall₂
          (fun h element =>
            ∃ st,
              (reportedSince h (reportsOf alerts)).getLast? =
                  some st ∧
                element =
                  .object (torrentStatusToJsonObj st))
          handles elements := by
  have hLookup :
      ∀ h,
        (tableAfter config values alerts).lookup h =
          (reportedSince h (reportsOf alerts)).getLast? := by
    intro h
    rw [tableAfter, allHandles_handleAlerts]
    exact lookup_applyReports h _
  refine ⟨hLookup, ?_⟩
  intro stats order hOrder
  have hEntry :
      ∀ entry : Σ _ : Handle, TorrentStatus,
        entry ∈ order ↔
          (reportedSince entry.1
            (reportsOf alerts)).getLast? =
            some entry.2 := by
    intro entry
    rw [hOrder.mem_iff, ← hLookup]
    exact AList.mem_lookup_iff.symm
  refine ⟨order.map Sigma.fst, _, rfl, ?_, ?_, ?_⟩
  · exact (hOrder.map Sigma.fst).nodup_iff.mpr
      (AList.keys_nodup _)
  · intro h
    constructor
    · intro hIn
      rcases List.mem_map.mp hIn with ⟨entry, hMem, rfl⟩
      have hLast := (hEntry entry).mp hMem
      intro hNone
      rw [hNone] at hLast
      cases hLast
    · intro hSome
      have hLast := List.getLast?_eq_some_getLast hSome
      have hMem := (hEntry ⟨h, _⟩).mpr hLast
      exact List.mem_map_of_mem hMem
  · rw [List.forall₂_map_left_iff,
      List.forall₂_map_right_iff, List.forall₂_same]
    intro entry hMem
    exact ⟨entry.2, (hEntry entry).mp hMem, rfl⟩

/- A torrent is reported twice, removed and reported. -/
def renames : List (Query × Alert) :=
  [(plainQuery,
      .stateUpdate
        [{ handle := firstTorrent, name := ['a'] },
          { handle := firstTorrent, name := ['b'] }]),
    (plainQuery, .torrentRemoved firstTorrent),
    (plainQuery,
      .stateUpdate
        [{ handle := firstTorrent, name := ['c'] }])]

theorem torrent_table_follows_alerts_renames :
    (tableAfter plainConfig ⟨[], [], 0, 0⟩ renames).lookup
        firstTorrent =
      some { handle := firstTorrent, name := ['c'] } ∧
    ∃ (handles : List Handle) (elements : List Json.Value),
      getSyncStats []
          (tableAfter plainConfig ⟨[], [], 0, 0⟩
            renames).entries =
        .object
          [("stats".toList, .object []),
            ("torrents".toList, .array elements)] ∧
      handles.Nodup ∧ firstTorrent ∈ handles ∧
      handles.length = elements.length := by
  rcases torrent_table_follows_alerts plainConfig
      ⟨[], [], 0, 0⟩ renames with ⟨hLookup, hDocument⟩
  rcases hDocument [] _ (List.Perm.refl _) with
    ⟨handles, elements, hStats, hNodup, hMember, hEach⟩
  refine ⟨?_, handles, elements, hStats, hNodup, ?_, ?_⟩
  · rw [hLookup]
    decide
  · exact (hMember firstTorrent).mpr (by decide)
  · exact hEach.length_eq

end Sheath

end Kedge
