import Kedge.Sheath.SessionStats
import Kedge.Sync.EndToEnd

/-
  The live view of the torrents in the web clients.

  The session thread keeps the table of torrents by the
  alerts it handles, and the thread of the caller sends the
  connected clients what has changed in it once a second.
  The two are put together here, with the operations of the
  caller run one at a time: no session joins or leaves while
  a pass runs, and no client sends text frames. The clients
  show the table as it was at the last pass as long as no
  pass finds two torrents more than the one before, and only
  so long: the difference leaves out every second new
  element.

  Key definitions include:
    * `Live`
    * `LiveAction`
    * `Live.step`
    * `Live.UpToDate`
    * `Live.GrowsByOne`

  Main theorems include:
    * `growsByAtMostOne_getSyncStats_iff`
    * `Live.upToDate_iff`
    * `Live.clients_up_to_date_iff`
-/

------------------------------------------------------------
-- The Session Thread and the Caller
------------------------------------------------------------

namespace Kedge

namespace Sheath

open Sync (jsonFormat SessionId)

/- The members of the sheath and the state of the caller. -/
structure Live where
  members : Members
  caller : Sync.Caller Json.Value (List Json.Value)

/-
  What `getSyncStats` reads besides the members: the clock,
  uninitialised memory, and the order in which the unordered
  table is listed.
-/
structure Reading where
  clock : Clock
  memory : SessionStats
  entries : List (Σ _ : Handle, TorrentStatus)

/-
  The session thread handles an alert, a client joins or
  leaves, or the caller makes a pass.
-/
inductive LiveAction where
  | alert (query : Query) (alert : Alert)
  | join (session : SessionId) (qid : Str) (random : Nat)
      (reading : Reading)
  | leave (session : SessionId)
  | pass (reading : Reading) (order : List SessionId)

namespace Live

def init (values : SessionValues) : Live where
  members := ⟨0, values, ∅⟩
  caller := Sync.Caller.init jsonFormat

variable (config : Config)
variable (idx : Metrics ℤ)
variable (rate : Int64 → UInt64 → Int32)

/- `sheath::getSyncStats` over the members. -/
def syncStats
    (s : Live)
    (reading : Reading) : Option Json.Value :=
  if reading.entries.isPerm s.members.allHandles.entries then
    sheathSyncStats idx rate reading.clock s.members.svs
      reading.entries reading.memory
  else none

/- A step of the caller with the sheath left alone. -/
def call
    (s : Live)
    (action : Sync.SerialAction Json.Value) : Option Live :=
  (s.caller.serialStep jsonFormat action).map
    fun caller => { s with caller := caller }

/-
  `join` asks for a document only when there is none, and a
  pass only when there are sessions.
-/
def step (s : Live) : LiveAction → Option Live
  | .alert query alert =>
      some { s with
        members :=
          (handleAlert config query s.members
            alert).members }
  | .join session qid random reading =>
      if jsonFormat.isNull s.caller.currStats then
        (s.syncStats idx rate reading).bind fun stats =>
          s.call (.join session qid random stats)
      else
        s.call (.join session qid random s.caller.currStats)
  | .leave session => s.call (.leave session)
  | .pass reading order =>
      if s.caller.sessions = [] then some s
      else
        (s.syncStats idx rate reading).bind fun stats =>
          s.call (.pass stats order)

end Live

end Sheath

end Kedge

------------------------------------------------------------
-- Documents of the Table
------------------------------------------------------------

namespace Kedge

namespace Sheath

/- The number of torrents that a document lists. -/
def torrentsIn : Json.Value → Nat
  | .object members =>
      match Json.Value.find members "torrents".toList with
      | some (.array elements) => elements.length
      | _ => 0
  | _ => 0

@[simp] theorem torrentsIn_getSyncStats
    (stats : Json.Members)
    (entries : List (Σ _ : Handle, TorrentStatus)) :
    torrentsIn (getSyncStats stats entries) =
      entries.length := by
  simp [torrentsIn, getSyncStats, Json.Value.find]

theorem growsByAtMostOne_of_isScalar
    {value : Json.Value}
    (hScalar : value.IsScalar)
    (target : Json.Value) :
    growsByAtMostOne value target = true := by
  rcases hScalar with ⟨hArray, hObject⟩
  cases value with
  | array src => exact absurd rfl hArray
  | object src => exact absurd rfl hObject
  | _ => simp [growsByAtMostOne]

/- Objects of numbers, texts and flags have no arrays. -/
theorem growsByAtMostOne_of_scalars
    {src : Json.Members}
    (hScalars : ∀ m ∈ src, m.2.IsScalar)
    (tgt : Json.Members) :
    growsByAtMostOne (.object src) (.object tgt) = true := by
  rw [growsByAtMostOne, membersGrowByAtMostOne_iff]
  intro m hM found _
  exact growsByAtMostOne_of_isScalar (hScalars m hM) found

theorem isScalar_torrentStatusToJsonObj
    (st : TorrentStatus) :
    ∀ m ∈ torrentStatusToJsonObj st, m.2.IsScalar := by
  apply Json.forall_values_emplaceAll
  · simp [statusMembers, jsonInt, Json.Value.IsScalar,
      Json.Value.kind]
  · simp [statusExtras, positive64, positive32, nonzero64,
      timePoint, flagged, jsonInt, Json.Value.IsScalar,
      Json.Value.kind]

theorem isScalar_toJsonObject
    (s : SessionStats) :
    ∀ m ∈ toJsonObject s, m.2.IsScalar := by
  apply Json.forall_values_emplaceAll
  · simp [Json.Value.IsScalar, Json.Value.kind]
  · simp [statsExtras, positive64, positive32,
      positiveUnsigned, flagged, jsonInt,
      Json.Value.IsScalar, Json.Value.kind]

/- Elements without arrays of their own. -/
theorem elementsGrowByAtMostOne_of_objects
    {src : List Json.Members}
    (hScalars :
      ∀ members ∈ src, ∀ m ∈ members, m.2.IsScalar)
    (tgt : List Json.Members) :
    elementsGrowByAtMostOne (src.map .object)
        (tgt.map .object) = true := by
  induction src generalizing tgt with
  | nil => simp [elementsGrowByAtMostOne]
  | cons x src ih =>
      cases tgt with
      | nil => simp [elementsGrowByAtMostOne]
      | cons y tgt =>
          have hHead :=
            growsByAtMostOne_of_scalars
              (hScalars x List.mem_cons_self) y
          have hTail :
              elementsGrowByAtMostOne (src.map .object)
                  (tgt.map .object) = true :=
            ih
              (fun members hMem =>
                hScalars members
                  (List.mem_cons_of_mem x hMem))
              tgt
          simp [elementsGrowByAtMostOne, hHead, hTail]

/-
  The only array of the document is the list of torrents:
  the difference of two documents is right exactly when the
  second lists at most one torrent more.
-/
theorem growsByAtMostOne_getSyncStats_iff
    (s t : SessionStats)
    (xs ys : List (Σ _ : Handle, TorrentStatus)) :
    growsByAtMostOne (getSyncStats (toJsonObject s) xs)
        (getSyncStats (toJsonObject t) ys) = true ↔
      ys.length ≤ xs.length + 1 := by
  have hStats :=
    growsByAtMostOne_of_scalars (isScalar_toJsonObject s)
      (toJsonObject t)
  rw [growsByAtMostOne] at hStats
  have hElements :
      elementsGrowByAtMostOne
          (xs.map fun entry =>
            .object (torrentStatusToJsonObj entry.2))
          (ys.map fun entry =>
            .object (torrentStatusToJsonObj entry.2)) =
        true := by
    have hScalars :
        ∀ members ∈
            xs.map fun entry => torrentStatusToJsonObj entry.2,
          ∀ m ∈ members, m.2.IsScalar := by
      intro members hMem
      rcases List.mem_map.mp hMem with ⟨entry, _, rfl⟩
      exact isScalar_torrentStatusToJsonObj entry.2
    have hObjects :=
      elementsGrowByAtMostOne_of_objects hScalars
        (ys.map fun entry => torrentStatusToJsonObj entry.2)
    rw [List.map_map, List.map_map] at hObjects
    exact hObjects
  simp [getSyncStats, growsByAtMostOne,
    membersGrowByAtMostOne, Json.Value.find, hStats,
    hElements]

theorem plain_keys_toJsonObject
    (s : SessionStats) :
    ∀ key ∈ Json.keys (toJsonObject s),
      Json.Value.PlainKey key := by
  apply Json.forall_keys_emplaceAll
  · simp [Json.Value.PlainKey]
  · simp [statsExtras, positive64, positive32,
      positiveUnsigned, flagged, Json.Value.PlainKey]

end Sheath

end Kedge

------------------------------------------------------------
-- Clients in Step with the Table
------------------------------------------------------------

namespace Kedge

namespace Sheath

namespace Live

open Sync (jsonFormat SessionId)

/- Every connected client shows the current document. -/
def UpToDate (s : Live) : Prop :=
  ∀ w ∈ s.caller.sessions,
    ∃ document,
      Sync.clientDocument
          ((s.caller.onSend w).map Sync.Message.toJson) =
        some document ∧
      document.equals s.caller.currStats = true

/-
  A pass with connected clients finds at most one torrent
  more than the document of the last pass lists.
-/
def GrowsByOne (s : Live) : LiveAction → Prop
  | .pass _ _ =>
      s.caller.sessions ≠ [] → s.caller.prevStats ≠ .null →
        s.members.allHandles.entries.length ≤
          torrentsIn s.caller.prevStats + 1
  | _ => True

/- The document of the last pass lists a table. -/
def ListsTable (document : Json.Value) : Prop :=
  ∃ (stats : SessionStats)
    (entries : List (Σ _ : Handle, TorrentStatus)),
    document = getSyncStats (toJsonObject stats) entries

/- The clients follow the caller, which sends tables. -/
structure Following (s : Live) : Prop where
  atRest : s.caller.AtRest
  tracked : s.caller.Tracked
  synced :
    Sync.Caller.Synced jsonFormat Sync.WellFormed
      Sync.Transmits s.caller
  tables :
    s.caller.prevStats = .null ∨ ListsTable s.caller.prevStats

variable {config : Config}
variable {idx : Metrics ℤ}
variable {rate : Int64 → UInt64 → Int32}
variable {s : Live}

theorem following_init
    (values : SessionValues) :
    (init values).Following where
  atRest := Sync.Caller.atRest_init jsonFormat
  tracked := Sync.Caller.tracked_init jsonFormat
  synced :=
    Sync.Caller.synced_init jsonFormat Sync.WellFormed
      Sync.Transmits
  tables := Or.inl rfl

theorem wellFormed_toJsonObject
    (stats : SessionStats) :
    Sync.WellFormed (.object (toJsonObject stats)) := by
  have hValues :
      ∀ (P : List Str → Prop),
        ∀ m ∈ toJsonObject stats,
          Json.Value.KeysSatisfy P m.2 := by
    intro P m hM
    have hScalar := isScalar_toJsonObject stats m hM
    rcases m with ⟨key, value⟩
    rcases hScalar with ⟨hArray, hObject⟩
    cases value with
    | array src => exact absurd rfl hArray
    | object src => exact absurd rfl hObject
    | _ => simp [Json.Value.KeysSatisfy]
  refine ⟨?_, ?_⟩
  · apply (Json.Value.keysSatisfy_object_iff _).mpr
    refine ⟨?_, hValues _⟩
    apply Json.keys_emplaceAll_nodup
    simp
  · apply (Json.Value.keysSatisfy_object_iff _).mpr
    exact ⟨plain_keys_toJsonObject stats, hValues _⟩

theorem ListsTable.wellFormed
    {document : Json.Value}
    (hTable : ListsTable document) :
    Sync.WellFormed document := by
  rcases hTable with ⟨stats, entries, rfl⟩
  exact
    wellFormed_getSyncStats (wellFormed_toJsonObject stats)
      entries

/- A document of the sheath lists the table it has now. -/
theorem lists_of_syncStats
    {reading : Reading}
    {stats : Json.Value}
    (hStats : s.syncStats idx rate reading = some stats) :
    ListsTable stats ∧
      torrentsIn stats =
        s.members.allHandles.entries.length := by
  rcases Option.ite_none_right_eq_some.mp hStats with
    ⟨hPerm, hSync⟩
  rcases Option.map_eq_some_iff.mp hSync with
    ⟨sessionStats, _, rfl⟩
  have hLength := (List.isPerm_iff.mp hPerm).length_eq
  exact
    ⟨⟨sessionStats, reading.entries, rfl⟩,
      (torrentsIn_getSyncStats _ _).trans hLength⟩

/- The difference between two listed tables. -/
theorem ListsTable.grows_iff
    {base target : Json.Value}
    (hBase : ListsTable base)
    (hTarget : ListsTable target) :
    growsByAtMostOne base target = true ↔
      torrentsIn target ≤ torrentsIn base + 1 := by
  rcases hBase with ⟨stats, xs, rfl⟩
  rcases hTarget with ⟨stats', ys, rfl⟩
  rw [torrentsIn_getSyncStats, torrentsIn_getSyncStats]
  exact growsByAtMostOne_getSyncStats_iff stats stats' xs ys

/- Clients that follow are up to date. -/
theorem Following.upToDate
    (hFollowing : s.Following) :
    s.UpToDate := by
  intro w hMember
  rcases Sync.exists_copy_of_synced hFollowing.atRest
      hFollowing.tracked hFollowing.synced hMember with
    ⟨current, hCurrent, hCopy⟩
  refine ⟨current, ?_, hCopy.equals⟩
  rw [Sync.clientDocument_map_toJson]
  exact hCurrent

/- An operation of the caller that the clients can follow. -/
theorem Following.call
    {next : Live}
    {action : Sync.SerialAction Json.Value}
    (hFollowing : s.Following)
    (hAllowed :
      s.caller.SerialAllowed Sync.WellFormed Sync.Transmits
        action)
    (hTables :
      next.caller.prevStats = .null ∨
        ListsTable next.caller.prevStats)
    (hStep : s.call action = some next) :
    next.Following := by
  rcases Option.map_eq_some_iff.mp hStep with
    ⟨caller, hCaller, rfl⟩
  rcases Sync.Caller.synced_serialStep hAllowed
      hFollowing.atRest hFollowing.tracked
      hFollowing.synced hCaller with
    ⟨hRest, hTracked, hSynced⟩
  exact ⟨hRest, hTracked, hSynced, hTables⟩

end Live

end Sheath

end Kedge

------------------------------------------------------------
-- One Step
------------------------------------------------------------

namespace Kedge

namespace Sheath

namespace Live

open Sync (jsonFormat SessionId)

variable {config : Config}
variable {idx : Metrics ℤ}
variable {rate : Int64 → UInt64 → Int32}
variable {s next : Live}

/- The difference that the next pass sends is right. -/
theorem Following.transmits
    {reading : Reading}
    {order : List SessionId}
    {stats : Json.Value}
    (hFollowing : s.Following)
    (hGrows : s.GrowsByOne (.pass reading order))
    (hSessions : s.caller.sessions ≠ [])
    (hStats : s.syncStats idx rate reading = some stats) :
    Sync.Transmits s.caller.prevStats stats := by
  rcases lists_of_syncStats hStats with ⟨hTable, hLength⟩
  refine ⟨hTable.wellFormed, ?_⟩
  rcases hFollowing.tables with hNull | hPrev
  · rw [hNull]
    simp [growsByAtMostOne]
  · have hSome : s.caller.prevStats ≠ .null := by
      rcases hPrev with ⟨old, entries, hOld⟩
      rw [hOld]
      intro hNull
      cases hNull
    rw [hPrev.grows_iff hTable, hLength]
    exact hGrows hSessions hSome

theorem following_join
    {session : SessionId}
    {qid : Str}
    {random : Nat}
    {stats : Json.Value}
    (hFollowing : s.Following)
    (hStats : Sync.WellFormed stats)
    (hStep :
      s.call (.join session qid random stats) = some next) :
    next.Following := by
  refine hFollowing.call ?_ ?_ hStep
  · exact hStats
  rcases Option.map_eq_some_iff.mp hStep with
    ⟨caller, hCaller, rfl⟩
  rcases Option.ite_none_right_eq_some.mp hCaller with
    ⟨_, hNext⟩
  cases hNext
  exact hFollowing.tables

/- Steps without too many new torrents keep clients so. -/
theorem following_step
    {action : LiveAction}
    (hGrows : s.GrowsByOne action)
    (hFollowing : s.Following)
    (hStep : s.step config idx rate action = some next) :
    next.Following := by
  cases action with
  | alert query alert =>
      cases hStep
      exact
        ⟨hFollowing.atRest, hFollowing.tracked,
          hFollowing.synced, hFollowing.tables⟩
  | join session qid random reading =>
      simp only [step] at hStep
      split at hStep
      · rcases Option.bind_eq_some_iff.mp hStep with
          ⟨stats, hStats, hJoin⟩
        exact
          following_join hFollowing
            (lists_of_syncStats hStats).1.wellFormed hJoin
      · next hSome =>
        -- The current document is sent as it is.
        have hGood :=
          hFollowing.synced.good (by simpa using hSome)
        exact following_join hFollowing hGood hStep
  | leave session =>
      refine hFollowing.call ?_ ?_ hStep
      · trivial
      rcases Option.map_eq_some_iff.mp hStep with
        ⟨caller, hCaller, rfl⟩
      rcases Option.ite_none_right_eq_some.mp hCaller with
        ⟨_, hNext⟩
      cases hNext
      exact hFollowing.tables
  | pass reading order =>
      simp only [step] at hStep
      split at hStep
      · cases hStep
        exact hFollowing
      · next hSessions =>
        rcases Option.bind_eq_some_iff.mp hStep with
          ⟨stats, hStats, hPass⟩
        have hTransmits :=
          hFollowing.transmits hGrows hSessions hStats
        refine hFollowing.call ?_ ?_ hPass
        · exact fun _ => ⟨hTransmits.1, hTransmits⟩
        rcases Option.map_eq_some_iff.mp hPass with
          ⟨caller, hCaller, rfl⟩
        rcases Sync.Caller.serialStep_pass hFollowing.atRest
            hFollowing.tracked hSessions hCaller with
          ⟨_, _, hPrev, _⟩
        right
        change ListsTable caller.prevStats
        rw [hPrev]
        exact (lists_of_syncStats hStats).1

/-
  A client that followed and is up to date after a pass was
  sent a right difference.
-/
theorem growsByOne_of_upToDate
    {reading : Reading}
    {order : List SessionId}
    (hFollowing : s.Following)
    (hStep :
      s.step config idx rate (.pass reading order) =
        some next)
    (hUpToDate : next.UpToDate) :
    s.GrowsByOne (.pass reading order) := by
  intro hSessions hPrev
  simp only [step, if_neg hSessions] at hStep
  rcases Option.bind_eq_some_iff.mp hStep with
    ⟨stats, hStats, hPass⟩
  rcases Option.map_eq_some_iff.mp hPass with
    ⟨caller, hCaller, rfl⟩
  rcases lists_of_syncStats hStats with ⟨hTable, hLength⟩
  rcases Sync.Caller.serialStep_pass hFollowing.atRest
      hFollowing.tracked hSessions hCaller with
    ⟨hListed, hCurr, _, hSent⟩
  rcases List.exists_mem_of_ne_nil _ hSessions with
    ⟨w, hMember⟩
  -- Before the pass the client holds the base of the delta.
  rcases Sync.exists_copy_of_synced hFollowing.atRest
      hFollowing.tracked hFollowing.synced hMember with
    ⟨current, hCurrent, hCopy⟩
  have hBase : s.caller.prevStats = s.caller.currStats := by
    have hDocuments := hFollowing.synced.documents
    unfold Sync.Caller.DocumentsInv at hDocuments
    rw [hFollowing.atRest.idle] at hDocuments
    rcases hDocuments with hNull | hSame
    · exact absurd hNull hPrev
    · exact hSame
  have hTableBase : ListsTable s.caller.prevStats := by
    rcases hFollowing.tables with hNull | hTable
    · exact absurd hNull hPrev
    · exact hTable
  rw [← hBase] at hCopy
  have hMemberNext : w ∈ caller.sessions := by
    rw [hListed]
    exact hMember
  rcases hUpToDate w hMemberNext with
    ⟨result, hResult, hEquals⟩
  change caller.sessions = s.caller.sessions at hListed
  rw [Sync.clientDocument_map_toJson, hSent w hMember,
    Sync.document_append_singleton, hCurrent] at hResult
  rw [hCurr] at hEquals
  have hGrows :=
    growsByAtMostOne_of_applyPatch_copy hCopy.1.1
      hTable.wellFormed.1 hCopy.1.2 hTable.wellFormed.2
      hCopy.2.1 hCopy.2.2 hResult hEquals
  rw [hTableBase.grows_iff hTable, hLength] at hGrows
  exact hGrows

/-
  From a state in which the clients follow, a step leaves
  them up to date exactly when it does not bring too many
  new torrents.
-/
theorem upToDate_iff
    {action : LiveAction}
    (hFollowing : s.Following)
    (hStep : s.step config idx rate action = some next) :
    s.GrowsByOne action ↔ next.UpToDate := by
  constructor
  · intro hGrows
    exact (following_step hGrows hFollowing hStep).upToDate
  · intro hUpToDate
    cases action with
    | pass reading order =>
        exact
          growsByOne_of_upToDate hFollowing hStep hUpToDate
    | _ => trivial

end Live

end Sheath

end Kedge

------------------------------------------------------------
-- Whole Runs
------------------------------------------------------------

namespace Kedge

namespace Sheath

namespace Live

open Sync (jsonFormat SessionId)

/-
  In every run of alerts and of joins, leaves and passes one
  at a time, without text frames of clients, all connected
  clients show the current document in every state reached
  exactly when no pass with connected clients finds more
  than one torrent more than the pass before it.
-/
theorem clients_up_to_date_iff
    (config : Config)
    (idx : Metrics ℤ)
    (rate : Int64 → UInt64 → Int32)
    (values : SessionValues)
    (actions : List LiveAction)
    (finish : Live)
    (hExec :
      Run.exec (step config idx rate) (init values) actions =
        some finish) :
    (∀ past s, past <+: actions →
        Run.exec (step config idx rate) (init values) past =
          some s →
        s.UpToDate) ↔
      Run.Meets (step config idx rate) GrowsByOne
        (init values) actions := by
  have hStart := following_init values
  rw [Run.forall_reached_iff,
    and_iff_right hStart.upToDate]
  symm
  refine Run.meets_congr ?_ ?_ hStart hExec
  · intro s action next hGrows hFollowing hStep
    exact following_step hGrows hFollowing hStep
  · intro s action next hFollowing hStep
    rw [upToDate_iff hFollowing hStep]
    constructor
    · intro hUpToDate next' hStep'
      cases hStep.symm.trans hStep'
      exact hUpToDate
    · intro hAll
      exact hAll next hStep

/- What is read when the table holds these entries. -/
def readingOf
    (entries : List (Σ _ : Handle, TorrentStatus)) :
    Reading where
  clock := ⟨0, 0⟩
  memory := zeroMemory
  entries := entries

/- A client joins, and one torrent appears. -/
def oneTorrentAppears : List LiveAction :=
  [.join 1 [] 1000 (readingOf []),
    .pass (readingOf []) [1],
    .alert plainQuery
      (.stateUpdate [{ handle := firstTorrent }]),
    .pass
      (readingOf [⟨firstTorrent, { handle := firstTorrent }⟩])
      [1]]

theorem clients_up_to_date_one_torrent :
    ∃ finish,
      Run.exec (step plainConfig rowOfMetrics (fun _ _ => 0))
          (init ⟨[], [], 0, 0⟩) oneTorrentAppears =
        some finish ∧
      ∀ past s, past <+: oneTorrentAppears →
        Run.exec
            (step plainConfig rowOfMetrics (fun _ _ => 0))
            (init ⟨[], [], 0, 0⟩) past =
          some s →
        s.UpToDate := by
  refine ⟨_, rfl, ?_⟩
  refine
    (clients_up_to_date_iff plainConfig rowOfMetrics
      (fun _ _ => 0) ⟨[], [], 0, 0⟩ oneTorrentAppears _
      rfl).mpr ?_
  refine ⟨trivial, ?_⟩
  rintro _ ⟨⟩
  refine ⟨fun _ _ => Nat.zero_le _, ?_⟩
  rintro _ ⟨⟩
  refine ⟨trivial, ?_⟩
  rintro _ ⟨⟩
  exact ⟨fun _ _ => Nat.le_refl 1, fun _ _ => trivial⟩

end Live

end Sheath

end Kedge
