import Mathlib.Tactic.MkIffOfInductiveProp
import Kedge.Sheath.SyncStats

/-
  The session statistics: `sessionValues::getSessionStats`
  and `sessionStats` of the sources, and the two functions
  of the sheath that return them.

  The statistics start as uninitialised memory and are
  filled from the counters. They are returned as they are
  when there are too few counters, the rates stay as they
  are without a second set of counters, and the flag for a
  paused session is left to the caller. The content of the
  memory is a parameter. So is the division of `float`
  numbers that gives the rates.

  Key definitions include:
    * `SessionStats`
    * `toJsonObject`
    * `SessionValues.getSessionStats`
    * `SameShown`

  Main theorems include:
    * `toJsonObject_eq_iff`
    * `statistics_agree_iff`
-/

------------------------------------------------------------
-- The Statistics and Their JSON Object
------------------------------------------------------------

namespace Kedge

open Json

namespace Sheath

/- `sessionStats`. -/
structure SessionStats where
  bytesRecv : Int64
  bytesSent : Int64
  bytesDataRecv : Int64
  bytesDataSent : Int64
  rateRecv : Int64
  rateSent : Int64
  bytesFailed : Int64
  bytesWasted : Int64
  bytesQueued : Int64
  numChecking : Int32
  numDownloading : Int32
  numSeeding : Int32
  numStopped : Int32
  numQueued : Int32
  numError : Int32
  numPeersConnected : Int32
  numPeersHalfOpen : Int32
  limitUpQueue : Int32
  limitDownQueue : Int32
  queuedTrackerAnnounces : Int32
  hasIncoming : Bool
  isPaused : Bool
  uptime : Int64
  uptimeMs : UInt64
  deriving DecidableEq

def SessionStats.activeCount (s : SessionStats) : Int32 :=
  s.numChecking + s.numDownloading + s.numSeeding

def SessionStats.pausedCount (s : SessionStats) : Int32 :=
  s.numQueued + s.numStopped

/- A member that is added only when it is not zero. -/
def positiveUnsigned
    (key : String)
    (number : UInt64) : Guarded :=
  ⟨decide (number > 0), key.toList, .uint64 number⟩

/- The members that are added under a condition. -/
def statsExtras (s : SessionStats) : List Guarded :=
  [positive64 "bytesRecv" s.bytesRecv,
    positive64 "bytesSent" s.bytesSent,
    positive64 "bytesDataRecv" s.bytesDataRecv,
    positive64 "bytesDataSent" s.bytesDataSent,
    positive64 "rateRecv" s.rateRecv,
    positive64 "rateSent" s.rateSent,
    positive64 "bytesFailed" s.bytesFailed,
    positive64 "bytesQueued" s.bytesQueued,
    positive64 "bytesWasted" s.bytesWasted,
    positive32 "numChecking" s.numChecking,
    positive32 "numDownloading" s.numDownloading,
    positive32 "numSeeding" s.numSeeding,
    positive32 "numStopped" s.numStopped,
    positive32 "numQueued" s.numQueued,
    positive32 "numError" s.numError,
    positive32 "numPeersConnected" s.numPeersConnected,
    positive32 "numPeersHalfOpen" s.numPeersHalfOpen,
    positive32 "limitUpQueue" s.limitUpQueue,
    positive32 "limitDownQueue" s.limitDownQueue,
    flagged "hasIncoming" s.hasIncoming,
    flagged "isPaused" s.isPaused,
    positive32 "activeCount" s.activeCount,
    positive32 "puasedCount" s.pausedCount,
    ⟨true, "taskCount".toList,
      jsonInt (s.activeCount + s.pausedCount)⟩,
    positive64 "uptime" s.uptime,
    positiveUnsigned "uptimeMs" s.uptimeMs]

/- `sessionStats::to_json_object`. -/
def toJsonObject (s : SessionStats) : Json.Members :=
  emplaceAll
    [("rates".toList, .int64 (s.rateRecv + s.rateSent))]
    (statsExtras s)

end Sheath

end Kedge

------------------------------------------------------------
-- Filling the Statistics
------------------------------------------------------------

namespace Kedge

open Json

namespace Sheath

/-
  The metrics that the statistics are made from: their
  indices among the counters, or the counters.
-/
structure Metrics (α : Type) where
  numChecking : α
  numDownloading : α
  numSeeding : α
  numStopped : α
  numQueuedSeeding : α
  numQueuedDownload : α
  numError : α
  recv : α
  sent : α
  recvData : α
  sendData : α
  failedBytes : α
  queuedBytes : α
  wastedBytes : α
  numPeersConnected : α
  numPeersHalfOpen : α
  limiterUpQueue : α
  limiterDownQueue : α
  queuedTrackerAnnounces : α
  hasIncoming : α
  deriving DecidableEq

def Metrics.toList {α : Type} (m : Metrics α) : List α :=
  [m.numChecking, m.numDownloading, m.numSeeding,
    m.numStopped, m.numQueuedSeeding, m.numQueuedDownload,
    m.numError, m.recv, m.sent, m.recvData, m.sendData,
    m.failedBytes, m.queuedBytes, m.wastedBytes,
    m.numPeersConnected, m.numPeersHalfOpen,
    m.limiterUpQueue, m.limiterDownQueue,
    m.queuedTrackerAnnounces, m.hasIncoming]

/-
  `operator[]` with an index of type `int`; a negative one
  is out of range as well.
-/
def readCounter (cnt : List Int64) (idx : ℤ) : Option Int64 :=
  if 0 ≤ idx then cnt[idx.toNat]? else none

/- The counters, where every index is in range. -/
def Metrics.read
    (idx : Metrics ℤ)
    (cnt : List Int64) : Option (Metrics Int64) := do
  let numChecking ← readCounter cnt idx.numChecking
  let numDownloading ← readCounter cnt idx.numDownloading
  let numSeeding ← readCounter cnt idx.numSeeding
  let numStopped ← readCounter cnt idx.numStopped
  let numQueuedSeeding ← readCounter cnt idx.numQueuedSeeding
  let numQueuedDownload ←
    readCounter cnt idx.numQueuedDownload
  let numError ← readCounter cnt idx.numError
  let recv ← readCounter cnt idx.recv
  let sent ← readCounter cnt idx.sent
  let recvData ← readCounter cnt idx.recvData
  let sendData ← readCounter cnt idx.sendData
  let failedBytes ← readCounter cnt idx.failedBytes
  let queuedBytes ← readCounter cnt idx.queuedBytes
  let wastedBytes ← readCounter cnt idx.wastedBytes
  let numPeersConnected ←
    readCounter cnt idx.numPeersConnected
  let numPeersHalfOpen ← readCounter cnt idx.numPeersHalfOpen
  let limiterUpQueue ← readCounter cnt idx.limiterUpQueue
  let limiterDownQueue ← readCounter cnt idx.limiterDownQueue
  let queuedTrackerAnnounces ←
    readCounter cnt idx.queuedTrackerAnnounces
  let hasIncoming ← readCounter cnt idx.hasIncoming
  return {
    numChecking, numDownloading, numSeeding, numStopped
    numQueuedSeeding, numQueuedDownload, numError, recv
    sent, recvData, sendData, failedBytes, queuedBytes
    wastedBytes, numPeersConnected, numPeersHalfOpen
    limiterUpQueue, limiterDownQueue
    queuedTrackerAnnounces, hasIncoming }

/- `uptime()` and `uptimeMs()`. -/
structure Clock where
  uptime : Int64
  uptimeMs : Int64

/-
  `size < idx` for an `int` that is converted to unsigned: a
  negative one is larger than every size.
-/
def sizeLess (size : Nat) (idx : ℤ) : Bool :=
  idx < 0 ∨ size < idx

/- The fields that are written, and those that are given. -/
def Metrics.toStats
    (c : Metrics Int64)
    (rates : Int64 × Int64)
    (clock : Clock)
    (isPaused : Bool) : SessionStats where
  bytesRecv := c.recv
  bytesSent := c.sent
  bytesDataRecv := c.recvData
  bytesDataSent := c.sendData
  rateRecv := rates.1
  rateSent := rates.2
  bytesFailed := c.failedBytes
  bytesWasted := c.wastedBytes
  bytesQueued := c.queuedBytes
  numChecking := c.numChecking.toInt32
  numDownloading := c.numDownloading.toInt32
  numSeeding := c.numSeeding.toInt32
  numStopped := c.numStopped.toInt32
  numQueued :=
    (c.numQueuedSeeding + c.numQueuedDownload).toInt32
  numError := c.numError.toInt32
  numPeersConnected := c.numPeersConnected.toInt32
  numPeersHalfOpen := c.numPeersHalfOpen.toInt32
  limitUpQueue := c.limiterUpQueue.toInt32
  limitDownQueue := c.limiterDownQueue.toInt32
  queuedTrackerAnnounces := c.queuedTrackerAnnounces.toInt32
  hasIncoming := decide (c.hasIncoming.toInt32 ≠ 0)
  isPaused := isPaused
  uptime := clock.uptime
  uptimeMs := clock.uptimeMs.toUInt64

namespace SessionValues

/-
  The rates, given `rate` for the quotient of a difference
  and the microseconds between the two timestamps. They are
  only written when the second set of counters is there.
-/
def rates
    (idx : Metrics ℤ)
    (rate : Int64 → UInt64 → Int32)
    (values : SessionValues)
    (s : SessionStats) : Option (Int64 × Int64) :=
  if sizeLess values.cnt1.length idx.sendData then
    some (s.rateRecv, s.rateSent)
  else do
    let micros := values.timestamp0 - values.timestamp1
    let recv0 ← readCounter values.cnt0 idx.recv
    let recv1 ← readCounter values.cnt1 idx.recv
    let sent0 ← readCounter values.cnt0 idx.sent
    let sent1 ← readCounter values.cnt1 idx.sent
    return ((rate (recv0 - recv1) micros).toInt64,
      (rate (sent0 - sent1) micros).toInt64)

/-
  `sessionValues::getSessionStats` over the memory `s`, or
  none where an index is out of range.
-/
def getSessionStats
    (idx : Metrics ℤ)
    (rate : Int64 → UInt64 → Int32)
    (clock : Clock)
    (values : SessionValues)
    (s : SessionStats) : Option SessionStats :=
  if sizeLess values.cnt0.length
      idx.queuedTrackerAnnounces then some s
  else
    match idx.read values.cnt0, values.rates idx rate s with
    | some c, some rates =>
        some (c.toStats rates clock s.isPaused)
    | _, _ => none

end SessionValues

/- `sheath::getSessionStats`. -/
def sheathSessionStats
    (idx : Metrics ℤ)
    (rate : Int64 → UInt64 → Int32)
    (clock : Clock)
    (values : SessionValues)
    (isPaused : Bool)
    (memory : SessionStats) : Option Json.Members :=
  (values.getSessionStats idx rate clock memory).map
    fun stats =>
      toJsonObject { stats with isPaused := isPaused }

/- `sheath::getSyncStats`, with the table it lists. -/
def sheathSyncStats
    (idx : Metrics ℤ)
    (rate : Int64 → UInt64 → Int32)
    (clock : Clock)
    (values : SessionValues)
    (entries : List (Σ _ : Handle, TorrentStatus))
    (memory : SessionStats) : Option Value :=
  (values.getSessionStats idx rate clock memory).map
    fun stats => getSyncStats (toJsonObject stats) entries

end Sheath

end Kedge

------------------------------------------------------------
-- Equal Objects
------------------------------------------------------------

namespace Kedge

open Json

namespace Sheath

/- Two numbers are equal, or none of them is shown. -/
def SamePositive
    {α : Type}
    [LT α] [OfNat α 0]
    (x y : α) : Prop :=
  x = y ∨ ¬ 0 < x ∧ ¬ 0 < y

/- Two statistics that differ in nothing that is shown. -/
@[mk_iff]
structure SameShown (a b : SessionStats) : Prop where
  rates : a.rateRecv + a.rateSent = b.rateRecv + b.rateSent
  bytesRecv : SamePositive a.bytesRecv b.bytesRecv
  bytesSent : SamePositive a.bytesSent b.bytesSent
  bytesDataRecv :
    SamePositive a.bytesDataRecv b.bytesDataRecv
  bytesDataSent :
    SamePositive a.bytesDataSent b.bytesDataSent
  rateRecv : SamePositive a.rateRecv b.rateRecv
  rateSent : SamePositive a.rateSent b.rateSent
  bytesFailed : SamePositive a.bytesFailed b.bytesFailed
  bytesQueued : SamePositive a.bytesQueued b.bytesQueued
  bytesWasted : SamePositive a.bytesWasted b.bytesWasted
  numChecking : SamePositive a.numChecking b.numChecking
  numDownloading :
    SamePositive a.numDownloading b.numDownloading
  numSeeding : SamePositive a.numSeeding b.numSeeding
  numStopped : SamePositive a.numStopped b.numStopped
  numQueued : SamePositive a.numQueued b.numQueued
  numError : SamePositive a.numError b.numError
  numPeersConnected :
    SamePositive a.numPeersConnected b.numPeersConnected
  numPeersHalfOpen :
    SamePositive a.numPeersHalfOpen b.numPeersHalfOpen
  limitUpQueue : SamePositive a.limitUpQueue b.limitUpQueue
  limitDownQueue :
    SamePositive a.limitDownQueue b.limitDownQueue
  hasIncoming : a.hasIncoming = b.hasIncoming
  isPaused : a.isPaused = b.isPaused
  activeCount : SamePositive a.activeCount b.activeCount
  pausedCount : SamePositive a.pausedCount b.pausedCount
  taskCount :
    a.activeCount + a.pausedCount =
      b.activeCount + b.pausedCount
  uptime : SamePositive a.uptime b.uptime
  uptimeMs : SamePositive a.uptimeMs b.uptimeMs

theorem jsonInt_inj
    {x y : Int32} :
    jsonInt x = jsonInt y ↔ x = y := by
  unfold jsonInt
  rw [Value.int64.injEq]
  constructor
  · intro hSame
    have hBack := congrArg Int64.toInt32 hSame
    simpa using hBack
  · rintro rfl
    rfl

/- A number that is shown when it is positive. -/
theorem same_positive_iff
    {α : Type}
    [LT α] [OfNat α 0]
    [∀ x y : α, Decidable (x < y)]
    {value : α → Value}
    (hValue : ∀ x y, value x = value y ↔ x = y)
    (key : Str)
    (x y : α) :
    Guarded.Same ⟨decide (x > 0), key, value x⟩
        ⟨decide (y > 0), key, value y⟩ ↔
      SamePositive x y := by
  constructor
  · rintro ⟨hGuard, hSame⟩
    dsimp only at hGuard hSame
    by_cases hX : 0 < x
    · exact Or.inl
        ((hValue x y).mp (hSame (decide_eq_true hX)))
    · have hY : ¬ 0 < y := by
        intro hY
        rw [decide_eq_false hX, decide_eq_true hY] at hGuard
        cases hGuard
      exact Or.inr ⟨hX, hY⟩
  · rintro (rfl | ⟨hX, hY⟩)
    · exact ⟨rfl, fun _ => rfl⟩
    · refine ⟨?_, ?_⟩
      · exact (decide_eq_false hX).trans
          (decide_eq_false hY).symm
      · intro hGuard
        exact absurd (of_decide_eq_true hGuard) hX

theorem same_positive64_iff
    (key : String)
    (x y : Int64) :
    Guarded.Same (positive64 key x) (positive64 key y) ↔
      SamePositive x y :=
  same_positive_iff (fun _ _ => by rw [Value.int64.injEq])
    key.toList x y

theorem same_positive32_iff
    (key : String)
    (x y : Int32) :
    Guarded.Same (positive32 key x) (positive32 key y) ↔
      SamePositive x y :=
  same_positive_iff (fun _ _ => jsonInt_inj) key.toList x y

theorem same_positiveUnsigned_iff
    (key : String)
    (x y : UInt64) :
    Guarded.Same (positiveUnsigned key x)
        (positiveUnsigned key y) ↔
      SamePositive x y :=
  same_positive_iff (fun _ _ => by rw [Value.uint64.injEq])
    key.toList x y

theorem same_flagged_iff
    (key : String)
    (x y : Bool) :
    Guarded.Same (flagged key x) (flagged key y) ↔
      x = y := by
  constructor
  · exact Guarded.Same.guard
  · rintro rfl
    exact ⟨rfl, fun _ => rfl⟩

theorem same_always_iff
    (key : Str)
    (a b : Value) :
    Guarded.Same ⟨true, key, a⟩ ⟨true, key, b⟩ ↔ a = b :=
  ⟨fun hSame => hSame.value rfl,
    fun hValue => ⟨rfl, fun _ => hValue⟩⟩

/- The keys behind the first one, in order. -/
def statsKeys : List String :=
  ["bytesRecv", "bytesSent", "bytesDataRecv",
    "bytesDataSent", "rateRecv", "rateSent", "bytesFailed",
    "bytesQueued", "bytesWasted", "numChecking",
    "numDownloading", "numSeeding", "numStopped",
    "numQueued", "numError", "numPeersConnected",
    "numPeersHalfOpen", "limitUpQueue", "limitDownQueue",
    "hasIncoming", "isPaused", "activeCount", "puasedCount",
    "taskCount", "uptime", "uptimeMs"]

theorem keys_statsExtras
    (s : SessionStats) :
    (statsExtras s).map Guarded.key =
      statsKeys.map String.toList := by
  simp only [statsExtras, statsKeys, List.map_cons,
    List.map_nil, positive64, positive32, positiveUnsigned,
    flagged]

theorem nodup_keys_stats
    (s : SessionStats)
    (rates : Value) :
    (keys [("rates".toList, rates)] ++
      (statsExtras s).map Guarded.key).Nodup := by
  have hNodup : ("rates" :: statsKeys).Nodup := by
    decide
  rw [keys_statsExtras]
  exact hNodup.map (fun _ _ => String.toList_injective)

/- The objects are equal when the statistics show the same. -/
theorem toJsonObject_eq_iff
    (a b : SessionStats) :
    toJsonObject a = toJsonObject b ↔ SameShown a b := by
  unfold toJsonObject
  have hKeys :=
    (keys_statsExtras a).trans (keys_statsExtras b).symm
  rw [emplaceAll_inj_iff (by rfl) hKeys
    (nodup_keys_stats a _) (nodup_keys_stats b _)]
  simp only [statsExtras, List.forall₂_cons,
    List.forall₂_nil_left_iff, same_positive64_iff,
    same_positive32_iff, same_flagged_iff, same_always_iff,
    same_positiveUnsigned_iff, jsonInt_inj,
    List.cons.injEq, Prod.mk.injEq, Value.int64.injEq,
    true_and, and_true, sameShown_iff]

end Sheath

end Kedge

------------------------------------------------------------
-- What Is Written
------------------------------------------------------------

namespace Kedge

namespace Sheath

/- The early return is not taken. -/
def HasCounters
    (idx : Metrics ℤ)
    (values : SessionValues) : Prop :=
  sizeLess values.cnt0.length idx.queuedTrackerAnnounces =
    false

/- The rates are written. -/
def HasOldCounters
    (idx : Metrics ℤ)
    (values : SessionValues) : Prop :=
  sizeLess values.cnt1.length idx.sendData = false

/- The indices that are read behind the early return. -/
structure InRange
    (idx : Metrics ℤ)
    (values : SessionValues) : Prop where
  cnt0 : ∀ i ∈ idx.toList, 0 ≤ i ∧ i < values.cnt0.length
  cnt1 :
    HasOldCounters idx values →
      ∀ i ∈ [idx.recv, idx.sent],
        0 ≤ i ∧ i < values.cnt1.length

theorem isSome_readCounter_iff
    (cnt : List Int64)
    (i : ℤ) :
    (readCounter cnt i).isSome = true ↔
      0 ≤ i ∧ i < cnt.length := by
  unfold readCounter
  split
  · rw [isSome_getElem?]
    omega
  · simp only [Option.isSome_none, Bool.false_eq_true,
      false_iff]
    omega

theorem isSome_bind_of_const
    {α β : Type}
    {f : α → Option β}
    {p : Prop}
    (hF : ∀ a, (f a).isSome = true ↔ p)
    (x : Option α) :
    (x.bind f).isSome = true ↔ x.isSome = true ∧ p := by
  cases x with
  | none => simp
  | some a => simp [hF a]

/- Each of the reads is made, and none depends on others. -/
theorem isSome_read_iff
    (idx : Metrics ℤ)
    (cnt : List Int64) :
    (idx.read cnt).isSome = true ↔
      ∀ i ∈ idx.toList, (readCounter cnt i).isSome = true := by
  simp only [Metrics.toList, List.forall_mem_cons,
    List.not_mem_nil, false_imp_iff, implies_true]
  unfold Metrics.read
  iterate 20 refine isSome_bind_of_const (fun _ => ?_) _
  exact iff_of_true rfl trivial

namespace SessionValues

variable {idx : Metrics ℤ}
variable {rate : Int64 → UInt64 → Int32}
variable {clock : Clock}
variable {values : SessionValues}

/- Without the early return the memory shows in few fields. -/
theorem exists_getSessionStats_eq
    (hCounters : HasCounters idx values)
    (hRange : InRange idx values) :
    ∃ (c : Metrics Int64) (written : Int64 × Int64), ∀ s,
      values.getSessionStats idx rate clock s =
        some
          (c.toStats
            (if sizeLess values.cnt1.length idx.sendData then
              (s.rateRecv, s.rateSent)
            else written)
            clock s.isPaused) := by
  have hRead : (idx.read values.cnt0).isSome = true := by
    rw [isSome_read_iff]
    intro i hI
    exact (isSome_readCounter_iff _ i).mpr
      (hRange.cnt0 i hI)
  rcases Option.isSome_iff_exists.mp hRead with ⟨c, hC⟩
  unfold HasCounters at hCounters
  by_cases hOld :
      sizeLess values.cnt1.length idx.sendData = true
  · refine ⟨c, (0, 0), ?_⟩
    intro s
    simp [getSessionStats, rates, hCounters, hC, hOld]
  · have hOldRange :=
      hRange.cnt1 (Bool.eq_false_iff.mpr hOld)
    have hSome :
        ∀ i ∈ [idx.recv, idx.sent],
          (∃ x, readCounter values.cnt0 i = some x) ∧
            ∃ y, readCounter values.cnt1 i = some y := by
      intro i hI
      have hListed : i ∈ idx.toList := by
        rcases List.mem_pair.mp hI with rfl | rfl <;>
          simp [Metrics.toList]
      constructor
      · exact Option.isSome_iff_exists.mp
          ((isSome_readCounter_iff _ i).mpr
            (hRange.cnt0 i hListed))
      · exact Option.isSome_iff_exists.mp
          ((isSome_readCounter_iff _ i).mpr (hOldRange i hI))
    rcases hSome idx.recv (by simp) with
      ⟨⟨recv0, hRecv0⟩, recv1, hRecv1⟩
    rcases hSome idx.sent (by simp) with
      ⟨⟨sent0, hSent0⟩, sent1, hSent1⟩
    let micros := values.timestamp0 - values.timestamp1
    refine ⟨c,
      ((rate (recv0 - recv1) micros).toInt64,
        (rate (sent0 - sent1) micros).toInt64), ?_⟩
    intro s
    simp [getSessionStats, rates, hCounters, hC, hOld,
      hRecv0, hRecv1, hSent0, hSent1, micros]

/- An index out of range shows whatever the memory holds. -/
theorem getSessionStats_eq_none
    (hCounters : HasCounters idx values)
    (hRange : ¬ InRange idx values)
    (s : SessionStats) :
    values.getSessionStats idx rate clock s = none := by
  unfold HasCounters at hCounters
  unfold getSessionStats
  rw [hCounters, if_neg Bool.false_ne_true]
  cases hRead : idx.read values.cnt0 with
  | none => rfl
  | some c =>
      have hCnt0 :
          ∀ i ∈ idx.toList,
            (readCounter values.cnt0 i).isSome = true := by
        rw [← isSome_read_iff, hRead]
        rfl
      have hRates : values.rates idx rate s = none := by
        by_contra hSome
        apply hRange
        refine ⟨fun i hI =>
          (isSome_readCounter_iff _ i).mp (hCnt0 i hI), ?_⟩
        intro hOld
        unfold HasOldCounters at hOld
        unfold rates at hSome
        rw [hOld, if_neg Bool.false_ne_true] at hSome
        intro i hI
        apply (isSome_readCounter_iff _ i).mp
        by_contra hNone
        rw [Option.not_isSome_iff_eq_none] at hNone
        apply hSome
        rcases List.mem_pair.mp hI with rfl | rfl <;>
          simp [hNone]
      rw [hRates]

theorem getSessionStats_of_early
    (hCounters : ¬ HasCounters idx values)
    (s : SessionStats) :
    values.getSessionStats idx rate clock s = some s :=
  if_pos (Bool.of_not_eq_false hCounters)

end SessionValues

end Sheath

end Kedge

------------------------------------------------------------
-- Where the Two Functions Agree
------------------------------------------------------------

namespace Kedge

open Json

namespace Sheath

/-
  Both functions return, and the object in the document is
  the one returned alone. Each call has its own memory.
-/
def StatsAgree
    (idx : Metrics ℤ)
    (rate : Int64 → UInt64 → Int32)
    (clock : Clock)
    (values : SessionValues)
    (isPaused : Bool)
    (entries : List (Σ _ : Handle, TorrentStatus))
    (memory syncMemory : SessionStats) : Prop :=
  ∃ object members,
    sheathSessionStats idx rate clock values isPaused
        memory = some object ∧
      sheathSyncStats idx rate clock values entries
        syncMemory = some (.object members) ∧
      Value.find members "stats".toList =
        some (.object object)

/- The result does not depend on uninitialised memory. -/
def Determined
    {α : Type}
    (result : SessionStats → Option α) : Prop :=
  ∃ x, ∀ memory, result memory = some x

/- Two pairs of rates that show the same. -/
structure SameRates (a b : Int64 × Int64) : Prop where
  rates : a.1 + a.2 = b.1 + b.2
  rateRecv : SamePositive a.1 b.1
  rateSent : SamePositive a.2 b.2

/-
  The condition for the two to agree: the fields that are
  shown without having been written happen to be the same.
-/
def MemoryAgrees
    (idx : Metrics ℤ)
    (values : SessionValues)
    (isPaused : Bool)
    (memory syncMemory : SessionStats) : Prop :=
  ¬ HasCounters idx values ∧
      SameShown syncMemory
        { memory with isPaused := isPaused } ∨
    HasCounters idx values ∧ InRange idx values ∧
      syncMemory.isPaused = isPaused ∧
      (HasOldCounters idx values ∨
        SameRates
          (syncMemory.rateRecv, syncMemory.rateSent)
          (memory.rateRecv, memory.rateSent))

variable (idx : Metrics ℤ)
variable (rate : Int64 → UInt64 → Int32)
variable (clock : Clock)
variable (values : SessionValues)
variable (isPaused : Bool)
variable (entries : List (Σ _ : Handle, TorrentStatus))

theorem SamePositive.refl
    {α : Type}
    [LT α] [OfNat α 0]
    (x : α) :
    SamePositive x x :=
  Or.inl rfl

theorem sameShown_toStats_iff
    (c : Metrics Int64)
    (a b : Int64 × Int64)
    (p q : Bool) :
    SameShown (c.toStats a clock p) (c.toStats b clock q) ↔
      p = q ∧ SameRates a b := by
  constructor
  · intro hShown
    exact ⟨hShown.isPaused,
      hShown.rates, hShown.rateRecv, hShown.rateSent⟩
  · rintro ⟨rfl, hRates⟩
    rw [sameShown_iff]
    simp only [Metrics.toStats, SessionStats.activeCount,
      SessionStats.pausedCount, SamePositive.refl,
      hRates.rates, hRates.rateRecv, hRates.rateSent,
      and_self]

/- The two functions agree when their statistics do. -/
theorem statsAgree_iff_sameShown
    (memory syncMemory : SessionStats) :
    StatsAgree idx rate clock values isPaused entries
        memory syncMemory ↔
      ∃ a b,
        values.getSessionStats idx rate clock memory =
            some a ∧
          values.getSessionStats idx rate clock syncMemory =
            some b ∧
          SameShown b { a with isPaused := isPaused } := by
  unfold StatsAgree sheathSessionStats sheathSyncStats
  simp only [Option.map_eq_some_iff]
  constructor
  · rintro ⟨object, members, ⟨a, hA, hObject⟩,
      ⟨b, hB, hMembers⟩, hFind⟩
    refine ⟨a, b, hA, hB, ?_⟩
    rw [← toJsonObject_eq_iff, hObject]
    cases hMembers
    cases hFind
    rfl
  · rintro ⟨a, b, hA, hB, hShown⟩
    rw [← toJsonObject_eq_iff] at hShown
    refine ⟨_, _, ⟨a, hA, rfl⟩, ⟨b, hB, rfl⟩, ?_⟩
    rw [← hShown]
    rfl

theorem statsAgree_iff_memoryAgrees
    (memory syncMemory : SessionStats) :
    StatsAgree idx rate clock values isPaused entries
        memory syncMemory ↔
      MemoryAgrees idx values isPaused memory
        syncMemory := by
  rw [statsAgree_iff_sameShown]
  unfold MemoryAgrees
  by_cases hCounters : HasCounters idx values
  · by_cases hRange : InRange idx values
    · rcases SessionValues.exists_getSessionStats_eq
          hCounters hRange with ⟨c, written, hStats⟩
      rw [hStats memory, hStats syncMemory]
      simp only [Option.some.injEq, exists_and_left,
        exists_eq_left', hCounters, hRange,
        not_true_eq_false, false_and, true_and, false_or]
      change SameShown _ (c.toStats _ clock isPaused) ↔ _
      rw [sameShown_toStats_iff]
      unfold HasOldCounters
      cases sizeLess values.cnt1.length idx.sendData with
      | true => simp
      | false =>
          have hSame : SameRates written written :=
            ⟨rfl, Or.inl rfl, Or.inl rfl⟩
          simp [hSame]
    · rw [SessionValues.getSessionStats_eq_none hCounters
        hRange]
      simp [hCounters, hRange]
  · rw [SessionValues.getSessionStats_of_early hCounters,
      SessionValues.getSessionStats_of_early hCounters]
    simp [hCounters]

end Sheath

end Kedge

------------------------------------------------------------
-- What the Two Functions Depend On
------------------------------------------------------------

namespace Kedge

open Json

namespace Sheath

/- Memory that happens to be zero. -/
def zeroMemory : SessionStats where
  bytesRecv := 0
  bytesSent := 0
  bytesDataRecv := 0
  bytesDataSent := 0
  rateRecv := 0
  rateSent := 0
  bytesFailed := 0
  bytesWasted := 0
  bytesQueued := 0
  numChecking := 0
  numDownloading := 0
  numSeeding := 0
  numStopped := 0
  numQueued := 0
  numError := 0
  numPeersConnected := 0
  numPeersHalfOpen := 0
  limitUpQueue := 0
  limitDownQueue := 0
  queuedTrackerAnnounces := 0
  hasIncoming := false
  isPaused := false
  uptime := 0
  uptimeMs := 0

variable (idx : Metrics ℤ)
variable (rate : Int64 → UInt64 → Int32)
variable (clock : Clock)
variable (values : SessionValues)
variable (isPaused : Bool)
variable (entries : List (Σ _ : Handle, TorrentStatus))

/- What is made of the statistics is the same throughout. -/
theorem Determined.same
    {idx : Metrics ℤ}
    {rate : Int64 → UInt64 → Int32}
    {clock : Clock}
    {values : SessionValues}
    {α : Type}
    {f : SessionStats → α}
    (hDetermined :
      Determined fun memory =>
        (values.getSessionStats idx rate clock memory).map f)
    {s t a b : SessionStats}
    (hA : values.getSessionStats idx rate clock s = some a)
    (hB : values.getSessionStats idx rate clock t = some b) :
    f a = f b := by
  rcases hDetermined with ⟨x, hX⟩
  dsimp only at hX
  have hLeft := hX s
  have hRight := hX t
  rw [hA, Option.map_some, Option.some.injEq] at hLeft
  rw [hB, Option.map_some, Option.some.injEq] at hRight
  exact hLeft.trans hRight.symm

/- No index is out of range, whatever the memory holds. -/
theorem Determined.inRange
    {idx : Metrics ℤ}
    {rate : Int64 → UInt64 → Int32}
    {clock : Clock}
    {values : SessionValues}
    {α : Type}
    {f : SessionStats → α}
    (hDetermined :
      Determined fun memory =>
        (values.getSessionStats idx rate clock memory).map f)
    (hCounters : HasCounters idx values) :
    InRange idx values := by
  by_contra hRange
  rcases hDetermined with ⟨x, hX⟩
  dsimp only at hX
  have hNone := hX zeroMemory
  rw [SessionValues.getSessionStats_eq_none hCounters
    hRange] at hNone
  cases hNone

/- Determined objects show the same for any memory. -/
theorem sameShown_of_sheathSessionStats
    {idx : Metrics ℤ}
    {rate : Int64 → UInt64 → Int32}
    {clock : Clock}
    {values : SessionValues}
    {isPaused : Bool}
    (hDetermined :
      Determined
        (sheathSessionStats idx rate clock values isPaused))
    {s t a b : SessionStats}
    (hA : values.getSessionStats idx rate clock s = some a)
    (hB : values.getSessionStats idx rate clock t = some b) :
    SameShown { a with isPaused := isPaused }
      { b with isPaused := isPaused } :=
  (toJsonObject_eq_iff _ _).mp (hDetermined.same hA hB)

theorem sameShown_of_sheathSyncStats
    {idx : Metrics ℤ}
    {rate : Int64 → UInt64 → Int32}
    {clock : Clock}
    {values : SessionValues}
    {entries : List (Σ _ : Handle, TorrentStatus)}
    (hDetermined :
      Determined
        (sheathSyncStats idx rate clock values entries))
    {s t a b : SessionStats}
    (hA : values.getSessionStats idx rate clock s = some a)
    (hB : values.getSessionStats idx rate clock t = some b) :
    SameShown a b := by
  have hMembers :=
    Value.object.inj (hDetermined.same hA hB)
  have hStats := (List.cons.inj hMembers).1
  exact (toJsonObject_eq_iff _ _).mp
    (Value.object.inj (congrArg Prod.snd hStats))

/- The object that is returned alone sets its own flag. -/
theorem determined_sheathSessionStats_iff :
    Determined
        (sheathSessionStats idx rate clock values isPaused) ↔
      HasCounters idx values ∧ HasOldCounters idx values ∧
        InRange idx values := by
  constructor
  · intro hDetermined
    let other := { zeroMemory with rateRecv := 1 }
    by_cases hCounters : HasCounters idx values
    · have hRange := hDetermined.inRange hCounters
      refine ⟨hCounters, ?_, hRange⟩
      by_contra hOld
      rcases SessionValues.exists_getSessionStats_eq
          hCounters hRange with ⟨c, written, hStats⟩
      have hShown :=
        sameShown_of_sheathSessionStats hDetermined
          (hStats zeroMemory) (hStats other)
      have hLack := Bool.of_not_eq_false hOld
      rw [if_pos hLack, if_pos hLack] at hShown
      have hRates : (0 : Int64) + 0 = 1 + 0 := hShown.rates
      exact absurd hRates (by decide)
    · have hShown :=
        sameShown_of_sheathSessionStats hDetermined
          (SessionValues.getSessionStats_of_early hCounters
            zeroMemory)
          (SessionValues.getSessionStats_of_early hCounters
            other)
      have hRates : (0 : Int64) + 0 = 1 + 0 := hShown.rates
      exact absurd hRates (by decide)
  · rintro ⟨hCounters, hOld, hRange⟩
    rcases SessionValues.exists_getSessionStats_eq
        hCounters hRange with ⟨c, written, hStats⟩
    refine ⟨toJsonObject (c.toStats written clock isPaused),
      ?_⟩
    intro memory
    unfold HasOldCounters at hOld
    unfold sheathSessionStats
    rw [hStats, hOld]
    rfl

/- The flag in the document is never written. -/
theorem not_determined_sheathSyncStats :
    ¬ Determined
      (sheathSyncStats idx rate clock values entries) := by
  intro hDetermined
  let other := { zeroMemory with isPaused := true }
  by_cases hCounters : HasCounters idx values
  · have hRange := hDetermined.inRange hCounters
    rcases SessionValues.exists_getSessionStats_eq
        hCounters hRange with ⟨c, written, hStats⟩
    have hShown :=
      sameShown_of_sheathSyncStats hDetermined
        (hStats zeroMemory) (hStats other)
    cases hShown.isPaused
  · have hShown :=
      sameShown_of_sheathSyncStats hDetermined
        (SessionValues.getSessionStats_of_early hCounters
          zeroMemory)
        (SessionValues.getSessionStats_of_early hCounters
          other)
    cases hShown.isPaused

/-
  For each content of the memory the two objects are equal
  exactly when the memory agrees where it shows. The object
  that is returned alone is determined by the counters, the
  paused state and the clock when all fields are written;
  the one in the document never is.
-/
theorem statistics_agree_iff :
    (∀ memory syncMemory,
      StatsAgree idx rate clock values isPaused entries
          memory syncMemory ↔
        MemoryAgrees idx values isPaused memory
          syncMemory) ∧
      (Determined
          (sheathSessionStats idx rate clock values
            isPaused) ↔
        HasCounters idx values ∧
          HasOldCounters idx values ∧ InRange idx values) ∧
      ¬ Determined
        (sheathSyncStats idx rate clock values entries) := by
  refine ⟨?_, ?_, ?_⟩
  · exact statsAgree_iff_memoryAgrees idx rate clock values
      isPaused entries
  · exact determined_sheathSessionStats_iff idx rate clock
      values isPaused
  · exact not_determined_sheathSyncStats idx rate clock
      values entries

/- The indices of twenty metrics in a row. -/
def rowOfMetrics : Metrics ℤ where
  numChecking := 0
  numDownloading := 1
  numSeeding := 2
  numStopped := 3
  numQueuedSeeding := 4
  numQueuedDownload := 5
  numError := 6
  recv := 7
  sent := 8
  recvData := 9
  sendData := 10
  failedBytes := 11
  queuedBytes := 12
  wastedBytes := 13
  numPeersConnected := 14
  numPeersHalfOpen := 15
  limiterUpQueue := 16
  limiterDownQueue := 17
  hasIncoming := 18
  queuedTrackerAnnounces := 19

/- The session is paused, and the document does not say so. -/
theorem paused_session_not_shown :
    ¬ StatsAgree rowOfMetrics (fun _ _ => 0) ⟨60, 60000⟩
      ⟨List.replicate 20 0, List.replicate 20 0, 2, 1⟩ true
      [] zeroMemory zeroMemory := by
  rw [statsAgree_iff_memoryAgrees]
  rintro (⟨hEarly, _⟩ | ⟨_, _, hFlag, _⟩)
  · exact hEarly rfl
  · cases hFlag

end Sheath

end Kedge
