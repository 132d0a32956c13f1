import Kedge.Library.Run
import Kedge.Library.Window
import Kedge.Sheath.SessionStats

/-
  The two sets of counters over a run: construction and
  `updateCounters` of `sessionValues`.

  An update swaps the vectors and copies the timestamp, so
  the counters and their timestamps stay together and form a
  window over the updates. The constructor leaves the two
  timestamps uninitialised, and what they hold takes part in
  the first differences.

  Key definitions include:
    * `Snapshot`
    * `SessionValues.step`
    * `SessionValues.SafeStats`
    * `Readable`

  Main theorems include:
    * `SessionValues.rate_window_matched`
    * `SessionValues.session_stats_safe_iff`
-/

------------------------------------------------------------
-- Updates
------------------------------------------------------------

namespace Kedge

namespace Sheath

/- The arguments of `updateCounters`. -/
structure Snapshot where
  counters : List Int64
  timestamp : UInt64
  deriving DecidableEq

namespace SessionValues

/- The values after `sessionValues()`. -/
def constructed
    (metrics : Nat)
    (timestamp0 timestamp1 : UInt64) : SessionValues where
  cnt0 := List.replicate metrics 0
  cnt1 := List.replicate metrics 0
  timestamp0 := timestamp0
  timestamp1 := timestamp1

def step
    (values : SessionValues)
    (update : Snapshot) : Option SessionValues :=
  some
    (values.updateCounters update.counters update.timestamp)

/- The call with this position takes the swap branch. -/
def SwapsAt
    (values : SessionValues)
    (updates : List Snapshot)
    (k : Nat) : Prop :=
  ∃ update before,
    updates[k]? = some update ∧
      Run.exec step values (updates.take k) = some before ∧
      update.timestamp - before.timestamp1 > 2000000

end SessionValues

end Sheath

end Kedge

------------------------------------------------------------
-- The Window over the Updates
------------------------------------------------------------

namespace Kedge

namespace Sheath

/- The condition of the swap branch. -/
def Snapshot.far (new old : Snapshot) : Bool :=
  decide (new.timestamp - old.timestamp > 2000000)

namespace SessionValues

/- The vectors with their timestamps. -/
def window (values : SessionValues) : Window Snapshot where
  previous := ⟨values.cnt1, values.timestamp1⟩
  last := ⟨values.cnt0, values.timestamp0⟩

theorem eq_of_window
    (values : SessionValues) :
    values =
      ⟨values.window.last.counters,
        values.window.previous.counters,
        values.window.last.timestamp,
        values.window.previous.timestamp⟩ := rfl

/- The swap keeps counters and timestamps together. -/
theorem window_updateCounters
    (values : SessionValues)
    (update : Snapshot) :
    (values.updateCounters update.counters
        update.timestamp).window =
      values.window.push Snapshot.far update := by
  unfold updateCounters Window.push Snapshot.far window
  by_cases hFar :
      update.timestamp - values.timestamp1 > 2000000
  · simp [hFar]
  · simp [hFar]

theorem window_of_exec
    {values finish : SessionValues}
    {updates : List Snapshot}
    (hExec : Run.exec step values updates = some finish) :
    finish.window =
      values.window.pushAll Snapshot.far updates := by
  have hStep :
      ∀ past s update next,
        s.window =
            values.window.pushAll Snapshot.far past →
          step s update = some next →
            next.window =
              values.window.pushAll Snapshot.far
                (past ++ [update]) := by
    intro past s update next hPast hNext
    cases hNext
    rw [window_updateCounters, hPast, Window.pushAll_concat]
  exact Run.invariant_of_past hStep rfl hExec

end SessionValues

end Sheath

end Kedge

------------------------------------------------------------
-- Rates over Matching Snapshots
------------------------------------------------------------

namespace Kedge

namespace Sheath

namespace SessionValues

/- The window moves on where the swap branch is taken. -/
theorem advancesAt_of_swapsAt
    {values : SessionValues}
    {updates : List Snapshot}
    {k : Nat}
    (hSwaps : values.SwapsAt updates k) :
    values.window.AdvancesAt Snapshot.far updates k := by
  rcases hSwaps with ⟨update, before, hUpdate, hExec, hFar⟩
  refine ⟨update, hUpdate, ?_⟩
  rw [← window_of_exec hExec]
  exact decide_eq_true hFar

/- Later timestamps are at a positive distance. -/
theorem toNat_sub_of_increasing
    {updates : List Snapshot}
    (hIncreasing :
      updates.Pairwise (·.timestamp < ·.timestamp))
    {i j : Nat}
    {old new : Snapshot}
    (hOrder : i < j)
    (hOld : updates[i]? = some old)
    (hNew : updates[j]? = some new) :
    (new.timestamp - old.timestamp).toNat =
        new.timestamp.toNat - old.timestamp.toNat ∧
      0 < new.timestamp - old.timestamp := by
  rcases List.getElem?_eq_some_iff.mp hOld with ⟨hI, rfl⟩
  rcases List.getElem?_eq_some_iff.mp hNew with ⟨hJ, rfl⟩
  have hLess : updates[i].timestamp < updates[j].timestamp :=
    List.pairwise_iff_getElem.mp hIncreasing i j hI hJ hOrder
  rw [UInt64.lt_iff_toNat_lt] at hLess
  have hDifference :
      (updates[j].timestamp - updates[i].timestamp).toNat =
        updates[j].timestamp.toNat -
          updates[i].timestamp.toNat :=
    UInt64.toNat_sub_of_le _ _
      (UInt64.le_iff_toNat_le.mpr (Nat.le_of_lt hLess))
  refine ⟨hDifference, ?_⟩
  rw [UInt64.lt_iff_toNat_lt, hDifference, UInt64.toNat_zero]
  omega

/-
  Once a call behind the first has swapped, the two sets are
  those of the last call and of one call before it, with
  their own timestamps. The difference is that to the call
  right before the last, or at most two seconds.
-/
theorem rate_window_matched
    {values finish : SessionValues}
    {updates : List Snapshot}
    {k : Nat}
    (hIncreasing :
      updates.Pairwise (·.timestamp < ·.timestamp))
    (hExec : Run.exec step values updates = some finish)
    (hLater : 1 ≤ k)
    (hSwaps : values.SwapsAt updates k) :
    ∃ j old new,
      j + 1 < updates.length ∧
        updates[j]? = some old ∧
        updates.getLast? = some new ∧
        finish =
          ⟨new.counters, old.counters, new.timestamp,
            old.timestamp⟩ ∧
        (new.timestamp - old.timestamp).toNat =
          new.timestamp.toNat - old.timestamp.toNat ∧
        0 < new.timestamp - old.timestamp ∧
        (j + 2 = updates.length ∨
          new.timestamp - old.timestamp ≤ 2000000) := by
  have hWindow := window_of_exec hExec
  rcases Window.exists_previous_of_advances hLater
      (advancesAt_of_swapsAt hSwaps) with
    ⟨j, hJ, hOld, hNear⟩
  rw [← hWindow] at hOld hNear
  have hShort : updates.length - 1 < updates.length := by
    omega
  have hNew := List.getElem?_eq_getElem hShort
  have hLast :
      updates[updates.length - 1] = finish.window.last := by
    rw [hWindow]
    exact (Window.pushAll_last_of_getElem? values.window
      (by omega) hNew).symm
  rw [hLast] at hNew
  rcases toNat_sub_of_increasing hIncreasing
      (by omega) hOld hNew with ⟨hDifference, hPositive⟩
  refine ⟨j, finish.window.previous, finish.window.last, hJ,
    hOld, ?_, eq_of_window finish, hDifference, hPositive,
    ?_⟩
  · rw [List.getLast?_eq_getElem?]
    exact hNew
  · rcases hNear with hGap | hNear
    · exact Or.inl hGap
    · have hClose :
          ¬ finish.window.last.timestamp -
              finish.window.previous.timestamp > 2000000 :=
        of_decide_eq_false hNear
      exact Or.inr (UInt64.not_lt.mp hClose)

def threeCalls : List Snapshot :=
  [⟨[1], 10⟩, ⟨[2], 2000001⟩, ⟨[3], 2000005⟩]

/- The second of three calls swaps, and the third does not. -/
theorem rate_window_matched_three_calls :
    ∃ j old new,
      j + 1 < threeCalls.length ∧
        threeCalls[j]? = some old ∧
        threeCalls.getLast? = some new ∧
        SessionValues.mk [3] [1] 2000005 10 =
          ⟨new.counters, old.counters, new.timestamp,
            old.timestamp⟩ := by
  have hExec :
      Run.exec step (constructed 1 0 0) threeCalls =
        some ⟨[3], [1], 2000005, 10⟩ := by
    rfl
  have hSwaps : (constructed 1 0 0).SwapsAt threeCalls 1 :=
    ⟨⟨[2], 2000001⟩, ⟨[1], [0], 10, 0⟩, rfl, rfl, by decide⟩
  rcases rate_window_matched (by decide) hExec
      (Nat.le_refl 1) hSwaps with
    ⟨j, old, new, hJ, hOld, hNew, hFinish, _⟩
  exact ⟨j, old, new, hJ, hOld, hNew, hFinish⟩

end SessionValues

end Sheath

end Kedge

------------------------------------------------------------
-- Safe Statistics
------------------------------------------------------------

namespace Kedge

namespace Sheath

namespace SessionValues

/-
  The time difference that divides the rates, where the
  guards of `getSessionStats` let them be computed. Its
  quotient by a million is zero where it is zero itself.
-/
def ratesDivisor
    (idx : Metrics ℤ)
    (values : SessionValues) : Option UInt64 :=
  if sizeLess values.cnt0.length
      idx.queuedTrackerAnnounces then none
  else if sizeLess values.cnt1.length idx.sendData then none
  else some (values.timestamp0 - values.timestamp1)

/-
  No element is read out of range, whatever the memory
  holds, and no rate is divided by zero.
-/
structure SafeStats
    (idx : Metrics ℤ)
    (values : SessionValues) : Prop where
  inRange :
    ∀ rate clock memory,
      values.getSessionStats idx rate clock memory ≠ none
  divisor : values.ratesDivisor idx ≠ some 0

end SessionValues

/- The indices of a list are among so many counters. -/
def Within (indices : List ℤ) (size : Nat) : Prop :=
  ∀ i ∈ indices, 0 ≤ i ∧ i < size

/-
  The last set of counters and the one before it can be
  read: the last one has fewer counters than the first guard
  asks for, or has all that are read; and then the one
  before has fewer than the second guard asks for, or has
  those of the rates and another timestamp.
-/
def Readable
    (idx : Metrics ℤ)
    (last previous : Snapshot) : Prop :=
  sizeLess last.counters.length
        idx.queuedTrackerAnnounces = true ∨
    Within idx.toList last.counters.length ∧
      (sizeLess previous.counters.length idx.sendData =
          true ∨
        Within [idx.recv, idx.sent]
            previous.counters.length ∧
          last.timestamp ≠ previous.timestamp)

/- The set of counters that stays behind an update. -/
def SessionValues.keptBy
    (values : SessionValues)
    (update : Snapshot) : Snapshot :=
  if update.timestamp - values.timestamp1 > 2000000 then
    ⟨values.cnt0, values.timestamp0⟩
  else ⟨values.cnt1, values.timestamp1⟩

namespace SessionValues

theorem forall_getSessionStats_ne_none_iff
    (idx : Metrics ℤ)
    (values : SessionValues) :
    (∀ rate clock memory,
        values.getSessionStats idx rate clock memory ≠
          none) ↔
      (HasCounters idx values → InRange idx values) := by
  constructor
  · intro hSome hCounters
    by_contra hRange
    exact hSome (fun _ _ => 0) ⟨0, 0⟩ zeroMemory
      (getSessionStats_eq_none hCounters hRange zeroMemory)
  · intro hRange rate clock memory
    by_cases hCounters : HasCounters idx values
    · rcases @exists_getSessionStats_eq idx rate clock values
          hCounters (hRange hCounters) with
        ⟨c, written, hStats⟩
      rw [hStats memory]
      exact Option.some_ne_none _
    · rw [getSessionStats_of_early hCounters]
      exact Option.some_ne_none _

/- Equal timestamps have no difference. -/
theorem sub_eq_zero_iff_eq
    (a b : UInt64) :
    a - b = 0 ↔ a = b := by
  constructor
  · intro hZero
    rw [← UInt64.sub_add_cancel a b, hZero, UInt64.zero_add]
  · rintro rfl
    exact UInt64.sub_self a

/- The state of the values decides. -/
theorem safeStats_iff
    (idx : Metrics ℤ)
    (values : SessionValues) :
    values.SafeStats idx ↔
      Readable idx values.window.last
        values.window.previous := by
  have hSafe :
      values.SafeStats idx ↔
        (HasCounters idx values → InRange idx values) ∧
          values.ratesDivisor idx ≠ some 0 := by
    rw [← forall_getSessionStats_ne_none_iff]
    exact ⟨fun h => ⟨h.inRange, h.divisor⟩,
      fun h => ⟨h.1, h.2⟩⟩
  rw [hSafe]
  unfold Readable ratesDivisor HasCounters window
  dsimp only
  cases hEarly :
      sizeLess values.cnt0.length
        idx.queuedTrackerAnnounces with
  | true => simp
  | false =>
      cases hOld :
          sizeLess values.cnt1.length idx.sendData with
      | true =>
          have hRange :
              InRange idx values ↔
                Within idx.toList values.cnt0.length := by
            constructor
            · exact InRange.cnt0
            · intro hWithin
              refine ⟨hWithin, ?_⟩
              intro hHasOld
              rw [HasOldCounters, hOld] at hHasOld
              cases hHasOld
          simp [hRange]
      | false =>
          have hRange :
              InRange idx values ↔
                Within idx.toList values.cnt0.length ∧
                  Within [idx.recv, idx.sent]
                    values.cnt1.length := by
            constructor
            · exact fun h => ⟨h.cnt0, h.cnt1 hOld⟩
            · exact fun h => ⟨h.1, fun _ => h.2⟩
          simp [hRange, sub_eq_zero_iff_eq, and_assoc]

/- An update leaves the new set and the one it keeps. -/
theorem window_step
    {values next : SessionValues}
    {update : Snapshot}
    (hStep : values.step update = some next) :
    next.window.last = update ∧
      next.window.previous = values.keptBy update := by
  cases hStep
  rw [window_updateCounters]
  refine ⟨Window.push_last _ _, ?_⟩
  unfold Window.push keptBy Snapshot.far window
  by_cases hFar :
      update.timestamp - values.timestamp1 > 2000000
  · simp [hFar]
  · simp [hFar]

/- The step condition of runs that are safe throughout. -/
theorem safeStats_step_iff
    (idx : Metrics ℤ)
    (values : SessionValues)
    (update : Snapshot) :
    (∀ next, values.step update = some next →
        next.SafeStats idx) ↔
      Readable idx update (values.keptBy update) := by
  constructor
  · intro hNext
    have hSafe := hNext _ rfl
    rw [safeStats_iff] at hSafe
    rcases window_step rfl with ⟨hLast, hPrevious⟩
    rwa [hLast, hPrevious] at hSafe
  · intro hReadable next hStep
    rcases window_step hStep with ⟨hLast, hPrevious⟩
    rw [safeStats_iff, hLast, hPrevious]
    exact hReadable

theorem readable_of_within
    {idx : Metrics ℤ}
    {last previous : Snapshot}
    (hLast : Within idx.toList last.counters.length)
    (hPrevious : Within idx.toList previous.counters.length)
    (hApart : last.timestamp ≠ previous.timestamp) :
    Readable idx last previous := by
  refine Or.inr ⟨hLast, Or.inr ⟨?_, hApart⟩⟩
  intro i hI
  apply hPrevious i
  rcases List.mem_pair.mp hI with rfl | rfl <;>
    simp [Metrics.toList]

/- Any two sets that a run has seen can be read together. -/
theorem pairwise_readable
    {idx : Metrics ℤ}
    {metrics : Nat}
    {timestamp0 timestamp1 : UInt64}
    {updates : List Snapshot}
    (hTable : Within idx.toList metrics)
    (hStart : timestamp0 ≠ timestamp1)
    (hIncreasing :
      updates.Pairwise (·.timestamp < ·.timestamp))
    (hUpdates :
      ∀ update ∈ updates,
        Within idx.toList update.counters.length)
    (hLeft :
      ∀ update ∈ updates,
        update.timestamp ≠ timestamp0 ∧
          update.timestamp ≠ timestamp1) :
    ((constructed metrics timestamp0
        timestamp1).window.history updates).Pairwise
      (fun previous last => Readable idx last previous) := by
  have hZeros :
      Within idx.toList
        (List.replicate metrics (0 : Int64)).length := by
    rwa [List.length_replicate]
  refine List.Pairwise.cons ?_ (List.Pairwise.cons ?_ ?_)
  · intro later hLater
    rcases List.mem_cons.mp hLater with rfl | hIn
    · exact readable_of_within hZeros hZeros hStart
    · exact readable_of_within (hUpdates later hIn) hZeros
        (hLeft later hIn).2
  · intro later hIn
    exact readable_of_within (hUpdates later hIn) hZeros
      (hLeft later hIn).1
  · apply hIncreasing.imp_of_mem
    intro old new hOld hNew hLess
    exact readable_of_within (hUpdates new hNew)
      (hUpdates old hOld) (UInt64.ne_of_lt hLess).symm

/-
  The statistics are safe in every state of a run exactly
  when the values are readable after construction and each
  update leaves readable sets. They are where every set has
  the counters of the table, and the timestamps left in the
  memory differ from each other and from all that follow.
-/
theorem session_stats_safe_iff
    (idx : Metrics ℤ)
    (metrics : Nat)
    (timestamp0 timestamp1 : UInt64)
    (updates : List Snapshot) :
    let start := constructed metrics timestamp0 timestamp1
    let SafeThroughout :=
      ∀ past reached, past <+: updates →
        Run.exec step start past = some reached →
          reached.SafeStats idx
    (SafeThroughout ↔
      Readable idx start.window.last start.window.previous ∧
        Run.Meets step
          (fun values update =>
            Readable idx update (values.keptBy update))
          start updates) ∧
      (updates.Pairwise (·.timestamp < ·.timestamp) →
        Within idx.toList metrics →
        (∀ update ∈ updates,
          Within idx.toList update.counters.length) →
        timestamp0 ≠ timestamp1 →
        (∀ update ∈ updates,
          update.timestamp ≠ timestamp0 ∧
            update.timestamp ≠ timestamp1) →
        SafeThroughout) := by
  intro start SafeThroughout
  constructor
  · have hMeets :
        Run.Meets step
            (fun values update =>
              ∀ next, values.step update = some next →
                next.SafeStats idx)
            start updates ↔
          Run.Meets step
            (fun values update =>
              Readable idx update (values.keptBy update))
            start updates := by
      constructor
      · exact Run.Meets.mono fun values update =>
          (safeStats_step_iff idx values update).mp
      · exact Run.Meets.mono fun values update =>
          (safeStats_step_iff idx values update).mpr
    rw [← safeStats_iff, ← hMeets]
    exact Run.forall_reached_iff start updates
  · intro hIncreasing hTable hUpdates hStart hLeft
      past reached hPast hExec
    rw [safeStats_iff, window_of_exec hExec]
    apply Window.related_of_pairwise
      (R := fun previous last => Readable idx last previous)
    exact pairwise_readable hTable hStart
      (hIncreasing.sublist hPast.sublist)
      (fun update hIn => hUpdates update (hPast.subset hIn))
      (fun update hIn => hLeft update (hPast.subset hIn))

/- One set of twenty counters behind the construction. -/
theorem session_stats_safe_iff_one_update :
    ((constructed 20 1 0).updateCounters
        (List.replicate 20 0) 5).SafeStats rowOfMetrics := by
  let update : Snapshot := ⟨List.replicate 20 0, 5⟩
  have hWithin : Within rowOfMetrics.toList 20 := by
    unfold Within
    decide
  refine (session_stats_safe_iff rowOfMetrics 20 1 0
    [update]).2 (List.pairwise_singleton _ _) hWithin ?_
    (by decide) ?_ [update] _ (List.prefix_refl _) rfl
  · intro other hOther
    rw [List.mem_singleton.mp hOther]
    exact hWithin
  · intro other hOther
    rw [List.mem_singleton.mp hOther]
    exact ⟨by decide, by decide⟩

/-
  Zero memory makes the first difference zero, and a table
  with an index right behind the last counter passes the
  guard.
-/
theorem first_statistics_unsafe :
    (∃ reached,
      Run.exec step (constructed 20 0 0) [] = some reached ∧
        reached.ratesDivisor rowOfMetrics = some 0) ∧
      ∃ reached,
        Run.exec step (constructed 20 1 0)
            [⟨List.replicate 19 0, 5⟩] =
          some reached ∧
        ∀ rate clock memory,
          reached.getSessionStats rowOfMetrics rate clock
            memory = none := by
  constructor
  · exact ⟨_, rfl, rfl⟩
  · refine ⟨_, rfl, ?_⟩
    intro rate clock memory
    rfl

end SessionValues

end Sheath

end Kedge
