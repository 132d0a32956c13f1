import Kedge.Sync.Convergence

/-
  The version numbers a client sees.

  `join` counts up `sync_ver`, reads it and posts its
  message in one critical section. `doLoop` counts up
  first, reads the counter when it builds its message and
  copies the session list later still, each time without
  `mutex_`. A session that joins in between is given a
  snapshot at least as new as the delta it is sent next.

  Main declarations:
    * `Message.version`
    * `Caller.Ordered`
    * `Caller.ordered_step`
    * `versions_increase`
-/

------------------------------------------------------------
-- Versions of Posted Messages
------------------------------------------------------------

namespace Kedge

namespace Sync

variable {D P : Type}

/- The member `version` of a message. -/
def Message.version : Message D P → UInt64
  | .snapshot version _ _ => version
  | .delta version _ _ _ => version

theorem lt_add_one_of_no_wrap
    {version : UInt64}
    (hWrap : version + 1 ≠ 0) :
    version < version + 1 := by
  have hBound := version.toNat_lt
  have hNat : (version + 1).toNat ≠ 0 := by
    intro hZero
    exact hWrap (UInt64.toNat_inj.mp hZero)
  rw [UInt64.toNat_add] at hNat
  rw [UInt64.lt_iff_toNat_lt, UInt64.toNat_add]
  change _ < (version.toNat + 1) % _
  change (version.toNat + 1) % _ ≠ 0 at hNat
  omega

namespace Caller

/- All messages posted to the session are older. -/
def OlderThan
    (s : Caller D P)
    (version : UInt64)
    (w : SessionId) : Prop :=
  ∀ message ∈ s.posted w, message.version < version

/-
  The version of the running pass is new to the sessions
  that are still to be sent its message.
-/
def PassAhead (s : Caller D P) : Prop :=
  match s.pass with
  | .idle => True
  | .entered => True
  | .counted => ∀ w, s.OlderThan s.syncVer w
  | .assigned => ∀ w, s.OlderThan s.syncVer w
  | .built message =>
      message.version ≤ s.syncVer ∧
        ∀ w, s.OlderThan message.version w
  | .sending message targets =>
      message.version ≤ s.syncVer ∧
        ∀ w ∈ targets, s.OlderThan message.version w

structure Ordered (s : Caller D P) : Prop where
  increasing :
    ∀ w, ((s.posted w).map Message.version).Pairwise (· < ·)
  bounded :
    ∀ w, ∀ message ∈ s.posted w,
      message.version ≤ s.syncVer
  ahead : s.PassAhead

/- The pass has counted and not yet copied the sessions. -/
def Counting (s : Caller D P) : Prop :=
  match s.pass with
  | .counted => True
  | .assigned => True
  | .built _ => True
  | _ => False

/-
  No session joins between the count of a pass and its copy
  of the session list, and the counter does not wrap.
-/
def CountsApart (s : Caller D P) : Action D → Prop
  | .join _ _ _ _ => ¬ s.Counting ∧ s.syncVer + 1 ≠ 0
  | .count => s.syncVer + 1 ≠ 0
  | _ => True

theorem ordered_init
    (f : Format D P) :
    Ordered (init f) where
  increasing := fun _ => List.Pairwise.nil
  bounded := by
    intro w message hMessage
    cases hMessage
  ahead := trivial

end Caller

end Sync

end Kedge

------------------------------------------------------------
-- Every Step Keeps the Order
------------------------------------------------------------

namespace Kedge

namespace Sync

namespace Caller

variable {D P : Type}
variable {f : Format D P}
variable {s : Caller D P}

/- A step that posts nothing and leaves the counter alone. -/
theorem Ordered.of_quiet
    {next : Caller D P}
    (hOrdered : s.Ordered)
    (hPosted : ∀ w, next.posted w = s.posted w)
    (hVer : next.syncVer = s.syncVer)
    (hAhead : next.PassAhead) :
    next.Ordered where
  increasing := by
    intro w
    rw [hPosted]
    exact hOrdered.increasing w
  bounded := by
    intro w
    rw [hPosted, hVer]
    exact hOrdered.bounded w
  ahead := hAhead

/- Such a step may also leave the pass alone. -/
theorem passAhead_congr
    {next : Caller D P}
    (hPosted : ∀ w, next.posted w = s.posted w)
    (hVer : next.syncVer = s.syncVer)
    (hPass : next.pass = s.pass) :
    next.PassAhead ↔ s.PassAhead := by
  have hOlder :
      ∀ version w,
        next.OlderThan version w ↔ s.OlderThan version w := by
    intro version w
    unfold OlderThan
    rw [hPosted]
  unfold PassAhead
  rw [hPass, hVer]
  simp only [hOlder]

theorem ordered_join
    {session : SessionId}
    {qid : Str}
    {random : Nat}
    {stats : D}
    (hApart : s.CountsApart (.join session qid random stats))
    (hTracked : s.Tracked)
    (hOrdered : s.Ordered)
    (hLife : s.life session = .unborn) :
    (s.join f session qid random stats).Ordered := by
  rcases hApart with ⟨hCounting, hWrap⟩
  have hNew : s.syncVer < s.syncVer + 1 :=
    lt_add_one_of_no_wrap hWrap
  have hSelf :=
    posted_join_self (f := f) hTracked hLife qid random stats
  have hOther :
      ∀ w, w ≠ session →
        (s.join f session qid random stats).posted w =
          s.posted w :=
    fun w hW => posted_join_of_ne hW qid random stats
  refine
    { increasing := ?_
      bounded := ?_
      ahead := ?_ }
  · intro w
    by_cases hW : w = session
    · rw [hW, hSelf]
      exact List.pairwise_singleton _ _
    · rw [hOther w hW]
      exact hOrdered.increasing w
  · intro w message hMessage
    by_cases hW : w = session
    · rw [hW, hSelf, List.mem_singleton] at hMessage
      rw [hMessage]
      exact UInt64.le_refl _
    · rw [hOther w hW] at hMessage
      exact UInt64.le_of_lt
        (UInt64.lt_of_le_of_lt
          (hOrdered.bounded w message hMessage) hNew)
  · -- Only a pass that is sending can be disturbed.
    have hAhead := hOrdered.ahead
    unfold PassAhead at hAhead ⊢
    unfold Counting at hCounting
    have hSame :
        (s.join f session qid random stats).pass = s.pass :=
      rfl
    rw [hSame]
    cases hPass : s.pass with
    | idle => trivial
    | entered => trivial
    | counted => simp [hPass] at hCounting
    | assigned => simp [hPass] at hCounting
    | built message => simp [hPass] at hCounting
    | sending message targets =>
        rw [hPass] at hAhead
        rcases hAhead with ⟨hBound, hTargets⟩
        refine ⟨?_, ?_⟩
        · exact UInt64.le_of_lt
            (UInt64.lt_of_le_of_lt hBound hNew)
        · intro w hW
          have hBorn :=
            (hTracked.targets message targets hPass).2 w hW
          have hNe : w ≠ session := by
            rintro rfl
            exact hBorn hLife
          unfold OlderThan
          rw [hOther w hNe]
          exact hTargets w hW

/- The message of a pass is newer than what it follows. -/
theorem ordered_send
    {message : Message D P}
    {session : SessionId}
    {targets : List SessionId}
    (hTracked : s.Tracked)
    (hOrdered : s.Ordered)
    (hPass :
      s.pass = .sending message (session :: targets)) :
    ({ s.post session message with
        pass := .sending message targets } :
      Caller D P).Ordered := by
  have hAhead := hOrdered.ahead
  unfold PassAhead at hAhead
  rw [hPass] at hAhead
  rcases hAhead with ⟨hBound, hTargets⟩
  have hOlder := hTargets session List.mem_cons_self
  have hOut : session ∉ targets :=
    (List.nodup_cons.mp (hTracked.targets _ _ hPass).1).1
  have hSelf := posted_post_self s session message
  refine
    { increasing := ?_
      bounded := ?_
      ahead := ⟨hBound, ?_⟩ }
  · intro w
    change
      (((s.post session message).posted w).map
        Message.version).Pairwise (· < ·)
    by_cases hW : w = session
    · rw [hW, hSelf, List.map_append, List.pairwise_append]
      refine
        ⟨hOrdered.increasing session,
          List.pairwise_singleton _ _, ?_⟩
      intro older hOld newer hNew
      rcases List.mem_map.mp hOld with ⟨m, hM, rfl⟩
      rw [List.map_singleton, List.mem_singleton] at hNew
      rw [hNew]
      exact hOlder m hM
    · rw [posted_post_of_ne s message hW]
      exact hOrdered.increasing w
  · intro w m hM
    change m ∈ (s.post session message).posted w at hM
    by_cases hW : w = session
    · rw [hW, hSelf, List.mem_append,
        List.mem_singleton] at hM
      rcases hM with hOld | rfl
      · exact hOrdered.bounded session m hOld
      · exact hBound
    · rw [posted_post_of_ne s message hW] at hM
      exact hOrdered.bounded w m hM
  · intro w hIn
    have hW : w ≠ session := by
      rintro rfl
      exact hOut hIn
    intro m hM
    change m ∈ (s.post session message).posted w at hM
    rw [posted_post_of_ne s message hW] at hM
    exact hTargets w (List.mem_cons_of_mem session hIn) m hM

theorem ordered_step
    {next : Caller D P}
    {action : Action D}
    (hApart : s.CountsApart action)
    (hTracked : s.Tracked)
    (hOrdered : s.Ordered)
    (hStep : s.step f action = some next) :
    next.Ordered := by
  have hAhead := hOrdered.ahead
  cases next_of_step hStep with
  | join hLife _ =>
      exact ordered_join hApart hTracked hOrdered hLife
  | release _ _ | leave _ =>
      exact hOrdered.of_quiet (by intro; rfl) (by rfl)
        hAhead
  | runStrand hStrand =>
      have hPosted := posted_runStrand s hStrand
      exact hOrdered.of_quiet hPosted (by rfl)
        ((passAhead_congr hPosted (by rfl) (by rfl)).mpr
          hAhead)
  | skip _ _ => exact hOrdered
  | enter _ _ | finish _ =>
      exact hOrdered.of_quiet (by intro; rfl) (by rfl)
        trivial
  | count hPass =>
      -- What was posted is not newer than the old count.
      have hNew := lt_add_one_of_no_wrap hApart
      have hOlder :
          ∀ w, s.OlderThan (s.syncVer + 1) w := by
        intro w message hMessage
        exact UInt64.lt_of_le_of_lt
          (hOrdered.bounded w message hMessage) hNew
      exact
        { increasing := hOrdered.increasing
          bounded := fun w message hMessage =>
            UInt64.le_of_lt (hOlder w message hMessage)
          ahead := hOlder }
  | assign hPass _ =>
      unfold PassAhead at hAhead
      rw [hPass] at hAhead
      exact hOrdered.of_quiet (by intro; rfl) (by rfl)
        hAhead
  | build hPass =>
      unfold PassAhead at hAhead
      rw [hPass] at hAhead
      exact hOrdered.of_quiet (by intro; rfl) (by rfl)
        ⟨UInt64.le_refl _, hAhead⟩
  | copy hPass _ =>
      unfold PassAhead at hAhead
      rw [hPass] at hAhead
      exact hOrdered.of_quiet (by intro; rfl) (by rfl)
        ⟨hAhead.1, fun w _ => hAhead.2 w⟩
  | send hPass _ => exact ordered_send hTracked hOrdered hPass
  | passOver hPass _ =>
      unfold PassAhead at hAhead
      rw [hPass] at hAhead
      exact hOrdered.of_quiet (by intro; rfl) (by rfl)
        ⟨hAhead.1,
          fun w hW =>
            hAhead.2 w (List.mem_cons_of_mem _ hW)⟩

theorem ordered_of_exec
    {actions : List (Action D)}
    (hMeets :
      Run.Meets (step f) CountsApart (init f) actions)
    (hExec : Run.exec (step f) (init f) actions = some s) :
    s.Ordered := by
  have hKeep :
      ∀ (s : Caller D P) action next,
        s.CountsApart action → s.Tracked ∧ s.Ordered →
          s.step f action = some next →
            next.Tracked ∧ next.Ordered :=
    fun _ _ _ hApart hInv hStep =>
      ⟨tracked_step hInv.1 hStep,
        ordered_step hApart hInv.1 hInv.2 hStep⟩
  have hBoth :=
    Run.invariant_of_meets hKeep
      ⟨tracked_init f, ordered_init f⟩ hMeets hExec
  exact hBoth.2

end Caller

end Sync

end Kedge

------------------------------------------------------------
-- Strictly Increasing Versions
------------------------------------------------------------

namespace Kedge

namespace Sync

variable {D P : Type}

/-
  The versions of the messages posted to a client increase
  strictly in every run in which no session joins between
  the count of a pass and its copy of the session list, and
  in which the counter does not wrap.
-/
theorem versions_increase
    (f : Format D P)
    (actions : List (Action D))
    (s : Caller D P)
    (hMeets :
      Run.Meets (Caller.step f) Caller.CountsApart
        (Caller.init f) actions)
    (hExec :
      Run.exec (Caller.step f) (Caller.init f) actions =
        some s)
    (w : SessionId) :
    ((s.posted w).map Message.version).Pairwise (· < ·) :=
  (Caller.ordered_of_exec hMeets hExec).increasing w

/- A snapshot and the deltas of two passes. -/
theorem versions_increase_two_passes :
    ∃ s,
      Run.exec (Caller.step shiftFormat)
          (Caller.init shiftFormat)
          (.join 1 [] 1000 7 :: passActions 8 [1] ++
            passActions 9 [1]) =
        some s ∧
      (s.posted 1).map Message.version = [1, 2, 3] ∧
      ((s.posted 1).map Message.version).Pairwise
        (· < ·) := by
  refine ⟨_, rfl, rfl, ?_⟩
  refine versions_increase shiftFormat
    (.join 1 [] 1000 7 :: passActions 8 [1] ++
      passActions 9 [1]) _ ?_ rfl 1
  refine ⟨⟨fun hCounting => hCounting, by decide⟩, ?_⟩
  rintro _ ⟨⟩
  iterate 2
    refine ⟨trivial, ?_⟩
    rintro _ ⟨⟩
    refine ⟨fun hZero => absurd hZero (by decide), ?_⟩
    rintro _ ⟨⟩
    iterate 5
      refine ⟨trivial, ?_⟩
      rintro _ ⟨⟩
  trivial

/-
  A session that joins after the message of a pass was built
  and before the sessions are copied: its snapshot has
  version 3, the delta it is sent next has version 2.
-/
theorem version_goes_back :
    ∃ s,
      Run.exec (Caller.step shiftFormat)
          (Caller.init shiftFormat)
          [.join 1 [] 1000 7, .enter, .count, .assign 8,
            .build, .join 2 [] 1000 8, .copy [1, 2], .send,
            .send] =
        some s ∧
      (s.posted 2).map Message.version = [3, 2] ∧
      ¬ ((s.posted 2).map Message.version).Pairwise
        (· < ·) := by
  exact ⟨_, rfl, rfl, by decide⟩

end Sync

end Kedge
