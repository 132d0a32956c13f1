import Kedge.Sync.Convergence

/-
  Which messages reach `on_send` of a session, and in which
  order.

  `broadcast` copies the session list under `mutex_` and
  sends after releasing it, while `join` inserts a session
  and posts its snapshot in one critical section. The order
  of these critical sections, the history of the caller,
  therefore decides what a session is sent: its snapshot and
  then the message of every copy between its join and its
  leave.

  Main declarations:
    * `copiesUntilLeft`
    * `Caller.pending`
    * `Caller.Delivered`
    * `Caller.delivery_step`
    * `snapshot_then_deltas`
-/

------------------------------------------------------------
-- Messages Due to a Session
------------------------------------------------------------

namespace Kedge

namespace Sync

variable {D P : Type}

/-
  The messages of the copies of the session list that were
  taken before the session left.
-/
def copiesUntilLeft
    (w : SessionId) :
    List (Event D P) → List (Message D P)
  | [] => []
  | .joined _ _ :: events => copiesUntilLeft w events
  | .copied message :: events =>
      message :: copiesUntilLeft w events
  | .left session :: events =>
      if session = w then [] else copiesUntilLeft w events

theorem copiesUntilLeft_append_of_left
    {w : SessionId}
    {events : List (Event D P)}
    (hLeft : .left w ∈ events)
    (more : List (Event D P)) :
    copiesUntilLeft w (events ++ more) =
      copiesUntilLeft w events := by
  induction events with
  | nil => simp at hLeft
  | cons event events ih =>
      cases event with
      | joined session message =>
          exact ih (by simpa using hLeft)
      | copied message =>
          exact congrArg (message :: ·)
            (ih (by simpa using hLeft))
      | left session =>
          by_cases hSession : session = w
          · simp [copiesUntilLeft, hSession]
          · have hRest : .left w ∈ events := by
              simpa [Ne.symm hSession] using hLeft
            simp [copiesUntilLeft, hSession, ih hRest]

theorem copiesUntilLeft_append_of_not_left
    {w : SessionId}
    {events : List (Event D P)}
    (hLeft : .left w ∉ events)
    (more : List (Event D P)) :
    copiesUntilLeft w (events ++ more) =
      copiesUntilLeft w events ++ copiesUntilLeft w more := by
  induction events with
  | nil => rfl
  | cons event events ih =>
      have hRest : .left w ∉ events := fun hIn =>
        hLeft (List.mem_cons_of_mem event hIn)
      cases event with
      | joined session message => exact ih hRest
      | copied message =>
          exact congrArg (message :: ·) (ih hRest)
      | left session =>
          have hSession : session ≠ w := by
            rintro rfl
            exact hLeft List.mem_cons_self
          simp [copiesUntilLeft, hSession, ih hRest]

/- Later events take back no message. -/
theorem copiesUntilLeft_prefix_append
    (w : SessionId)
    (events more : List (Event D P)) :
    copiesUntilLeft w events <+:
      copiesUntilLeft w (events ++ more) := by
  by_cases hLeft : .left w ∈ events
  · rw [copiesUntilLeft_append_of_left hLeft]
  · rw [copiesUntilLeft_append_of_not_left hLeft]
    exact List.prefix_append _ _

end Sync

end Kedge

------------------------------------------------------------
-- The Invariant of a Session
------------------------------------------------------------

namespace Kedge

namespace Sync

namespace Caller

variable {D P : Type}

/- What the running pass has yet to send to the session. -/
def pending
    (s : Caller D P)
    (w : SessionId) : List (Message D P) :=
  match s.pass with
  | .sending message targets =>
      if w ∈ targets then [message] else []
  | _ => []

/-
  The session joined once, between `before` and `after`, and
  was posted the messages due to it. A live session lacks
  only what the running pass is about to send.
-/
structure Delivered
    (s : Caller D P)
    (w : SessionId)
    (snapshot : Message D P)
    (before after : List (Event D P)) : Prop where
  split : s.history = before ++ .joined w snapshot :: after
  once : ∀ message, .joined w message ∉ before ++ after
  notBefore : .left w ∉ before
  left : s.life w = .gone ↔ .left w ∈ after
  inOrder :
    s.posted w <+: snapshot :: copiesUntilLeft w after
  complete :
    s.life w = .live →
      s.posted w ++ s.pending w =
        snapshot :: copiesUntilLeft w after

/- The invariant of a session in its whole life. -/
def Delivery
    (s : Caller D P)
    (w : SessionId) : Prop :=
  match s.life w with
  | .unborn =>
      ∀ event ∈ s.history,
        (∀ message, event ≠ .joined w message) ∧
          event ≠ .left w
  | _ =>
      ∃ version id body before after,
        s.Delivered w (.snapshot version id body) before after

theorem delivery_of_unborn
    {s : Caller D P}
    {w : SessionId}
    (hLife : s.life w = .unborn) :
    s.Delivery w ↔
      ∀ event ∈ s.history,
        (∀ message, event ≠ .joined w message) ∧
          event ≠ .left w := by
  unfold Delivery
  rw [hLife]

theorem delivery_of_born
    {s : Caller D P}
    {w : SessionId}
    (hLife : s.life w ≠ .unborn) :
    s.Delivery w ↔
      ∃ version id body before after,
        s.Delivered w (.snapshot version id body) before
          after := by
  unfold Delivery
  split
  · next hUnborn => exact absurd hUnborn hLife
  · rfl

/-
  A step of the system that appends `events` to the history,
  none of them a join of the session.
-/
theorem Delivered.extend
    {s next : Caller D P}
    {w : SessionId}
    {snapshot : Message D P}
    {before after events : List (Event D P)}
    (hDelivered : s.Delivered w snapshot before after)
    (hHistory : next.history = s.history ++ events)
    (hJoined : ∀ message, .joined w message ∉ events)
    (hLeft :
      next.life w = .gone ↔
        s.life w = .gone ∨ .left w ∈ events)
    (hPosted :
      next.life w ≠ .live → next.posted w = s.posted w)
    (hComplete :
      next.life w = .live →
        s.life w = .live ∧
          next.posted w ++ next.pending w =
            (s.posted w ++ s.pending w) ++
              copiesUntilLeft w events) :
    next.Delivered w snapshot before (after ++ events) := by
  have hLive :
      next.life w = .live →
        next.posted w ++ next.pending w =
          snapshot :: copiesUntilLeft w (after ++ events) := by
    intro hLife
    rcases hComplete hLife with ⟨hOld, hAll⟩
    have hStays : .left w ∉ after := by
      rw [← hDelivered.left, hOld]
      simp
    rw [hAll, hDelivered.complete hOld, List.cons_append,
      copiesUntilLeft_append_of_not_left hStays]
  refine
    { split := ?_
      once := ?_
      notBefore := hDelivered.notBefore
      left := ?_
      inOrder := ?_
      complete := hLive }
  · rw [hHistory, hDelivered.split]
    simp
  · intro message hIn
    rw [← List.append_assoc, List.mem_append] at hIn
    rcases hIn with hOld | hNew
    · exact hDelivered.once message hOld
    · exact hJoined message hNew
  · rw [hLeft, hDelivered.left, List.mem_append]
  · by_cases hLife : next.life w = .live
    · exact ⟨next.pending w, hLive hLife⟩
    · rw [hPosted hLife]
      apply hDelivered.inOrder.trans
      rw [List.cons_prefix_cons]
      exact
        ⟨rfl, copiesUntilLeft_prefix_append w after events⟩

/- The same step seen by every session but a joining one. -/
theorem Delivery.extend
    {s next : Caller D P}
    {w : SessionId}
    (hDelivery : s.Delivery w)
    (events : List (Event D P))
    (hHistory : next.history = s.history ++ events)
    (hJoined : ∀ message, .joined w message ∉ events)
    (hUnborn : next.life w = .unborn ↔ s.life w = .unborn)
    (hLeft :
      next.life w = .gone ↔
        s.life w = .gone ∨ .left w ∈ events)
    (hPosted :
      next.life w ≠ .live → next.posted w = s.posted w)
    (hComplete :
      next.life w = .live →
        s.life w = .live ∧
          next.posted w ++ next.pending w =
            (s.posted w ++ s.pending w) ++
              copiesUntilLeft w events) :
    next.Delivery w := by
  by_cases hLife : s.life w = .unborn
  · have hNext := hUnborn.mpr hLife
    rw [delivery_of_unborn hNext]
    rw [delivery_of_unborn hLife] at hDelivery
    intro event hIn
    rw [hHistory, List.mem_append] at hIn
    rcases hIn with hOld | hNew
    · exact hDelivery event hOld
    · refine ⟨?_, ?_⟩
      · rintro message rfl
        exact hJoined message hNew
      · rintro rfl
        have hGone := hLeft.mpr (Or.inr hNew)
        rw [hNext] at hGone
        cases hGone
  · have hNext : next.life w ≠ .unborn :=
      fun hEq => hLife (hUnborn.mp hEq)
    rw [delivery_of_born hLife] at hDelivery
    rw [delivery_of_born hNext]
    rcases hDelivery with
      ⟨version, id, body, before, after, hDelivered⟩
    exact
      ⟨version, id, body, before, after ++ events,
        hDelivered.extend hHistory hJoined hLeft hPosted
          hComplete⟩

/- A step that leaves history and session alone. -/
theorem Delivery.of_quiet
    {s next : Caller D P}
    {w : SessionId}
    (hDelivery : s.Delivery w)
    (hHistory : next.history = s.history)
    (hLife : next.life w = s.life w)
    (hPosted :
      s.life w ≠ .live → next.posted w = s.posted w)
    (hPending :
      s.life w = .live →
        next.posted w ++ next.pending w =
          s.posted w ++ s.pending w) :
    next.Delivery w := by
  refine hDelivery.extend [] ?_ ?_ ?_ ?_ ?_ ?_
  · rw [hHistory, List.append_nil]
  · simp
  · rw [hLife]
  · simp [hLife]
  · rw [hLife]
    exact hPosted
  · intro hLive
    rw [hLife] at hLive
    exact ⟨hLive, by simp [copiesUntilLeft, hPending hLive]⟩

end Caller

end Sync

end Kedge

------------------------------------------------------------
-- Every Step Keeps the Invariant
------------------------------------------------------------

namespace Kedge

namespace Sync

namespace Caller

variable {D P : Type}
variable {f : Format D P}
variable {s : Caller D P}

theorem delivery_init
    (f : Format D P)
    (w : SessionId) :
    (init f).Delivery w := by
  rw [delivery_of_unborn (by rfl)]
  intro event hIn
  cases hIn

/- A session that has not joined is no target of a pass. -/
theorem Tracked.pending_of_unborn
    (hTracked : s.Tracked)
    {w : SessionId}
    (hLife : s.life w = .unborn) :
    s.pending w = [] := by
  unfold pending
  split
  · next message targets hPass =>
    have hOut : w ∉ targets := fun hIn =>
      (hTracked.targets message targets hPass).2 w hIn hLife
    rw [if_neg hOut]
  · rfl

/- The joining session is due its snapshot and no more. -/
theorem delivery_join_self
    (hTracked : s.Tracked)
    {w : SessionId}
    {qid : Str}
    {random : Nat}
    {stats : D}
    (hDelivery : s.Delivery w)
    (hLife : s.life w = .unborn) :
    (s.join f w qid random stats).Delivery w := by
  have hLive :
      (s.join f w qid random stats).life w = .live := by
    simp [join, post]
  have hPosted :
      (s.join f w qid random stats).posted w =
        [s.joinMessage f qid random stats] :=
    posted_join_self hTracked hLife qid random stats
  have hPending :
      (s.join f w qid random stats).pending w = [] :=
    hTracked.pending_of_unborn hLife
  rw [delivery_of_unborn hLife] at hDelivery
  rw [delivery_of_born (by simp [hLive])]
  refine
    ⟨s.syncVer + 1, if qid = [] then n2hex random else qid,
      s.statsForJoin f stats, s.history, [], ?_⟩
  refine
    { split := by rfl
      once := ?_
      notBefore := ?_
      left := by simp [hLive]
      inOrder := ?_
      complete := ?_ }
  · intro message hIn
    rw [List.append_nil] at hIn
    exact (hDelivery _ hIn).1 message rfl
  · intro hIn
    exact (hDelivery _ hIn).2 rfl
  · rw [hPosted]
    exact List.prefix_rfl
  · intro _
    rw [hPosted, hPending]
    rfl

/- A live session is a target of every copy. -/
theorem delivery_copy
    (hTracked : s.Tracked)
    {w : SessionId}
    {message : Message D P}
    {order : List SessionId}
    (hDelivery : s.Delivery w)
    (hPass : s.pass = .built message)
    (hOrder : order.Perm s.sessions) :
    ({ s with
        pass := .sending message order
        history := s.history ++ [.copied message] } :
      Caller D P).Delivery w := by
  refine hDelivery.extend [.copied message] (by rfl)
    (by simp) (by rfl) (by simp) (by intro _; rfl) ?_
  intro hLive
  have hIn : w ∈ order :=
    hOrder.mem_iff.mpr
      ((hTracked.member w).mpr (Or.inl hLive))
  refine ⟨hLive, ?_⟩
  simp [pending, posted, hPass, hIn, copiesUntilLeft]

theorem delivery_send
    (hTracked : s.Tracked)
    {w session : SessionId}
    {message : Message D P}
    {targets : List SessionId}
    (hDelivery : s.Delivery w)
    (hPass : s.pass = .sending message (session :: targets))
    (hLife : s.life session = .live) :
    ({ s.post session message with
        pass := .sending message targets } :
      Caller D P).Delivery w := by
  have hOut : session ∉ targets :=
    (List.nodup_cons.mp (hTracked.targets _ _ hPass).1).1
  refine hDelivery.of_quiet (by rfl) (by rfl) ?_ ?_
  · intro hNotLive
    have hW : w ≠ session := by
      rintro rfl
      exact hNotLive hLife
    exact posted_post_of_ne s message hW
  · intro _
    by_cases hW : w = session
    · subst hW
      simp [pending, posted, post, hPass, hOut]
    · simp [pending, posted, post, hPass, hW]

theorem delivery_step
    {next : Caller D P}
    {action : Action D}
    (hTracked : s.Tracked)
    (hStep : s.step f action = some next)
    {w : SessionId}
    (hDelivery : s.Delivery w) :
    next.Delivery w := by
  cases next_of_step hStep with
  | @join session qid random stats hLife _ =>
      by_cases hW : w = session
      · subst hW
        exact delivery_join_self hTracked hDelivery hLife
      · refine hDelivery.extend
          [.joined session (s.joinMessage f qid random stats)]
          (by rfl) ?_ ?_ ?_ ?_ ?_
        · simp [hW]
        · simp [join, post, hW]
        · simp [join, post, hW]
        · intro _
          exact posted_post_of_ne s _ hW
        · intro hLive
          refine ⟨by simpa [join, post, hW] using hLive, ?_⟩
          simp [join, post, posted, pending, hW,
            copiesUntilLeft]
  | @release session hLife _ =>
      refine hDelivery.extend [] (by simp [release])
        (by simp) ?_ ?_ (by intro _; rfl) ?_
      · by_cases hW : w = session <;>
          simp [release, hW, hLife]
      · by_cases hW : w = session <;>
          simp [release, hW, hLife]
      · intro hLive
        by_cases hW : w = session
        · simp [release, hW] at hLive
        · refine ⟨by simpa [release, hW] using hLive, ?_⟩
          simp [release, posted, pending, copiesUntilLeft]
  | @leave session hLife =>
      refine hDelivery.extend [.left session] (by rfl)
        (by simp) ?_ ?_ (by intro _; rfl) ?_
      · by_cases hW : w = session <;>
          simp [leave, hW, hLife]
      · by_cases hW : w = session <;> simp [leave, hW]
      · intro hLive
        by_cases hW : w = session
        · simp [leave, hW] at hLive
        · refine ⟨by simpa [leave, hW] using hLive, ?_⟩
          simp [leave, posted, pending, copiesUntilLeft]
  | runStrand hStrand =>
      have hPosted := posted_runStrand s hStrand w
      refine hDelivery.of_quiet (by rfl) (by rfl)
        (fun _ => hPosted) ?_
      intro _
      rw [hPosted]
      rfl
  | skip _ _ => exact hDelivery
  | copy hPass hOrder =>
      exact delivery_copy hTracked hDelivery hPass hOrder
  | send hPass hLife =>
      exact delivery_send hTracked hDelivery hPass hLife
  | @passOver message session targets hPass hLife =>
      refine hDelivery.of_quiet (by rfl) (by rfl)
        (by intro _; rfl) ?_
      intro hLive
      have hW : w ≠ session := by
        rintro rfl
        exact hLife hLive
      simp [pending, posted, hPass, hW]
  -- The other steps send nothing and post nothing.
  | enter hPass _ | count hPass | assign hPass _
  | build hPass | finish hPass =>
      refine hDelivery.of_quiet (by rfl) (by rfl)
        (by intro _; rfl) ?_
      intro _
      simp [pending, posted, hPass]

theorem delivery_of_exec
    {actions : List (Action D)}
    (hExec : Run.exec (step f) (init f) actions = some s)
    (w : SessionId) :
    s.Delivery w := by
  have hKeep :
      ∀ (s : Caller D P) (action : Action D)
        (next : Caller D P),
        s.Tracked ∧ s.Delivery w →
          s.step f action = some next →
            next.Tracked ∧ next.Delivery w :=
    fun _ _ _ hInv hStep =>
      ⟨tracked_step hInv.1 hStep,
        delivery_step hInv.1 hStep hInv.2⟩
  have hBoth :=
    Run.invariant hKeep
      ⟨tracked_init f, delivery_init f w⟩ hExec
  exact hBoth.2

end Caller

end Sync

end Kedge

------------------------------------------------------------
-- Snapshot First, Then Every Delta Once
------------------------------------------------------------

namespace Kedge

namespace Sync

variable {D P : Type}

/-
  A session joins once. What is passed to its `on_send`
  starts with its snapshot and goes on with the messages
  whose copy of the session list was taken after the join
  and before the leave, in the order of the copies. While
  the session is alive none of them is lost: what is missing
  waits on its strand or is sent next by the running pass.
-/
theorem snapshot_then_deltas
    (f : Format D P)
    (actions : List (Action D))
    (s : Caller D P)
    (hExec :
      Run.exec (Caller.step f) (Caller.init f) actions =
        some s)
    (w : SessionId)
    (hJoined : s.life w ≠ .unborn) :
    ∃ version id body before after,
      s.history =
          before ++
            .joined w (.snapshot version id body) :: after ∧
      (∀ message, .joined w message ∉ before ++ after) ∧
      .left w ∉ before ∧
      (s.life w = .gone ↔ .left w ∈ after) ∧
      s.onSend w <+:
        .snapshot version id body ::
          copiesUntilLeft w after ∧
      (s.life w = .live →
        s.onSend w ++ s.strand w ++ s.pending w =
          .snapshot version id body ::
            copiesUntilLeft w after) := by
  have hDelivery := Caller.delivery_of_exec hExec w
  rw [Caller.delivery_of_born hJoined] at hDelivery
  rcases hDelivery with
    ⟨version, id, body, before, after, hDelivered⟩
  refine
    ⟨version, id, body, before, after, hDelivered.split,
      hDelivered.once, hDelivered.notBefore,
      hDelivered.left, ?_, hDelivered.complete⟩
  have hRun : s.onSend w <+: s.posted w :=
    List.prefix_append _ _
  exact hRun.trans hDelivered.inOrder

/- A client that was sent the delta of one whole pass. -/
theorem snapshot_then_deltas_one_pass :
    ∃ s,
      Run.exec (Caller.step shiftFormat)
          (Caller.init shiftFormat)
          (.join 1 [] 1000 7 :: passActions 8 [1] ++
            [.runStrand 1, .runStrand 1]) =
        some s ∧
      s.life 1 = .live ∧
      ∃ version id body before after,
        s.history =
            before ++
              .joined 1 (.snapshot version id body) ::
                after ∧
        s.onSend 1 =
          .snapshot version id body ::
            copiesUntilLeft 1 after := by
  refine ⟨_, rfl, rfl, ?_⟩
  rcases snapshot_then_deltas shiftFormat
      (.join 1 [] 1000 7 :: passActions 8 [1] ++
        [.runStrand 1, .runStrand 1])
      _ rfl 1 (by decide) with
    ⟨version, id, body, before, after, hSplit, _, _, _, _,
      hAll⟩
  exact
    ⟨version, id, body, before, after, hSplit, hAll rfl⟩

end Sync

end Kedge
