import Kedge.Sync.Convergence

/-
  The caller with its operations run one at a time.

  `join`, the destruction of a session and a whole pass of
  `doLoop` are single steps here, and what was posted to the
  strands is delivered before the next operation. A serial
  step is a run of the interleaved system, so that what
  holds in every run there holds in every serial run.

  Main declarations:
    * `Caller.doLoop`
    * `Caller.drain`
    * `SerialAction`
    * `Caller.serialStep`
    * `Caller.exec_passActions`
    * `Caller.serialStep_refines`
    * `Caller.synced_serialStep`
    * `Caller.serialStep_pass`
-/

------------------------------------------------------------
-- Operations as a Whole
------------------------------------------------------------

namespace Kedge

namespace Sync

/-
  The operations. `order` is the order in which a pass sends
  to the sessions.
-/
inductive SerialAction (D : Type) where
  | join (session : SessionId) (qid : Str) (random : Nat)
      (stats : D)
  | leave (session : SessionId)
  | pass (stats : D) (order : List SessionId)

namespace Caller

variable {D P : Type}

/- The loop of `broadcast` over the copied sessions. -/
def sendEach
    (life : SessionId → Life)
    (message : Message D P) :
    List SessionId →
      (SessionId → List (Message D P)) →
        SessionId → List (Message D P)
  | [], strand => strand
  | session :: order, strand =>
      sendEach life message order
        (if life session = .live then
          Function.update strand session
            (strand session ++ [message])
        else strand)

/- `httpCaller::broadcast`. -/
def broadcast
    (s : Caller D P)
    (message : Message D P)
    (order : List SessionId) : Caller D P :=
  { s with
    strand := sendEach s.life message order s.strand
    history := s.history ++ [.copied message] }

/- `httpCaller::doLoop`. -/
def doLoop
    (f : Format D P)
    (s : Caller D P)
    (stats : D)
    (order : List SessionId) : Caller D P :=
  if s.sessions = [] then s
  else
    let counted :=
      { s with
        syncVer := s.syncVer + 1
        currStats := stats }
    let sent :=
      counted.broadcast (counted.loopMessage f) order
    { sent with prevStats := sent.currStats }

/- All handlers that wait on the strand of a session run. -/
def drain
    (s : Caller D P)
    (session : SessionId) : Caller D P :=
  { s with
    strand := Function.update s.strand session []
    onSend := Function.update s.onSend session
      (s.onSend session ++ s.strand session) }

def drainAll
    (s : Caller D P)
    (order : List SessionId) : Caller D P :=
  order.foldl drain s

/- One operation and the delivery of what it posted. -/
def serialStep
    (f : Format D P)
    (s : Caller D P) :
    SerialAction D → Option (Caller D P)
  | .join session qid random stats =>
      if s.life session = .unborn ∧ f.isNull stats = false ∧
          1000 ≤ random ∧ random ≤ 9999 then
        some ((s.join f session qid random stats).drain
          session)
      else none
  | .leave session =>
      if s.life session = .live then
        some ((s.release session).leave session)
      else none
  | .pass stats order =>
      if f.isNull stats = false ∧
          order.isPerm s.sessions then
        some ((s.doLoop f stats order).drainAll order)
      else none

end Caller

end Sync

end Kedge

------------------------------------------------------------
-- States between Operations
------------------------------------------------------------

namespace Kedge

namespace Sync

namespace Caller

variable {D P : Type}
variable {f : Format D P}
variable {s : Caller D P}

/- No pass is running and nothing waits to be delivered. -/
structure AtRest (s : Caller D P) : Prop where
  idle : s.pass = .idle
  delivered : ∀ w, s.strand w = []
  lives : ∀ w, s.life w ≠ .expired

theorem atRest_init
    (f : Format D P) :
    AtRest (init f) where
  idle := rfl
  delivered := fun _ => rfl
  lives := by
    intro w hExpired
    cases hExpired

@[simp] theorem drainAll_pass
    (order : List SessionId) :
    (s.drainAll order).pass = s.pass := by
  induction order generalizing s with
  | nil => rfl
  | cons session order ih => exact ih

@[simp] theorem drainAll_life
    (order : List SessionId) :
    (s.drainAll order).life = s.life := by
  induction order generalizing s with
  | nil => rfl
  | cons session order ih => exact ih

theorem drain_strand
    (session w : SessionId) :
    (s.drain session).strand w =
      if w = session then [] else s.strand w := by
  by_cases hW : w = session
  · simp [drain, hW]
  · simp [drain, hW]

theorem drainAll_strand
    (order : List SessionId)
    (w : SessionId) :
    (s.drainAll order).strand w =
      if w ∈ order then [] else s.strand w := by
  induction order generalizing s with
  | nil => rfl
  | cons session order ih =>
      have hRest :
          (s.drainAll (session :: order)).strand w =
            ((s.drain session).drainAll order).strand w :=
        rfl
      rw [hRest, ih, drain_strand]
      by_cases hW : w = session <;>
        by_cases hOrder : w ∈ order <;>
          simp [hW, hOrder]

/- Only the listed sessions are sent the message. -/
theorem sendEach_of_not_mem
    {life : SessionId → Life}
    {message : Message D P}
    {order : List SessionId}
    {w : SessionId}
    (hOut : w ∉ order)
    (strand : SessionId → List (Message D P)) :
    sendEach life message order strand w = strand w := by
  induction order generalizing strand with
  | nil => rfl
  | cons session order ih =>
      have hW := List.ne_of_not_mem_cons hOut
      have hRest := List.not_mem_of_not_mem_cons hOut
      rw [sendEach, ih hRest]
      split
      · exact Function.update_of_ne hW _ _
      · rfl

theorem doLoop_pass
    (stats : D)
    (order : List SessionId) :
    (s.doLoop f stats order).pass = s.pass := by
  unfold doLoop
  split <;> rfl

theorem doLoop_life
    (stats : D)
    (order : List SessionId) :
    (s.doLoop f stats order).life = s.life := by
  unfold doLoop
  split <;> rfl

theorem doLoop_strand_of_not_mem
    {order : List SessionId}
    {w : SessionId}
    (hOut : w ∉ order)
    (stats : D) :
    (s.doLoop f stats order).strand w = s.strand w := by
  unfold doLoop
  split
  · rfl
  · exact sendEach_of_not_mem hOut s.strand

theorem atRest_serialStep
    {next : Caller D P}
    {action : SerialAction D}
    (hRest : s.AtRest)
    (hStep : s.serialStep f action = some next) :
    next.AtRest := by
  cases action with
  | join session qid random stats =>
      rcases Option.ite_none_right_eq_some.mp hStep with
        ⟨_, hNext⟩
      cases hNext
      refine
        { idle := hRest.idle
          delivered := ?_
          lives := ?_ }
      · intro w
        rw [drain_strand]
        by_cases hW : w = session
        · rw [if_pos hW]
        · rw [if_neg hW]
          simpa [join, post, hW] using hRest.delivered w
      · intro w
        by_cases hW : w = session
        · simp [drain, join, post, hW]
        · simpa [drain, join, post, hW] using hRest.lives w
  | leave session =>
      rcases Option.ite_none_right_eq_some.mp hStep with
        ⟨_, hNext⟩
      cases hNext
      refine
        { idle := hRest.idle
          delivered := hRest.delivered
          lives := ?_ }
      intro w
      by_cases hW : w = session
      · simp [leave, hW]
      · simpa [leave, release, hW] using hRest.lives w
  | pass stats order =>
      rcases Option.ite_none_right_eq_some.mp hStep with
        ⟨_, hNext⟩
      cases hNext
      refine
        { idle := ?_
          delivered := ?_
          lives := ?_ }
      · rw [drainAll_pass, doLoop_pass]
        exact hRest.idle
      · intro w
        rw [drainAll_strand]
        split
        · rfl
        · next hOut =>
          rw [doLoop_strand_of_not_mem hOut]
          exact hRest.delivered w
      · intro w
        rw [drainAll_life, doLoop_life]
        exact hRest.lives w

end Caller

end Sync

end Kedge

------------------------------------------------------------
-- Serial Steps as Runs
------------------------------------------------------------

namespace Kedge

namespace Sync

namespace Caller

variable {D P : Type}
variable {f : Format D P}
variable {s : Caller D P}

/- The handlers of one strand, run one after the other. -/
theorem exec_drain
    (f : Format D P)
    (s : Caller D P)
    (session : SessionId) :
    Run.exec (step f) s
        (List.replicate (s.strand session).length
          (.runStrand session)) =
      some (s.drain session) := by
  generalize hLength : (s.strand session).length = n
  induction n generalizing s with
  | zero =>
      have hStrand := List.length_eq_zero_iff.mp hLength
      have hUpdate :
          Function.update s.strand session [] = s.strand :=
        Function.update_eq_self_iff.mpr hStrand.symm
      simp [drain, hStrand, hUpdate]
  | succ n ih =>
      rcases List.exists_cons_of_length_eq_add_one hLength
        with ⟨message, rest, hStrand⟩
      have hRest :
          ((s.runStrand session message rest).strand
            session).length = n := by
        rw [hStrand] at hLength
        simpa [runStrand] using hLength
      have hDrain :
          (s.runStrand session message rest).drain session =
            s.drain session := by
        simp [drain, runStrand, hStrand]
      rw [List.replicate_succ, Run.exec_cons, step, hStrand,
        Option.bind_some, ih _ hRest, hDrain]

theorem exists_exec_drainAll
    (f : Format D P)
    (s : Caller D P)
    (order : List SessionId) :
    ∃ actions,
      (∀ action ∈ actions,
        ∃ session, action = .runStrand session) ∧
      Run.exec (step f) s actions =
        some (s.drainAll order) := by
  induction order generalizing s with
  | nil => exact ⟨[], by simp, rfl⟩
  | cons session order ih =>
      rcases ih (s.drain session) with
        ⟨actions, hAll, hExec⟩
      refine
        ⟨List.replicate (s.strand session).length
            (.runStrand session) ++ actions, ?_, ?_⟩
      · intro action hIn
        rcases List.mem_append.mp hIn with hFirst | hLast
        · exact ⟨session, List.eq_of_mem_replicate hFirst⟩
        · exact hAll action hLast
      · rw [Run.exec_append, exec_drain, Option.bind_some,
          hExec]
        rfl

/- The sending loop of a pass. -/
theorem exec_sends
    {message : Message D P}
    {order : List SessionId}
    (hPass : s.pass = .sending message order) :
    Run.exec (step f) s (order.map fun _ => .send) =
      some { s with
        pass := .sending message []
        strand := sendEach s.life message order s.strand } := by
  induction order generalizing s with
  | nil =>
      rcases s with ⟨_, _, _, _, pass, _, _, _, _⟩
      cases hPass
      rfl
  | cons session order ih =>
      rw [List.map_cons, Run.exec_cons]
      by_cases hLife : s.life session = .live
      · have hSend :
            s.step f .send =
              some { s.post session message with
                pass := .sending message order } := by
          simp [step, hPass, hLife]
        rw [hSend, Option.bind_some, ih (by rfl)]
        simp [sendEach, post, hLife]
      · have hSend :
            s.step f .send =
              some { s with
                pass := .sending message order } := by
          simp [step, hPass, hLife]
        rw [hSend, Option.bind_some, ih (by rfl)]
        simp [sendEach, hLife]

/- A pass whose steps follow each other is `doLoop`. -/
theorem exec_passActions
    {stats : D}
    {order : List SessionId}
    (hPass : s.pass = .idle)
    (hSessions : s.sessions ≠ [])
    (hStats : f.isNull stats = false)
    (hOrder : order.isPerm s.sessions = true) :
    Run.exec (step f) s (passActions stats order) =
      some (s.doLoop f stats order) := by
  have hPrepare :
      Run.exec (step f) s
          [.enter, .count, .assign stats, .build,
            .copy order] =
        some
          { s with
            syncVer := s.syncVer + 1
            currStats := stats
            pass := .sending
              (loopMessage f
                { s with
                  syncVer := s.syncVer + 1
                  currStats := stats })
              order
            history := s.history ++
              [.copied (loopMessage f
                { s with
                  syncVer := s.syncVer + 1
                  currStats := stats })] } := by
    simp [step, hPass, hSessions, hStats, hOrder,
      loopMessage]
  unfold passActions
  rw [Run.exec_append, Run.exec_append, hPrepare,
    Option.bind_some, exec_sends rfl]
  rcases s with ⟨_, _, _, _, pass, _, _, _, _⟩
  cases hPass
  simp [step, doLoop, hSessions, broadcast]

/-
  What the documents of a serial run are asked for: `Good`,
  and `Related` to the document of the pass before.
-/
def SerialAllowed
    (Good : D → Prop)
    (Related : D → D → Prop)
    (s : Caller D P) :
    SerialAction D → Prop
  | .join _ _ _ stats => Good stats
  | .leave _ => True
  | .pass stats _ =>
      s.sessions ≠ [] →
        Good stats ∧ Related s.prevStats stats

/- The steps of a pass outside its assignment are free. -/
theorem meets_passActions
    {Good : D → Prop}
    {Related : D → D → Prop}
    {stats : D}
    (hGood : Good stats)
    (hRelated : Related s.prevStats stats)
    (order : List SessionId) :
    Run.Meets (step f)
      (fun s action => s.Allowed f Good Related action)
      s (passActions stats order) := by
  refine ⟨trivial, fun entered hEnter => ?_⟩
  cases next_of_step hEnter
  refine ⟨trivial, fun counted hCount => ?_⟩
  cases next_of_step hCount
  refine ⟨⟨hGood, hRelated⟩, fun assigned _ => ?_⟩
  apply Run.meets_of_forall
  intro action hIn s
  have hKind :
      action = .build ∨ action = .copy order ∨
        action = .send ∨ action = .finish := by
    simp only [List.append_eq, List.cons_append,
      List.nil_append, List.mem_cons, List.mem_append,
      List.mem_map] at hIn
    tauto
  rcases hKind with rfl | rfl | rfl | rfl <;> trivial

theorem meets_deliveries
    {Good : D → Prop}
    {Related : D → D → Prop}
    {deliveries : List (Action D)}
    (hKind :
      ∀ action ∈ deliveries,
        ∃ session, action = .runStrand session)
    (s : Caller D P) :
    Run.Meets (step f)
      (fun s action => s.Allowed f Good Related action)
      s deliveries := by
  apply Run.meets_of_forall
  intro action hIn s
  rcases hKind action hIn with ⟨session, rfl⟩
  trivial

/- Every serial step is a run of the interleaved system. -/
theorem serialStep_refines
    {Good : D → Prop}
    {Related : D → D → Prop}
    {next : Caller D P}
    {action : SerialAction D}
    (hAllowed : s.SerialAllowed Good Related action)
    (hRest : s.AtRest)
    (hStep : s.serialStep f action = some next) :
    ∃ actions,
      Run.exec (step f) s actions = some next ∧
      Run.Meets (step f)
        (fun s action => s.Allowed f Good Related action)
        s actions := by
  have hOutside : ¬ s.InWindow := by
    simp [InWindow, hRest.idle]
  cases action with
  | join session qid random stats =>
      rcases Option.ite_none_right_eq_some.mp hStep with
        ⟨hGuard, hNext⟩
      cases hNext
      have hJoin :
          Run.exec (step f) s
              [.join session qid random stats] =
            some (s.join f session qid random stats) := by
        simp [step, hGuard]
      rcases exists_exec_drainAll f
          (s.join f session qid random stats) [session] with
        ⟨deliveries, hKind, hDeliver⟩
      refine
        ⟨[.join session qid random stats] ++ deliveries,
          ?_, ?_⟩
      · rw [Run.exec_append, hJoin, Option.bind_some,
          hDeliver]
        rfl
      · refine Run.Meets.append ?_ hJoin
          (meets_deliveries hKind _)
        exact
          ⟨⟨hAllowed, fun hIn => absurd hIn hOutside⟩,
            fun _ _ => trivial⟩
  | leave session =>
      rcases Option.ite_none_right_eq_some.mp hStep with
        ⟨hLife, hNext⟩
      cases hNext
      refine ⟨[.release session, .leave session], ?_, ?_⟩
      · simp [step, hLife, hRest.delivered session, release]
      · exact
          ⟨trivial, fun _ _ => ⟨trivial, fun _ _ => trivial⟩⟩
  | pass stats order =>
      rcases Option.ite_none_right_eq_some.mp hStep with
        ⟨⟨hStats, hOrder⟩, hNext⟩
      cases hNext
      rcases exists_exec_drainAll f (s.doLoop f stats order)
          order with
        ⟨deliveries, hKind, hDeliver⟩
      by_cases hSessions : s.sessions = []
      · have hSkip : s.doLoop f stats order = s := by
          simp [doLoop, hSessions]
        rw [hSkip] at hDeliver ⊢
        exact ⟨deliveries, hDeliver, meets_deliveries hKind s⟩
      · have hPass :=
          exec_passActions hRest.idle hSessions hStats hOrder
        rcases hAllowed hSessions with ⟨hGood, hRelated⟩
        refine ⟨passActions stats order ++ deliveries, ?_, ?_⟩
        · rw [Run.exec_append, hPass, Option.bind_some,
            hDeliver]
        · exact
            (meets_passActions hGood hRelated order).append
              hPass (meets_deliveries hKind _)

/-
  In every serial run of allowed operations the clients are
  in step with the caller, and between two operations
  nothing is under way.
-/
theorem synced_of_serial
    {Good : D → Prop}
    {Related : D → D → Prop}
    {actions : List (SerialAction D)}
    (hMeets :
      Run.Meets (serialStep f)
        (fun s action =>
          s.SerialAllowed Good Related action)
        (init f) actions)
    (hExec :
      Run.exec (serialStep f) (init f) actions = some s) :
    s.AtRest ∧ s.Tracked ∧ Synced f Good Related s := by
  have hRefines :
      ∀ (s : Caller D P) action next,
        s.SerialAllowed Good Related action → s.AtRest →
          s.serialStep f action = some next →
            next.AtRest ∧
              ∃ actions,
                Run.exec (step f) s actions = some next ∧
                Run.Meets (step f)
                  (fun s action =>
                    s.Allowed f Good Related action)
                  s actions :=
    fun _ _ _ hAllowed hRest hStep =>
      ⟨atRest_serialStep hRest hStep,
        serialStep_refines hAllowed hRest hStep⟩
  rcases Run.exists_exec_of_refines hRefines
      (atRest_init f) hMeets hExec with
    ⟨hRest, micro, hMicro, hAllowed⟩
  exact
    ⟨hRest, tracked_of_exec hMicro,
      synced_of_exec hAllowed hMicro⟩

end Caller

end Sync

end Kedge

------------------------------------------------------------
-- What a Pass Sends
------------------------------------------------------------

namespace Kedge

namespace Sync

namespace Caller

variable {D P : Type}
variable {f : Format D P}
variable {s : Caller D P}

/- Each listed session that is live is sent the message. -/
theorem sendEach_of_mem
    {life : SessionId → Life}
    {message : Message D P}
    {order : List SessionId}
    {w : SessionId}
    (hNodup : order.Nodup)
    (hIn : w ∈ order)
    (hLive : life w = .live)
    (strand : SessionId → List (Message D P)) :
    sendEach life message order strand w =
      strand w ++ [message] := by
  induction order generalizing strand with
  | nil => cases hIn
  | cons session order ih =>
      rcases List.nodup_cons.mp hNodup with ⟨hOut, hRest⟩
      rw [sendEach]
      rcases List.mem_cons.mp hIn with rfl | hLater
      · rw [sendEach_of_not_mem hOut, if_pos hLive]
        exact Function.update_self _ _ _
      · have hW : w ≠ session := by
          rintro rfl
          exact hOut hLater
        rw [ih hRest hLater]
        split
        · rw [Function.update_of_ne hW]
        · rfl

theorem drain_onSend
    (session w : SessionId) :
    (s.drain session).onSend w =
      if w = session then s.onSend w ++ s.strand w
      else s.onSend w := by
  by_cases hW : w = session
  · subst hW
    simp [drain]
  · simp [drain, hW]

theorem drainAll_onSend_of_not_mem
    {order : List SessionId}
    {w : SessionId}
    (hOut : w ∉ order) :
    (s.drainAll order).onSend w = s.onSend w := by
  induction order generalizing s with
  | nil => rfl
  | cons session order ih =>
      have hW := List.ne_of_not_mem_cons hOut
      have hRest := List.not_mem_of_not_mem_cons hOut
      refine (ih (s := s.drain session) hRest).trans ?_
      rw [drain_onSend, if_neg hW]

theorem drainAll_onSend_of_mem
    {order : List SessionId}
    {w : SessionId}
    (hNodup : order.Nodup)
    (hIn : w ∈ order) :
    (s.drainAll order).onSend w =
      s.onSend w ++ s.strand w := by
  induction order generalizing s with
  | nil => cases hIn
  | cons session order ih =>
      rcases List.nodup_cons.mp hNodup with ⟨hOut, hRest⟩
      rcases List.mem_cons.mp hIn with rfl | hLater
      · refine
          (drainAll_onSend_of_not_mem
            (s := s.drain w) hOut).trans ?_
        rw [drain_onSend, if_pos rfl]
      · have hW : w ≠ session := by
          rintro rfl
          exact hOut hLater
        refine (ih (s := s.drain session) hRest hLater).trans
          ?_
        rw [drain_onSend, if_neg hW, drain_strand,
          if_neg hW]

@[simp] theorem drainAll_sessions
    (order : List SessionId) :
    (s.drainAll order).sessions = s.sessions := by
  induction order generalizing s with
  | nil => rfl
  | cons session order ih => exact ih

@[simp] theorem drainAll_currStats
    (order : List SessionId) :
    (s.drainAll order).currStats = s.currStats := by
  induction order generalizing s with
  | nil => rfl
  | cons session order ih => exact ih

@[simp] theorem drainAll_prevStats
    (order : List SessionId) :
    (s.drainAll order).prevStats = s.prevStats := by
  induction order generalizing s with
  | nil => rfl
  | cons session order ih => exact ih

/-
  What a pass changes: both documents, and one more message
  given to each session.
-/
theorem serialStep_pass
    {next : Caller D P}
    {stats : D}
    {order : List SessionId}
    (hRest : s.AtRest)
    (hTracked : s.Tracked)
    (hSessions : s.sessions ≠ [])
    (hStep : s.serialStep f (.pass stats order) = some next) :
    next.sessions = s.sessions ∧
      next.currStats = stats ∧
      next.prevStats = stats ∧
      ∀ w ∈ s.sessions,
        next.onSend w =
          s.onSend w ++
            [.delta (s.syncVer + 1) s.prevStats stats
              (f.diff s.prevStats stats)] := by
  rcases Option.ite_none_right_eq_some.mp hStep with
    ⟨⟨_, hOrder⟩, hNext⟩
  cases hNext
  have hPerm := List.isPerm_iff.mp hOrder
  have hNodup := hPerm.nodup_iff.mpr hTracked.nodup
  refine ⟨?_, ?_, ?_, ?_⟩
  · rw [drainAll_sessions, doLoop, if_neg hSessions]
    rfl
  · rw [drainAll_currStats, doLoop, if_neg hSessions]
    rfl
  · rw [drainAll_prevStats, doLoop, if_neg hSessions]
    rfl
  · intro w hMember
    have hLive : s.life w = .live := by
      rcases (hTracked.member w).mp hMember with
        hLive | hExpired
      · exact hLive
      · exact absurd hExpired (hRest.lives w)
    have hIn := hPerm.mem_iff.mpr hMember
    rw [drainAll_onSend_of_mem hNodup hIn, doLoop,
      if_neg hSessions]
    change s.onSend w ++ sendEach s.life _ order s.strand w = _
    rw [sendEach_of_mem hNodup hIn hLive, hRest.delivered w]
    rfl

/- An allowed operation keeps the clients in step. -/
theorem synced_serialStep
    {Good : D → Prop}
    {Related : D → D → Prop}
    {next : Caller D P}
    {action : SerialAction D}
    (hAllowed : s.SerialAllowed Good Related action)
    (hRest : s.AtRest)
    (hTracked : s.Tracked)
    (hSynced : Synced f Good Related s)
    (hStep : s.serialStep f action = some next) :
    next.AtRest ∧ next.Tracked ∧
      Synced f Good Related next := by
  rcases serialStep_refines hAllowed hRest hStep with
    ⟨actions, hExec, hMeets⟩
  have hKeep :
      ∀ s action next,
        Allowed f Good Related s action →
          s.Tracked ∧ Synced f Good Related s →
            s.step f action = some next →
              next.Tracked ∧ Synced f Good Related next :=
    fun _ _ _ hAllowed hInv hStep =>
      ⟨tracked_step hInv.1 hStep,
        synced_step hAllowed hInv.1 hInv.2 hStep⟩
  exact
    ⟨atRest_serialStep hRest hStep,
      Run.invariant_of_meets hKeep ⟨hTracked, hSynced⟩
        hMeets hExec⟩

/- At rest a listed session was given its current document. -/
theorem held_onSend
    {Good : D → Prop}
    {Related : D → D → Prop}
    (hRest : s.AtRest)
    (hTracked : s.Tracked)
    (hSynced : Synced f Good Related s)
    {w : SessionId}
    (hMember : w ∈ s.sessions) :
    s.posted w = s.onSend w ∧
      held (s.onSend w) = some s.currStats := by
  have hLive : s.life w = .live := by
    rcases (hTracked.member w).mp hMember with
      hLive | hExpired
    · exact hLive
    · exact absurd hExpired (hRest.lives w)
  have hPosted : s.posted w = s.onSend w := by
    unfold posted
    rw [hRest.delivered w, List.append_nil]
  have hClient := hSynced.clients w hLive
  unfold Expects at hClient
  rw [hRest.idle] at hClient
  rw [← hPosted]
  exact ⟨rfl, hClient⟩

end Caller

end Sync

end Kedge
