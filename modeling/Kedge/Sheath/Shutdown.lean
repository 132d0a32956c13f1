import Kedge.Library.Progress
import Kedge.Sheath.Accounting

/-
  Termination of `save_all_resume`.

  The function asks for the resume data of every torrent,
  then waits until all requests are answered, and handles
  whatever alerts arrive meanwhile. Some of these lead to
  new requests. The backlog of a state bounds what is left
  to do: every step towards the end lowers it, and only an
  alert that `libtorrent` posts on its own raises it. As
  long as an answer is missing some such step is possible.

  Main declarations:
    * `System.backlog`
    * `System.backlog_step`
    * `System.exists_drain`
    * `System.save_all_resume_terminates`
-/

------------------------------------------------------------
-- The Backlog
------------------------------------------------------------

namespace Kedge

namespace Sheath

/-
  The steps an alert may still need once it was popped. An
  alert that is no answer may lead to one new request.
-/
def Alert.effort (alert : Alert) : Nat :=
  if alert.isAnswer then 1 else 5

/- The steps of the calling thread outside `pop_alerts`. -/
def Thread.effort : Thread → Nat
  | .loop => 0
  | .saving rest _ => 6 * rest.length + 2
  | .waiting => 1
  | .returned => 0

/-
  The steps that bring `save_all_resume` closer to its end,
  and so not a wait that times out.
-/
def Action.drains : Action → Bool
  | .answer _ _ => true
  | .handle _ _ => true
  | .popDone => true
  | .saveNext => true
  | .saveLoopDone => true
  | .waitAlert => true
  | .saveReturn => true
  | _ => false

/- What a step may add to what is left to do. -/
def Action.price : Action → Nat
  | .post _ => 7
  | .pop => 1
  | .saveAll handles => 6 * handles.length + 2
  | _ => 0

/- An alert that answers no request. -/
def Action.posts : Action → Bool
  | .post _ => true
  | _ => false

namespace System

/- `save_all_resume` is running. -/
def Saving (s : System) : Prop :=
  s.thread ≠ .loop ∧ s.thread ≠ .returned

/-
  A request still has to be answered and its answer to be
  popped and handled. The last two steps of a batch are paid
  for by its alerts, or by the request behind which it was
  popped.
-/
def backlog (s : System) : Nat :=
  4 * s.outstanding.length +
    (s.queue.map fun alert => alert.effort + 2).sum +
      (match s.batch with
        | none => 0
        | some alerts => (alerts.map Alert.effort).sum + 1) +
        s.thread.effort

end System

end Sheath

end Kedge

------------------------------------------------------------
-- Every Step Lowers the Backlog
------------------------------------------------------------

namespace Kedge

namespace Sheath

/- An answer leads to no request, other alerts to one. -/
theorem requests_le_effort
    (config : Config)
    (query : Query)
    (m : Members)
    (alert : Alert) :
    4 * (handleAlert config query m alert).requests.length +
        1 ≤
      alert.effort := by
  have hCount := handleAlert_numOutstanding config query m alert
  have hMost :
      (handleAlert config query m alert).requests.length ≤
        if alert.isAnswer then 0 else 1 := by
    cases alert with
    | torrentFinished h =>
        simp [handleAlert, Handled.requests, Alert.isAnswer,
          List.filterMap_cons, Command.saveRequest?,
          filterMap_onTorrentFinished]
    | addTorrent h failed =>
        cases failed with
        | true => simp [handleAlert, Handled.requests]
        | false =>
            cases hPeer : config.peer <;>
              simp [handleAlert, Handled.requests, hPeer,
                Alert.isAnswer, List.filterMap_cons,
                Command.saveRequest?]
    | _ =>
        simp [handleAlert, Handled.requests, Alert.isAnswer,
          Command.saveRequest?]
  unfold Alert.effort
  split
  · next hAnswer =>
    rw [if_pos hAnswer] at hMost
    omega
  · next hOther =>
    rw [if_neg hOther] at hMost
    omega

/- What popping the queue moves into the batch. -/
theorem sum_effort_le
    (alerts : List Alert) :
    (alerts.map Alert.effort).sum + 2 * alerts.length =
      (alerts.map fun alert => alert.effort + 2).sum := by
  induction alerts with
  | nil => rfl
  | cons alert alerts ih =>
      simp only [List.map_cons, List.sum_cons,
        List.length_cons]
      omega

namespace System

variable {config : Config}
variable {s : System}

theorem backlog_popAlerts
    (hBatch : s.batch = none) :
    s.popAlerts.backlog + 2 * s.queue.length =
      s.backlog + 1 := by
  have hSum := sum_effort_le s.queue
  simp only [backlog, popAlerts, hBatch, List.map_nil,
    List.sum_nil]
  omega

theorem backlog_popAlerts_le
    (hBatch : s.batch = none) :
    s.popAlerts.backlog ≤ s.backlog + 1 := by
  have hPop := backlog_popAlerts hBatch
  omega

theorem backlog_handle
    {alert : Alert}
    {rest : List Alert}
    (query : Query)
    (write : WriteOutcome)
    (hBatch : s.batch = some (alert :: rest)) :
    (s.handle config alert rest query write).backlog + 1 ≤
      s.backlog := by
  have hRequests :=
    requests_le_effort config query s.members alert
  simp only [backlog, handle, request, hBatch,
    List.length_append, List.map_cons, List.sum_cons]
  omega

theorem backlog_answer
    {i : Nat}
    {handle : Handle}
    {reply : Answer}
    (hRequest : s.outstanding[i]? = some handle) :
    (s.answer i handle reply).backlog + 1 = s.backlog := by
  rcases List.getElem?_eq_some_iff.mp hRequest with
    ⟨hBound, _⟩
  have hEffort : (reply.alert handle).effort = 1 := by
    cases reply <;> rfl
  simp only [backlog, answer, List.map_append, List.map_cons,
    List.map_nil, List.sum_append, List.sum_cons,
    List.sum_nil, hEffort,
    List.length_eraseIdx_of_lt hBound]
  omega

theorem backlog_saveNext
    {handle : Handle}
    {rest : List Handle}
    {idx : Nat}
    (hThread : s.thread = .saving (handle :: rest) idx)
    (hBatch : s.batch = none) :
    (s.saveNext handle rest idx).backlog + 1 ≤ s.backlog := by
  have hRequested :
      backlog
          { s.request [handle] with
            members := s.members.countUp
            thread := .saving rest (idx + 1) } + 2 =
        s.backlog := by
    simp only [backlog, request, hThread, hBatch,
      Thread.effort, List.length_append, List.length_cons,
      List.length_nil]
    omega
  unfold saveNext
  dsimp only
  split
  · refine le_trans (Nat.add_le_add_right ?_ 1)
      hRequested.le
    apply backlog_popAlerts_le
    exact hBatch
  · exact (Nat.le_succ _).trans hRequested.le

/-
  The steps of `save_all_resume` and of `pop_alerts` and the
  answers lower the backlog, and the others raise it by
  their price at most.
-/
theorem backlog_le_of_step
    {next : System}
    {action : Action}
    (hStep : s.step config action = some next) :
    next.backlog + (if action.drains then 1 else 0) ≤
      s.backlog + action.price := by
  cases next_of_step hStep with
  | @post alert hAlert =>
      have hEffort : alert.effort = 5 := by
        simp [Alert.effort, hAlert]
      simp only [backlog, List.map_append, List.map_cons,
        List.map_nil, List.sum_append, List.sum_cons,
        List.sum_nil, hEffort, Action.drains, Action.price]
      simp only [Bool.false_eq_true, if_false]
      omega
  | answer hRequest =>
      exact (backlog_answer hRequest).le
  | handle hBatch =>
      exact backlog_handle _ _ hBatch
  | pop _ hBatch =>
      exact backlog_popAlerts_le hBatch
  | popDone hBatch =>
      simp only [backlog, hBatch, List.map_nil, List.sum_nil,
        Action.drains, Action.price, if_true]
      omega
  | saveAll hThread _ =>
      simp only [backlog, hThread, Thread.effort,
        Action.drains, Action.price]
      simp only [Bool.false_eq_true, if_false]
      omega
  | saveNext hThread hBatch =>
      exact backlog_saveNext hThread hBatch
  | saveLoopDone hThread hBatch =>
      simp [backlog, hThread, hBatch, Action.drains,
        Action.price, Thread.effort]
  | waitAlert hThread hBatch =>
      -- The wait only ends with an alert in the queue.
      have hQueue : s.queue ≠ [] :=
        (Option.ite_none_right_eq_some.mp hStep).1.2.2.2
      have hPositive := List.length_pos_iff.mpr hQueue
      have hPop := backlog_popAlerts hBatch
      simp only [Action.drains, Action.price, if_true]
      omega
  | saveReturn hThread hBatch _ =>
      simp [backlog, hThread, Action.drains, Action.price,
        Thread.effort]
  | restart hThread =>
      simp [backlog, hThread, Action.drains, Action.price,
        Thread.effort]
  -- Torrents and files play no part in the backlog.
  | _ => exact Nat.le_refl _

/-
  While `save_all_resume` runs, only an alert raises the
  backlog.
-/
theorem backlog_step
    {next : System}
    {action : Action}
    (hSaving : s.Saving)
    (hStep : s.step config action = some next) :
    next.backlog + (if action.drains then 1 else 0) ≤
      s.backlog + (if action.posts then 7 else 0) := by
  have hPrice :
      action.price ≤ if action.posts then 7 else 0 := by
    cases next_of_step hStep with
    | pop hThread _
    | saveAll hThread _ => exact absurd hThread hSaving.1
    | _ => exact Nat.le_refl _
  exact
    (backlog_le_of_step hStep).trans
      (Nat.add_le_add_left hPrice _)

end System

end Sheath

end Kedge

------------------------------------------------------------
-- Nothing Gets Stuck
------------------------------------------------------------

namespace Kedge

namespace Sheath

namespace System

variable {config : Config}
variable {s : System}

/- A request without a handled answer is waited for. -/
theorem exists_drain_of_unhandled
    (hBatch : s.batch = none)
    (hThread : s.thread = .waiting)
    (hAccounted : s.Accounted config)
    (hCounter : s.members.numOutstandingResumeData > 0) :
    ∃ action next,
      action.drains = true ∧
        s.step config action = some next := by
  cases hOutstanding : s.outstanding with
  | cons handle rest =>
      -- `libtorrent` can answer the first request.
      refine
        ⟨.answer 0 (.failed .other),
          s.answer 0 handle (.failed .other), rfl, ?_⟩
      simp only [step, hOutstanding, List.getElem?_cons_zero]
  | nil =>
      -- The answer is in the queue, so the wait ends.
      have hQueue : s.queue ≠ [] := by
        intro hEmpty
        have hCount := hAccounted.counter
        have hNone : s.unhandled = 0 := by
          simp [unhandled, alerts, hOutstanding, hBatch,
            hEmpty]
        rw [hNone] at hCount
        omega
      exact
        ⟨.waitAlert, s.popAlerts, rfl,
          if_pos ⟨hThread, hBatch, hCounter, hQueue⟩⟩

/- Until the end some step towards it is possible. -/
theorem exists_drain
    (hAccounted : s.Accounted config)
    (hSaving : s.Saving) :
    ∃ action next,
      action.drains = true ∧
        s.step config action = some next := by
  cases hBatch : s.batch with
  | some alerts =>
      cases alerts with
      | nil =>
          refine
            ⟨.popDone, { s with batch := none }, rfl, ?_⟩
          simp only [step, hBatch]
      | cons alert rest =>
          refine
            ⟨.handle plainQuery .openFailed,
              s.handle config alert rest plainQuery
                .openFailed,
              rfl, ?_⟩
          simp only [step, hBatch]
  | none =>
      cases hThread : s.thread with
      | loop => exact absurd hThread hSaving.1
      | returned => exact absurd hThread hSaving.2
      | saving rest idx =>
          cases rest with
          | nil =>
              refine
                ⟨.saveLoopDone,
                  { s with thread := .waiting }, rfl, ?_⟩
              simp only [step, hBatch, hThread]
          | cons handle rest =>
              refine
                ⟨.saveNext, s.saveNext handle rest idx,
                  rfl, ?_⟩
              simp only [step, hBatch, hThread]
      | waiting =>
          by_cases hCounter :
              s.members.numOutstandingResumeData > 0
          · exact
              exists_drain_of_unhandled hBatch hThread
                hAccounted hCounter
          · exact
              ⟨.saveReturn, { s with thread := .returned },
                rfl, if_pos ⟨hThread, hBatch, hCounter⟩⟩

/- These steps do not lead back into the loop. -/
theorem thread_of_drain
    {next : System}
    {action : Action}
    (hThread : s.thread ≠ .loop)
    (hDrains : action.drains = true)
    (hStep : s.step config action = some next) :
    next.thread ≠ .loop := by
  cases next_of_step hStep with
  | saveNext _ _ =>
      unfold saveNext
      dsimp only
      split <;> simp [popAlerts]
  | saveLoopDone _ _ | saveReturn _ _ _ => simp
  | answer _ | handle _ | popDone _ | waitAlert _ _ =>
      exact hThread
  | _ => cases hDrains

end System

end Sheath

end Kedge

------------------------------------------------------------
-- Saving Comes to an End
------------------------------------------------------------

namespace Kedge

namespace Sheath

namespace System

/-
  However the steps of `libtorrent`, of the HTTP threads and
  of `save_all_resume` interleave, the call takes no more
  steps than its backlog and seven for each alert that
  arrives on its own. The waits that time out, of which
  there may be any number, are not counted. The call is
  never stuck: only after its return is there no step left
  that brings it closer to its end, and some such steps
  always lead to its return.
-/
theorem save_all_resume_terminates
    (config : Config)
    (values : SessionValues)
    (files : FileSystem)
    (actions : List Action)
    (s : System)
    (hExec :
      Run.exec (step config) (init values files) actions =
        some s)
    (hThread : s.thread ≠ .loop) :
    (∀ later finish,
      Run.Meets (step config) (fun s _ => s.Saving) s
          later →
        Run.exec (step config) s later = some finish →
          later.countP Action.drains ≤
            s.backlog + 7 * later.countP Action.posts) ∧
      ((∀ action, action.drains = true →
          s.step config action = none) →
        s.thread = .returned) ∧
      ∃ later finish,
        (∀ action ∈ later, action.drains = true) ∧
          Run.exec (step config) s later = some finish ∧
            finish.thread = .returned ∧
              later.length ≤ s.backlog := by
  have hAccounted := accounted_of_exec hExec
  refine ⟨?_, ?_, ?_⟩
  · intro later finish hMeets hLater
    have hBound :
        finish.backlog + later.countP Action.drains ≤
          s.backlog + 7 * later.countP Action.posts :=
      Run.amortized_count
        (fun _ _ _ hSaving hStep =>
          backlog_step hSaving hStep)
        hMeets hLater
    omega
  · intro hStuck
    by_contra hRunning
    rcases exists_drain hAccounted ⟨hThread, hRunning⟩ with
      ⟨action, next, hDrains, hStep⟩
    rw [hStuck action hDrains] at hStep
    cases hStep
  · have hProgress :
        ∀ s : System,
          s.Accounted config ∧ s.thread ≠ .loop →
            ¬ s.thread = .returned →
              ∃ action next,
                action.drains = true ∧
                  s.step config action = some next ∧
                    (next.Accounted config ∧
                      next.thread ≠ .loop) ∧
                      next.backlog < s.backlog := by
      rintro s ⟨hAccounted, hThread⟩ hRunning
      rcases exists_drain hAccounted ⟨hThread, hRunning⟩ with
        ⟨action, next, hDrains, hStep⟩
      have hLower :=
        backlog_step ⟨hThread, hRunning⟩ hStep
      have hPosts : action.posts = false := by
        cases action <;> first | rfl | cases hDrains
      rw [hDrains, hPosts] at hLower
      simp only [if_true, Bool.false_eq_true,
        if_false] at hLower
      exact
        ⟨action, next, hDrains, hStep,
          ⟨accounted_step hAccounted hStep,
            thread_of_drain hThread hDrains hStep⟩,
          by omega⟩
    rcases Run.exists_exec_of_progress hProgress
        ⟨hAccounted, hThread⟩ with
      ⟨later, finish, hDrains, hLater, _, hReturned,
        hLength⟩
    exact ⟨later, finish, hDrains, hLater, hReturned, hLength⟩

/- A torrent is being saved when it is paused. -/
theorem save_all_resume_terminates_one_torrent :
    ∃ s,
      Run.exec (step plainConfig) emptySystem
          [.add zeroHash, .post (.torrentPaused firstTorrent),
            .saveAll [firstTorrent], .saveNext] =
        some s ∧
      s.backlog = 13 ∧
      ∃ later finish,
        (∀ action ∈ later, action.drains = true) ∧
          Run.exec (step plainConfig) s later =
            some finish ∧
            finish.thread = .returned ∧
              later.length ≤ 13 := by
  refine ⟨_, rfl, by decide, ?_⟩
  exact
    (save_all_resume_terminates plainConfig ⟨[], [], 0, 0⟩
      (fun _ => none)
      [.add zeroHash, .post (.torrentPaused firstTorrent),
        .saveAll [firstTorrent], .saveNext]
      _ rfl (by decide)).2.2

end System

end Sheath

end Kedge
