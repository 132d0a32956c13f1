import Kedge.Sheath.System

/-
  Accounting of resume data.

  `num_outstanding_resume_data` counts the save requests
  whose answer has not been handled: those `libtorrent` has
  not answered, and those whose answer waits in the alert
  queue or in the batch being handled. `save_all_resume`
  returns when the counter says that there are none, and by
  then every successful answer was passed to `save_file`.

  Main declarations:
    * `System.unhandled`
    * `System.Accounted`
    * `System.accounted_step`
    * `System.resume_data_accounted`
-/

------------------------------------------------------------
-- The Invariant
------------------------------------------------------------

namespace Kedge

namespace Sheath

namespace System

/- The requests whose answer has not been handled yet. -/
def unhandled (s : System) : Nat :=
  s.outstanding.length + s.alerts.countP Alert.isAnswer

/-
  The counter is right, every request is answered once, the
  successful answers are saved in order, and nothing is left
  once `save_all_resume` has returned.
-/
structure Accounted
    (config : Config)
    (s : System) : Prop where
  counter :
    s.members.numOutstandingResumeData = (s.unhandled : Int)
  requests : s.issued = s.answered + s.unhandled
  saves :
    s.successes.map (saveCall config) =
      s.saves ++
        (s.alerts.filterMap Alert.success?).map
          (saveCall config)
  returned :
    s.thread = .returned →
      s.batch = none ∧
        s.members.numOutstandingResumeData ≤ 0

theorem accounted_init
    (config : Config)
    (values : SessionValues)
    (files : FileSystem) :
    Accounted config (init values files) where
  counter := rfl
  requests := rfl
  saves := rfl
  returned := by
    intro hReturned
    cases hReturned

/-
  A step that neither issues nor answers requests, and
  leaves the waiting alerts as they are.
-/
theorem Accounted.of_quiet
    {config : Config}
    {s next : System}
    (hAccounted : s.Accounted config)
    (hOutstanding : next.outstanding = s.outstanding)
    (hAlerts : next.alerts = s.alerts)
    (hMembers : next.members = s.members)
    (hIssued : next.issued = s.issued)
    (hAnswered : next.answered = s.answered)
    (hSuccesses : next.successes = s.successes)
    (hSaves : next.saves = s.saves)
    (hReturned :
      next.thread = .returned →
        next.batch = none ∧
          s.members.numOutstandingResumeData ≤ 0) :
    next.Accounted config := by
  have hUnhandled : next.unhandled = s.unhandled := by
    unfold unhandled
    rw [hOutstanding, hAlerts]
  refine
    { counter := ?_
      requests := ?_
      saves := ?_
      returned := ?_ }
  · rw [hMembers, hUnhandled]
    exact hAccounted.counter
  · rw [hIssued, hAnswered, hUnhandled]
    exact hAccounted.requests
  · rw [hSuccesses, hSaves, hAlerts]
    exact hAccounted.saves
  · rw [hMembers]
    exact hReturned

end System

end Sheath

end Kedge

------------------------------------------------------------
-- Every Step Keeps the Accounts
------------------------------------------------------------

namespace Kedge

namespace Sheath

namespace System

variable {config : Config}
variable {s : System}

/- An alert that is no answer joins the queue. -/
theorem accounted_post
    {alert : Alert}
    (hAccounted : s.Accounted config)
    (hAlert : alert.isAnswer = false) :
    Accounted config
      { s with queue := s.queue ++ [alert] } := by
  have hNone : alert.success? = none := by
    cases hSuccess : alert.success? with
    | none => rfl
    | some params =>
        rw [isAnswer_of_success hSuccess] at hAlert
        cases hAlert
  have hUnhandled :
      unhandled { s with queue := s.queue ++ [alert] } =
        s.unhandled := by
    unfold unhandled
    rw [alerts_post, List.countP_append]
    simp [hAlert]
  refine
    { counter := ?_
      requests := ?_
      saves := ?_
      returned := hAccounted.returned }
  · rw [hUnhandled]
    exact hAccounted.counter
  · rw [hUnhandled]
    exact hAccounted.requests
  · rw [alerts_post, List.filterMap_append]
    simpa [hNone] using hAccounted.saves

theorem filterMap_success_singleton
    (alert : Alert) :
    [alert].filterMap Alert.success? =
      alert.success?.toList := by
  cases hSuccess : alert.success? <;>
    simp [hSuccess]

/- A request becomes an answer in the queue. -/
theorem accounted_answer
    {i : Nat}
    {h : Handle}
    {reply : Answer}
    (hAccounted : s.Accounted config)
    (hRequest : s.outstanding[i]? = some h) :
    (s.answer i h reply).Accounted config := by
  have hAnswer : (reply.alert h).isAnswer = true := by
    cases reply <;> rfl
  have hLength :
      (s.outstanding.eraseIdx i).length + 1 =
        s.outstanding.length := by
    rcases List.getElem?_eq_some_iff.mp hRequest with
      ⟨hBound, _⟩
    rw [List.length_eraseIdx_of_lt hBound]
    omega
  have hUnhandled :
      (s.answer i h reply).unhandled = s.unhandled := by
    unfold unhandled
    rw [alerts_answer, List.countP_append,
      List.countP_singleton, hAnswer, if_pos rfl]
    change (s.outstanding.eraseIdx i).length + _ = _
    omega
  refine
    { counter := ?_
      requests := ?_
      saves := ?_
      returned := hAccounted.returned }
  · rw [hUnhandled]
    exact hAccounted.counter
  · rw [hUnhandled]
    exact hAccounted.requests
  · change
      (s.successes ++ (reply.alert h).success?.toList).map
          (saveCall config) =
        s.saves ++ _
    rw [alerts_answer, List.filterMap_append,
      filterMap_success_singleton, List.map_append,
      List.map_append, ← List.append_assoc,
      hAccounted.saves]

/-
  The handler issues its requests, takes the answer off the
  batch and saves it if it is successful.
-/
theorem accounted_handle
    {alert : Alert}
    {rest : List Alert}
    (query : Query)
    (write : WriteOutcome)
    (hAccounted : s.Accounted config)
    (hBatch : s.batch = some (alert :: rest)) :
    (s.handle config alert rest query write).Accounted
      config := by
  have hAlerts :=
    alerts_handle config query write hBatch
  have hCount :=
    handleAlert_numOutstanding config query s.members alert
  have hUnhandled :
      (s.handle config alert rest query write).unhandled +
          (if alert.isAnswer then 1 else 0) =
        s.unhandled +
          (handleAlert config query s.members
            alert).requests.length := by
    unfold unhandled
    rw [hAlerts, List.countP_cons]
    change (s.outstanding ++ _).length + _ + _ = _
    rw [List.length_append]
    omega
  refine
    { counter := ?_
      requests := ?_
      saves := ?_
      returned := ?_ }
  · change
      (handleAlert config query s.members
        alert).members.numOutstandingResumeData = _
    rw [hCount, hAccounted.counter]
    cases hAnswer : alert.isAnswer with
    | true =>
        rw [hAnswer, if_pos rfl] at hUnhandled
        rw [if_pos rfl]
        omega
    | false =>
        rw [hAnswer, if_neg (by decide)] at hUnhandled
        rw [if_neg (by decide)]
        omega
  · have hRequests := hAccounted.requests
    change
      s.issued + _ =
        s.answered + (if alert.isAnswer then 1 else 0) + _
    omega
  · have hSaves := hAccounted.saves
    change
      s.successes.map (saveCall config) =
        s.saves ++
            (handleAlert config query s.members
              alert).saved.toList ++ _
    rw [handleAlert_saved, hSaves, hAlerts,
      ← List.singleton_append, List.filterMap_append,
      filterMap_success_singleton, List.map_append,
      ← List.append_assoc]
    cases alert.success? <;> rfl
  · intro hReturned
    have hNone := (hAccounted.returned hReturned).1
    rw [hBatch] at hNone
    cases hNone

/- One more request, with or without a pop behind it. -/
theorem accounted_saveNext
    {h : Handle}
    {rest : List Handle}
    {idx : Nat}
    (hAccounted : s.Accounted config)
    (hBatch : s.batch = none) :
    (s.saveNext h rest idx).Accounted config := by
  have hUnhandled :
      ∀ thread,
        unhandled
            { s.request [h] with
              members := s.members.countUp
              thread := thread } =
          s.unhandled + 1 := by
    intro thread
    unfold unhandled
    change (s.outstanding ++ [h]).length + _ = _
    rw [List.length_append, List.length_singleton]
    change _ + 1 + s.alerts.countP Alert.isAnswer = _
    omega
  have hRequested :
      Accounted config
        { s.request [h] with
          members := s.members.countUp
          thread := .saving rest (idx + 1) } := by
    refine
      { counter := ?_
        requests := ?_
        saves := hAccounted.saves
        returned := ?_ }
    · rw [hUnhandled]
      change s.members.numOutstandingResumeData + 1 = _
      rw [hAccounted.counter]
      omega
    · have hRequests := hAccounted.requests
      rw [hUnhandled]
      change s.issued + 1 = s.answered + _
      omega
    · intro hReturned
      cases hReturned
  unfold saveNext
  dsimp only
  split
  · refine hRequested.of_quiet (by rfl)
      (alerts_popAlerts hBatch) (by rfl) (by rfl) (by rfl)
      (by rfl) (by rfl) ?_
    intro hReturned
    cases hReturned
  · exact hRequested

theorem accounted_step
    {next : System}
    {action : Action}
    (hAccounted : s.Accounted config)
    (hStep : s.step config action = some next) :
    next.Accounted config := by
  cases next_of_step hStep with
  | post hAlert => exact accounted_post hAccounted hAlert
  | answer hRequest =>
      exact accounted_answer hAccounted hRequest
  | handle hBatch =>
      exact accounted_handle _ _ hAccounted hBatch
  | saveNext _ hBatch =>
      exact accounted_saveNext hAccounted hBatch
  | pop hThread hBatch =>
      refine hAccounted.of_quiet (by rfl)
        (alerts_popAlerts hBatch) (by rfl) (by rfl) (by rfl)
        (by rfl) (by rfl) ?_
      intro hReturned
      cases hThread.symm.trans hReturned
  | waitAlert hThread hBatch =>
      refine hAccounted.of_quiet (by rfl)
        (alerts_popAlerts hBatch) (by rfl) (by rfl) (by rfl)
        (by rfl) (by rfl) ?_
      intro hReturned
      cases hThread.symm.trans hReturned
  | popDone hBatch =>
      refine hAccounted.of_quiet (by rfl)
        (alerts_popDone hBatch) (by rfl) (by rfl) (by rfl)
        (by rfl) (by rfl) ?_
      intro hReturned
      exact ⟨rfl, (hAccounted.returned hReturned).2⟩
  | saveReturn hThread hBatch hNone =>
      exact hAccounted.of_quiet (by rfl) (by rfl) (by rfl)
        (by rfl) (by rfl) (by rfl) (by rfl)
        (fun _ => ⟨hBatch, hNone⟩)
  | waitTimeout => exact hAccounted
  | saveAll hThread hBatch | saveLoopDone hThread hBatch =>
      refine hAccounted.of_quiet (by rfl) (by rfl) (by rfl)
        (by rfl) (by rfl) (by rfl) (by rfl) ?_
      intro hReturned
      cases hReturned
  | restart hThread =>
      refine hAccounted.of_quiet (by rfl) (by rfl) (by rfl)
        (by rfl) (by rfl) (by rfl) (by rfl) ?_
      intro hReturned
      cases hReturned
  -- Torrents and files play no part in the accounts.
  | _ =>
      exact hAccounted.of_quiet (by rfl) (by rfl) (by rfl)
        (by rfl) (by rfl) (by rfl) (by rfl)
        hAccounted.returned

theorem accounted_of_exec
    {values : SessionValues}
    {files : FileSystem}
    {actions : List Action}
    (hExec :
      Run.exec (step config) (init values files) actions =
        some s) :
    s.Accounted config :=
  Run.invariant
    (fun _ _ _ hAccounted hStep =>
      accounted_step hAccounted hStep)
    (accounted_init config values files) hExec

end System

end Sheath

end Kedge

------------------------------------------------------------
-- The Accounts Are Right
------------------------------------------------------------

namespace Kedge

namespace Sheath

namespace System

/-
  In every run the counter is the number of save requests
  issued whose answer has not been handled, and therefore
  never negative. When `save_all_resume` returns, every
  request was answered, and every successful answer was
  passed to `save_file` under the name of its resume file.
-/
theorem resume_data_accounted
    (config : Config)
    (values : SessionValues)
    (files : FileSystem)
    (actions : List Action)
    (s : System)
    (hExec :
      Run.exec (step config) (init values files) actions =
        some s) :
    s.members.numOutstandingResumeData =
        (s.unhandled : Int) ∧
      s.issued = s.answered + s.unhandled ∧
      0 ≤ s.members.numOutstandingResumeData ∧
      (s.thread = .returned →
        s.outstanding = [] ∧
          (∀ alert ∈ s.alerts, alert.isAnswer = false) ∧
          s.answered = s.issued ∧
          s.saves =
            s.successes.map fun params =>
              (resumeFile config.dirConf params.infoHash,
                config.writeResumeDataBuf params)) := by
  have hAccounted := accounted_of_exec hExec
  have hCounter := hAccounted.counter
  refine
    ⟨hCounter, hAccounted.requests, by omega, ?_⟩
  intro hReturned
  have hNone := (hAccounted.returned hReturned).2
  have hZero : s.unhandled = 0 := by omega
  have hRequests := hAccounted.requests
  have hParts := hZero
  unfold unhandled at hParts
  have hOutstanding : s.outstanding = [] :=
    List.length_eq_zero_iff.mp (by omega)
  have hAlerts :
      ∀ alert ∈ s.alerts, alert.isAnswer = false := by
    have hCount : s.alerts.countP Alert.isAnswer = 0 := by
      omega
    rw [List.countP_eq_zero] at hCount
    intro alert hMember
    simpa using hCount alert hMember
  have hSuccesses :
      s.alerts.filterMap Alert.success? = [] := by
    rw [List.filterMap_eq_nil_iff]
    intro alert hMember
    cases hSuccess : alert.success? with
    | none => rfl
    | some params =>
        have hAnswer := isAnswer_of_success hSuccess
        rw [hAlerts alert hMember] at hAnswer
        cases hAnswer
  have hSaves := hAccounted.saves
  rw [hSuccesses, List.map_nil, List.append_nil] at hSaves
  exact ⟨hOutstanding, hAlerts, by omega, hSaves.symm⟩

/- One torrent is saved before `save_all_resume` returns. -/
theorem resume_data_accounted_one_torrent :
    ∃ s,
      Run.exec (step plainConfig) emptySystem
          [.add zeroHash, .saveAll [firstTorrent], .saveNext,
            .saveLoopDone, .waitTimeout,
            .answer 0 (.saved [1, 2]), .waitAlert,
            .handle plainQuery (.stored 2), .popDone,
            .saveReturn] =
        some s ∧
      s.thread = .returned ∧ s.answered = s.issued ∧
      s.saves =
        s.successes.map fun params =>
          (resumeFile plainConfig.dirConf params.infoHash,
            plainConfig.writeResumeDataBuf params) := by
  refine ⟨_, rfl, rfl, ?_⟩
  have hAccounts :=
    resume_data_accounted plainConfig ⟨[], [], 0, 0⟩
      (fun _ => none)
      [.add zeroHash, .saveAll [firstTorrent], .saveNext,
        .saveLoopDone, .waitTimeout,
        .answer 0 (.saved [1, 2]), .waitAlert,
        .handle plainQuery (.stored 2), .popDone,
        .saveReturn]
      _ rfl
  exact (hAccounts.2.2.2 rfl).2.2

end System

end Sheath

end Kedge
