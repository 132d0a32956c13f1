import Kedge.Library.Progress
import Kedge.Sync.EndToEnd
import Kedge.Sync.Wire

/-
  What the clients of the caller see, as long as none of
  them sends text frames: a frame is relayed to all clients,
  who take it for a message of the server.

  A client stores the snapshot handed to its socket and
  applies the deltas that follow. As long as the documents
  grow slowly, the part of its messages that has reached it
  always makes up a document that `getSyncStats` had
  returned, and the delivery of what is queued brings it to
  `curr_stats`.

  Main declarations:
    * `Caller.Shows`
    * `Wire.PublishesSlowly`
    * `Wire.clients_see_published_documents`
    * `Wire.Catching`
    * `Wire.clients_catch_up`
-/

------------------------------------------------------------
-- Published Documents
------------------------------------------------------------

namespace Kedge

namespace Sync

/- The document that `getSyncStats` returned for a step. -/
def Action.published? {D : Type} : Action D → Option D
  | .join _ _ _ stats => some stats
  | .assign stats => some stats
  | _ => none

namespace Caller

variable {D P : Type}
variable {f : Format D P}

/-
  The messages are about documents of the list, and so is
  the one that the running pass builds.
-/
structure Shows
    (f : Format D P)
    (documents : List D)
    (s : Caller D P) : Prop where
  posted : ∀ w, ∀ m ∈ s.posted w, m.target ∈ documents
  current :
    f.isNull s.currStats = false → s.currStats ∈ documents
  assigned :
    s.pass = .assigned → f.isNull s.currStats = false
  built :
    ∀ message, s.pass = .built message →
      message.target ∈ documents
  sending :
    ∀ message targets, s.pass = .sending message targets →
      message.target ∈ documents

theorem shows_init
    (f : Format D P) :
    Shows f [] (init f) where
  posted := by
    intro w m hM
    cases hM
  current := by
    intro hNull
    have hIs := (f.isNull_iff f.null).mpr rfl
    change f.isNull f.null = false at hNull
    rw [hIs] at hNull
    cases hNull
  assigned := by
    intro hPass
    cases hPass
  built := by
    intro message hPass
    cases hPass
  sending := by
    intro message targets hPass
    cases hPass

/- More documents, and the same messages. -/
theorem Shows.of_pass
    {documents : List D}
    {s next : Caller D P}
    (hShows : s.Shows f documents)
    (more : List D)
    (hPosted : ∀ w, next.posted w = s.posted w)
    (hCurr : next.currStats = s.currStats)
    (hAssigned :
      next.pass = .assigned → s.pass = .assigned)
    (hBuilt :
      ∀ message, next.pass = .built message →
        message.target ∈ documents)
    (hSending :
      ∀ message targets,
        next.pass = .sending message targets →
          message.target ∈ documents) :
    next.Shows f (documents ++ more) where
  posted := by
    intro w m hM
    rw [hPosted] at hM
    exact List.mem_append_left _ (hShows.posted w m hM)
  current := by
    rw [hCurr]
    exact fun hNull =>
      List.mem_append_left _ (hShows.current hNull)
  assigned := by
    rw [hCurr]
    exact fun hPass => hShows.assigned (hAssigned hPass)
  built := fun message hPass =>
    List.mem_append_left _ (hBuilt message hPass)
  sending := fun message targets hPass =>
    List.mem_append_left _ (hSending message targets hPass)

/- The posted messages are about the same documents. -/
theorem target_posted_post
    {documents : List D}
    {s : Caller D P}
    {message : Message D P}
    (hOld : ∀ w, ∀ m ∈ s.posted w, m.target ∈ documents)
    (session : SessionId)
    (hTarget : message.target ∈ documents) :
    ∀ w, ∀ m ∈ (s.post session message).posted w,
      m.target ∈ documents := by
  intro w m hM
  by_cases hW : w = session
  · subst hW
    rw [posted_post_self, List.mem_append,
      List.mem_singleton] at hM
    rcases hM with hIn | rfl
    · exact hOld w m hIn
    · exact hTarget
  · rw [posted_post_of_ne s message hW] at hM
    exact hOld w m hM

/- The snapshot is the new document or the current one. -/
theorem shows_join
    {documents : List D}
    {s : Caller D P}
    {session : SessionId}
    {stats : D}
    (qid : Str)
    (random : Nat)
    (hShows : s.Shows f documents)
    (hStats : f.isNull stats = false) :
    (s.join f session qid random stats).Shows f
      (documents ++ [stats]) := by
  have hBody :
      s.statsForJoin f stats ∈ documents ++ [stats] := by
    unfold statsForJoin
    split
    · exact List.mem_append_right _ List.mem_cons_self
    · next hNull =>
      exact List.mem_append_left _
        (hShows.current (by simpa using hNull))
  refine
    { posted := ?_
      current := fun _ => hBody
      assigned := fun _ => nonNull_statsForJoin hStats
      built := fun message hPass =>
        List.mem_append_left _ (hShows.built message hPass)
      sending := fun message targets hPass =>
        List.mem_append_left _
          (hShows.sending message targets hPass) }
  have hOld :
      ∀ w, ∀ m ∈ s.posted w,
        m.target ∈ documents ++ [stats] :=
    fun w m hM =>
      List.mem_append_left _ (hShows.posted w m hM)
  exact target_posted_post hOld session hBody

theorem shows_step
    {documents : List D}
    {s next : Caller D P}
    {action : Action D}
    (hShows : s.Shows f documents)
    (hStep : s.step f action = some next) :
    next.Shows f (documents ++ action.published?.toList) := by
  cases next_of_step hStep with
  | join _ hStats => exact shows_join _ _ hShows hStats
  | runStrand hStrand =>
      exact hShows.of_pass [] (posted_runStrand s hStrand)
        (by rfl) (fun hPass => hPass) hShows.built
        hShows.sending
  | release _ _ | leave _ =>
      exact hShows.of_pass [] (by intro; rfl) (by rfl)
        (fun hPass => hPass) hShows.built hShows.sending
  | skip _ _ =>
      exact hShows.of_pass [] (by intro; rfl) (by rfl)
        (fun hPass => hPass) hShows.built hShows.sending
  | assign _ hStats =>
      refine
        { posted := ?_
          current := ?_
          assigned := fun _ => hStats
          built := ?_
          sending := ?_ }
      · intro w m hM
        exact List.mem_append_left _ (hShows.posted w m hM)
      · intro _
        exact List.mem_append_right _ List.mem_cons_self
      · intro message hPass
        cases hPass
      · intro message targets hPass
        cases hPass
  | build hPass =>
      have hCurrent :=
        hShows.current (hShows.assigned hPass)
      refine hShows.of_pass [] (by intro; rfl) (by rfl)
        ?_ ?_ ?_
      · intro hNext
        cases hNext
      · intro message hNext
        cases hNext
        exact hCurrent
      · intro message targets hNext
        cases hNext
  | copy hPass _ =>
      refine hShows.of_pass [] (by intro; rfl) (by rfl)
        ?_ ?_ ?_
      · intro hNext
        cases hNext
      · intro message hNext
        cases hNext
      · intro message targets hNext
        cases hNext
        exact hShows.built _ hPass
  | @send message session targets hPass hLife =>
      have hTarget := hShows.sending _ _ hPass
      refine
        { posted := ?_
          current := fun hNull =>
            List.mem_append_left _ (hShows.current hNull)
          assigned := ?_
          built := ?_
          sending := ?_ }
      · intro w m hM
        exact
          List.mem_append_left _
            (target_posted_post hShows.posted session hTarget w
              m hM)
      · intro hNext
        cases hNext
      · intro message' hNext
        cases hNext
      · intro message' targets' hNext
        cases hNext
        exact List.mem_append_left _ hTarget
  | passOver hPass _ =>
      refine hShows.of_pass [] (by intro; rfl) (by rfl)
        ?_ ?_ ?_
      · intro hNext
        cases hNext
      · intro message hNext
        cases hNext
      · intro message targets hNext
        cases hNext
        exact hShows.sending _ _ hPass
  | enter _ _ | count _ | finish _ =>
      refine hShows.of_pass [] (by intro; rfl) (by rfl)
        ?_ ?_ ?_
      · intro hNext
        cases hNext
      · intro message hNext
        cases hNext
      · intro message targets hNext
        cases hNext

theorem shows_of_exec
    {actions : List (Action D)}
    {s : Caller D P}
    (hExec : Run.exec (step f) (init f) actions = some s) :
    s.Shows f (actions.filterMap Action.published?) := by
  have hKeep :
      ∀ (past : List (Action D)) (s : Caller D P)
        (action : Action D) (next : Caller D P),
        s.Shows f (past.filterMap Action.published?) →
          s.step f action = some next →
            next.Shows f
              ((past ++ [action]).filterMap
                Action.published?) := by
    intro past s action next hShows hStep
    have hNext := shows_step hShows hStep
    rw [List.filterMap_append]
    cases hPublished : action.published? <;>
      simpa [hPublished] using hNext
  exact Run.invariant_of_past hKeep (shows_init f) hExec

end Caller

end Sync

end Kedge

------------------------------------------------------------
-- Documents of the Clients
------------------------------------------------------------

namespace Kedge

namespace Sync

namespace Wire

open Json

/-
  The steps under which clients can follow: the documents
  are well formed, none grows an array by more than one
  element, and no session joins between the assignment of
  `curr_stats` and the copy of the session list, unless the
  pass changes nothing.
-/
def PublishesSlowly
    (s : Wire Value (List Value))
    (action : WireAction Value) : Prop :=
  ∀ own, action.caller? = some own →
    s.caller.Allowed jsonFormat WellFormed Transmits own

theorem synced_of_exec
    {actions : List (WireAction Value)}
    {s : Wire Value (List Value)}
    (hMeets :
      Run.Meets (step jsonFormat) PublishesSlowly
        (init jsonFormat) actions)
    (hExec :
      Run.exec (step jsonFormat) (init jsonFormat) actions =
        some s) :
    Caller.Synced jsonFormat WellFormed Transmits s.caller := by
  have hAllowed :
      Run.Meets (Caller.step jsonFormat)
        (fun s action =>
          s.Allowed jsonFormat WellFormed Transmits action)
        (Caller.init jsonFormat)
        (actions.filterMap WireAction.caller?) :=
    Run.meets_filterMap
      (fun _ _ _ _ hOwn hStep => caller_of_step hOwn hStep)
      (fun _ _ _ hOther hStep =>
        caller_of_other hOther hStep)
      hMeets hExec
  exact Caller.synced_of_exec hAllowed (caller_of_exec hExec)

/-
  A client that received the first of the messages posted to
  it holds a copy of the document the last one is about.
-/
theorem exists_clientDocument
    {s : Wire Value (List Value)}
    {w : SessionId}
    {received : List (Message Value (List Value))}
    {target : Value}
    (hSynced :
      Caller.Synced jsonFormat WellFormed Transmits s.caller)
    (hReceived : received <+: s.caller.posted w)
    (hHeld : held received = some target) :
    ∃ current,
      clientDocument (received.map Message.toJson) =
        some current ∧
      current.equals target = true := by
  rcases hReceived with ⟨rest, hSplit⟩
  have hChained := hSynced.chained w
  have hGenuine := hSynced.genuine w
  rw [← hSplit] at hChained hGenuine
  rcases exists_document_of_chained
      (fun _ hDocument => CopyOf.refl hDocument)
      exists_applyPatch_diff hChained.of_append
      (fun m hM => hGenuine m (List.mem_append_left _ hM))
      hHeld with
    ⟨current, hCurrent, hCopy⟩
  refine ⟨current, ?_, hCopy.equals⟩
  rw [clientDocument_map_toJson]
  exact hCurrent

/-
  While no client sends text frames, whatever part of its
  messages has reached a client, the client holds a copy of
  a document that `getSyncStats` had returned: the one that
  the last message it received is about.
-/
theorem clients_see_published_documents
    (actions : List (WireAction Value))
    (s : Wire Value (List Value))
    (hMeets :
      Run.Meets (step jsonFormat) PublishesSlowly
        (init jsonFormat) actions)
    (hExec :
      Run.exec (step jsonFormat) (init jsonFormat) actions =
        some s)
    (w : SessionId)
    (received : List (Message Value (List Value)))
    (hReceived : received <+: (s.sockets w).handed)
    (hSome : received ≠ []) :
    ∃ message current,
      received.getLast? = some message ∧
      message.target ∈
        (actions.filterMap WireAction.caller?).filterMap
          Action.published? ∧
      clientDocument (received.map Message.toJson) =
        some current ∧
      current.equals message.target = true := by
  have hSynced := synced_of_exec hMeets hExec
  have hShows := Caller.shows_of_exec (caller_of_exec hExec)
  have hPosted :=
    hReceived.trans
      ((fed_of_exec hExec).handed_prefix_posted w)
  have hLast := List.getLast?_eq_some_getLast hSome
  have hHeld :
      held received =
        some (received.getLast hSome).target := by
    rw [held, hLast, Option.map_some]
  rcases exists_clientDocument hSynced hPosted hHeld with
    ⟨current, hCurrent, hEquals⟩
  exact
    ⟨received.getLast hSome, current, hLast,
      hShows.posted w _
        (hPosted.subset (List.getLast_mem hSome)),
      hCurrent, hEquals⟩

/- A client that joins, and a pass that sends it a delta. -/
def onePass : List (WireAction Value) :=
  (.join 1 [] 1000 (.array []) :: .runStrand 1 ::
    passActions (.array [.int64 1]) [1]).map
    WireAction.caller

theorem onePass_publishesSlowly :
    Run.Meets (step jsonFormat) PublishesSlowly
      (init jsonFormat) onePass := by
  have hEmpty : WellFormed (.array []) := by
    simp [WellFormed, Value.UniqueKeys, Value.PlainKeys,
      Value.KeysSatisfy, Value.ElementsSatisfy]
  have hFirst : WellFormed (.array [.int64 1]) := by
    simp [WellFormed, Value.UniqueKeys, Value.PlainKeys,
      Value.KeysSatisfy, Value.ElementsSatisfy]
  refine ⟨?_, ?_⟩
  · rintro _ ⟨⟩
    exact ⟨hEmpty, fun hWindow => hWindow.elim⟩
  rintro _ ⟨⟩
  iterate 3
    refine ⟨by rintro _ ⟨⟩; trivial, ?_⟩
    rintro _ ⟨⟩
  refine ⟨by rintro _ ⟨⟩; exact ⟨hFirst, hFirst, rfl⟩, ?_⟩
  rintro _ ⟨⟩
  iterate 4
    refine ⟨by rintro _ ⟨⟩; trivial, ?_⟩
    rintro _ ⟨⟩
  trivial

/- The snapshot has been handed over, the delta has not. -/
theorem clients_see_published_documents_one_pass :
    ∃ s,
      Run.exec (step jsonFormat) (init jsonFormat) onePass =
        some s ∧
      ∃ message current,
        (s.sockets 1).handed.getLast? = some message ∧
        message.target ∈
          (onePass.filterMap WireAction.caller?).filterMap
            Action.published? ∧
        clientDocument
            ((s.sockets 1).handed.map Message.toJson) =
          some current ∧
        current.equals message.target = true := by
  refine ⟨_, rfl, ?_⟩
  exact
    clients_see_published_documents onePass _
      onePass_publishesSlowly rfl 1 _ List.prefix_rfl
      (by simp [WebSocket.Session.onSend,
        WebSocket.Session.asyncWrite,
        WebSocket.Session.init, init])

end Wire

end Sync

end Kedge

------------------------------------------------------------
-- Delivery of What Is Queued
------------------------------------------------------------

namespace Kedge

namespace Sync

/-
  The steps that bring queued messages to a client: its
  strand runs, or its socket completes a write.
-/
def WireAction.delivers
    {D : Type}
    (w : SessionId) :
    WireAction D → Bool
  | .caller (.runStrand session) => session == w
  | .writeDone session _ none => session == w
  | _ => false

namespace Wire

variable {D P : Type}
variable {f : Format D P}
variable {s : Wire D P}
variable {w : SessionId}

/- The steps needed to deliver what is queued. -/
def unsent (s : Wire D P) (w : SessionId) : Nat :=
  2 * (s.caller.strand w).length +
    (s.sockets w).queue.length

/-
  What a delivery keeps: the connection is open, and nothing
  more was posted or published.
-/
structure Catching
    (start s : Wire D P)
    (w : SessionId) : Prop where
  fed : s.Fed
  isOpen : (s.sockets w).failed = false
  posted : s.caller.posted w = start.caller.posted w
  currStats : s.caller.currStats = start.caller.currStats

end Wire

end Sync

namespace WebSocket

namespace Session

variable {M : Type}
variable {s : Session M}

theorem queue_onSend
    (s : Session M)
    (message : M) :
    (s.onSend message).queue = s.queue ++ [message] := by
  unfold onSend
  dsimp only
  split <;> rfl

theorem failed_onSend
    (s : Session M)
    (message : M) :
    (s.onSend message).failed = s.failed := by
  unfold onSend
  dsimp only
  split <;> rfl

/- A completed write takes its message off the queue. -/
theorem written_writeDone
    {next : Session M}
    {i : Nat}
    (hWriting : s.Writing)
    (hStep : s.step (.writeDone i none) = some next) :
    next.failed = false ∧
      next.queue.length + 1 = s.queue.length := by
  rcases Option.ite_none_right_eq_some.mp hStep with
    ⟨hIndex, hNext⟩
  rcases hWriting.queue_of_outstanding hIndex with
    ⟨hFailed, _, front, rest, hQueue⟩
  cases hNext
  unfold onWrite
  dsimp only
  rw [hQueue]
  split
  · exact ⟨hFailed, rfl⟩
  · exact ⟨hFailed, rfl⟩

/- The front of the queue can be written. -/
theorem exists_writeDone
    (hWriting : s.Writing)
    (hFailed : s.failed = false)
    (hQueue : s.queue ≠ []) :
    ∃ next, s.step (.writeDone 0 none) = some next := by
  have hIndex : 0 < s.outstanding.length := by
    rw [hWriting.running hFailed, List.length_take]
    have hPositive := List.length_pos_iff.mpr hQueue
    omega
  exact ⟨_, if_pos hIndex⟩

end Session

end WebSocket

namespace Sync

namespace Wire

variable {D P : Type}
variable {f : Format D P}
variable {start s : Wire D P}
variable {w : SessionId}

theorem catching_step
    {next : Wire D P}
    {action : WireAction D}
    (hDelivers : action.delivers w = true)
    (hCatching : Catching start s w)
    (hStep : s.step f action = some next) :
    Catching start next w ∧
      next.unsent w < s.unsent w := by
  have hFed := fed_step hCatching.fed hStep
  cases next_of_step hStep with
  | @runStrand session message rest hStrand =>
      have hW : session = w := by
        simpa [WireAction.delivers] using hDelivers
      subst hW
      refine
        ⟨{ fed := hFed
           isOpen := ?_
           posted := ?_
           currStats := hCatching.currStats }, ?_⟩
      · simpa [WebSocket.Session.failed_onSend] using
          hCatching.isOpen
      · exact
          (Caller.posted_runStrand s.caller hStrand _).trans
            hCatching.posted
      · simp only [unsent, Caller.runStrand, hStrand,
          Function.update_self,
          WebSocket.Session.queue_onSend,
          List.length_append, List.length_cons,
          List.length_nil]
        omega
  | @writeDone session i ec socket hSocket =>
      cases ec with
      | some code => cases hDelivers
      | none =>
          have hW : session = w := by
            simpa [WireAction.delivers] using hDelivers
          subst hW
          rcases WebSocket.Session.written_writeDone
              (hCatching.fed.writing session) hSocket with
            ⟨hFailed, hLength⟩
          refine
            ⟨{ fed := hFed
               isOpen := ?_
               posted := hCatching.posted
               currStats := hCatching.currStats }, ?_⟩
          · simpa [setSocket] using hFailed
          · simp only [unsent, setSocket,
              Function.update_self]
            omega
  | @caller action caller hAction _ =>
      cases action with
      | runStrand session => exact absurd rfl (hAction _)
      | _ => cases hDelivers
  | close => cases hDelivers

/- What is still queued can be delivered. -/
theorem exists_delivery
    (hCatching : Catching start s w)
    (hUnsent : s.unsent w ≠ 0) :
    ∃ action next,
      action.delivers w = true ∧
        s.step f action = some next := by
  cases hStrand : s.caller.strand w with
  | cons message rest =>
      refine
        ⟨.caller (.runStrand w),
          { caller := s.caller.runStrand w message rest
            sockets :=
              Function.update s.sockets w
                ((s.sockets w).onSend message) },
          beq_self_eq_true w, ?_⟩
      simp only [step, hStrand]
  | nil =>
      have hQueue : (s.sockets w).queue ≠ [] := by
        intro hEmpty
        simp [unsent, hStrand, hEmpty] at hUnsent
      rcases WebSocket.Session.exists_writeDone
          (hCatching.fed.writing w) hCatching.isOpen
          hQueue with
        ⟨socket, hSocket⟩
      refine
        ⟨.writeDone w 0 none, s.setSocket w socket,
          beq_self_eq_true w, ?_⟩
      rw [step, hSocket]
      rfl

/- With nothing left to deliver, everything was written. -/
theorem Catching.handed_eq_posted
    (hCatching : Catching start s w)
    (hUnsent : s.unsent w = 0) :
    (s.sockets w).outstanding = [] ∧
      (s.sockets w).handed = start.caller.posted w := by
  have hWriting := hCatching.fed.writing w
  unfold unsent at hUnsent
  have hQueue : (s.sockets w).queue = [] :=
    List.length_eq_zero_iff.mp (by omega)
  have hStrand : s.caller.strand w = [] :=
    List.length_eq_zero_iff.mp (by omega)
  have hHanded := hWriting.handed_append_tail
  rw [hQueue, List.tail_nil, List.append_nil,
    hCatching.fed.given w] at hHanded
  refine ⟨?_, ?_⟩
  · rw [hWriting.running hCatching.isOpen, hQueue]
    rfl
  · rw [hHanded, ← hCatching.posted, Caller.posted, hStrand,
      List.append_nil]

end Wire

end Sync

end Kedge

------------------------------------------------------------
-- Clients Catch Up
------------------------------------------------------------

namespace Kedge

namespace Sync

namespace Wire

open Json

/-
  While no client sends text frames: between two passes, a
  connected client whose socket works needs nothing but the
  delivery of what is queued for it. However these
  deliveries are scheduled, there are no more of them than
  two for each message on the strand and one for each in the
  queue; and when none is left, everything was written and
  the client holds a copy of `curr_stats`.
-/
theorem clients_catch_up
    (actions : List (WireAction Value))
    (s : Wire Value (List Value))
    (hMeets :
      Run.Meets (step jsonFormat) PublishesSlowly
        (init jsonFormat) actions)
    (hExec :
      Run.exec (step jsonFormat) (init jsonFormat) actions =
        some s)
    (hIdle : s.caller.pass = .idle)
    (w : SessionId)
    (hLive : s.caller.life w = .live)
    (hOpen : (s.sockets w).failed = false)
    (later : List (WireAction Value))
    (finish : Wire Value (List Value))
    (hDelivers : ∀ action ∈ later, action.delivers w = true)
    (hLater :
      Run.exec (step jsonFormat) s later = some finish) :
    later.length ≤
        2 * (s.caller.strand w).length +
          (s.sockets w).queue.length ∧
      ((∀ action, action.delivers w = true →
          finish.step jsonFormat action = none) →
        (finish.sockets w).outstanding = [] ∧
          ∃ current,
            clientDocument
                ((finish.sockets w).handed.map
                  Message.toJson) =
              some current ∧
            current.equals s.caller.currStats = true) := by
  have hSynced := synced_of_exec hMeets hExec
  have hStart : Catching s s w :=
    ⟨fed_of_exec hExec, hOpen, rfl, rfl⟩
  have hAlways :
      Run.Meets (step jsonFormat)
        (fun _ action => action.delivers w = true)
        s later :=
    Run.meets_of_forall (fun action hIn _ =>
      hDelivers action hIn) s
  have hKeep :
      ∀ (t : Wire Value (List Value)) action next,
        action.delivers w = true → Catching s t w →
          t.step jsonFormat action = some next →
            Catching s next w :=
    fun _ _ _ hDelivers hCatching hStep =>
      (catching_step hDelivers hCatching hStep).1
  refine ⟨?_, ?_⟩
  · have hLower :
        ∀ (t : Wire Value (List Value)) action next,
          action.delivers w = true ∧ Catching s t w →
            t.step jsonFormat action = some next →
              next.unsent w < t.unsent w :=
      fun _ _ _ hBoth hStep =>
        (catching_step hBoth.1 hBoth.2 hStep).2
    exact
      Run.length_le_rank hLower
        (hAlways.and_invariant hKeep hStart) hLater
  · intro hStuck
    have hCatching : Catching s finish w :=
      Run.invariant_of_meets hKeep hStart hAlways hLater
    have hUnsent : finish.unsent w = 0 := by
      by_contra hMore
      rcases exists_delivery hCatching hMore with
        ⟨action, next, hDelivery, hStep⟩
      rw [hStuck action hDelivery] at hStep
      cases hStep
    rcases hCatching.handed_eq_posted hUnsent with
      ⟨hDone, hHanded⟩
    have hClient := hSynced.clients w hLive
    unfold Caller.Expects at hClient
    rw [hIdle] at hClient
    refine ⟨hDone, ?_⟩
    rw [hHanded]
    exact
      exists_clientDocument hSynced List.prefix_rfl hClient

/-
  The completion of the first write, the handler that waits
  on the strand and the completion of the second write.
-/
def oneClientDelivery : List (WireAction Value) :=
  [.writeDone 1 0 none, .caller (.runStrand 1),
    .writeDone 1 0 none]

theorem clients_catch_up_one_pass :
    ∃ s finish,
      Run.exec (step jsonFormat) (init jsonFormat) onePass =
        some s ∧
      Run.exec (step jsonFormat) s oneClientDelivery =
        some finish ∧
      ∃ current,
        clientDocument
            ((finish.sockets 1).handed.map Message.toJson) =
          some current ∧
        current.equals (.array [.int64 1]) = true := by
  refine ⟨_, _, rfl, rfl, ?_⟩
  refine
    ((clients_catch_up onePass _ onePass_publishesSlowly rfl
      rfl 1 rfl rfl oneClientDelivery _ (by decide)
      rfl).2 ?_).2
  intro action hDelivers
  cases action with
  | caller action =>
      cases action with
      | runStrand session =>
          have hW : session = 1 := by
            simpa [WireAction.delivers] using hDelivers
          subst hW
          rfl
      | _ => cases hDelivers
  | writeDone session i ec =>
      cases ec with
      | some code => cases hDelivers
      | none =>
          have hW : session = 1 := by
            simpa [WireAction.delivers] using hDelivers
          subst hW
          rfl
  | close session reason => cases hDelivers

end Wire

end Sync

end Kedge
