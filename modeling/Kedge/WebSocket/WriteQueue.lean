import Kedge.Library.Text
import Kedge.Library.Run

/-
  The write queue of `websocket_session`
  (`src/http_websocket.cpp`).

  There is no flag that says whether a write is under way:
  `on_send` concludes from the size of `queue_` that it has
  to start one, and `on_write` removes the written message
  and starts the next. The handlers run on the strand of the
  session, one at a time.

  Key definitions include:
    * `Session`
    * `Session.onSend`
    * `Session.onWrite`
    * `Session.Writing`

  Correctness is proven by:
    * `Session.writing_step`
    * `Session.write_queue_correct`
-/

------------------------------------------------------------
-- The Session
------------------------------------------------------------

namespace Kedge

namespace WebSocket

/- The error codes that the handlers tell apart. -/
inductive ErrorCode where
  | closed
  | operationAborted
  | other
  deriving DecidableEq, Repr

/-
  `queue` and `closed` are members of the session. The other
  fields record what happened around it: the messages of the
  writes that have not completed, the messages given to
  `on_send` and handed to `async_write`, the reasons given
  to `async_close`, and whether a write has failed.
-/
structure Session (M : Type) where
  queue : List M
  closed : Bool
  outstanding : List M
  given : List M
  handed : List M
  closeReasons : List Str
  failed : Bool

namespace Session

variable {M : Type}

def init : Session M where
  queue := []
  closed := false
  outstanding := []
  given := []
  handed := []
  closeReasons := []
  failed := false

/- `ws_.async_write(net::buffer(*queue_.front()), ..)`. -/
def asyncWrite (s : Session M) : Session M :=
  { s with
    outstanding := s.outstanding ++ s.queue.take 1
    handed := s.handed ++ s.queue.take 1 }

/- `websocket_session::on_send`. -/
def onSend
    (s : Session M)
    (message : M) : Session M :=
  let pushed :=
    { s with
      queue := s.queue ++ [message]
      given := s.given ++ [message] }
  if pushed.queue.length > 1 then pushed
  else pushed.asyncWrite

/- `websocket_session::close`. -/
def close
    (s : Session M)
    (reason : Str) : Session M :=
  { s with
    closed := true
    closeReasons := s.closeReasons ++ [reason] }

/- `websocket_session::on_write`. -/
def onWrite
    (s : Session M) :
    Option ErrorCode → Session M
  | some .closed =>
      { s.close "ws Write error".toList with failed := true }
  | some _ => { s with failed := true }
  | none =>
      let erased := { s with queue := s.queue.tail }
      if erased.queue.isEmpty then erased
      else erased.asyncWrite

end Session

/-
  What happens to a session. `writeDone i ec` completes the
  outstanding write at position `i`.
-/
inductive Event (M : Type) where
  | send (message : M)
  | writeDone (i : Nat) (ec : Option ErrorCode)
  | close (reason : Str)

/- Only an outstanding write completes, and only once. -/
def Session.step
    {M : Type}
    (s : Session M) :
    Event M → Option (Session M)
  | .send message => some (s.onSend message)
  | .writeDone i ec =>
      if i < s.outstanding.length then
        some
          (onWrite
            { s with
              outstanding := s.outstanding.eraseIdx i }
            ec)
      else none
  | .close reason => some (s.close reason)

end WebSocket

end Kedge

------------------------------------------------------------
-- The Invariant
------------------------------------------------------------

namespace Kedge

namespace WebSocket

namespace Session

variable {M : Type}

/-
  The messages given so far are those already written and
  those in the queue, and the front of the queue is the last
  one handed over. It is being written unless a write has
  failed; after a failure it stays in the queue and keeps
  `on_send` from starting another write.
-/
structure Writing (s : Session M) : Prop where
  split :
    ∃ written,
      s.given = written ++ s.queue ∧
        s.handed = written ++ s.queue.take 1
  running :
    s.failed = false → s.outstanding = s.queue.take 1
  stopped :
    s.failed = true → s.outstanding = [] ∧ s.queue ≠ []

theorem writing_init : Writing (init : Session M) where
  split := ⟨[], rfl, rfl⟩
  running := fun _ => rfl
  stopped := by
    intro hFailed
    cases hFailed

/- A queue that is not empty keeps its front. -/
theorem writing_push
    {s : Session M}
    (hWriting : s.Writing)
    (hQueue : s.queue ≠ [])
    (message : M) :
    Writing
      { s with
        queue := s.queue ++ [message]
        given := s.given ++ [message] } := by
  have hFront :
      (s.queue ++ [message]).take 1 = s.queue.take 1 := by
    apply List.take_append_of_le_length
    exact List.length_pos_iff.mpr hQueue
  rcases hWriting.split with ⟨written, hGiven, hHanded⟩
  refine
    { split := ⟨written, ?_, ?_⟩
      running := ?_
      stopped := ?_ }
  · rw [hGiven, List.append_assoc]
  · rw [hHanded, hFront]
  · intro hFailed
    rw [hFront]
    exact hWriting.running hFailed
  · intro hFailed
    exact ⟨(hWriting.stopped hFailed).1, by simp⟩

/- Behind a message in the queue no write is started. -/
theorem onSend_of_nonempty
    {s : Session M}
    (hQueue : s.queue ≠ [])
    (message : M) :
    s.onSend message =
      { s with
        queue := s.queue ++ [message]
        given := s.given ++ [message] } := by
  have hLong : (s.queue ++ [message]).length > 1 := by
    have hPos := List.length_pos_iff.mpr hQueue
    rw [List.length_append, List.length_singleton]
    omega
  unfold onSend
  exact if_pos hLong

theorem writing_onSend
    {s : Session M}
    (hWriting : s.Writing)
    (message : M) :
    (s.onSend message).Writing := by
  by_cases hQueue : s.queue = []
  · -- Nothing is being written, and nothing has failed.
    have hFailed : s.failed = false := by
      cases hFailed : s.failed with
      | false => rfl
      | true =>
          exact absurd hQueue (hWriting.stopped hFailed).2
    have hIdle := hWriting.running hFailed
    rcases hWriting.split with ⟨written, hGiven, hHanded⟩
    rw [hQueue] at hGiven hHanded hIdle
    refine
      { split := ⟨written, ?_, ?_⟩
        running := ?_
        stopped := ?_ }
    · simp [onSend, asyncWrite, hQueue, hGiven]
    · simp [onSend, asyncWrite, hQueue, hHanded]
    · simp [onSend, asyncWrite, hQueue, hIdle]
    · simp [onSend, asyncWrite, hQueue, hFailed]
  · rw [onSend_of_nonempty hQueue]
    exact writing_push hWriting hQueue message

/- A write completes only while the queue has a front. -/
theorem Writing.queue_of_outstanding
    {s : Session M}
    (hWriting : s.Writing)
    {i : Nat}
    (hIndex : i < s.outstanding.length) :
    s.failed = false ∧
      s.outstanding.eraseIdx i = [] ∧
        ∃ front rest, s.queue = front :: rest := by
  have hFailed : s.failed = false := by
    cases hFailed : s.failed with
    | false => rfl
    | true =>
        rw [(hWriting.stopped hFailed).1] at hIndex
        exact absurd hIndex (Nat.not_lt_zero i)
  have hRunning := hWriting.running hFailed
  rw [hRunning] at hIndex ⊢
  cases hQueue : s.queue with
  | nil =>
      rw [hQueue] at hIndex
      exact absurd hIndex (Nat.not_lt_zero i)
  | cons front rest =>
      rw [hQueue] at hIndex
      have hZero : i = 0 := by
        simpa using hIndex
      subst hZero
      exact ⟨hFailed, rfl, front, rest, rfl⟩

theorem writing_onWrite
    {s : Session M}
    (hWriting : s.Writing)
    {i : Nat}
    (hIndex : i < s.outstanding.length)
    (ec : Option ErrorCode) :
    Writing
      (onWrite
        { s with
          outstanding := s.outstanding.eraseIdx i }
        ec) := by
  rcases hWriting.queue_of_outstanding hIndex with
    ⟨hFailed, hErased, front, rest, hQueue⟩
  rcases hWriting.split with ⟨written, hGiven, hHanded⟩
  rw [hErased]
  rw [hQueue] at hGiven hHanded
  cases ec with
  | some code =>
      -- The message stays at the front of the queue.
      have hStopped :
          Writing
            { s with outstanding := [], failed := true } := by
        refine
          { split := hWriting.split
            running := ?_
            stopped := ?_ }
        · intro hFalse
          cases hFalse
        · intro _
          exact ⟨rfl, by simp [hQueue]⟩
      cases code with
      | closed =>
          exact
            ⟨hStopped.split, hStopped.running,
              hStopped.stopped⟩
      | operationAborted => exact hStopped
      | other => exact hStopped
  | none =>
      cases rest with
      | nil =>
          refine
            { split := ⟨written ++ [front], ?_, ?_⟩
              running := ?_
              stopped := ?_ }
          · simpa [onWrite, hQueue] using hGiven
          · simpa [onWrite, hQueue] using hHanded
          · simp [onWrite, hQueue]
          · simp [onWrite, hQueue, hFailed]
      | cons second rest =>
          refine
            { split := ⟨written ++ [front], ?_, ?_⟩
              running := ?_
              stopped := ?_ }
          · simp [onWrite, asyncWrite, hQueue, hGiven]
          · simp [onWrite, asyncWrite, hQueue, hHanded]
          · simp [onWrite, asyncWrite, hQueue]
          · simp [onWrite, asyncWrite, hQueue, hFailed]

theorem writing_step
    {s next : Session M}
    {event : Event M}
    (hWriting : s.Writing)
    (hStep : s.step event = some next) :
    next.Writing := by
  cases event with
  | send message =>
      cases hStep
      exact writing_onSend hWriting message
  | writeDone i ec =>
      rcases Option.ite_none_right_eq_some.mp hStep with
        ⟨hIndex, hNext⟩
      cases hNext
      exact writing_onWrite hWriting hIndex ec
  | close reason =>
      cases hStep
      exact
        ⟨hWriting.split, hWriting.running, hWriting.stopped⟩

theorem writing_of_exec
    {s : Session M}
    {events : List (Event M)}
    (hExec : Run.exec step init events = some s) :
    s.Writing :=
  Run.invariant
    (fun _ _ _ hWriting hStep => writing_step hWriting hStep)
    writing_init hExec

end Session

end WebSocket

end Kedge

------------------------------------------------------------
-- Correctness of the Write Queue
------------------------------------------------------------

namespace Kedge

namespace WebSocket

namespace Session

variable {M : Type}

/- A failed session starts no write. -/
theorem failed_step
    {s next : Session M}
    {event : Event M}
    (hWriting : s.Writing)
    (hFailed : s.failed = true)
    (hStep : s.step event = some next) :
    next.failed = true ∧ next.handed = s.handed := by
  rcases hWriting.stopped hFailed with ⟨hIdle, hQueue⟩
  cases event with
  | send message =>
      cases hStep
      rw [onSend_of_nonempty hQueue]
      exact ⟨hFailed, rfl⟩
  | writeDone i ec =>
      rcases Option.ite_none_right_eq_some.mp hStep with
        ⟨hIndex, _⟩
      rw [hIdle] at hIndex
      exact absurd hIndex (Nat.not_lt_zero i)
  | close reason =>
      cases hStep
      exact ⟨hFailed, rfl⟩

theorem failed_of_exec
    {s finish : Session M}
    {events : List (Event M)}
    (hWriting : s.Writing)
    (hFailed : s.failed = true)
    (hExec : Run.exec step s events = some finish) :
    finish.handed = s.handed := by
  have hKeep :
      ∀ (t : Session M) event next,
        t.Writing ∧ t.failed = true ∧ t.handed = s.handed →
          t.step event = some next →
            next.Writing ∧ next.failed = true ∧
              next.handed = s.handed := by
    intro t event next hInv hStep
    rcases hInv with ⟨hT, hTFailed, hHanded⟩
    rcases failed_step hT hTFailed hStep with
      ⟨hNextFailed, hNext⟩
    exact
      ⟨writing_step hT hStep, hNextFailed,
        hNext.trans hHanded⟩
  have hInv :=
    Run.invariant hKeep ⟨hWriting, hFailed, rfl⟩ hExec
  exact hInv.2.2

/-
  At most one write is outstanding, the messages are handed
  over in order and once each, the front of the queue is
  being written as long as no write has failed, and none is
  started after a failure.
-/
theorem write_queue_correct
    (events : List (Event M))
    (s : Session M)
    (hExec : Run.exec step init events = some s) :
    s.outstanding.length ≤ 1 ∧
      s.handed <+: s.given ∧
      (s.failed = false →
        (s.outstanding ≠ [] ↔ s.queue ≠ []) ∧
          ∀ message ∈ s.outstanding,
            s.queue.head? = some message) ∧
      (s.failed = true →
        ∀ later finish,
          Run.exec step s later = some finish →
            finish.handed = s.handed) := by
  have hWriting := writing_of_exec hExec
  refine ⟨?_, ?_, ?_, ?_⟩
  · cases hFailed : s.failed with
    | true => simp [(hWriting.stopped hFailed).1]
    | false =>
        rw [hWriting.running hFailed, List.length_take]
        exact Nat.min_le_left 1 _
  · rcases hWriting.split with ⟨written, hGiven, hHanded⟩
    rw [hGiven, hHanded, List.prefix_append_right_inj]
    exact List.take_prefix 1 s.queue
  · intro hFailed
    rw [hWriting.running hFailed]
    cases s.queue with
    | nil => simp
    | cons front rest => simp
  · intro hFailed later finish hLater
    exact failed_of_exec hWriting hFailed hLater

/-
  Two messages are written, the second write fails, and the
  third message stays in the queue.
-/
theorem write_queue_correct_after_failure :
    ∃ s : Session Nat,
      Run.exec step init
          [.send 1, .send 2, .writeDone 0 none,
            .writeDone 0 (some .other), .send 3] =
        some s ∧
      s.failed = true ∧ s.handed = [1, 2] ∧
      s.queue = [2, 3] ∧
      ∀ later finish,
        Run.exec step s later = some finish →
          finish.handed = [1, 2] := by
  refine ⟨_, rfl, rfl, rfl, rfl, ?_⟩
  exact
    (write_queue_correct
      [.send 1, .send 2, .writeDone 0 none,
        .writeDone 0 (some .other), .send 3]
      _ rfl).2.2.2 rfl

end Session

end WebSocket

end Kedge
