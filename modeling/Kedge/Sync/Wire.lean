import Kedge.Sync.Delivery
import Kedge.WebSocket.WriteQueue

/-
  From the loop of the caller to the sockets of its clients.

  `Caller` ends at `on_send` of a session, and the write
  queue begins there. Here the two are put together: what
  the strand of a session runs is given to its queue, and a
  session whose write is outstanding is held by it. What is
  handed to a socket is then described from end to end, by
  the order of the critical sections of the caller. The runs
  are those in which no client sends a text frame: what the
  relaying of frames does is in `Sync.Hub`.

  Key definitions include:
    * `Wire`
    * `WireAction`
    * `Wire.step`
    * `Wire.Fed`

  Main theorems include:
    * `Wire.fed_of_exec`
    * `Wire.handed_in_order`
-/

------------------------------------------------------------
-- Caller and Sockets
------------------------------------------------------------

namespace Kedge

namespace Sync

/- The caller and the write queue of each session. -/
structure Wire (D P : Type) where
  caller : Caller D P
  sockets : SessionId → WebSocket.Session (Message D P)

/-
  A step of the caller, the completion of a write, or a
  `close` of a listed session.
-/
inductive WireAction (D : Type) where
  | caller (action : Action D)
  | writeDone (session : SessionId) (i : Nat)
      (ec : Option WebSocket.ErrorCode)
  | close (session : SessionId) (reason : Str)

namespace Wire

variable {D P : Type}

def init (f : Format D P) : Wire D P where
  caller := Caller.init f
  sockets := fun _ => .init

/- The socket of one session changes. -/
def setSocket
    (s : Wire D P)
    (session : SessionId)
    (socket : WebSocket.Session (Message D P)) :
    Wire D P :=
  { s with
    sockets := Function.update s.sockets session socket }

/-
  The strand passes its message to `on_send`. A session with
  an outstanding write is not released, as the handler of
  the write owns a `shared_ptr` to it.
-/
def step
    (f : Format D P)
    (s : Wire D P) :
    WireAction D → Option (Wire D P)
  | .caller (.runStrand session) =>
      match s.caller.strand session with
      | message :: rest =>
          some
            { caller :=
                s.caller.runStrand session message rest
              sockets :=
                Function.update s.sockets session
                  ((s.sockets session).onSend message) }
      | [] => none
  | .caller (.release session) =>
      if (s.sockets session).outstanding.isEmpty then
        (s.caller.step f (.release session)).map
          fun caller => { s with caller := caller }
      else none
  | .caller action =>
      (s.caller.step f action).map
        fun caller => { s with caller := caller }
  | .writeDone session i ec =>
      ((s.sockets session).step (.writeDone i ec)).map
        (s.setSocket session)
  | .close session reason =>
      if session ∈ s.caller.sessions then
        some
          (s.setSocket session
            ((s.sockets session).close reason))
      else none

end Wire

/- The steps of the caller among those of the whole. -/
def WireAction.caller? {D : Type} :
    WireAction D → Option (Action D)
  | .caller action => some action
  | _ => none

end Sync

end Kedge

------------------------------------------------------------
-- What One Step Can Do
------------------------------------------------------------

namespace Kedge

namespace Sync

namespace Wire

variable {D P : Type}

/- The steps as a relation. Running a strand is set apart. -/
inductive Next
    (f : Format D P)
    (s : Wire D P) :
    WireAction D → Wire D P → Prop where
  | runStrand {session message rest}
      (hStrand :
        s.caller.strand session = message :: rest) :
      Next f s (.caller (.runStrand session))
        { caller := s.caller.runStrand session message rest
          sockets :=
            Function.update s.sockets session
              ((s.sockets session).onSend message) }
  | caller {action caller}
      (hAction : ∀ session, action ≠ .runStrand session)
      (hStep : s.caller.step f action = some caller) :
      Next f s (.caller action) { s with caller := caller }
  | writeDone {session i ec socket}
      (hStep :
        (s.sockets session).step (.writeDone i ec) =
          some socket) :
      Next f s (.writeDone session i ec)
        (s.setSocket session socket)
  | close {session reason} :
      Next f s (.close session reason)
        (s.setSocket session
          ((s.sockets session).close reason))

theorem next_of_step
    {f : Format D P}
    {s next : Wire D P}
    {action : WireAction D}
    (hStep : s.step f action = some next) :
    Next f s action next := by
  cases action with
  | caller action =>
      cases action with
      | runStrand session =>
          simp only [step] at hStep
          split at hStep
          · next message rest hStrand =>
            cases hStep
            exact .runStrand hStrand
          · cases hStep
      | release session =>
          rcases Option.ite_none_right_eq_some.mp hStep with
            ⟨_, hReleased⟩
          rcases Option.map_eq_some_iff.mp hReleased with
            ⟨caller, hCaller, rfl⟩
          exact .caller (by simp) hCaller
      | _ =>
          rcases Option.map_eq_some_iff.mp hStep with
            ⟨caller, hCaller, rfl⟩
          exact .caller (by simp) hCaller
  | writeDone session i ec =>
      rcases Option.map_eq_some_iff.mp hStep with
        ⟨socket, hSocket, rfl⟩
      exact .writeDone hSocket
  | close session reason =>
      rcases Option.ite_none_right_eq_some.mp hStep with
        ⟨_, hNext⟩
      cases hNext
      exact .close

/- The caller takes its own steps and no others. -/
theorem caller_of_step
    {f : Format D P}
    {s next : Wire D P}
    {action : WireAction D}
    {own : Action D}
    (hOwn : action.caller? = some own)
    (hStep : s.step f action = some next) :
    s.caller.step f own = some next.caller := by
  cases next_of_step hStep with
  | runStrand hStrand =>
      cases hOwn
      simp only [Caller.step, hStrand]
  | caller _ hCaller =>
      cases hOwn
      exact hCaller
  | writeDone _ => cases hOwn
  | close => cases hOwn

theorem caller_of_other
    {f : Format D P}
    {s next : Wire D P}
    {action : WireAction D}
    (hOther : action.caller? = none)
    (hStep : s.step f action = some next) :
    next.caller = s.caller := by
  cases next_of_step hStep with
  | runStrand _ => cases hOther
  | caller _ _ => cases hOther
  | writeDone _ => rfl
  | close => rfl

/- A run of the whole is a run of the caller. -/
theorem caller_of_exec
    {f : Format D P}
    {actions : List (WireAction D)}
    {s : Wire D P}
    (hExec : Run.exec (step f) (init f) actions = some s) :
    Run.exec (Caller.step f) (Caller.init f)
        (actions.filterMap WireAction.caller?) =
      some s.caller :=
  Run.exec_filterMap
    (fun _ _ _ _ hOwn hStep => caller_of_step hOwn hStep)
    (fun _ _ _ hOther hStep => caller_of_other hOther hStep)
    hExec

end Wire

end Sync

end Kedge

------------------------------------------------------------
-- Queues Fed by Their Strands
------------------------------------------------------------

namespace Kedge

namespace WebSocket

namespace Session

variable {M : Type}
variable {s : Session M}

/- Behind what was handed over waits the rest of the queue. -/
theorem Writing.handed_append_tail
    (hWriting : s.Writing) :
    s.handed ++ s.queue.tail = s.given := by
  rcases hWriting.split with ⟨written, hGiven, hHanded⟩
  rw [hHanded, hGiven, List.append_assoc]
  congr 1
  cases s.queue <;> rfl

theorem Writing.handed_within_given
    (hWriting : s.Writing) :
    s.handed <+: s.given :=
  ⟨s.queue.tail, hWriting.handed_append_tail⟩

theorem given_onSend
    (s : Session M)
    (message : M) :
    (s.onSend message).given = s.given ++ [message] := by
  unfold onSend
  dsimp only
  split <;> rfl

/- No completion gives a message to the queue. -/
theorem given_writeDone
    {next : Session M}
    {i : Nat}
    {ec : Option ErrorCode}
    (hStep : s.step (.writeDone i ec) = some next) :
    next.given = s.given := by
  rcases Option.ite_none_right_eq_some.mp hStep with
    ⟨_, hNext⟩
  cases hNext
  cases ec with
  | some code => cases code <;> rfl
  | none =>
      unfold onWrite
      dsimp only
      split <;> rfl

end Session

end WebSocket

end Kedge

namespace Kedge

namespace Sync

namespace Wire

variable {D P : Type}
variable {f : Format D P}

/-
  Every queue is in order, and was given what the strand of
  its session has run.
-/
structure Fed (s : Wire D P) : Prop where
  writing : ∀ w, (s.sockets w).Writing
  given : ∀ w, (s.sockets w).given = s.caller.onSend w

theorem fed_init
    (f : Format D P) :
    Fed (init f) where
  writing := fun _ => WebSocket.Session.writing_init
  given := fun _ => rfl

/- Only a strand passes messages to `on_send`. -/
theorem onSend_of_step
    {s next : Caller D P}
    {action : Action D}
    (hAction : ∀ session, action ≠ .runStrand session)
    (hStep : s.step f action = some next) :
    next.onSend = s.onSend := by
  cases Caller.next_of_step hStep with
  | runStrand _ => exact absurd rfl (hAction _)
  | _ => rfl

theorem Fed.setSocket
    {s : Wire D P}
    (hFed : s.Fed)
    {session : SessionId}
    {socket : WebSocket.Session (Message D P)}
    (hWriting : socket.Writing)
    (hGiven : socket.given = (s.sockets session).given) :
    (s.setSocket session socket).Fed where
  writing := by
    intro w
    by_cases hW : w = session
    · subst hW
      simpa [Wire.setSocket] using hWriting
    · simpa [Wire.setSocket, hW] using hFed.writing w
  given := by
    intro w
    by_cases hW : w = session
    · subst hW
      simpa [Wire.setSocket, hGiven] using hFed.given w
    · simpa [Wire.setSocket, hW] using hFed.given w

theorem fed_step
    {s next : Wire D P}
    {action : WireAction D}
    (hFed : s.Fed)
    (hStep : s.step f action = some next) :
    next.Fed := by
  cases next_of_step hStep with
  | @runStrand session message rest hStrand =>
      refine { writing := ?_, given := ?_ }
      · intro w
        by_cases hW : w = session
        · subst hW
          simpa using
            WebSocket.Session.writing_onSend
              (hFed.writing w) message
        · simpa [hW] using hFed.writing w
      · intro w
        by_cases hW : w = session
        · subst hW
          simp [Caller.runStrand,
            WebSocket.Session.given_onSend, hFed.given w]
        · simpa [Caller.runStrand, hW] using hFed.given w
  | caller hAction hCaller =>
      refine { writing := hFed.writing, given := ?_ }
      intro w
      rw [onSend_of_step hAction hCaller]
      exact hFed.given w
  | writeDone hSocket =>
      exact hFed.setSocket
        (WebSocket.Session.writing_step (hFed.writing _)
          hSocket)
        (WebSocket.Session.given_writeDone hSocket)
  | @close session reason =>
      have hWriting := hFed.writing session
      exact hFed.setSocket
        ⟨hWriting.split, hWriting.running, hWriting.stopped⟩
        (by rfl)

theorem fed_of_exec
    {actions : List (WireAction D)}
    {s : Wire D P}
    (hExec : Run.exec (step f) (init f) actions = some s) :
    s.Fed :=
  Run.invariant
    (fun _ _ _ hFed hStep => fed_step hFed hStep)
    (fed_init f) hExec

/- What is handed to a socket was posted to its session. -/
theorem Fed.handed_prefix_posted
    {s : Wire D P}
    (hFed : s.Fed)
    (w : SessionId) :
    (s.sockets w).handed <+: s.caller.posted w := by
  have hHanded := (hFed.writing w).handed_within_given
  rw [hFed.given w] at hHanded
  exact hHanded.trans (List.prefix_append _ _)

end Wire

end Sync

end Kedge

------------------------------------------------------------
-- Messages Handed to a Socket
------------------------------------------------------------

namespace Kedge

namespace Sync

namespace Wire

variable {D P : Type}

/-
  What is handed to the socket of a session starts with its
  snapshot and goes on with the messages whose copy of the
  session list was taken after its join and before its
  leave, in the order of the copies and once each. While the
  session is alive none of them is lost: behind those handed
  over, the queue, the strand and the running pass hold the
  rest in this order.
-/
theorem handed_in_order
    (f : Format D P)
    (actions : List (WireAction D))
    (s : Wire D P)
    (hExec : Run.exec (step f) (init f) actions = some s)
    (w : SessionId)
    (hJoined : s.caller.life w ≠ .unborn) :
    ∃ version id body before after,
      s.caller.history =
          before ++
            .joined w (.snapshot version id body) :: after ∧
      (∀ message, .joined w message ∉ before ++ after) ∧
      (s.sockets w).outstanding.length ≤ 1 ∧
      (s.sockets w).handed <+:
        .snapshot version id body ::
          copiesUntilLeft w after ∧
      (s.caller.life w = .live →
        (s.sockets w).handed ++ (s.sockets w).queue.tail ++
            s.caller.strand w ++ s.caller.pending w =
          .snapshot version id body ::
            copiesUntilLeft w after) := by
  have hFed := fed_of_exec hExec
  have hDelivery :=
    Caller.delivery_of_exec (caller_of_exec hExec) w
  rw [Caller.delivery_of_born hJoined] at hDelivery
  rcases hDelivery with
    ⟨version, id, body, before, after, hDelivered⟩
  refine
    ⟨version, id, body, before, after, hDelivered.split,
      hDelivered.once, ?_, ?_, ?_⟩
  · have hWriting := hFed.writing w
    cases hFailed : (s.sockets w).failed with
    | true => simp [(hWriting.stopped hFailed).1]
    | false =>
        rw [hWriting.running hFailed, List.length_take]
        exact Nat.min_le_left 1 _
  · exact
      (hFed.handed_prefix_posted w).trans hDelivered.inOrder
  · intro hLive
    rw [(hFed.writing w).handed_append_tail, hFed.given w]
    exact hDelivered.complete hLive

/- A client that joins, and the delta of one pass. -/
def oneDelta : List (Action Int) :=
  .join 1 [] 1000 7 :: passActions 8 [1] ++
    [.runStrand 1, .runStrand 1]

/- The delta is handed over behind the snapshot. -/
theorem handed_in_order_one_delta :
    ∃ s,
      Run.exec (step shiftFormat) (init shiftFormat)
          (oneDelta.map WireAction.caller ++
            [.writeDone 1 0 none]) =
        some s ∧
      (s.sockets 1).handed.length = 2 ∧
      ∃ version id body before after,
        s.caller.history =
            before ++
              .joined 1 (.snapshot version id body) ::
                after ∧
        (s.sockets 1).handed <+:
          .snapshot version id body ::
            copiesUntilLeft 1 after := by
  have hRun :
      ∃ s,
        Run.exec (step shiftFormat) (init shiftFormat)
            (oneDelta.map WireAction.caller ++
              [.writeDone 1 0 none]) =
          some s ∧
        s.caller.life 1 ≠ .unborn ∧
        (s.sockets 1).handed.length = 2 :=
    ⟨_, rfl, by decide, rfl⟩
  rcases hRun with ⟨s, hExec, hJoined, hLength⟩
  rcases handed_in_order shiftFormat
      (oneDelta.map WireAction.caller ++
        [.writeDone 1 0 none])
      s hExec 1 hJoined with
    ⟨version, id, body, before, after, hSplit, _, _,
      hHanded, _⟩
  exact
    ⟨s, hExec, hLength, version, id, body, before, after,
      hSplit, hHanded⟩

end Wire

end Sync

end Kedge
