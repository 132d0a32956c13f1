import Kedge.Http.Connection

/-
  The listener (`src/listener.cpp`) and its connections.

  `on_accept` starts a session for the new connection and
  accepts the next one. After an error it only logs, and
  nothing starts another accept: the server goes on with the
  connections it has. Each session runs on its own strand.
  What a handler does that goes out of range is undefined;
  the whole process is taken as gone.

  Key definitions include:
    * `Server`
    * `ServerEvent`
    * `Server.step`

  Main theorems include:
    * `Server.connection_of_exec`
    * `Server.accepts_until_error`
-/

------------------------------------------------------------
-- The Server
------------------------------------------------------------

namespace Kedge

namespace Http

/- The accepts that have not completed, and the sessions. -/
structure Server where
  accepts : Nat
  connections : List Connection

/- An accept completes, or something happens to a session. -/
inductive ServerEvent where
  | acceptDone (failed : Bool)
  | connection (i : Nat) (event : ConnectionEvent)

namespace Server

/- `listener::run`. -/
def run : Server where
  accepts := 1
  connections := []

/- `listener::on_accept`. -/
def onAccept (s : Server) (failed : Bool) : Server :=
  if failed then s
  else
    { accepts := s.accepts + 1
      connections := s.connections ++ [Connection.run] }

/- No handler went out of range. -/
def alive (s : Server) : Bool :=
  s.connections.all fun c => !c.isCrashed

def step
    (readHash : Str → Option InfoHash)
    (uiRoot : Str)
    (s : Server) :
    ServerEvent → Option Server
  | .acceptDone failed =>
      if 0 < s.accepts ∧ s.alive = true then
        some
          (onAccept { s with accepts := s.accepts - 1 }
            failed)
      else none
  | .connection i event =>
      match s.connections[i]? with
      | some c =>
          if s.alive = true then
            (c.step readHash uiRoot event).map fun next =>
              { s with
                connections := s.connections.set i next }
          else none
      | none => none

end Server

/- The result of an accept. -/
def ServerEvent.accept? : ServerEvent → Option Bool
  | .acceptDone failed => some failed
  | .connection _ _ => none

/- What happens to the session at a position. -/
def ServerEvent.of? (i : Nat) :
    ServerEvent → Option ConnectionEvent
  | .acceptDone _ => none
  | .connection j event => if j = i then some event else none

end Http

end Kedge

------------------------------------------------------------
-- Connections on Their Own
------------------------------------------------------------

namespace Kedge

namespace Http

namespace Server

variable {readHash : Str → Option InfoHash}
variable {uiRoot : Str}
variable {s next : Server}

/- The session at a position, or one that is yet to come. -/
def connectionAt (s : Server) (i : Nat) : Connection :=
  s.connections[i]?.getD Connection.run

theorem connectionAt_onAccept
    (s : Server)
    (failed : Bool)
    (i : Nat) :
    (s.onAccept failed).connectionAt i = s.connectionAt i := by
  cases failed with
  | true => rfl
  | false =>
      unfold connectionAt onAccept
      rw [if_neg (by decide), List.getElem?_append]
      split
      · rfl
      · next hBeyond =>
        rw [List.getElem?_eq_none (Nat.not_lt.mp hBeyond)]
        cases i - s.connections.length <;> rfl

/- An event of a session is its own step. -/
theorem connectionAt_of_event
    {event : ServerEvent}
    {own : ConnectionEvent}
    {i : Nat}
    (hOwn : event.of? i = some own)
    (hStep : s.step readHash uiRoot event = some next) :
    (s.connectionAt i).step readHash uiRoot own =
      some (next.connectionAt i) := by
  cases event with
  | acceptDone failed => cases hOwn
  | connection j event =>
      rcases Option.ite_none_right_eq_some.mp hOwn with
        ⟨rfl, hSame⟩
      cases hSame
      simp only [step] at hStep
      split at hStep
      · next c hConnection =>
        rcases Option.ite_none_right_eq_some.mp hStep with
          ⟨_, hMap⟩
        rcases Option.map_eq_some_iff.mp hMap with
          ⟨c', hNext, rfl⟩
        rcases List.getElem?_eq_some_iff.mp hConnection with
          ⟨hBound, _⟩
        unfold connectionAt
        rw [hConnection, List.getElem?_set_self hBound,
          Option.getD_some, Option.getD_some]
        exact hNext
      · cases hStep

/- Other events leave a session alone. -/
theorem connectionAt_of_other
    {event : ServerEvent}
    {i : Nat}
    (hOther : event.of? i = none)
    (hStep : s.step readHash uiRoot event = some next) :
    next.connectionAt i = s.connectionAt i := by
  cases event with
  | acceptDone failed =>
      rcases Option.ite_none_right_eq_some.mp hStep with
        ⟨_, hNext⟩
      cases hNext
      exact connectionAt_onAccept _ failed i
  | connection j event =>
      have hNe : j ≠ i := by
        rintro rfl
        simp [ServerEvent.of?] at hOther
      simp only [step] at hStep
      split at hStep
      · rcases Option.ite_none_right_eq_some.mp hStep with
          ⟨_, hMap⟩
        rcases Option.map_eq_some_iff.mp hMap with
          ⟨c', _, rfl⟩
        simp [connectionAt, List.getElem?_set_ne hNe]
      · cases hStep

/- Each session runs by what happens to it alone. -/
theorem connection_of_exec
    {events : List ServerEvent}
    (hExec :
      Run.exec (step readHash uiRoot) run events = some s)
    (i : Nat) :
    Run.exec (Connection.step readHash uiRoot)
        Connection.run (events.filterMap (·.of? i)) =
      some (s.connectionAt i) := by
  have hProject :
      Run.exec (Connection.step readHash uiRoot)
          (run.connectionAt i) (events.filterMap (·.of? i)) =
        some (s.connectionAt i) :=
    Run.exec_filterMap
      (fun _ _ _ _ hOwn hStep =>
        connectionAt_of_event hOwn hStep)
      (fun _ _ _ hOther hStep =>
        connectionAt_of_other hOther hStep)
      hExec
  exact hProject

end Server

end Http

end Kedge

------------------------------------------------------------
-- Accepting Connections
------------------------------------------------------------

namespace Kedge

namespace Http

namespace Server

variable {readHash : Str → Option InfoHash}
variable {uiRoot : Str}

/-
  The accepts that have completed: one for each session, and
  an error behind them when none is under way any more.
-/
structure Accepting
    (past : List ServerEvent)
    (s : Server) : Prop where
  most : s.accepts ≤ 1
  accepted :
    past.filterMap ServerEvent.accept? =
      List.replicate s.connections.length false ++
        List.replicate (1 - s.accepts) true

theorem accepting_step
    {past : List ServerEvent}
    {s next : Server}
    {event : ServerEvent}
    (hAccepting : Accepting past s)
    (hStep : s.step readHash uiRoot event = some next) :
    Accepting (past ++ [event]) next := by
  have hMost := hAccepting.most
  cases event with
  | acceptDone failed =>
      rcases Option.ite_none_right_eq_some.mp hStep with
        ⟨⟨hPending, _⟩, hNext⟩
      have hOne : s.accepts = 1 := by omega
      have hAccepted := hAccepting.accepted
      rw [hOne, Nat.sub_self, List.replicate_zero,
        List.append_nil] at hAccepted
      cases hNext
      cases failed with
      | true =>
          refine { most := ?_, accepted := ?_ }
          · simp [onAccept, hOne]
          · simp [onAccept, hOne, hAccepted,
              List.filterMap_append, ServerEvent.accept?]
      | false =>
          refine { most := ?_, accepted := ?_ }
          · simp [onAccept, hOne]
          · simp [onAccept, hOne, hAccepted,
              List.filterMap_append, ServerEvent.accept?,
              List.replicate_add]
  | connection i event =>
      have hOther :
          (past ++ [ServerEvent.connection i event]).filterMap
              ServerEvent.accept? =
            past.filterMap ServerEvent.accept? := by
        simp [List.filterMap_append, ServerEvent.accept?]
      simp only [step] at hStep
      split at hStep
      · rcases Option.ite_none_right_eq_some.mp hStep with
          ⟨_, hMap⟩
        rcases Option.map_eq_some_iff.mp hMap with
          ⟨c', _, rfl⟩
        refine { most := hMost, accepted := ?_ }
        rw [hOther, hAccepting.accepted, List.length_set]
      · cases hStep

theorem accepting_of_exec
    {events : List ServerEvent}
    {s : Server}
    (hExec :
      Run.exec (step readHash uiRoot) run events = some s) :
    Accepting events s :=
  Run.invariant_of_past
    (fun _ _ _ _ hAccepting hStep =>
      accepting_step hAccepting hStep)
    ⟨Nat.le_refl 1, rfl⟩ hExec

/-
  The server accepts one connection after the other up to
  the first error, and none behind it: the completed accepts
  are one success for each session, and then at most one
  error, which no accept follows. What a session does
  depends on nothing but what happens to it.
-/
theorem accepts_until_error
    (readHash : Str → Option InfoHash)
    (uiRoot : Str)
    (events : List ServerEvent)
    (s : Server)
    (hExec :
      Run.exec (step readHash uiRoot) run events = some s) :
    (events.filterMap ServerEvent.accept? =
          List.replicate s.connections.length false ∧
        s.accepts = 1 ∨
      events.filterMap ServerEvent.accept? =
          List.replicate s.connections.length false ++
            [true] ∧
        s.accepts = 0 ∧
        ∀ failed,
          s.step readHash uiRoot (.acceptDone failed) =
            none) ∧
      ∀ i c, s.connections[i]? = some c →
        Run.exec (Connection.step readHash uiRoot)
            Connection.run (events.filterMap (·.of? i)) =
          some c := by
  have hAccepting := accepting_of_exec hExec
  have hMost := hAccepting.most
  have hAccepted := hAccepting.accepted
  refine ⟨?_, ?_⟩
  · rcases Nat.le_one_iff_eq_zero_or_eq_one.mp hMost with
      hNone | hOne
    · right
      rw [hNone] at hAccepted
      refine ⟨hAccepted, hNone, ?_⟩
      intro failed
      simp [step, hNone]
    · left
      rw [hOne, Nat.sub_self, List.replicate_zero,
        List.append_nil] at hAccepted
      exact ⟨hAccepted, hOne⟩
  · intro i c hConnection
    have hOwn := connection_of_exec hExec i
    rw [connectionAt, hConnection] at hOwn
    exact hOwn

/- Two connections are accepted, and then no more. -/
theorem accepts_until_error_two_connections :
    ∃ s,
      Run.exec (step readSha1 "/ui".toList) run
          [.acceptDone false,
            .connection 0 (.readDone .timeout),
            .acceptDone false, .acceptDone true,
            .connection 1
              (.readDone
                (.request (Connection.missingFile true)))] =
        some s ∧
      s.connections.length = 2 ∧
      ∀ failed,
        s.step readSha1 "/ui".toList (.acceptDone failed) =
          none := by
  have hRun :
      ∃ s,
        Run.exec (step readSha1 "/ui".toList) run
            [.acceptDone false,
              .connection 0 (.readDone .timeout),
              .acceptDone false, .acceptDone true,
              .connection 1
                (.readDone
                  (.request (Connection.missingFile true)))] =
          some s ∧
        s.connections.length = 2 ∧ s.accepts = 0 :=
    ⟨_, rfl, rfl, rfl⟩
  rcases hRun with ⟨s, hExec, hSessions, hAccepts⟩
  have hAccepted :=
    (accepts_until_error readSha1 "/ui".toList _ s hExec).1
  rcases hAccepted with ⟨_, hOne⟩ | ⟨_, _, hNoAccept⟩
  · omega
  · exact ⟨s, hExec, hSessions, hNoAccept⟩

end Server

end Http

end Kedge
