import Kedge.Sync.Caller

/-
  The whole of `httpCaller` with its websocket sessions.

  `Caller` has the snapshots and deltas. Here the frames of
  the clients and the shutdown are added. `on_read` gives
  every text frame to `broadcast`, which copies the session
  list under `mutex_` and posts the text to one session
  after the other; the next frame of the client is read only
  then. `closeWS` holds `mutex_` while it closes the listed
  sessions, and asks each of them for a `shared_ptr`. For a
  session whose last reference is gone this throws, and as
  nothing catches the exception the process aborts.

  The end of reading, by an error or after a `close`, is
  part of the step that drops the last reference. What a
  session does with the messages given to `on_send` is in
  `WebSocket.WriteQueue`.

  Key definitions include:
    * `Item`
    * `Hub`
    * `HubAction`
    * `Hub.step`
    * `Hub.Next`

  Main theorems include:
    * `Hub.agrees_of_exec`
    * `Hub.core_of_exec`
-/

------------------------------------------------------------
-- States
------------------------------------------------------------

namespace Kedge

namespace Sync

/- What a session is given to send. -/
inductive Item (D P : Type) where
  | served (message : Message D P)
  | frame (sender : SessionId) (text : Str)

namespace Item

variable {D P : Type}

/- The client that sent the frame. -/
def sender : Item D P → Option SessionId
  | .served _ => none
  | .frame sender _ => some sender

def message? : Item D P → Option (Message D P)
  | .served message => some message
  | .frame _ _ => none

end Item

/- Where `on_read` of a session stands in its broadcast. -/
inductive Relay where
  | idle
  | copying (text : Str)
  | sending (text : Str) (targets : List SessionId)
  deriving DecidableEq

/-
  `strand` and `onSend` hold the messages of `core` and the
  frames in one order. `closing` is the rest of the list
  that `closeWS` walks through.
-/
structure Hub (D P : Type) where
  core : Caller D P
  strand : SessionId → List (Item D P)
  onSend : SessionId → List (Item D P)
  relays : SessionId → Relay
  closed : SessionId → Bool
  closing : Option (List SessionId)
  aborted : Bool

/-
  The steps. A delivery names the client whose frame is
  delivered, or none for a message of the server.
-/
inductive HubAction (D : Type) where
  | server (action : Action D)
  | read (session : SessionId) (text : Str)
  | relayCopy (session : SessionId) (order : List SessionId)
  | relaySend (session : SessionId)
  | relayDone (session : SessionId)
  | deliver (session : SessionId) (sender : Option SessionId)
  | writeClosed (session : SessionId)
  | closeBegin (order : List SessionId)
  | closeNext
  | closeEnd

namespace Hub

variable {D P : Type}

def init (f : Format D P) : Hub D P where
  core := .init f
  strand := fun _ => []
  onSend := fun _ => []
  relays := fun _ => .idle
  closed := fun _ => false
  closing := none
  aborted := false

end Hub

end Sync

end Kedge

------------------------------------------------------------
-- Steps
------------------------------------------------------------

namespace Kedge

namespace Sync

/- The steps of the server that hold `mutex_`. -/
def Action.locks {D : Type} : Action D → Bool
  | .join _ _ _ _ => true
  | .leave _ => true
  | .copy _ => true
  | _ => false

namespace Caller

variable {D P : Type}

/- The message that a step of the server posts. -/
def posts
    (f : Format D P)
    (s : Caller D P) :
    Action D → Option (SessionId × Message D P)
  | .join session qid random stats =>
      some (session, s.joinMessage f qid random stats)
  | .send =>
      match s.pass with
      | .sending message (session :: _) =>
          if s.life session = .live then
            some (session, message)
          else none
      | _ => none
  | _ => none

end Caller

namespace Hub

variable {D P : Type}

/- `websocket_session::send`. -/
def post
    (s : Hub D P)
    (session : SessionId)
    (item : Item D P) : Hub D P :=
  { s with
    strand := Function.update s.strand session
      (s.strand session ++ [item]) }

def postServed
    (s : Hub D P) :
    Option (SessionId × Message D P) → Hub D P
  | some (session, message) =>
      s.post session (.served message)
  | none => s

def setRelay
    (s : Hub D P)
    (session : SessionId)
    (relay : Relay) : Hub D P :=
  { s with relays := Function.update s.relays session relay }

/- The strand runs the handler that was posted first. -/
def runStrand
    (s : Hub D P)
    (session : SessionId)
    (item : Item D P)
    (rest : List (Item D P)) : Hub D P :=
  { s with
    strand := Function.update s.strand session rest
    onSend := Function.update s.onSend session
      (s.onSend session ++ [item]) }

/- `websocket_session::close` of a session that is held. -/
def close
    (s : Hub D P)
    (session : SessionId) : Hub D P :=
  { s with closed := Function.update s.closed session true }

/-
  What keeps a step of the server from happening: `mutex_`
  is held by `closeWS`, or a handler of the session still
  owns a reference to it.
-/
def blocks
    (s : Hub D P) :
    Action D → Bool
  | .release session =>
      ¬ ((s.strand session).isEmpty ∧
        s.relays session = .idle)
  | .runStrand _ => true
  | action => action.locks ∧ s.closing.isSome

/- The state of the server after an item was delivered. -/
def coreAfter
    (f : Format D P)
    (s : Hub D P)
    (session : SessionId) :
    Item D P → Option (Caller D P)
  | .served _ => s.core.step f (.runStrand session)
  | .frame _ _ => some s.core

/- One step of a process that has not aborted. -/
def stepRunning
    (f : Format D P)
    (s : Hub D P) :
    HubAction D → Option (Hub D P)
  | .server action =>
      if s.blocks action then none
      else do
        let core ← s.core.step f action
        some { s.postServed (s.core.posts f action) with
          core := core }
  | .read session text =>
      -- A session that was closed reads nothing any more.
      if s.core.life session = .live ∧
          s.closed session = false ∧
          s.relays session = .idle then
        some (s.setRelay session (.copying text))
      else none
  | .relayCopy session order =>
      match s.relays session with
      | .copying text =>
          if s.closing.isNone ∧
              order.isPerm s.core.sessions then
            some (s.setRelay session (.sending text order))
          else none
      | _ => none
  | .relaySend session =>
      match s.relays session with
      | .sending text (target :: targets) =>
          let next := s.setRelay session
            (.sending text targets)
          if s.core.life target = .live then
            some (next.post target (.frame session text))
          else some next
      | _ => none
  | .relayDone session =>
      match s.relays session with
      | .sending _ [] => some (s.setRelay session .idle)
      | _ => none
  | .deliver session sender =>
      match s.strand session with
      | item :: rest =>
          if item.sender = sender then do
            let core ← s.coreAfter f session item
            some { s.runStrand session item rest with
              core := core }
          else none
      | [] => none
  | .writeClosed session =>
      -- `on_write` finds the connection closed.
      if s.core.life session = .live then
        some (s.close session)
      else none
  | .closeBegin order =>
      if s.closing.isNone ∧ order.isPerm s.core.sessions then
        some { s with closing := some order }
      else none
  | .closeNext =>
      match s.closing with
      | some (session :: rest) =>
          if s.core.life session = .live then
            some { s.close session with closing := some rest }
          else some { s with aborted := true }
      | _ => none
  | .closeEnd =>
      match s.closing with
      | some [] => some { s with closing := none }
      | _ => none

def step
    (f : Format D P)
    (s : Hub D P)
    (action : HubAction D) : Option (Hub D P) :=
  if s.aborted then none else s.stepRunning f action

end Hub

end Sync

end Kedge

------------------------------------------------------------
-- What a Post Leaves Unchanged
------------------------------------------------------------

namespace Kedge

namespace Sync

namespace Hub

variable {D P : Type} {s : Hub D P}
variable (served : Option (SessionId × Message D P))

theorem relays_postServed :
    (s.postServed served).relays = s.relays := by
  cases served <;> rfl

theorem closing_postServed :
    (s.postServed served).closing = s.closing := by
  cases served <;> rfl

theorem aborted_postServed :
    (s.postServed served).aborted = s.aborted := by
  cases served <;> rfl

end Hub

end Sync

end Kedge

------------------------------------------------------------
-- What One Step Can Do
------------------------------------------------------------

namespace Kedge

namespace Sync

namespace Hub

variable {D P : Type}

/- The steps as a relation, one rule for each way to go. -/
inductive Next
    (f : Format D P)
    (s : Hub D P) :
    HubAction D → Hub D P → Prop where
  | server {action core}
      (hFree : s.blocks action = false)
      (hCore : s.core.step f action = some core) :
      Next f s (.server action)
        { s.postServed (s.core.posts f action) with
          core := core }
  | read {session text}
      (hLife : s.core.life session = .live)
      (hOpen : s.closed session = false)
      (hRelay : s.relays session = .idle) :
      Next f s (.read session text)
        (s.setRelay session (.copying text))
  | relayCopy {session text order}
      (hRelay : s.relays session = .copying text)
      (hLock : s.closing = none)
      (hOrder : order.Perm s.core.sessions) :
      Next f s (.relayCopy session order)
        (s.setRelay session (.sending text order))
  | relaySend {session text target targets}
      (hRelay :
        s.relays session = .sending text (target :: targets))
      (hLife : s.core.life target = .live) :
      Next f s (.relaySend session)
        ((s.setRelay session (.sending text targets)).post
          target (.frame session text))
  | relayPassOver {session text target targets}
      (hRelay :
        s.relays session = .sending text (target :: targets))
      (hLife : s.core.life target ≠ .live) :
      Next f s (.relaySend session)
        (s.setRelay session (.sending text targets))
  | relayDone {session text}
      (hRelay : s.relays session = .sending text []) :
      Next f s (.relayDone session)
        (s.setRelay session .idle)
  | deliver {session item rest core}
      (hStrand : s.strand session = item :: rest)
      (hCore : s.coreAfter f session item = some core) :
      Next f s (.deliver session item.sender)
        { s.runStrand session item rest with core := core }
  | writeClosed {session}
      (hLife : s.core.life session = .live) :
      Next f s (.writeClosed session) (s.close session)
  | closeBegin {order}
      (hLock : s.closing = none)
      (hOrder : order.Perm s.core.sessions) :
      Next f s (.closeBegin order)
        { s with closing := some order }
  | closeNext {session rest}
      (hClosing : s.closing = some (session :: rest))
      (hLife : s.core.life session = .live) :
      Next f s .closeNext
        { s.close session with closing := some rest }
  | closeThrows {session rest}
      (hClosing : s.closing = some (session :: rest))
      (hLife : s.core.life session ≠ .live) :
      Next f s .closeNext { s with aborted := true }
  | closeEnd
      (hClosing : s.closing = some []) :
      Next f s .closeEnd { s with closing := none }

/- Every step follows one of the rules. -/
theorem next_of_step
    {f : Format D P}
    {s next : Hub D P}
    {action : HubAction D}
    (hStep : s.step f action = some next) :
    s.aborted = false ∧ Next f s action next := by
  rcases Option.ite_none_left_eq_some.mp hStep with
    ⟨hRunning, hStep⟩
  refine ⟨by simpa using hRunning, ?_⟩
  cases action with
  | server action =>
      simp only [stepRunning] at hStep
      rcases Option.ite_none_left_eq_some.mp hStep with
        ⟨hFree, hStep⟩
      rcases Option.bind_eq_some_iff.mp hStep with
        ⟨core, hCore, hNext⟩
      cases hNext
      exact .server (by simpa using hFree) hCore
  | read session text =>
      simp only [stepRunning, Option.ite_none_right_eq_some]
        at hStep
      rcases hStep with ⟨⟨hLife, hOpen, hRelay⟩, hNext⟩
      cases hNext
      exact .read hLife hOpen hRelay
  | relayCopy session order =>
      simp only [stepRunning] at hStep
      split at hStep
      · next text hRelay =>
        rcases Option.ite_none_right_eq_some.mp hStep with
          ⟨⟨hLock, hOrder⟩, hNext⟩
        cases hNext
        exact .relayCopy hRelay
          (Option.isNone_iff_eq_none.mp hLock)
          (List.isPerm_iff.mp hOrder)
      · cases hStep
  | relaySend session =>
      simp only [stepRunning] at hStep
      split at hStep
      · next text target targets hRelay =>
        by_cases hLife : s.core.life target = .live
        · rw [if_pos hLife] at hStep
          cases hStep
          exact .relaySend hRelay hLife
        · rw [if_neg hLife] at hStep
          cases hStep
          exact .relayPassOver hRelay hLife
      · cases hStep
  | relayDone session =>
      simp only [stepRunning] at hStep
      split at hStep
      · next hRelay =>
        cases hStep
        exact .relayDone hRelay
      · cases hStep
  | deliver session sender =>
      simp only [stepRunning] at hStep
      split at hStep
      · next item rest hStrand =>
        rcases Option.ite_none_right_eq_some.mp hStep with
          ⟨hSender, hDeliver⟩
        rcases Option.bind_eq_some_iff.mp hDeliver with
          ⟨core, hCore, hNext⟩
        cases hNext
        rw [← hSender]
        exact .deliver hStrand hCore
      · cases hStep
  | writeClosed session =>
      simp only [stepRunning, Option.ite_none_right_eq_some]
        at hStep
      rcases hStep with ⟨hLife, hNext⟩
      cases hNext
      exact .writeClosed hLife
  | closeBegin order =>
      simp only [stepRunning, Option.ite_none_right_eq_some]
        at hStep
      rcases hStep with ⟨⟨hLock, hOrder⟩, hNext⟩
      cases hNext
      exact .closeBegin (Option.isNone_iff_eq_none.mp hLock)
        (List.isPerm_iff.mp hOrder)
  | closeNext =>
      simp only [stepRunning] at hStep
      split at hStep
      · next session rest hClosing =>
        by_cases hLife : s.core.life session = .live
        · rw [if_pos hLife] at hStep
          cases hStep
          exact .closeNext hClosing hLife
        · rw [if_neg hLife] at hStep
          cases hStep
          exact .closeThrows hClosing hLife
      · cases hStep
  | closeEnd =>
      simp only [stepRunning] at hStep
      split at hStep
      · next hClosing =>
        cases hStep
        exact .closeEnd hClosing
      · cases hStep

end Hub

end Sync

end Kedge

------------------------------------------------------------
-- The Server inside the Hub
------------------------------------------------------------

namespace Kedge

namespace Sync

/- The step of the server in a step of the hub. -/
def HubAction.core? {D : Type} :
    HubAction D → Option (Action D)
  | .server action => some action
  | .deliver session none => some (.runStrand session)
  | _ => none

namespace Caller

variable {D P : Type}

/- The messages posted by a step other than a delivery. -/
def strandAfter
    (s : Caller D P) :
    Option (SessionId × Message D P) →
      SessionId → List (Message D P)
  | some (session, message) => (s.post session message).strand
  | none => s.strand

theorem strand_of_step
    {f : Format D P}
    {s next : Caller D P}
    {action : Action D}
    (hAction : ∀ w, action ≠ .runStrand w)
    (hStep : s.step f action = some next) :
    next.strand = s.strandAfter (s.posts f action) ∧
      next.onSend = s.onSend := by
  cases next_of_step hStep with
  | runStrand hStrand => exact absurd rfl (hAction _)
  | send hPass hLife =>
      simp [posts, hPass, hLife, strandAfter, post]
  | passOver hPass hLife =>
      simp [posts, hPass, hLife, strandAfter]
  | join hLife hStats =>
      exact ⟨rfl, rfl⟩
  | _ => exact ⟨rfl, rfl⟩

end Caller

namespace Hub

variable {D P : Type}

/- The server's messages among the items of the sessions. -/
def Agrees (s : Hub D P) : Prop :=
  ∀ w,
    (s.strand w).filterMap Item.message? =
        s.core.strand w ∧
      (s.onSend w).filterMap Item.message? = s.core.onSend w

theorem agrees_init
    (f : Format D P) :
    Agrees (init f) := by
  intro w
  exact ⟨rfl, rfl⟩

/- The steps that change no more than the items. -/
theorem agrees_post_frame
    {s : Hub D P}
    (hAgrees : Agrees s)
    (session sender : SessionId)
    (text : Str) :
    Agrees (s.post session (.frame sender text)) := by
  intro w
  refine ⟨?_, (hAgrees w).2⟩
  by_cases hW : w = session
  · subst hW
    simp [post, Item.message?, (hAgrees w).1]
  · simp [post, hW, (hAgrees w).1]

theorem agrees_server
    {f : Format D P}
    {s : Hub D P}
    {core : Caller D P}
    {action : Action D}
    (hAgrees : Agrees s)
    (hFree : s.blocks action = false)
    (hCore : s.core.step f action = some core) :
    Agrees
      { s.postServed (s.core.posts f action) with
        core := core } := by
  have hAction : ∀ w, action ≠ .runStrand w := by
    rintro w rfl
    cases hFree
  rcases Caller.strand_of_step hAction hCore with
    ⟨hStrand, hOnSend⟩
  intro w
  dsimp only
  rw [hStrand, hOnSend]
  cases hPosts : s.core.posts f action with
  | none => exact hAgrees w
  | some posted =>
      rcases posted with ⟨session, message⟩
      refine ⟨?_, (hAgrees w).2⟩
      by_cases hW : w = session
      · subst hW
        simp [postServed, post, Caller.strandAfter,
          Caller.post, Item.message?, (hAgrees w).1]
      · simp [postServed, post, Caller.strandAfter,
          Caller.post, hW, (hAgrees w).1]

theorem agrees_deliver
    {f : Format D P}
    {s : Hub D P}
    {core : Caller D P}
    {session : SessionId}
    {item : Item D P}
    {rest : List (Item D P)}
    (hAgrees : Agrees s)
    (hStrand : s.strand session = item :: rest)
    (hCore : s.coreAfter f session item = some core) :
    Agrees
      { s.runStrand session item rest with core := core } := by
  have hHere := hAgrees session
  rw [hStrand] at hHere
  cases item with
  | frame sender text =>
      cases hCore
      intro w
      by_cases hW : w = session
      · subst hW
        simp only [runStrand, Function.update_self,
          List.filterMap_append]
        refine ⟨hHere.1, ?_⟩
        rw [hHere.2]
        exact List.append_nil _
      · simpa [runStrand, hW] using hAgrees w
  | served message =>
      have hFirst :
          s.core.strand session =
            message :: rest.filterMap Item.message? :=
        hHere.1.symm
      simp only [coreAfter, Caller.step, hFirst] at hCore
      cases hCore
      intro w
      by_cases hW : w = session
      · subst hW
        simp [runStrand, Caller.runStrand, Item.message?,
          hHere.2]
      · simpa [runStrand, Caller.runStrand, hW] using hAgrees w

theorem agrees_step
    {f : Format D P}
    {s next : Hub D P}
    {action : HubAction D}
    (hAgrees : Agrees s)
    (hStep : s.step f action = some next) :
    Agrees next := by
  cases (next_of_step hStep).2 with
  | server hFree hCore =>
      exact agrees_server hAgrees hFree hCore
  | relaySend hRelay hLife =>
      apply agrees_post_frame
      exact hAgrees
  | deliver hStrand hCore =>
      exact agrees_deliver hAgrees hStrand hCore
  | _ => exact hAgrees

/- The messages given to `on_send` are those of the server. -/
theorem agrees_of_exec
    {f : Format D P}
    {run : List (HubAction D)}
    {s : Hub D P}
    (hExec : Run.exec (step f) (init f) run = some s) :
    Agrees s :=
  Run.invariant
    (fun _ _ _ hAgrees hStep => agrees_step hAgrees hStep)
    (agrees_init f) hExec

/- The server runs as it does without frames. -/
theorem core_of_exec
    {f : Format D P}
    {run : List (HubAction D)}
    {s : Hub D P}
    (hExec : Run.exec (step f) (init f) run = some s) :
    Run.exec (Caller.step f) (Caller.init f)
        (run.filterMap HubAction.core?) =
      some s.core := by
  refine @Run.exec_filterMap _ _ _ _ (step f) _ Hub.core _
    ?_ ?_ _ _ _ hExec
  · intro s action next coreAction hProject hStep
    cases (next_of_step hStep).2 with
    | server hFree hCore =>
        cases hProject
        exact hCore
    | @deliver session item rest core hStrand hCore =>
        cases item with
        | served message =>
            cases hProject
            exact hCore
        | frame sender text => cases hProject
    | _ => cases hProject
  · intro s action next hProject hStep
    cases (next_of_step hStep).2 with
    | server hFree hCore => cases hProject
    | @deliver session item rest core hStrand hCore =>
        cases item with
        | served message => cases hProject
        | frame sender text =>
            exact (Option.some.inj hCore).symm
    | _ => rfl

end Hub

end Sync

end Kedge
