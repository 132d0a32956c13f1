import Kedge.Sync.Hub
import Kedge.Sync.EndToEnd

/-
  What the text frames of one client do to the others.

  `on_read` sends every frame to all connections, as it is.
  So a client does get the frames of other clients. Apart
  from these frames nothing that is given to `on_send` of a
  session depends on what a client sends: the run without
  the client's frames takes the same steps.

  Key definitions include:
    * `HubAction.framesOf`
    * `Hub.erase`

  Main theorems include:
    * `Hub.exec_erase`
    * `Hub.frames_only_relayed`
-/

------------------------------------------------------------
-- Erasing the Frames of a Client
------------------------------------------------------------

namespace Kedge

namespace Sync

/- The steps that read, relay and deliver the frames. -/
def HubAction.framesOf
    {D : Type}
    (client : SessionId) :
    HubAction D → Bool
  | .read session _ => session = client
  | .relayCopy session _ => session = client
  | .relaySend session => session = client
  | .relayDone session => session = client
  | .deliver _ sender => sender = some client
  | _ => false

/- Not a frame of the client. -/
def Item.fromOthers
    {D P : Type}
    (client : SessionId)
    (item : Item D P) : Bool :=
  item.sender ≠ some client

namespace Hub

variable {D P : Type}

/- The state without the frames of the client. -/
def erase
    (client : SessionId)
    (s : Hub D P) : Hub D P :=
  { s with
    strand := fun w =>
      (s.strand w).filter (Item.fromOthers client)
    onSend := fun w =>
      (s.onSend w).filter (Item.fromOthers client)
    relays := Function.update s.relays client .idle }

theorem erase_init
    (client : SessionId)
    (f : Format D P) :
    erase client (init f) = init f := by
  simp [erase, init]

variable {client : SessionId}

@[simp] theorem erase_core
    (s : Hub D P) :
    (erase client s).core = s.core := rfl

@[simp] theorem erase_closed
    (s : Hub D P) :
    (erase client s).closed = s.closed := rfl

@[simp] theorem erase_closing
    (s : Hub D P) :
    (erase client s).closing = s.closing := rfl

@[simp] theorem erase_aborted
    (s : Hub D P) :
    (erase client s).aborted = s.aborted := rfl

theorem erase_relays_of_ne
    (s : Hub D P)
    {w : SessionId}
    (hW : w ≠ client) :
    (erase client s).relays w = s.relays w :=
  Function.update_of_ne hW _ _

theorem erase_post
    (s : Hub D P)
    (session : SessionId)
    {item : Item D P}
    (hItem : item.fromOthers client = true) :
    erase client (s.post session item) =
      (erase client s).post session item := by
  simp only [erase, post, Hub.mk.injEq, true_and, and_true]
  funext w
  by_cases hW : w = session
  · subst hW
    simp [hItem]
  · simp [hW]

theorem erase_post_hidden
    (s : Hub D P)
    (session : SessionId)
    {item : Item D P}
    (hItem : item.fromOthers client = false) :
    erase client (s.post session item) = erase client s := by
  simp only [erase, post, Hub.mk.injEq, true_and, and_true]
  funext w
  by_cases hW : w = session
  · subst hW
    simp [hItem]
  · simp [hW]

theorem erase_setRelay
    (s : Hub D P)
    {session : SessionId}
    (relay : Relay)
    (hSession : session ≠ client) :
    erase client (s.setRelay session relay) =
      (erase client s).setRelay session relay := by
  simp only [erase, setRelay, Hub.mk.injEq, true_and,
    and_true]
  exact Function.update_comm hSession _ _ _

theorem erase_setRelay_self
    (s : Hub D P)
    (relay : Relay) :
    erase client (s.setRelay client relay) =
      erase client s := by
  simp [erase, setRelay]

end Hub

end Sync

end Kedge

------------------------------------------------------------
-- Runs without the Frames of a Client
------------------------------------------------------------

namespace Kedge

namespace Sync

namespace Hub

variable {D P : Type} {client : SessionId}

theorem erase_postServed
    (s : Hub D P)
    (posted : Option (SessionId × Message D P)) :
    erase client (s.postServed posted) =
      (erase client s).postServed posted := by
  cases posted with
  | none => rfl
  | some posted => exact erase_post s _ rfl

/- What is free stays free without the frames. -/
theorem blocks_erase
    {s : Hub D P}
    {action : Action D}
    (hFree : s.blocks action = false) :
    (erase client s).blocks action = false := by
  cases action with
  | release session =>
      simp only [blocks, decide_eq_false_iff_not, not_not,
        List.isEmpty_iff] at hFree ⊢
      rcases hFree with ⟨hStrand, hRelay⟩
      refine ⟨by simp [erase, hStrand], ?_⟩
      by_cases hSession : session = client
      · subst hSession
        exact Function.update_self _ _ _
      · rw [erase_relays_of_ne s hSession]
        exact hRelay
  | _ => exact hFree

theorem erase_deliver
    {s : Hub D P}
    {core : Caller D P}
    {session : SessionId}
    {item : Item D P}
    {rest : List (Item D P)}
    (hItem : item.fromOthers client = true) :
    erase client
        { s.runStrand session item rest with core := core } =
      { (erase client s).runStrand session item
          (rest.filter (Item.fromOthers client)) with
        core := core } := by
  simp only [erase, runStrand, Hub.mk.injEq, true_and,
    and_true]
  constructor
  · funext w
    by_cases hW : w = session
    · subst hW
      simp
    · simp [hW]
  · funext w
    by_cases hW : w = session
    · subst hW
      simp [hItem]
    · simp [hW]

theorem erase_deliver_hidden
    {s : Hub D P}
    {session : SessionId}
    {item : Item D P}
    {rest : List (Item D P)}
    (hStrand : s.strand session = item :: rest)
    (hItem : item.fromOthers client = false) :
    erase client (s.runStrand session item rest) =
      erase client s := by
  simp only [erase, runStrand, Hub.mk.injEq, true_and,
    and_true]
  constructor
  · funext w
    by_cases hW : w = session
    · subst hW
      simp [hStrand, hItem]
    · simp [hW]
  · funext w
    by_cases hW : w = session
    · subst hW
      simp [hItem]
    · simp [hW]

/- The other steps are taken without the frames as well. -/
theorem step_erase
    {f : Format D P}
    {s next : Hub D P}
    {action : HubAction D}
    (hOther : action.framesOf client = false)
    (hStep : s.step f action = some next) :
    (erase client s).step f action =
      some (erase client next) := by
  rcases next_of_step hStep with ⟨hRunning, hNext⟩
  rw [step, erase_aborted, hRunning, if_neg nofun]
  cases hNext with
  | @server action core hFree hCore =>
      rw [stepRunning, blocks_erase hFree, if_neg nofun,
        erase_core, hCore]
      simp only [Option.bind_eq_bind, Option.bind_some]
      rw [← erase_postServed]
      rfl
  | @read session text hLife hOpen hRelay =>
      have hSession : session ≠ client :=
        of_decide_eq_false hOther
      rw [stepRunning, erase_core, erase_closed,
        erase_relays_of_ne s hSession,
        if_pos ⟨hLife, hOpen, hRelay⟩,
        erase_setRelay s _ hSession]
  | @relayCopy session text order hRelay hLock hOrder =>
      have hSession : session ≠ client :=
        of_decide_eq_false hOther
      rw [stepRunning, erase_relays_of_ne s hSession, hRelay]
      simp [hLock, List.isPerm_iff.mpr hOrder,
        erase_setRelay s _ hSession]
  | @relaySend session text target targets hRelay hLife =>
      have hSession : session ≠ client :=
        of_decide_eq_false hOther
      have hItem :
          Item.fromOthers client
              (.frame session text : Item D P) = true := by
        simpa [Item.fromOthers, Item.sender] using hSession
      rw [stepRunning, erase_relays_of_ne s hSession, hRelay]
      simp [hLife, erase_post _ _ hItem,
        erase_setRelay s _ hSession]
  | @relayPassOver session text target targets hRelay hLife =>
      have hSession : session ≠ client :=
        of_decide_eq_false hOther
      rw [stepRunning, erase_relays_of_ne s hSession, hRelay]
      simp [hLife, erase_setRelay s _ hSession]
  | @relayDone session text hRelay =>
      have hSession : session ≠ client :=
        of_decide_eq_false hOther
      rw [stepRunning, erase_relays_of_ne s hSession, hRelay]
      simp [erase_setRelay s _ hSession]
  | @deliver session item rest core hStrand hCore =>
      have hItem : item.fromOthers client = true := by
        have hSender : item.sender ≠ some client :=
          of_decide_eq_false hOther
        simpa [Item.fromOthers] using hSender
      have hErased :
          (erase client s).strand session =
            item :: rest.filter (Item.fromOthers client) := by
        simp [erase, hStrand, hItem]
      have hAfter :
          (erase client s).coreAfter f session item =
            some core := by
        cases item <;> exact hCore
      rw [stepRunning, hErased]
      simp [hAfter, erase_deliver hItem]
  | writeClosed hLife =>
      rw [stepRunning, erase_core, if_pos hLife]
      rfl
  | closeBegin hLock hOrder =>
      rw [stepRunning, erase_core, erase_closing, hLock]
      simp [List.isPerm_iff.mpr hOrder, erase]
  | closeNext hClosing hLife =>
      rw [stepRunning, erase_closing, hClosing]
      simp [hLife, erase, close]
  | closeThrows hClosing hLife =>
      rw [stepRunning, erase_closing, hClosing]
      simp [hLife, erase]
  | closeEnd hClosing =>
      rw [stepRunning, erase_closing, hClosing]
      rfl

/- The steps of the frames leave no trace. -/
theorem erase_of_framesOf
    {f : Format D P}
    {s next : Hub D P}
    {action : HubAction D}
    (hFrames : action.framesOf client = true)
    (hStep : s.step f action = some next) :
    erase client next = erase client s := by
  cases (next_of_step hStep).2 with
  | @read session text hLife hOpen hRelay =>
      have hSession : session = client :=
        of_decide_eq_true hFrames
      rw [hSession, erase_setRelay_self]
  | @relayCopy session text order hRelay hLock hOrder =>
      have hSession : session = client :=
        of_decide_eq_true hFrames
      rw [hSession, erase_setRelay_self]
  | @relaySend session text target targets hRelay hLife =>
      have hSession : session = client :=
        of_decide_eq_true hFrames
      subst hSession
      rw [erase_post_hidden, erase_setRelay_self]
      simp [Item.fromOthers, Item.sender]
  | @relayPassOver session text target targets hRelay hLife =>
      have hSession : session = client :=
        of_decide_eq_true hFrames
      rw [hSession, erase_setRelay_self]
  | @relayDone session text hRelay =>
      have hSession : session = client :=
        of_decide_eq_true hFrames
      rw [hSession, erase_setRelay_self]
  | @deliver session item rest core hStrand hCore =>
      have hSender : item.sender = some client :=
        of_decide_eq_true hFrames
      cases item with
      | served message => cases hSender
      | frame sender text =>
          cases hCore
          apply erase_deliver_hidden hStrand
          simp [Item.fromOthers, hSender]
  | server hFree hCore => cases hFrames
  | writeClosed hLife => cases hFrames
  | closeBegin hLock hOrder => cases hFrames
  | closeNext hClosing hLife => cases hFrames
  | closeThrows hClosing hLife => cases hFrames
  | closeEnd hClosing => cases hFrames

/- The run without the frames of the client. -/
theorem exec_erase
    (client : SessionId)
    {f : Format D P}
    {run : List (HubAction D)}
    {s : Hub D P}
    (hExec : Run.exec (step f) (init f) run = some s) :
    Run.exec (step f) (init f)
        (run.filter fun action =>
          !action.framesOf client) =
      some (erase client s) := by
  rw [← erase_init client f]
  apply Run.exec_filter _ _ hExec
  · intro s action next hOther
    apply step_erase
    simpa using hOther
  · intro s action next hFrames
    apply erase_of_framesOf
    simpa using hFrames

end Hub

end Sync

end Kedge

------------------------------------------------------------
-- Where the Frames Come From
------------------------------------------------------------

namespace Kedge

namespace Sync

/- The text that a session is passing on. -/
def Relay.Holds (text : Str) : Relay → Prop
  | .idle => False
  | .copying held => held = text
  | .sending held _ => held = text

namespace Hub

variable {D P : Type}

/- All items posted to a session, oldest first. -/
def posted
    (s : Hub D P)
    (w : SessionId) : List (Item D P) :=
  s.onSend w ++ s.strand w

/- Every frame was read from the client it is said to be of. -/
structure FramesRead
    (past : List (HubAction D))
    (s : Hub D P) : Prop where
  posted :
    ∀ w sender text,
      .frame sender text ∈ s.posted w →
        .read sender text ∈ past
  relayed :
    ∀ sender text,
      (s.relays sender).Holds text →
        .read sender text ∈ past

variable {past : List (HubAction D)} {s next : Hub D P}

theorem framesRead_init
    (f : Format D P) :
    FramesRead [] (init f) where
  posted := by
    intro w sender text hIn
    cases hIn
  relayed := by
    intro sender text hHolds
    cases hHolds

/- No frame is new. -/
theorem FramesRead.of_same
    (hRead : FramesRead past s)
    (action : HubAction D)
    (hPosted :
      ∀ w sender text,
        .frame sender text ∈ next.posted w →
          .frame sender text ∈ s.posted w)
    (hRelays :
      ∀ sender text,
        (next.relays sender).Holds text →
          (s.relays sender).Holds text) :
    FramesRead (past ++ [action]) next where
  posted := by
    intro w sender text hIn
    exact List.mem_append_left _
      (hRead.posted w sender text (hPosted w sender text hIn))
  relayed := by
    intro sender text hHolds
    exact List.mem_append_left _
      (hRead.relayed sender text
        (hRelays sender text hHolds))

theorem mem_posted_post
    {session w : SessionId}
    {item other : Item D P}
    (hIn : other ∈ (s.post session item).posted w) :
    other = item ∨ other ∈ s.posted w := by
  by_cases hW : w = session
  · subst hW
    simp only [posted, post, Function.update_self,
      List.mem_append, List.mem_singleton] at hIn ⊢
    tauto
  · simp only [posted, post, Function.update_of_ne hW] at hIn
    exact Or.inr hIn

/- The server posts no frames. -/
theorem mem_posted_postServed
    {w sender : SessionId}
    {text : Str}
    {served : Option (SessionId × Message D P)}
    (hIn :
      .frame sender text ∈ (s.postServed served).posted w) :
    .frame sender text ∈ s.posted w := by
  cases served with
  | none => exact hIn
  | some served =>
      rcases mem_posted_post hIn with hNew | hOld
      · cases hNew
      · exact hOld

/- Only the relay of one session changes. -/
theorem holds_setRelay
    {session sender : SessionId}
    {relay : Relay}
    {text : Str}
    (hHolds :
      ((s.setRelay session relay).relays sender).Holds text) :
    sender = session ∧ relay.Holds text ∨
      (s.relays sender).Holds text := by
  by_cases hSender : sender = session
  · subst hSender
    simp only [setRelay, Function.update_self] at hHolds
    exact Or.inl ⟨rfl, hHolds⟩
  · simp only [setRelay, Function.update_of_ne hSender]
      at hHolds
    exact Or.inr hHolds

/- A relay that goes on holds what it held before. -/
theorem FramesRead.setRelay
    (hRead : FramesRead past s)
    (action : HubAction D)
    (session : SessionId)
    (relay : Relay)
    (hRelay :
      ∀ text, relay.Holds text →
        (s.relays session).Holds text) :
    FramesRead (past ++ [action])
      (s.setRelay session relay) := by
  refine hRead.of_same action (fun _ _ _ hIn => hIn) ?_
  intro sender text hHolds
  rcases holds_setRelay hHolds with ⟨rfl, hNew⟩ | hOld
  · exact hRelay text hNew
  · exact hOld

theorem framesRead_step
    {f : Format D P}
    {action : HubAction D}
    (hRead : FramesRead past s)
    (hStep : s.step f action = some next) :
    FramesRead (past ++ [action]) next := by
  cases (next_of_step hStep).2 with
  | @server action core hFree hCore =>
      refine hRead.of_same _ ?_ ?_
      · intro w sender text hIn
        exact mem_posted_postServed hIn
      · intro sender text hHolds
        rw [← relays_postServed (s.core.posts f action)]
        exact hHolds
  | @read session text hLife hOpen hRelay =>
      constructor
      · intro w sender other hIn
        exact List.mem_append_left _
          (hRead.posted w sender other hIn)
      · intro sender other hHolds
        rcases holds_setRelay hHolds with ⟨rfl, hNew⟩ | hOld
        · have hText : text = other := hNew
          rw [hText]
          exact List.mem_append_right _
            (List.mem_singleton_self _)
        · exact List.mem_append_left _
            (hRead.relayed sender other hOld)
  | relayCopy hRelay hLock hOrder =>
      apply hRead.setRelay
      intro text hHolds
      rw [hRelay]
      exact hHolds
  | @relaySend session text target targets hRelay hLife =>
      have hText : .read session text ∈ past := by
        apply hRead.relayed
        rw [hRelay]
        rfl
      have hMoved :=
        hRead.setRelay (.relaySend session) session
          (.sending text targets) (by
            intro other hHolds
            rw [hRelay]
            exact hHolds)
      refine ⟨?_, hMoved.relayed⟩
      intro w sender other hIn
      rcases mem_posted_post hIn with hNew | hOld
      · cases hNew
        exact List.mem_append_left _ hText
      · exact hMoved.posted w sender other hOld
  | relayPassOver hRelay hLife =>
      apply hRead.setRelay
      intro text hHolds
      rw [hRelay]
      exact hHolds
  | relayDone hRelay =>
      apply hRead.setRelay
      intro text hHolds
      cases hHolds
  | @deliver session item rest core hStrand hCore =>
      refine hRead.of_same _ ?_ (fun _ _ hHolds => hHolds)
      intro w sender text hIn
      by_cases hW : w = session
      · subst hW
        simp only [posted, runStrand, Function.update_self,
          List.append_assoc, List.singleton_append] at hIn
        rw [posted, hStrand]
        exact hIn
      · simp only [posted, runStrand,
          Function.update_of_ne hW] at hIn
        exact hIn
  | writeClosed hLife =>
      exact hRead.of_same _ (fun _ _ _ hIn => hIn)
        (fun _ _ hHolds => hHolds)
  | closeBegin hLock hOrder =>
      exact hRead.of_same _ (fun _ _ _ hIn => hIn)
        (fun _ _ hHolds => hHolds)
  | closeNext hClosing hLife =>
      exact hRead.of_same _ (fun _ _ _ hIn => hIn)
        (fun _ _ hHolds => hHolds)
  | closeThrows hClosing hLife =>
      exact hRead.of_same _ (fun _ _ _ hIn => hIn)
        (fun _ _ hHolds => hHolds)
  | closeEnd hClosing =>
      exact hRead.of_same _ (fun _ _ _ hIn => hIn)
        (fun _ _ hHolds => hHolds)

theorem framesRead_of_exec
    {f : Format D P}
    {run : List (HubAction D)}
    (hExec : Run.exec (step f) (init f) run = some s) :
    FramesRead run s :=
  Run.invariant_of_past
    (fun _ _ _ _ hRead hStep => framesRead_step hRead hStep)
    (framesRead_init f) hExec

end Hub

end Sync

end Kedge

------------------------------------------------------------
-- What a Client Receives
------------------------------------------------------------

namespace Kedge

namespace Sync

namespace Hub

variable {D P : Type}

/-
  Two runs that differ in the frames of one client only give
  every session the same items, up to the frames themselves.
  The other items are the messages of the server in a run
  of its own, and frames that some client sent.
-/
theorem frames_only_relayed
    (f : Format D P)
    (client : SessionId)
    (first second : List (HubAction D))
    (s t : Hub D P)
    (hFirst : Run.exec (step f) (init f) first = some s)
    (hSecond : Run.exec (step f) (init f) second = some t)
    (hSame :
      first.filter (fun a => !a.framesOf client) =
        second.filter (fun a => !a.framesOf client))
    (session : SessionId) :
    (s.onSend session).filter (Item.fromOthers client) =
        (t.onSend session).filter
          (Item.fromOthers client) ∧
      Run.exec (Caller.step f) (Caller.init f)
          (first.filterMap HubAction.core?) =
        some s.core ∧
      (s.onSend session).filterMap Item.message? =
        s.core.onSend session ∧
      ∀ sender text,
        .frame sender text ∈ s.onSend session →
          .read sender text ∈ first := by
  refine ⟨?_, core_of_exec hFirst,
    (agrees_of_exec hFirst session).2, ?_⟩
  · have hErased := exec_erase client hFirst
    rw [hSame, exec_erase client hSecond] at hErased
    have hStates := Option.some.inj hErased
    exact (congrFun (congrArg Hub.onSend hStates)
      session).symm
  · intro sender text hIn
    apply (framesRead_of_exec hFirst).posted session
    exact List.mem_append_left _ hIn

/- Two clients join and get their snapshots. -/
def twoClients : List (HubAction Json.Value) :=
  [.server (.join 1 [] 1000 (.object [])),
    .server (.join 2 [] 1000 (.object [])),
    .deliver 1 none, .deliver 2 none]

/- The second client sends a frame, which the first gets. -/
def oneFrame : List (HubAction Json.Value) :=
  [.read 2 "hello".toList, .relayCopy 2 [1, 2], .relaySend 2,
    .deliver 1 (some 2)]

theorem frames_only_relayed_two_clients :
    ∃ s t : Hub Json.Value (List Json.Value),
      Run.exec (step jsonFormat) (init jsonFormat)
          (twoClients ++ oneFrame) =
        some s ∧
      Run.exec (step jsonFormat) (init jsonFormat)
          twoClients =
        some t ∧
      (s.onSend 1).filter (Item.fromOthers 2) =
        (t.onSend 1).filter (Item.fromOthers 2) := by
  refine ⟨_, _, rfl, rfl, ?_⟩
  exact (frames_only_relayed jsonFormat 2
    (twoClients ++ oneFrame) twoClients _ _ rfl rfl rfl 1).1

/-
  The runs differ only in a frame of the second client, and
  the first client is given more in one of them: a text that
  is neither a snapshot nor a delta.
-/
theorem frame_reaches_other_client :
    ∃ s t : Hub Json.Value (List Json.Value),
      Run.exec (step jsonFormat) (init jsonFormat)
          (twoClients ++ oneFrame) =
        some s ∧
      Run.exec (step jsonFormat) (init jsonFormat)
          twoClients =
        some t ∧
      (twoClients ++ oneFrame).filter
          (fun a => !a.framesOf 2) =
        twoClients.filter (fun a => !a.framesOf 2) ∧
      s.onSend 1 =
        t.onSend 1 ++ [.frame 2 "hello".toList] ∧
      s.onSend 1 ≠ t.onSend 1 := by
  refine ⟨_, _, rfl, rfl, rfl, rfl, ?_⟩
  intro hSame
  cases congrArg List.length hSame

end Hub

end Sync

end Kedge
