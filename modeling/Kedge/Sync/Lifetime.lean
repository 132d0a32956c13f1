import Kedge.Sync.Hub
import Kedge.Sync.EndToEnd

/-
  The lifetime of the websocket sessions.

  `sessions_` holds plain pointers, and a session stays in
  it while its destructor waits for `mutex_`. `broadcast`
  takes weak pointers and passes over a session that has
  expired. `closeWS` calls `close` through the plain
  pointer, which asks the session for a `shared_ptr`.

  Key definitions include:
    * `Hub.asks`
    * `Hub.ClosesHeld`
    * `Hub.Held`

  Main theorems include:
    * `Hub.held_of_exec`
    * `Hub.asked_sessions_are_held`
-/

------------------------------------------------------------
-- Asking for a Reference
------------------------------------------------------------

namespace Kedge

namespace Sync

namespace Hub

variable {D P : Type}

/-
  The session whose `shared_from_this` a step calls: in
  `send`, when a handler of the session goes on, and in
  `close`. A broadcast gets there only if `lock` succeeds.
-/
def asks
    (s : Hub D P) :
    HubAction D → Option SessionId
  | .server (.join session _ _ _) => some session
  | .server .send =>
      match s.core.pass with
      | .sending _ (target :: _) =>
          if s.core.life target = .live then some target
          else none
      | _ => none
  | .relaySend session =>
      match s.relays session with
      | .sending _ (target :: _) =>
          if s.core.life target = .live then some target
          else none
      | _ => none
  | .relayDone session => some session
  | .deliver session _ => some session
  | .writeClosed session => some session
  | .closeNext =>
      match s.closing with
      | some (session :: _) => some session
      | _ => none
  | _ => none

/-
  `closeWS` gets `mutex_` when no listed session is expired,
  and a session that it has still to close keeps its
  references until then.
-/
def ClosesHeld
    (s : Hub D P) :
    HubAction D → Prop
  | .closeBegin _ =>
      ∀ w ∈ s.core.sessions, s.core.life w ≠ .expired
  | .server (.release session) =>
      ∀ targets, s.closing = some targets →
        session ∉ targets
  | _ => True

/- What owns a reference keeps the session alive. -/
structure Held (s : Hub D P) : Prop where
  tracked : s.core.Tracked
  strand : ∀ w, s.strand w ≠ [] → s.core.life w = .live
  relay : ∀ w, s.relays w ≠ .idle → s.core.life w = .live
  closing :
    ∀ targets, s.closing = some targets →
      ∀ w ∈ targets, s.core.life w = .live
  running : s.aborted = false

theorem held_init
    (f : Format D P) :
    Held (init f) where
  tracked := Caller.tracked_init f
  strand := by
    intro w hStrand
    exact absurd rfl hStrand
  relay := by
    intro w hRelay
    exact absurd rfl hRelay
  closing := by
    intro targets hClosing
    cases hClosing
  running := rfl

end Hub

namespace Caller

variable {D P : Type}

/- Only the drop of its last reference ends a live session. -/
theorem live_of_step
    {f : Format D P}
    {s next : Caller D P}
    {action : Action D}
    {w : SessionId}
    (hLive : s.life w = .live)
    (hAction : action ≠ .release w)
    (hStep : s.step f action = some next) :
    next.life w = .live := by
  cases next_of_step hStep with
  | @join session qid random stats hLife hStats =>
      by_cases hW : w = session
      · subst hW
        exact Function.update_self _ _ _
      · exact (Function.update_of_ne hW _ _).trans hLive
  | @release session hLife hStrand =>
      have hW : w ≠ session := by
        rintro rfl
        exact hAction rfl
      exact (Function.update_of_ne hW _ _).trans hLive
  | @leave session hLife =>
      have hW : w ≠ session := by
        rintro rfl
        rw [hLive] at hLife
        cases hLife
      exact (Function.update_of_ne hW _ _).trans hLive
  | _ => exact hLive

/- Messages are posted to live sessions. -/
theorem live_of_posts
    {f : Format D P}
    {s next : Caller D P}
    {action : Action D}
    {w : SessionId}
    {message : Message D P}
    (hPosts : s.posts f action = some (w, message))
    (hStep : s.step f action = some next) :
    next.life w = .live := by
  cases next_of_step hStep with
  | join hLife hStats =>
      cases hPosts
      exact Function.update_self _ _ _
  | send hPass hLife =>
      simp only [posts, hPass, hLife, if_true,
        Option.some.injEq, Prod.mk.injEq] at hPosts
      rw [← hPosts.1]
      exact hLife
  | passOver hPass hLife =>
      simp [posts, hPass, hLife] at hPosts
  | _ => cases hPosts

end Caller

namespace Hub

variable {D P : Type} {s : Hub D P}

/- The items of the sessions do not touch their lives. -/
theorem Held.of_core
    {next : Hub D P}
    (hHeld : Held s)
    (hCore : next.core = s.core)
    (hStrand :
      ∀ w, next.strand w ≠ [] →
        s.strand w ≠ [] ∨ s.core.life w = .live)
    (hRelay :
      ∀ w, next.relays w ≠ .idle →
        s.relays w ≠ .idle ∨ s.core.life w = .live)
    (hClosing :
      ∀ targets, next.closing = some targets →
        ∀ w ∈ targets, s.core.life w = .live)
    (hRunning : next.aborted = false) :
    Held next := by
  constructor
  · rw [hCore]
    exact hHeld.tracked
  · intro w hPosted
    rw [hCore]
    rcases hStrand w hPosted with hOld | hLive
    · exact hHeld.strand w hOld
    · exact hLive
  · intro w hReading
    rw [hCore]
    rcases hRelay w hReading with hOld | hLive
    · exact hHeld.relay w hOld
    · exact hLive
  · rw [hCore]
    exact hClosing
  · exact hRunning

/- Only the relay of a live session changes. -/
theorem Held.setRelay
    (hHeld : Held s)
    (session : SessionId)
    (relay : Relay)
    (hLive : s.core.life session = .live) :
    Held (s.setRelay session relay) := by
  apply hHeld.of_core
  · rfl
  · intro w hPosted
    exact Or.inl hPosted
  · intro w hReading
    by_cases hW : w = session
    · subst hW
      exact Or.inr hLive
    · simp only [Hub.setRelay, Function.update_of_ne hW]
        at hReading
      exact Or.inl hReading
  · exact hHeld.closing
  · exact hHeld.running

theorem strand_postServed_ne_nil
    {served : Option (SessionId × Message D P)}
    {w : SessionId}
    (hPosted : (s.postServed served).strand w ≠ []) :
    s.strand w ≠ [] ∨
      ∃ message, served = some (w, message) := by
  cases served with
  | none => exact Or.inl hPosted
  | some served =>
      rcases served with ⟨session, message⟩
      by_cases hW : w = session
      · subst hW
        exact Or.inr ⟨message, rfl⟩
      · simp only [postServed, post,
          Function.update_of_ne hW] at hPosted
        exact Or.inl hPosted

/- A session with a handler is not released. -/
theorem ne_release_of_blocks
    {action : Action D}
    (hFree : s.blocks action = false)
    {w : SessionId}
    (hOwned : s.strand w ≠ [] ∨ s.relays w ≠ .idle) :
    action ≠ .release w := by
  rintro rfl
  simp only [blocks, decide_eq_false_iff_not, not_not,
    List.isEmpty_iff] at hFree
  rcases hOwned with hStrand | hRelay
  · exact hStrand hFree.1
  · exact hRelay hFree.2

theorem held_server
    {f : Format D P}
    {core : Caller D P}
    {action : Action D}
    (hHeld : Held s)
    (hAllowed : ClosesHeld s (.server action))
    (hFree : s.blocks action = false)
    (hCore : s.core.step f action = some core) :
    Held
      { s.postServed (s.core.posts f action) with
        core := core } := by
  constructor
  · exact Caller.tracked_step hHeld.tracked hCore
  · intro w hPosted
    rcases strand_postServed_ne_nil hPosted with
      hOld | ⟨message, hNew⟩
    · exact Caller.live_of_step (hHeld.strand w hOld)
        (ne_release_of_blocks hFree (Or.inl hOld)) hCore
    · exact Caller.live_of_posts hNew hCore
  · intro w hReading
    dsimp only at hReading
    rw [relays_postServed] at hReading
    exact Caller.live_of_step (hHeld.relay w hReading)
      (ne_release_of_blocks hFree (Or.inr hReading)) hCore
  · intro targets hClosing w hW
    dsimp only at hClosing
    rw [closing_postServed] at hClosing
    refine Caller.live_of_step
      (hHeld.closing targets hClosing w hW) ?_ hCore
    rintro rfl
    exact hAllowed targets hClosing hW
  · dsimp only
    rw [aborted_postServed]
    exact hHeld.running

theorem held_deliver
    {f : Format D P}
    {core : Caller D P}
    {session : SessionId}
    {item : Item D P}
    {rest : List (Item D P)}
    (hHeld : Held s)
    (hStrand : s.strand session = item :: rest)
    (hCore : s.coreAfter f session item = some core) :
    Held
      { s.runStrand session item rest with core := core } := by
  have hAfter :
      core.Tracked ∧ core.life = s.core.life := by
    cases item with
    | served message =>
        have hRun :
            s.core.step f (.runStrand session) =
              some core := hCore
        refine ⟨Caller.tracked_step hHeld.tracked hRun, ?_⟩
        cases Caller.next_of_step hRun with
        | runStrand hFirst => rfl
    | frame sender text =>
        cases hCore
        exact ⟨hHeld.tracked, rfl⟩
  rcases hAfter with ⟨hTracked, hLife⟩
  constructor
  · exact hTracked
  · intro w hPosted
    dsimp only
    rw [hLife]
    by_cases hW : w = session
    · subst hW
      apply hHeld.strand
      rw [hStrand]
      exact nofun
    · simp only [runStrand, Function.update_of_ne hW]
        at hPosted
      exact hHeld.strand w hPosted
  · dsimp only
    rw [hLife]
    exact hHeld.relay
  · dsimp only
    rw [hLife]
    exact hHeld.closing
  · exact hHeld.running

theorem held_step
    {f : Format D P}
    {next : Hub D P}
    {action : HubAction D}
    (hAllowed : ClosesHeld s action)
    (hHeld : Held s)
    (hStep : s.step f action = some next) :
    Held next := by
  cases (next_of_step hStep).2 with
  | server hFree hCore =>
      exact held_server hHeld hAllowed hFree hCore
  | read hLife hOpen hRelay =>
      exact hHeld.setRelay _ _ hLife
  | relayCopy hRelay hLock hOrder =>
      refine hHeld.setRelay _ _ (hHeld.relay _ ?_)
      rw [hRelay]
      intro hIdle
      cases hIdle
  | @relaySend session text target targets hRelay hLife =>
      have hMoved :=
        hHeld.setRelay session (.sending text targets)
          (hHeld.relay _ (by
            rw [hRelay]
            intro hIdle
            cases hIdle))
      apply hMoved.of_core
      · rfl
      · intro w hPosted
        by_cases hW : w = target
        · subst hW
          exact Or.inr hLife
        · simp only [post, Function.update_of_ne hW]
            at hPosted
          exact Or.inl hPosted
      · intro w hReading
        exact Or.inl hReading
      · exact hMoved.closing
      · exact hMoved.running
  | relayPassOver hRelay hLife =>
      refine hHeld.setRelay _ _ (hHeld.relay _ ?_)
      rw [hRelay]
      intro hIdle
      cases hIdle
  | relayDone hRelay =>
      refine hHeld.setRelay _ _ (hHeld.relay _ ?_)
      rw [hRelay]
      intro hIdle
      cases hIdle
  | deliver hStrand hCore =>
      exact held_deliver hHeld hStrand hCore
  | writeClosed hLife =>
      exact hHeld.of_core rfl (fun _ => Or.inl)
        (fun _ => Or.inl) hHeld.closing hHeld.running
  | closeBegin hLock hOrder =>
      refine hHeld.of_core rfl (fun _ => Or.inl)
        (fun _ => Or.inl) ?_ hHeld.running
      rintro targets ⟨⟩ w hW
      have hListed := hOrder.mem_iff.mp hW
      rcases (hHeld.tracked.member w).mp hListed with
        hLive | hExpired
      · exact hLive
      · exact absurd hExpired (hAllowed w hListed)
  | closeNext hClosing hLife =>
      refine hHeld.of_core rfl (fun _ => Or.inl)
        (fun _ => Or.inl) ?_ hHeld.running
      rintro targets ⟨⟩ w hW
      exact hHeld.closing _ hClosing w
        (List.mem_cons_of_mem _ hW)
  | closeThrows hClosing hLife =>
      exact absurd
        (hHeld.closing _ hClosing _ List.mem_cons_self) hLife
  | closeEnd hClosing =>
      refine hHeld.of_core rfl (fun _ => Or.inl)
        (fun _ => Or.inl) ?_ hHeld.running
      intro targets hNone
      cases hNone

theorem held_of_exec
    {f : Format D P}
    {run : List (HubAction D)}
    (hMeets : Run.Meets (step f) ClosesHeld (init f) run)
    (hExec : Run.exec (step f) (init f) run = some s) :
    Held s :=
  Run.invariant_of_meets
    (fun _ _ _ hAllowed hHeld hStep =>
      held_step hAllowed hHeld hStep)
    (held_init f) hMeets hExec

/- A step asks a session that is held. -/
theorem Held.life_of_asks
    {f : Format D P}
    {next : Hub D P}
    {action : HubAction D}
    {w : SessionId}
    (hHeld : Held s)
    (hStep : s.step f action = some next)
    (hAsks : s.asks action = some w) :
    s.core.life w = .live ∨ s.core.life w = .unborn := by
  cases (next_of_step hStep).2 with
  | @server action core hFree hCore =>
      cases Caller.next_of_step hCore with
      | join hLife hStats =>
          cases hAsks
          exact Or.inr hLife
      | send hPass hLife =>
          simp only [asks, hPass, hLife, if_true,
            Option.some.injEq] at hAsks
          rw [← hAsks]
          exact Or.inl hLife
      | passOver hPass hLife =>
          simp [asks, hPass, hLife] at hAsks
      | _ => cases hAsks
  | relaySend hRelay hLife =>
      simp only [asks, hRelay, hLife, if_true,
        Option.some.injEq] at hAsks
      rw [← hAsks]
      exact Or.inl hLife
  | relayPassOver hRelay hLife =>
      simp [asks, hRelay, hLife] at hAsks
  | relayDone hRelay =>
      cases hAsks
      refine Or.inl (hHeld.relay _ ?_)
      rw [hRelay]
      exact nofun
  | deliver hStrand hCore =>
      cases hAsks
      refine Or.inl (hHeld.strand _ ?_)
      rw [hStrand]
      exact nofun
  | writeClosed hLife =>
      cases hAsks
      exact Or.inl hLife
  | closeNext hClosing hLife =>
      simp only [asks, hClosing, Option.some.injEq] at hAsks
      rw [← hAsks]
      exact Or.inl hLife
  | closeThrows hClosing hLife =>
      exact absurd
        (hHeld.closing _ hClosing _ List.mem_cons_self) hLife
  | _ => cases hAsks

/-
  As long as `closeWS` meets no expired session, the session
  list has live and expired sessions only, no step asks an
  expired session for a reference, and the process goes on.
-/
theorem asked_sessions_are_held
    (f : Format D P)
    (run : List (HubAction D))
    (s : Hub D P)
    (hMeets : Run.Meets (step f) ClosesHeld (init f) run)
    (hExec : Run.exec (step f) (init f) run = some s) :
    (∀ w ∈ s.core.sessions,
        s.core.life w = .live ∨ s.core.life w = .expired) ∧
      (∀ action next w,
        s.step f action = some next →
          s.asks action = some w →
            s.core.life w ≠ .expired) ∧
      s.aborted = false := by
  have hHeld := held_of_exec hMeets hExec
  refine ⟨fun w => (hHeld.tracked.member w).mp, ?_,
    hHeld.running⟩
  intro action next w hStep hAsks hExpired
  rcases hHeld.life_of_asks hStep hAsks with hLive | hUnborn
  · rw [hExpired] at hLive
    cases hLive
  · rw [hExpired] at hUnborn
    cases hUnborn

/- A client joins and the server shuts down. -/
theorem asked_sessions_are_held_shutdown :
    ∃ s : Hub Json.Value (List Json.Value),
      Run.exec (step jsonFormat) (init jsonFormat)
          [.server (.join 1 [] 1000 (.object [])),
            .deliver 1 none, .closeBegin [1]] =
        some s ∧
      s.asks .closeNext = some 1 ∧
      s.core.life 1 ≠ .expired := by
  have hMeets :
      Run.Meets (step jsonFormat) ClosesHeld
        (init jsonFormat)
        [.server (.join 1 [] 1000 (.object [])),
          .deliver 1 none, .closeBegin [1]] := by
    refine ⟨trivial, ?_⟩
    rintro _ ⟨⟩
    refine ⟨trivial, ?_⟩
    rintro _ ⟨⟩
    refine ⟨List.forall_mem_singleton.mpr nofun, ?_⟩
    rintro _ ⟨⟩
    trivial
  refine ⟨_, rfl, rfl, ?_⟩
  exact (asked_sessions_are_held jsonFormat _ _ hMeets
    rfl).2.1 .closeNext _ 1 rfl rfl

/-
  The last reference to a client is gone and its destructor
  waits for `mutex_`: `closeWS` asks the expired session,
  and the process aborts.
-/
theorem expired_session_is_asked :
    ∃ s next : Hub Json.Value (List Json.Value),
      Run.exec (step jsonFormat) (init jsonFormat)
          [.server (.join 1 [] 1000 (.object [])),
            .deliver 1 none, .server (.release 1),
            .closeBegin [1]] =
        some s ∧
      s.core.life 1 = .expired ∧
      s.asks .closeNext = some 1 ∧
      s.step jsonFormat .closeNext = some next ∧
      next.aborted = true := by
  exact ⟨_, _, rfl, rfl, rfl, rfl, rfl⟩

end Hub

end Sync

end Kedge
