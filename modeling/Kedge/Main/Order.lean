import Kedge.Library.Cursor
import Kedge.Main.Threads

/-
  The order of the shutdown.

  A thread that is joined has come to its end, and what
  `main` releases behind the joins is released once. So the
  last reference to the sheath is `ctx`, at the end of
  `main`, and `end` runs alone. The code of the sheath is
  run as by one thread, first in `doLoop` and then in `end`.

  Main declarations:
    * `Program.Signalled`
    * `Program.Ordered`
    * `Program.ordered_step`
    * `Program.end_runs_alone`
    * `Program.system_of_step`
    * `Program.one_session_thread`
-/

------------------------------------------------------------
-- What Steps of the Sheath Leave Alone
------------------------------------------------------------

namespace Kedge

namespace Sheath

/- What a handler does at which point of `drop_torrent`. -/
inductive Action.OfRunner (i : Nat) :
    Runner → Action → Prop where
  | delete {ih withData removal} :
      OfRunner i (.handling false)
        (.dropDelete i ih withData removal)
  | find : OfRunner i (.handling true) (.dropFind i)
  | remove : OfRunner i (.handling true) (.dropRemove i)

theorem Action.ofRunner_cases
    {action : Action}
    {i : Nat}
    {runner : Runner}
    (hKind : action.ofRunner i runner = true) :
    Action.OfRunner i runner action := by
  rcases runner with _ | dropped | _
  · cases action <;> cases hKind
  · cases dropped with
    | false =>
        cases action with
        | dropDelete j ih withData removal =>
            have hSame := of_decide_eq_true hKind
            subst hSame
            exact .delete
        | _ => cases hKind
    | true =>
        cases action with
        | dropFind j =>
            have hSame := of_decide_eq_true hKind
            subst hSame
            exact .find
        | dropRemove j =>
            have hSame := of_decide_eq_true hKind
            subst hSame
            exact .remove
        | _ => cases hKind
  · cases action <;> cases hKind

theorem Action.ne_returned_of_runner
    {action : Action}
    {i : Nat}
    {runner : Runner}
    (hKind : action.ofRunner i runner = true) :
    runner ≠ .returned := by
  rintro rfl
  cases Action.ofRunner_cases hKind

/- What `shth_loader` does in `pop_alerts`. -/
inductive Action.OfShthLoader :
    ShthLoader → Action → Prop where
  | pop : OfShthLoader .posting .pop
  | handle {alerts query write} :
      OfShthLoader (.popping alerts) (.handle query write)
  | popDone {alerts} : OfShthLoader (.popping alerts) .popDone

theorem Action.ofShthLoader_cases
    {action : Action}
    {loader : ShthLoader}
    (hKind : action.ofShthLoader loader = true) :
    Action.OfShthLoader loader action := by
  cases loader with
  | posting =>
      cases action with
      | pop => exact .pop
      | _ => cases hKind
  | popping alerts =>
      cases action with
      | handle query write => exact .handle
      | popDone => exact .popDone
      | _ => cases hKind
  | _ => cases action <;> cases hKind

theorem Action.ne_finished_of_loader
    {action : Action}
    {loader : ShthLoader}
    (hKind : action.ofShthLoader loader = true) :
    loader ≠ .finished := by
  rintro rfl
  cases Action.ofShthLoader_cases hKind

namespace System

variable {config : Config}
variable {s next : System}
variable {action : Action}

/- `libtorrent` has no part in the sheath's threads. -/
theorem own_of_libtorrent
    (hKind : action.ofLibtorrent = true)
    (hStep : s.step config action = some next) :
    next.own = s.own ∧ next.drops = s.drops := by
  cases next_of_step hStep with
  | add | post _ | answer _ => exact ⟨rfl, rfl⟩
  | _ => cases hKind

/- A handler only moves itself on in `drop_torrent`. -/
theorem own_of_runner
    {i : Nat}
    {runner : Runner}
    (hKind : action.ofRunner i runner = true)
    (hStep : s.step config action = some next) :
    next.own = s.own ∧
      ∀ j, j ≠ i → next.drops j = s.drops j := by
  cases Action.ofRunner_cases hKind with
  | delete =>
      cases next_of_step hStep with
      | dropDelete _ =>
          exact
            ⟨rfl, fun j hOther =>
              Function.update_of_ne hOther _ _⟩
  | find =>
      cases next_of_step hStep with
      | dropFound _ _
      | dropMissed _ =>
          exact
            ⟨rfl, fun j hOther =>
              Function.update_of_ne hOther _ _⟩
  | remove =>
      cases next_of_step hStep with
      | dropRemove _ =>
          exact
            ⟨rfl, fun j hOther =>
              Function.update_of_ne hOther _ _⟩

theorem drops_of_end
    (hKind : action.ofEnd = true)
    (hStep : s.step config action = some next) :
    next.drops = s.drops := by
  cases next_of_step hStep with
  | saveNext _ _ =>
      unfold saveNext
      dsimp only
      split <;> rfl
  | handle _
  | popDone _
  | saveAll _ _
  | saveLoopDone _ _
  | waitTimeout
  | waitAlert _ _
  | saveReturn _ _ _ => rfl
  | _ => cases hKind

/- `doLoop` stays behind its test, in the loop. -/
theorem thread_of_loop
    {loader : ShthLoader}
    (hKind : action.ofShthLoader loader = true)
    (hStep : s.step config action = some next) :
    next.thread = s.thread ∧ next.drops = s.drops := by
  cases Action.ofShthLoader_cases hKind with
  | pop | handle | popDone =>
      cases next_of_step hStep
      exact ⟨rfl, rfl⟩

end System

end Sheath

end Kedge

------------------------------------------------------------
-- The Statements Left to Main
------------------------------------------------------------

namespace Kedge

theorem nodup_tasks (threads : Nat) :
    (tasks threads).Nodup := by
  have hJoins :
      ((List.range' 1 (threads - 1)).map
        Task.joinRunner).Nodup :=
    List.Nodup.map
      (fun _ _ hSame => Task.joinRunner.inj hSame)
      (List.nodup_range' 1)
  rw [tasks, List.nodup_cons, List.nodup_append]
  refine ⟨by simp, hJoins, by decide, ?_⟩
  intro task hJoin other hOther
  rcases List.mem_map.mp hJoin with ⟨i, _, rfl⟩
  rintro rfl
  simp at hOther

theorem joinRunner_mem_tasks
    {threads i : Nat}
    (hPositive : 0 < i)
    (hThread : i < threads) :
    Task.joinRunner i ∈ tasks threads := by
  simp only [tasks, List.mem_cons, List.mem_append,
    List.mem_map, List.mem_range'_1]
  exact Or.inr (Or.inl ⟨i, by omega, rfl⟩)

/- What is left behind the joins. -/
theorem behind_joins_suffix (threads : Nat) :
    [.destroyIoc, .releaseCaller, .releaseCtx] <:+
      tasks threads :=
  ⟨.closeWS ::
      ((List.range' 1 (threads - 1)).map Task.joinRunner ++
        [.joinCtxStartLoader, .joinShthLoader,
          .joinCallerLoader]),
    by simp [tasks]⟩

theorem releaseCaller_suffix (threads : Nat) :
    [.releaseCaller, .releaseCtx] <:+ tasks threads :=
  (List.suffix_cons _ _).trans (behind_joins_suffix threads)

theorem releaseCtx_suffix (threads : Nat) :
    [.releaseCtx] <:+ tasks threads :=
  (List.suffix_cons _ _).trans (releaseCaller_suffix threads)

end Kedge

------------------------------------------------------------
-- The Order of the Shutdown
------------------------------------------------------------

namespace Kedge

open Sheath

namespace Program

/-
  `quit` is behind everything that ends, and `ioc` returns
  only where it is stopped.
-/
structure Signalled (p : Program) : Prop where
  signals : p.signals = false → p.quit = true
  stopped : p.stopped = true → p.quit = true
  stopping : p.shthLoader = .stopping → p.quit = true
  finished : p.shthLoader = .finished → p.stopped = true
  caller : p.callerLoader = .finished → p.quit = true
  returned :
    ∀ i, p.runners i = .returned → p.stopped = true

/-
  Behind a statement of `main` holds what it waits for or
  does. As long as a statement is left, `main` holds `ctx`,
  and the sheath is destroyed by the last one.
-/
structure Ordered
    (threads : Nat)
    (p : Program) : Prop where
  todo : p.todo <:+ tasks threads
  done :
    ∀ task ∈ tasks threads, task ∉ p.todo → task.Done p
  main : p.todo ≠ tasks threads → p.runners 0 = .returned
  holdsCtx : p.todo ≠ [] → p.holdsCtx = true
  ending :
    ∀ name own, p.ending = some (name, own) →
      name = .runner 0 ∧ p.todo = []
  ended : p.todo = [] → p.ending.isSome = true
  drops :
    ∀ i, (i < threads → p.runners i ≠ .handling true) →
      p.shared.drops i = .idle

variable {config : Config}
variable {threads : Nat}
variable {p : Program}

theorem signalled_init
    (values : SessionValues)
    (files : FileSystem) :
    (init threads values files).Signalled where
  signals := by intro h; cases h
  stopped := by intro h; cases h
  stopping := by intro h; cases h
  finished := by intro h; cases h
  caller := by intro h; cases h
  returned := by intro i h; cases h

theorem ordered_init
    (values : SessionValues)
    (files : FileSystem) :
    (init threads values files).Ordered threads where
  todo := List.suffix_refl _
  done := fun _ hIn hNot => absurd hIn hNot
  main := fun hOther => absurd rfl hOther
  holdsCtx := fun _ => rfl
  ending := by intro name own h; cases h
  ended := by intro h; cases h
  drops := fun _ _ => rfl

theorem release_of_holdsCtx
    (hHolds : p.holdsCtx = true)
    (name : ThreadName) :
    p.release name = p :=
  if_pos (Or.inl hHolds)

/- A release only concerns the sheath. -/
theorem exists_release
    (p : Program)
    (name : ThreadName) :
    ∃ ending, p.release name = { p with ending := ending } := by
  unfold release
  split
  · exact ⟨p.ending, rfl⟩
  · exact ⟨_, rfl⟩

theorem Signalled.release
    (hSignalled : p.Signalled)
    (name : ThreadName) :
    (p.release name).Signalled := by
  rcases exists_release p name with ⟨ending, hSame⟩
  rw [hSame]
  exact { hSignalled with }

/- A thread that goes on has not returned. -/
theorem returned_of_update
    {runners : Nat → Runner}
    {runner : Runner}
    {i j : Nat}
    (hRunner : runner ≠ .returned)
    (hReturned :
      Function.update runners i runner j = .returned) :
    runners j = .returned := by
  by_cases hSame : j = i
  · subst hSame
    rw [Function.update_self] at hReturned
    exact absurd hReturned hRunner
  · rw [Function.update_of_ne hSame] at hReturned
    exact hReturned

theorem signalled_step
    {next : Program}
    {event : ProgramEvent}
    (hSignalled : p.Signalled)
    (hStep : p.step config threads event = some next) :
    next.Signalled := by
  cases next_of_step hStep with
  | signal _ _ =>
      exact
        { hSignalled with
          signals := fun _ => rfl
          stopped := fun _ => rfl
          stopping := fun _ => rfl
          caller := fun _ => rfl }
  | take _ _ _
  | drop _ _ _
  | done _ _ _ =>
      refine { hSignalled with returned := ?_ }
      intro j hReturned
      exact
        hSignalled.returned j
          (returned_of_update (by decide) hReturned)
  | leave _ _ hStopped =>
      exact { hSignalled with returned := fun _ _ => hStopped }
  | outOfWork _ _ hSignals =>
      exact
        { hSignalled with
          stopped := fun _ => hSignalled.signals hSignals
          finished := fun _ => rfl
          returned := fun _ _ => rfl }
  | test hLoader =>
      refine
        { hSignalled with stopping := ?_, finished := ?_ }
      · intro hStopping
        by_contra hQuit
        simp [hQuit] at hStopping
      · intro hFinished
        dsimp only at hFinished
        split at hFinished <;> cases hFinished
  | @loop action s _ _ =>
      refine
        { hSignalled with stopping := ?_, finished := ?_ }
      · intro hStopping
        cases hBatch : s.batch <;>
          simp [ShthLoader.after, hBatch] at hStopping
      · intro hFinished
        cases hBatch : s.batch <;>
          simp [ShthLoader.after, hBatch] at hFinished
  | scanned _ =>
      refine
        { hSignalled with stopping := ?_, finished := ?_ }
      · intro hStopping
        cases hStopping
      · intro hFinished
        cases hFinished
  | stop hLoader =>
      have hQuit := hSignalled.stopping hLoader
      exact
        { hSignalled with
          stopped := fun _ => hQuit
          stopping := fun _ => hQuit
          finished := fun _ => rfl
          returned := fun _ _ => rfl }
  | callerTest hLoader =>
      refine { hSignalled with caller := ?_ }
      intro hFinished
      by_contra hQuit
      simp [hQuit] at hFinished
  | callerPassed _ =>
      refine { hSignalled with caller := ?_ }
      intro hFinished
      cases hFinished
  | closed _ _
  | callerClosed _
  | destroyIoc _ _
  | releaseCaller _ _
  | releaseCtx _ _ =>
      apply Signalled.release
      exact { hSignalled with }
  | _ => exact { hSignalled with }

/- The last statement releases `ctx`. -/
theorem Ordered.eq_releaseCtx
    {task : Task}
    (hOrdered : p.Ordered threads)
    (hTodo : p.todo = [task]) :
    task = .releaseCtx := by
  have hSuffix := hOrdered.todo
  rw [hTodo] at hSuffix
  rcases List.suffix_or_suffix_of_suffix hSuffix
      (releaseCtx_suffix threads) with hSame | hSame
  · exact List.singleton_inj.mp (hSame.eq_of_length rfl)
  · exact
      (List.singleton_inj.mp (hSame.eq_of_length rfl)).symm

/- What is left behind a statement that occurs once. -/
theorem Ordered.rest_eq
    {task : Task}
    {rest rest' : List Task}
    (hOrdered : p.Ordered threads)
    (hTodo : p.todo = task :: rest)
    (hSuffix : task :: rest' <:+ tasks threads) :
    rest = rest' := by
  apply Cursor.rest_eq_of_suffix (nodup_tasks threads) _ hSuffix
  rw [← hTodo]
  exact hOrdered.todo

/- Only a handler is in `drop_torrent`. -/
theorem Ordered.handling_of_drop
    {i : Nat}
    (hOrdered : p.Ordered threads)
    (hDrop : p.shared.drops i ≠ .idle) :
    p.runners i = .handling true := by
  by_contra hOther
  exact hDrop (hOrdered.drops i fun _ => hOther)

/- `ioc` outlives the handlers. -/
theorem Ordered.destroyIoc_of_handling
    {i : Nat}
    (hOrdered : p.Ordered threads)
    (hThread : i < threads)
    (hRunner : (p.runners i).isHandling = true) :
    Task.destroyIoc ∈ p.todo := by
  by_contra hNot
  have hSuffix :=
    Cursor.suffix_of_not_mem hOrdered.todo
      (behind_joins_suffix threads) hNot
  have hReturned : p.runners i = .returned := by
    rcases Nat.eq_zero_or_pos i with rfl | hPositive
    · apply hOrdered.main
      intro hAll
      apply hNot
      rw [hAll]
      exact
        (behind_joins_suffix threads).subset
          List.mem_cons_self
    · refine
        hOrdered.done _ (joinRunner_mem_tasks hPositive hThread)
          ?_
      intro hIn
      have hBehind := hSuffix.subset hIn
      simp at hBehind
  rw [hReturned] at hRunner
  cases hRunner

/- It outlives the passes of the caller, too. -/
theorem Ordered.destroyIoc_of_passing
    (hOrdered : p.Ordered threads)
    (hLoader : p.callerLoader = .passing) :
    Task.destroyIoc ∈ p.todo := by
  by_contra hNot
  have hSuffix :=
    Cursor.suffix_of_not_mem hOrdered.todo
      (behind_joins_suffix threads) hNot
  have hFinished : p.callerLoader = .finished := by
    refine
      hOrdered.done .joinCallerLoader (by simp [tasks]) ?_
    intro hIn
    have hBehind := hSuffix.subset hIn
    simp at hBehind
  rw [hFinished] at hLoader
  cases hLoader

/- A thread that has not returned is not joined. -/
theorem Ordered.update_runner
    {i : Nat}
    {runner : Runner}
    (hOrdered : p.Ordered threads)
    (hThread : i < threads)
    (hRunner : p.runners i ≠ .returned)
    (hDrop :
      runner ≠ .handling true → p.shared.drops i = .idle) :
    Ordered threads
      { p with
        runners := Function.update p.runners i runner } := by
  refine
    { hOrdered with done := ?_, main := ?_, drops := ?_ }
  · intro task hIn hNot
    have hDone := hOrdered.done task hIn hNot
    cases task with
    | joinRunner j =>
        have hOther : j ≠ i := by
          rintro rfl
          exact hRunner hDone
        exact
          (Function.update_of_ne hOther _ _).trans hDone
    | _ => exact hDone
  · intro hBegun
    have hMain := hOrdered.main hBegun
    have hOther : 0 ≠ i := by
      rintro rfl
      exact hRunner hMain
    exact (Function.update_of_ne hOther _ _).trans hMain
  · intro j hIdle
    by_cases hSame : j = i
    · subst hSame
      dsimp only at hIdle
      rw [Function.update_self] at hIdle
      exact hDrop (hIdle hThread)
    · dsimp only at hIdle
      rw [Function.update_of_ne hSame] at hIdle
      exact hOrdered.drops j hIdle

/- What the threads share of the sheath goes on. -/
theorem Ordered.update_shared
    {d : Shared}
    (hOrdered : p.Ordered threads)
    (hDrops :
      ∀ i, (i < threads → p.runners i ≠ .handling true) →
        d.drops i = p.shared.drops i) :
    Ordered threads { p with shared := d } := by
  refine { hOrdered with done := ?_, drops := ?_ }
  · intro task hIn hNot
    have hDone := hOrdered.done task hIn hNot
    cases task <;> exact hDone
  · intro i hIdle
    exact (hDrops i hIdle).trans (hOrdered.drops i hIdle)

/- The number of sessions changes before `ioc` is gone. -/
theorem Ordered.update_owners
    (hOrdered : p.Ordered threads)
    (hIoc : Task.destroyIoc ∈ p.todo)
    (owners : Nat) :
    Ordered threads { p with owners := owners } := by
  refine { hOrdered with done := ?_ }
  intro task hIn hNot
  have hDone := hOrdered.done task hIn hNot
  cases task with
  | destroyIoc => exact absurd hIoc hNot
  | _ => exact hDone

/- A session is released. -/
theorem Ordered.release_owner
    (hOrdered : p.Ordered threads)
    (hIoc : Task.destroyIoc ∈ p.todo)
    (name : ThreadName) :
    Ordered threads
      (release { p with owners := p.owners - 1 } name) := by
  have hLess := hOrdered.update_owners hIoc (p.owners - 1)
  rw [release_of_holdsCtx
    (hLess.holdsCtx (List.ne_nil_of_mem hIoc))]
  exact hLess

/-
  `main` goes on, where what holds behind the statement
  holds and `ctx` is not the last one that it releases.
-/
theorem Ordered.next_task
    {next : Program}
    {task : Task}
    {rest : List Task}
    (hOrdered : p.Ordered threads)
    (hMain : p.runners 0 = .returned)
    (hTodo : p.todo = task :: rest)
    (hLast : rest ≠ [])
    (hDone : task.Done next)
    (hOthers :
      ∀ other : Task, other ∉ p.todo →
        other.Done p → other.Done next)
    (hNext : next.todo = rest)
    (hRunners : next.runners = p.runners)
    (hHolds : next.holdsCtx = p.holdsCtx)
    (hShared : next.shared = p.shared)
    (hEnding : next.ending = p.ending) :
    next.Ordered threads where
  todo := by
    rw [hNext]
    apply (List.suffix_cons task rest).trans
    rw [← hTodo]
    exact hOrdered.todo
  done := by
    intro other hIn hNot
    by_cases hSame : other = task
    · rw [hSame]
      exact hDone
    · have hBehind : other ∉ p.todo := by
        rw [hTodo, List.mem_cons, not_or, ← hNext]
        exact ⟨hSame, hNot⟩
      exact
        hOthers other hBehind
          (hOrdered.done other hIn hBehind)
  main := by
    intro _
    rw [hRunners]
    exact hMain
  holdsCtx := by
    intro _
    rw [hHolds]
    apply hOrdered.holdsCtx
    rw [hTodo]
    exact List.cons_ne_nil _ _
  ending := by
    intro name own hSome
    rw [hEnding] at hSome
    rw [(hOrdered.ending name own hSome).2] at hTodo
    cases hTodo
  ended := fun hNone => absurd (hNext.symm.trans hNone) hLast
  drops := by
    rw [hRunners, hShared]
    exact hOrdered.drops

/- Another thread goes on that `main` does not wait for. -/
theorem Ordered.of_done
    {next : Program}
    (hOrdered : p.Ordered threads)
    (hDone : ∀ task : Task, task.Done p → task.Done next)
    (hTodo : next.todo = p.todo)
    (hRunners : next.runners = p.runners)
    (hHolds : next.holdsCtx = p.holdsCtx)
    (hDrops : next.shared.drops = p.shared.drops)
    (hEnding :
      next.ending.map Prod.fst = p.ending.map Prod.fst) :
    next.Ordered threads where
  todo := by
    rw [hTodo]
    exact hOrdered.todo
  done := by
    intro task hIn hNot
    rw [hTodo] at hNot
    exact hDone task (hOrdered.done task hIn hNot)
  main := by
    rw [hTodo, hRunners]
    exact hOrdered.main
  holdsCtx := by
    rw [hTodo, hHolds]
    exact hOrdered.holdsCtx
  ending := by
    intro name own hSome
    rw [hSome, Option.map_some] at hEnding
    rcases Option.map_eq_some_iff.mp hEnding.symm with
      ⟨⟨other, own'⟩, hOther, hSame⟩
    have hName : other = name := hSame
    rw [hTodo, ← hName]
    exact hOrdered.ending other own' hOther
  ended := by
    intro hNone
    rw [hTodo] at hNone
    have hSome := hOrdered.ended hNone
    rw [← Option.isSome_map, ← hEnding,
      Option.isSome_map] at hSome
    exact hSome
  drops := by
    rw [hRunners, hDrops]
    exact hOrdered.drops

/- A statement of `main` that is no release. -/
theorem Ordered.waited
    {task : Task}
    {rest : List Task}
    (hOrdered : p.Ordered threads)
    (hMain : p.runners 0 = .returned)
    (hTodo : p.todo = task :: rest)
    (hDone : task.Done p) :
    Ordered threads { p with todo := rest } := by
  have hSame :
      ∀ other : Task,
        other.Done { p with todo := rest } = other.Done p :=
    fun other => by cases other <;> rfl
  have hLast : rest ≠ [] := by
    rintro rfl
    have hReleased := hOrdered.eq_releaseCtx hTodo
    rw [hReleased] at hDone
    have hHolds := hOrdered.holdsCtx (by simp [hTodo])
    exact absurd (hDone.symm.trans hHolds) (by decide)
  exact
    hOrdered.next_task hMain hTodo hLast
      (hSame task ▸ hDone)
      (fun other _ hOther => hSame other ▸ hOther)
      rfl rfl rfl rfl rfl

theorem Ordered.destroyIoc
    {rest : List Task}
    (hOrdered : p.Ordered threads)
    (hMain : p.runners 0 = .returned)
    (hTodo : p.todo = .destroyIoc :: rest) :
    Ordered threads
      (release { p with todo := rest, owners := 0 }
        (.runner 0)) := by
  have hRest :=
    hOrdered.rest_eq hTodo (behind_joins_suffix threads)
  subst hRest
  have hHolds := hOrdered.holdsCtx (by simp [hTodo])
  rw [release_of_holdsCtx (by exact hHolds)]
  refine
    hOrdered.next_task hMain hTodo (by simp) rfl ?_ rfl rfl
      rfl rfl rfl
  intro other _ hDone
  cases other with
  | destroyIoc => rfl
  | _ => exact hDone

theorem Ordered.releaseCaller
    {rest : List Task}
    (hOrdered : p.Ordered threads)
    (hMain : p.runners 0 = .returned)
    (hTodo : p.todo = .releaseCaller :: rest) :
    Ordered threads
      (release { p with todo := rest, holdsCaller := false }
        (.runner 0)) := by
  have hRest :=
    hOrdered.rest_eq hTodo (releaseCaller_suffix threads)
  subst hRest
  have hHolds := hOrdered.holdsCtx (by simp [hTodo])
  rw [release_of_holdsCtx (by exact hHolds)]
  refine
    hOrdered.next_task hMain hTodo (by simp) rfl ?_ rfl rfl
      rfl rfl rfl
  intro other _ hDone
  cases other with
  | releaseCaller => rfl
  | _ => exact hDone

/- Behind the joins nothing else holds the sheath. -/
theorem Ordered.release_eq_ending
    {rest : List Task}
    (hOrdered : p.Ordered threads)
    (hTodo : p.todo = .releaseCtx :: rest) :
    release { p with todo := rest, holdsCtx := false }
        (.runner 0) =
      { p with
        todo := []
        holdsCtx := false
        ending := some (.runner 0, ⟨.loop, none⟩) } := by
  have hRest :=
    hOrdered.rest_eq hTodo (releaseCtx_suffix threads)
  subst hRest
  have hOwners : p.owners = 0 :=
    hOrdered.done .destroyIoc (by simp [tasks])
      (by simp [hTodo])
  have hCaller : p.holdsCaller = false :=
    hOrdered.done .releaseCaller (by simp [tasks])
      (by simp [hTodo])
  simp [release, hOwners, hCaller]

theorem Ordered.releaseCtx
    {rest : List Task}
    (hOrdered : p.Ordered threads)
    (hMain : p.runners 0 = .returned)
    (hTodo : p.todo = .releaseCtx :: rest) :
    Ordered threads
      (release { p with todo := rest, holdsCtx := false }
        (.runner 0)) := by
  have hRest :=
    hOrdered.rest_eq hTodo (releaseCtx_suffix threads)
  rw [hOrdered.release_eq_ending hTodo]
  refine
    { hOrdered with
      todo := List.nil_suffix
      done := ?_
      main := fun _ => hMain
      holdsCtx := fun hSome => absurd rfl hSome
      ending := ?_
      ended := fun _ => rfl }
  · intro task hIn _
    by_cases hLast : task = .releaseCtx
    · rw [hLast]
      rfl
    · have hDone :=
        hOrdered.done task hIn (by simp [hTodo, hRest, hLast])
      cases task with
      | releaseCtx => rfl
      | _ => exact hDone
  · intro name own hSome
    cases hSome
    exact ⟨rfl, rfl⟩

theorem ordered_step
    {next : Program}
    {event : ProgramEvent}
    (hOrdered : p.Ordered threads)
    (hStep : p.step config threads event = some next) :
    next.Ordered threads := by
  cases next_of_step hStep with
  | libtorrent hKind _ hSheath =>
      have hDrops :=
        (System.own_of_libtorrent hKind hSheath).2
      exact hOrdered.update_shared fun i _ => congrFun hDrops i
  | take hThread hRunner _ =>
      apply hOrdered.update_runner hThread (by simp [hRunner])
      intro _
      exact hOrdered.drops _ (by simp [hRunner])
  | @drop i action s hThread hKind hSheath =>
      have hRunner := Action.ne_returned_of_runner hKind
      have hOthers :=
        (System.own_of_runner hKind hSheath).2
      have hBusy :
          Ordered threads
            { p with
              runners :=
                Function.update p.runners i
                  (.handling true) } :=
        hOrdered.update_runner hThread hRunner fun hOther =>
          absurd rfl hOther
      apply hBusy.update_shared
      intro j hIdle
      apply hOthers j
      rintro rfl
      exact hIdle hThread (Function.update_self _ _ _)
  | opened hThread hRunner =>
      exact
        hOrdered.update_owners
          (hOrdered.destroyIoc_of_handling hThread hRunner) _
  | closed hThread hRunner =>
      exact
        hOrdered.release_owner
          (hOrdered.destroyIoc_of_handling hThread hRunner) _
  | done hThread hRunner hDrop =>
      apply hOrdered.update_runner hThread _ (fun _ => hDrop)
      intro hReturned
      rw [hReturned] at hRunner
      cases hRunner
  | leave hThread hRunner _ =>
      apply hOrdered.update_runner hThread (by simp [hRunner])
      intro _
      exact hOrdered.drops _ (by simp [hRunner])
  | test hLoader
  | scanned hLoader
  | stop hLoader =>
      refine hOrdered.of_done ?_ rfl rfl rfl rfl rfl
      intro task hDone
      cases task with
      | joinShthLoader => cases hLoader.symm.trans hDone
      | _ => exact hDone
  | @loop action s hKind hSheath =>
      have hDrops := (System.thread_of_loop hKind hSheath).2
      refine hOrdered.of_done ?_ rfl rfl rfl hDrops rfl
      intro task hDone
      cases task with
      | joinShthLoader =>
          exact
            absurd hDone (Action.ne_finished_of_loader hKind)
      | _ => exact hDone
  | callerTest hLoader
  | callerPassed hLoader =>
      refine hOrdered.of_done ?_ rfl rfl rfl rfl rfl
      intro task hDone
      cases task with
      | joinCallerLoader => cases hLoader.symm.trans hDone
      | _ => exact hDone
  | callerClosed hLoader =>
      exact
        hOrdered.release_owner
          (hOrdered.destroyIoc_of_passing hLoader) _
  | started _ =>
      refine hOrdered.of_done ?_ rfl rfl rfl rfl rfl
      intro task hDone
      cases task with
      | joinCtxStartLoader => rfl
      | _ => exact hDone
  | waited hMain hTodo hDone =>
      exact hOrdered.waited hMain hTodo hDone
  | destroyIoc hMain hTodo =>
      exact hOrdered.destroyIoc hMain hTodo
  | releaseCaller hMain hTodo =>
      exact hOrdered.releaseCaller hMain hTodo
  | releaseCtx hMain hTodo =>
      exact hOrdered.releaseCtx hMain hTodo
  | save hEnding _ hKind hSheath =>
      have hDrops := System.drops_of_end hKind hSheath
      refine
        hOrdered.of_done ?_ rfl rfl rfl hDrops
          (by rw [hEnding]; rfl)
      intro task hDone
      cases task <;> exact hDone
  | _ =>
      refine hOrdered.of_done ?_ rfl rfl rfl rfl rfl
      intro task hDone
      cases task <;> exact hDone

end Program

end Kedge

------------------------------------------------------------
-- The End Runs Alone
------------------------------------------------------------

namespace Kedge

open Sheath

/- The events that are left while `end` runs. -/
def ProgramEvent.ofEnd : ProgramEvent → Bool
  | .libtorrent _ => true
  | .save _ => true
  | .saveSession _ _ => true
  | _ => false

namespace Program

/- All threads but that of `main` have come to their end. -/
structure Alone
    (threads : Nat)
    (p : Program) : Prop where
  quit : p.quit = true
  stopped : p.stopped = true
  runners : ∀ i < threads, p.runners i = .returned
  ctxStartLoader : p.ctxStartLoader = false
  shthLoader : p.shthLoader = .finished
  callerLoader : p.callerLoader = .finished
  owners : p.owners = 0
  holdsCaller : p.holdsCaller = false
  holdsCtx : p.holdsCtx = false
  drops : ∀ i, p.shared.drops i = .idle

variable {config : Config}
variable {threads : Nat}
variable {p : Program}

theorem alone_of_todo
    (hSignalled : p.Signalled)
    (hOrdered : p.Ordered threads)
    (hTodo : p.todo = []) :
    p.Alone threads := by
  have hDone :
      ∀ task ∈ tasks threads, task.Done p := by
    intro task hIn
    apply hOrdered.done task hIn
    rw [hTodo]
    exact List.not_mem_nil
  have hFinished : p.shthLoader = .finished :=
    hDone .joinShthLoader (by simp [tasks])
  have hStopped := hSignalled.finished hFinished
  have hMain : p.runners 0 = .returned := by
    apply hOrdered.main
    rw [hTodo]
    exact List.cons_ne_nil _ _ |>.symm
  have hRunners :
      ∀ i < threads, p.runners i = .returned := by
    intro i hThread
    rcases Nat.eq_zero_or_pos i with rfl | hPositive
    · exact hMain
    · exact hDone _ (joinRunner_mem_tasks hPositive hThread)
  refine
    { quit := hSignalled.stopped hStopped
      stopped := hStopped
      runners := hRunners
      ctxStartLoader :=
        hDone .joinCtxStartLoader (by simp [tasks])
      shthLoader := hFinished
      callerLoader := hDone .joinCallerLoader (by simp [tasks])
      owners := hDone .destroyIoc (by simp [tasks])
      holdsCaller := hDone .releaseCaller (by simp [tasks])
      holdsCtx := hDone .releaseCtx (by simp [tasks])
      drops := ?_ }
  intro i
  apply hOrdered.drops i
  intro hThread
  simp [hRunners i hThread]

/- A thread that has ended takes no further step. -/
theorem ofEnd_of_alone
    {next : Program}
    {event : ProgramEvent}
    (hAlone : p.Alone threads)
    (hTodo : p.todo = [])
    (hStep : p.step config threads event = some next) :
    event.ofEnd = true ∧
      next.ending.map Prod.fst = p.ending.map Prod.fst := by
  have hNotHandling :
      ∀ i < threads, (p.runners i).isHandling = false := by
    intro i hThread
    rw [hAlone.runners i hThread]
    rfl
  cases next_of_step hStep with
  | libtorrent _ _ _ => exact ⟨rfl, rfl⟩
  | save hEnding _ _ _ =>
      rw [hEnding]
      exact ⟨rfl, rfl⟩
  | saveSession _ _ _ => exact ⟨rfl, rfl⟩
  | signal hThread hRunner
  | take hThread hRunner _
  | outOfWork hThread hRunner _
  | leave hThread hRunner _ =>
      cases (hAlone.runners _ hThread).symm.trans hRunner
  | drop hThread hKind _ =>
      exact
        absurd (hAlone.runners _ hThread)
          (Action.ne_returned_of_runner hKind)
  | opened hThread hRunner
  | closed hThread hRunner
  | done hThread hRunner _ =>
      cases (hNotHandling _ hThread).symm.trans hRunner
  | loop hKind _ =>
      exact
        absurd hAlone.shthLoader
          (Action.ne_finished_of_loader hKind)
  | test hLoader
  | scanned hLoader
  | stop hLoader =>
      cases hAlone.shthLoader.symm.trans hLoader
  | callerTest hLoader
  | callerClosed hLoader
  | callerPassed hLoader =>
      cases hAlone.callerLoader.symm.trans hLoader
  | started hLoader =>
      cases hAlone.ctxStartLoader.symm.trans hLoader
  | abort hNext _
  | waited _ hNext _
  | destroyIoc _ hNext
  | releaseCaller _ hNext
  | releaseCtx _ hNext => cases hTodo.symm.trans hNext

/- Behind the beginning of `end` its steps are left. -/
theorem ofEnd_of_exec
    {finish : Program}
    {later : List ProgramEvent}
    {name : ThreadName}
    (hSignalled : p.Signalled)
    (hOrdered : p.Ordered threads)
    (hEnding : p.ending.map Prod.fst = some name)
    (hLater :
      Run.exec (step config threads) p later =
        some finish) :
    (∀ event ∈ later, event.ofEnd = true) ∧
      finish.ending.map Prod.fst = some name ∧
        finish.Alone threads := by
  induction later generalizing p with
  | nil =>
      cases hLater
      rcases Option.map_eq_some_iff.mp hEnding with
        ⟨⟨other, own⟩, hSome, _⟩
      have hTodo := (hOrdered.ending other own hSome).2
      exact
        ⟨fun _ hIn => absurd hIn List.not_mem_nil, hEnding,
          alone_of_todo hSignalled hOrdered hTodo⟩
  | cons event later hRest =>
      rcases Option.bind_eq_some_iff.mp hLater with
        ⟨next, hStep, hMore⟩
      rcases Option.map_eq_some_iff.mp hEnding with
        ⟨⟨other, own⟩, hSome, _⟩
      have hTodo := (hOrdered.ending other own hSome).2
      have hAlone := alone_of_todo hSignalled hOrdered hTodo
      rcases ofEnd_of_alone hAlone hTodo hStep with
        ⟨hEvent, hSame⟩
      rcases hRest (signalled_step hSignalled hStep)
          (ordered_step hOrdered hStep)
          (hSame.trans hEnding) hMore with
        ⟨hEvents, hFinish⟩
      refine ⟨?_, hFinish⟩
      intro other hIn
      rcases List.mem_cons.mp hIn with rfl | hIn
      · exact hEvent
      · exact hEvents other hIn

/- The invariants hold in every state that is reached. -/
theorem invariants_of_exec
    {values : SessionValues}
    {files : FileSystem}
    {events : List ProgramEvent}
    (hExec :
      Run.exec (step config threads)
          (init threads values files) events =
        some p) :
    p.Signalled ∧ p.Ordered threads :=
  ⟨Run.invariant
      (fun _ _ _ hSignalled hStep =>
        signalled_step hSignalled hStep)
      (signalled_init values files) hExec,
    Run.invariant
      (fun _ _ _ hOrdered hStep =>
        ordered_step hOrdered hStep)
      (ordered_init values files) hExec⟩

/-
  However the threads interleave, `end` is run by the thread
  of `main`, behind a signal and behind the end of every
  other thread: no handler is left, none is in
  `drop_torrent`, no loop is running and no session is
  alive. From there on only `end` and `libtorrent` take
  steps, and `end` is not run a second time.
-/
theorem end_runs_alone
    (config : Config)
    (threads : Nat)
    (values : SessionValues)
    (files : FileSystem)
    (events : List ProgramEvent)
    (p : Program)
    (hExec :
      Run.exec (step config threads)
          (init threads values files) events =
        some p)
    (name : ThreadName)
    (own : Local)
    (hEnding : p.ending = some (name, own)) :
    name = .runner 0 ∧
      p.Alone threads ∧
      ∀ later finish,
        Run.exec (step config threads) p later =
            some finish →
          (∀ event ∈ later, event.ofEnd = true) ∧
            finish.ending.map Prod.fst = some name ∧
              finish.Alone threads := by
  rcases invariants_of_exec hExec with
    ⟨hSignalled, hOrdered⟩
  rcases hOrdered.ending name own hEnding with
    ⟨hName, hTodo⟩
  refine
    ⟨hName, alone_of_todo hSignalled hOrdered hTodo, ?_⟩
  intro later finish hLater
  apply ofEnd_of_exec hSignalled hOrdered _ hLater
  rw [hEnding]
  rfl

/- A signal, and the shutdown up to `end`. -/
def shutdown : List ProgramEvent :=
  [.libtorrent (.add zeroHash), .signal 0, .test, .stop,
    .leave 1, .leave 0, .callerTest, .started,
    .main false, .main false, .main false, .main false,
    .main false, .main false, .main false, .main false]

theorem end_runs_alone_two_threads :
    ∃ p,
      Run.exec (step plainConfig 2)
          (init 2 ⟨[], [], 0, 0⟩ fun _ => none) shutdown =
        some p ∧
      p.ending.isSome = true ∧
      ∀ later finish,
        Run.exec (step plainConfig 2) p later = some finish →
          ∀ event ∈ later, event.ofEnd = true := by
  refine ⟨_, rfl, rfl, ?_⟩
  intro later finish hLater
  exact
    ((end_runs_alone plainConfig 2 ⟨[], [], 0, 0⟩
      (fun _ => none) shutdown _ rfl (.runner 0)
      ⟨.loop, none⟩ rfl).2.2 later finish hLater).1

end Program

end Kedge

------------------------------------------------------------
-- One Session Thread
------------------------------------------------------------

namespace Kedge

open Sheath

/- The step of the sheath that an event is. -/
def ProgramEvent.action? : ProgramEvent → Option Action
  | .libtorrent action => some action
  | .drop _ action => some action
  | .loop action => some action
  | .save action => some action
  | _ => none

theorem ShthLoader.batch_after
    (batch : Option (List Alert)) :
    (ShthLoader.after batch).batch = batch := by
  cases batch <;> rfl

namespace Program

variable {config : Config}
variable {threads : Nat}
variable {p : Program}

theorem system_of_ending_eq_none
    (hNone : p.ending = none) :
    p.system =
      p.shared.seenBy ⟨.loop, p.shthLoader.batch⟩ := by
  unfold system own
  rw [hNone]

/- `shth_loader` is joined before `end` begins. -/
theorem Ordered.ending_eq_none
    (hOrdered : p.Ordered threads)
    (hLoader : p.shthLoader ≠ .finished) :
    p.ending = none := by
  cases hEnding : p.ending with
  | none => rfl
  | some ender =>
      have hTodo := (hOrdered.ending ender.1 ender.2 hEnding).2
      refine absurd ?_ hLoader
      apply hOrdered.done .joinShthLoader (by simp [tasks])
      rw [hTodo]
      exact List.not_mem_nil

/- A step that leaves what the threads have under way. -/
theorem exec_of_shared
    {s : System}
    {action : Action}
    (hStep : p.system.step config action = some s)
    (hOwn : s.own = p.system.own) :
    Run.exec (System.step config) p.system [action] =
      some (s.shared.seenBy p.own) := by
  have hSame : p.own = s.own := hOwn.symm
  rw [Run.exec_cons, hStep, hSame]
  rfl

/- A session is released, and the sheath is not. -/
theorem system_release_owner
    (hOrdered : p.Ordered threads)
    (hIoc : Task.destroyIoc ∈ p.todo)
    (name : ThreadName) :
    (release { p with owners := p.owners - 1 }
      name).system = p.system := by
  have hHolds :=
    hOrdered.holdsCtx (List.ne_nil_of_mem hIoc)
  rw [release_of_holdsCtx (by exact hHolds)]
  rfl

/- A step of a thread is a step of the sheath, or none. -/
theorem system_of_step
    {next : Program}
    {event : ProgramEvent}
    (hOrdered : p.Ordered threads)
    (hStep : p.step config threads event = some next) :
    Run.exec (System.step config) p.system
        event.action?.toList =
      some next.system := by
  cases next_of_step hStep with
  | libtorrent hKind _ hSheath =>
      exact
        exec_of_shared hSheath
          (System.own_of_libtorrent hKind hSheath).1
  | drop _ hKind hSheath =>
      exact
        exec_of_shared hSheath
          (System.own_of_runner hKind hSheath).1
  | closed hThread hRunner =>
      have hIoc :=
        hOrdered.destroyIoc_of_handling hThread hRunner
      exact
        congrArg some
          (system_release_owner hOrdered hIoc _).symm
  | callerClosed hLoader =>
      have hIoc := hOrdered.destroyIoc_of_passing hLoader
      exact
        congrArg some
          (system_release_owner hOrdered hIoc _).symm
  | test hLoader =>
      have hNone :=
        hOrdered.ending_eq_none (by simp [hLoader])
      rw [system_of_ending_eq_none hNone,
        system_of_ending_eq_none (by exact hNone), hLoader]
      cases p.quit <;> rfl
  | @loop action s hKind hSheath =>
      have hNone :=
        hOrdered.ending_eq_none
          (Action.ne_finished_of_loader hKind)
      have hThread : s.thread = .loop :=
        (System.thread_of_loop hKind hSheath).1
      rw [system_of_ending_eq_none hNone,
        system_of_ending_eq_none (by exact hNone)]
      dsimp only [ProgramEvent.action?]
      rw [Option.toList_some, Run.exec_cons, hSheath,
        ShthLoader.batch_after, ← hThread]
      rfl
  | scanned hLoader =>
      have hNone :=
        hOrdered.ending_eq_none (by simp [hLoader])
      rw [system_of_ending_eq_none hNone,
        system_of_ending_eq_none (by exact hNone), hLoader]
      rfl
  | stop hLoader =>
      have hNone :=
        hOrdered.ending_eq_none (by simp [hLoader])
      rw [system_of_ending_eq_none hNone,
        system_of_ending_eq_none (by exact hNone), hLoader]
      rfl
  | destroyIoc _ hTodo
  | releaseCaller _ hTodo =>
      have hHolds := hOrdered.holdsCtx (by simp [hTodo])
      rw [release_of_holdsCtx (by exact hHolds)]
      rfl
  | releaseCtx hMain hTodo =>
      rw [hOrdered.release_eq_ending hTodo]
      have hRest :=
        hOrdered.rest_eq hTodo (releaseCtx_suffix threads)
      have hFinished : p.shthLoader = .finished :=
        hOrdered.done .joinShthLoader (by simp [tasks])
          (by simp [hTodo, hRest])
      have hNone : p.ending = none := by
        cases hEnding : p.ending with
        | none => rfl
        | some ender =>
            have hEmpty :=
              (hOrdered.ending ender.1 ender.2 hEnding).2
            cases hTodo.symm.trans hEmpty
      rw [system_of_ending_eq_none hNone, hFinished]
      rfl
  | @save action name own' s hEnding _ _ hSheath =>
      have hSystem : p.system = p.shared.seenBy own' := by
        unfold system own
        rw [hEnding]
      rw [hSystem]
      dsimp only [ProgramEvent.action?]
      rw [Option.toList_some, Run.exec_cons, hSheath]
      rfl
  | _ => rfl

theorem step_system
    {next : Program}
    {event : ProgramEvent}
    {action : Action}
    (hOrdered : p.Ordered threads)
    (hStep : p.step config threads event = some next)
    (hAction : event.action? = some action) :
    p.system.step config action = some next.system := by
  have hExec := system_of_step hOrdered hStep
  rw [hAction, Option.toList_some, Run.exec_cons] at hExec
  rcases Option.bind_eq_some_iff.mp hExec with
    ⟨s, hNext, hSame⟩
  rw [hNext]
  exact hSame

theorem system_eq_of_step
    {next : Program}
    {event : ProgramEvent}
    (hOrdered : p.Ordered threads)
    (hStep : p.step config threads event = some next)
    (hAction : event.action? = none) :
    next.system = p.system := by
  have hExec := system_of_step hOrdered hStep
  rw [hAction] at hExec
  exact (Option.some.inj hExec).symm

/- The steps of the sheath in a run of the program. -/
theorem exec_system
    {values : SessionValues}
    {files : FileSystem}
    {events : List ProgramEvent}
    (hExec :
      Run.exec (step config threads)
          (init threads values files) events =
        some p) :
    Run.exec (System.step config) (System.init values files)
        (events.filterMap ProgramEvent.action?) =
      some p.system := by
  have hImage :
      ∀ (q : Program) (event : ProgramEvent) (next : Program),
        q.Ordered threads →
          q.step config threads event = some next →
            Run.exec (System.step config) q.system
                event.action?.toList =
              some next.system :=
    fun _ _ _ hOrdered hStep => system_of_step hOrdered hStep
  have hRun :
      Run.exec (System.step config)
          (init threads values files).system
          (events.filterMap ProgramEvent.action?) =
        some p.system :=
    Run.exec_filterMap_of_invariant
      (fun _ _ _ hOrdered hStep => ordered_step hOrdered hStep)
      hImage (ordered_init values files) hExec
  exact hRun

/-
  However the threads interleave, the sheath is run as by
  one session thread: its steps in a run of the program are,
  in their order, a run of the sheath in which `shth_loader`
  and `~sheath` are the same thread. The two are never in
  `pop_alerts` at once.
-/
theorem one_session_thread
    (config : Config)
    (threads : Nat)
    (values : SessionValues)
    (files : FileSystem)
    (events : List ProgramEvent)
    (p : Program)
    (hExec :
      Run.exec (step config threads)
          (init threads values files) events =
        some p) :
    Run.exec (System.step config) (System.init values files)
        (events.filterMap ProgramEvent.action?) =
      some p.system ∧
      (p.ending = none ∨ p.shthLoader.batch = none) := by
  refine ⟨exec_system hExec, ?_⟩
  by_cases hFinished : p.shthLoader = .finished
  · right
    rw [hFinished]
    rfl
  · left
    exact
      (invariants_of_exec hExec).2.ending_eq_none hFinished

theorem one_session_thread_two_threads :
    ∃ p,
      Run.exec (step plainConfig 2)
          (init 2 ⟨[], [], 0, 0⟩ fun _ => none) shutdown =
        some p ∧
      Run.exec (System.step plainConfig) emptySystem
          [.add zeroHash] =
        some p.system :=
  ⟨_, rfl,
    (one_session_thread plainConfig 2 ⟨[], [], 0, 0⟩
      (fun _ => none) shutdown _ rfl).1⟩

end Program

end Kedge
