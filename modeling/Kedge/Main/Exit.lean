import Kedge.Main.Order
import Kedge.Sheath.Restart
import Kedge.Sheath.Shutdown

/-
  The end of the program behind a signal.

  What the threads still have to do is bounded: each has a
  rank, and `end` has the backlog of the sheath. Only new
  handlers, alerts that `libtorrent` posts on its own and
  torrents that need saving add to it. Some thread can
  always go on, so that the program comes to its end unless
  `closeWS` aborts it. What it then leaves on the disk is
  what the sheath has saved.

  Main declarations:
    * `Program.rank`
    * `Program.rank_step`
    * `Program.exists_serving`
    * `Program.clean_exit_keeps_answers`
    * `Program.ends_after_signal`
-/

------------------------------------------------------------
-- What a Clean Exit Leaves
------------------------------------------------------------

namespace Kedge

open Sheath

namespace Program

/- `end` has returned, with the files as the sheath left. -/
structure Left
    (config : Config)
    (p : Program)
    (left : FileSystem) : Prop where
  returned : p.own.thread = .returned
  ending : p.ending.isSome = true
  files :
    ∃ out write,
      left =
        (saveSession config.stream p.shared.files
          config.dirConf out write).1

variable {config : Config}
variable {threads : Nat}
variable {p : Program}

theorem left_release
    (p : Program)
    (name : ThreadName) :
    (p.release name).left = p.left := by
  rcases exists_release p name with ⟨ending, hSame⟩
  rw [hSame]

/- Behind `end` no step is left. -/
theorem left_eq_none_of_step
    {next : Program}
    {event : ProgramEvent}
    (hSignalled : p.Signalled)
    (hOrdered : p.Ordered threads)
    (hEnding : p.left.isSome = true → p.ending.isSome = true)
    (hStep : p.step config threads event = some next) :
    p.left = none := by
  cases hLeft : p.left with
  | none => rfl
  | some left =>
      have hSome := hEnding (by rw [hLeft]; rfl)
      rcases Option.isSome_iff_exists.mp hSome with
        ⟨⟨name, own⟩, hOwn⟩
      have hTodo := (hOrdered.ending name own hOwn).2
      have hAlone := alone_of_todo hSignalled hOrdered hTodo
      have hEvent := (ofEnd_of_alone hAlone hTodo hStep).1
      cases next_of_step hStep with
      | libtorrent _ hNone _
      | save _ hNone _ _
      | saveSession _ hNone _ =>
          cases hLeft.symm.trans hNone
      | _ => cases hEvent

theorem left_step
    {next : Program}
    {event : ProgramEvent}
    (hSignalled : p.Signalled)
    (hOrdered : p.Ordered threads)
    (hLeft : ∀ left, p.left = some left → p.Left config left)
    (hStep : p.step config threads event = some next) :
    ∀ left, next.left = some left →
      next.Left config left := by
  have hNone : p.left = none := by
    apply left_eq_none_of_step hSignalled hOrdered _ hStep
    intro hSome
    rcases Option.isSome_iff_exists.mp hSome with
      ⟨left, hLeft'⟩
    exact (hLeft left hLeft').ending
  intro left hNext
  cases next_of_step hStep with
  | @saveSession out write name own hEnding _ hReturned =>
      cases hNext
      refine ⟨?_, ?_, out, write, rfl⟩
      · unfold Program.own
        dsimp only
        rw [hEnding]
        exact hReturned
      · dsimp only
        rw [hEnding]
        rfl
  | closed _ _
  | callerClosed _
  | destroyIoc _ _
  | releaseCaller _ _
  | releaseCtx _ _ =>
      rw [left_release] at hNext
      cases hNone.symm.trans hNext
  | _ => cases hNone.symm.trans hNext

/-
  `end` begins with `save_all_resume`, with no alerts that
  are still to be handled.
-/
def Begun (p : Program) : Prop :=
  ∀ name own, p.ending = some (name, own) →
    own.thread = .loop → own.batch = none

theorem Begun.release
    (hBegun : p.Begun)
    (name : ThreadName) :
    (p.release name).Begun := by
  unfold Program.release
  split
  · exact hBegun
  · intro other own hEnding _
    cases hEnding
    rfl

theorem begun_step
    {next : Program}
    {event : ProgramEvent}
    (hBegun : p.Begun)
    (hStep : p.step config threads event = some next) :
    next.Begun := by
  cases next_of_step hStep with
  | closed _ _
  | callerClosed _
  | destroyIoc _ _
  | releaseCaller _ _
  | releaseCtx _ _ =>
      apply Begun.release
      exact hBegun
  | @save action name own s hEnding _ hKind hSheath =>
      intro other own' hNext hLoop
      cases hNext
      have hBatch := hBegun name own hEnding
      change s.thread = .loop at hLoop
      change s.batch = none
      cases System.next_of_step hSheath with
      | handle hSome =>
          cases (hBatch hLoop).symm.trans hSome
      | popDone _ => rfl
      | waitTimeout => exact hBatch hLoop
      | waitAlert hThread _ =>
          cases hThread.symm.trans hLoop
      | saveNext _ _ =>
          unfold System.saveNext at hLoop
          dsimp only at hLoop
          split at hLoop <;> cases hLoop
      | saveAll _ _
      | saveLoopDone _ _
      | saveReturn _ _ _ => cases hLoop
      | _ => cases hKind
  | _ => exact hBegun

/- What holds in every state of every run. -/
structure Invariants
    (config : Config)
    (threads : Nat)
    (p : Program) : Prop where
  signalled : p.Signalled
  ordered : p.Ordered threads
  left : ∀ left, p.left = some left → p.Left config left
  begun : p.Begun
  accounted : p.system.Accounted config

theorem invariants_init
    (values : SessionValues)
    (files : FileSystem) :
    (init threads values files).Invariants config threads where
  signalled := signalled_init values files
  ordered := ordered_init values files
  left := by intro left hLeft; cases hLeft
  begun := by intro name own hEnding; cases hEnding
  accounted := System.accounted_init config values files

theorem invariants_step
    {next : Program}
    {event : ProgramEvent}
    (hInvariants : p.Invariants config threads)
    (hStep : p.step config threads event = some next) :
    next.Invariants config threads where
  signalled := signalled_step hInvariants.signalled hStep
  ordered := ordered_step hInvariants.ordered hStep
  left :=
    left_step hInvariants.signalled hInvariants.ordered
      hInvariants.left hStep
  begun := begun_step hInvariants.begun hStep
  accounted :=
    Run.invariant
      (fun _ _ _ hAccounted hNext =>
        System.accounted_step hAccounted hNext)
      hInvariants.accounted
      (system_of_step hInvariants.ordered hStep)

theorem all_invariants_of_exec
    {values : SessionValues}
    {files : FileSystem}
    {events : List ProgramEvent}
    (hExec :
      Run.exec (step config threads)
          (init threads values files) events =
        some p) :
    p.Invariants config threads :=
  Run.invariant
    (fun _ _ _ hInvariants hStep =>
      invariants_step hInvariants hStep)
    (invariants_init values files) hExec

/-
  The program has come to its end in a run that was not
  aborted. Then every request to save a torrent was answered
  and every answer handled, and the saved resume data are
  those of the successful answers. For a torrent that was
  not dropped, and whose saves were complete and within the
  limit of the reader, the disk holds for the next start the
  last resume data that `libtorrent` has given in this run
  or, if it gave none, what was there at the start.
-/
theorem clean_exit_keeps_answers
    (lt : Libtorrent)
    (config : Config)
    (hCodec : Codec lt config)
    (threads : Nat)
    (values : SessionValues)
    (files : FileSystem)
    (events : List ProgramEvent)
    (p : Program)
    (hExec :
      Run.exec (step config threads)
          (init threads values files) events =
        some p)
    (left : FileSystem)
    (hLeft : p.left = some left) :
    p.system.unhandled = 0 ∧
      p.shared.saves =
        p.shared.successes.map (saveCall config) ∧
      ∀ ih,
        (∀ event ∈
            Run.trace (System.step config) System.observed
              (System.init values files)
              (events.filterMap ProgramEvent.action?),
          event.Preserves config.writeResumeDataBuf ih) →
          kept lt config left ih =
            (p.shared.successes.filter
              (·.infoHash = ih)).getLast?.or
                (kept lt config files ih) := by
  have hInvariants := all_invariants_of_exec hExec
  have hEnd := hInvariants.left left hLeft
  have hAccounted := hInvariants.accounted
  have hReturned : p.system.thread = .returned :=
    hEnd.returned
  refine
    ⟨?_, hAccounted.saves_of_returned hReturned, ?_⟩
  · have hCounter := hAccounted.counter
    have hNone := (hAccounted.returned hReturned).2
    omega
  · intro ih hPreserves
    rcases hEnd.files with ⟨out, write, rfl⟩
    rw [kept_saveSession]
    exact
      Process.kept_of_stop hCodec (exec_system hExec)
        hReturned hPreserves

/- `end` saves a torrent and returns. -/
def saveAndLeave : List ProgramEvent :=
  [.save (.saveAll [firstTorrent]), .save .saveNext,
    .save .saveLoopDone,
    .libtorrent (.answer 0 (.saved [1])), .save .waitAlert,
    .save (.handle plainQuery (.stored 23)), .save .popDone,
    .save .saveReturn, .saveSession [100, 101] .openFailed]

theorem clean_exit_keeps_answers_one_torrent :
    ∃ p left,
      Run.exec (step countedConfig 2)
          (init 2 ⟨[], [], 0, 0⟩ fun _ => none)
          (shutdown ++ saveAndLeave) =
        some p ∧
      p.left = some left ∧
      kept countedLibtorrent countedConfig left zeroHash =
        some ⟨zeroHash, [1]⟩ := by
  have hRun :
      ∃ p left,
        Run.exec (step countedConfig 2)
            (init 2 ⟨[], [], 0, 0⟩ fun _ => none)
            (shutdown ++ saveAndLeave) =
          some p ∧
        p.left = some left ∧
        p.shared.successes = [⟨zeroHash, [1]⟩] :=
    ⟨_, _, rfl, rfl, rfl⟩
  rcases hRun with ⟨p, left, hExec, hLeft, hSuccesses⟩
  have hTrace :
      Run.trace (System.step countedConfig) System.observed
          (System.init ⟨[], [], 0, 0⟩ fun _ => none)
          ((shutdown ++ saveAndLeave).filterMap
            ProgramEvent.action?) =
        [.saved ⟨zeroHash, [1]⟩ (.stored 23)] := rfl
  refine ⟨p, left, hExec, hLeft, ?_⟩
  have hKept :=
    (clean_exit_keeps_answers countedLibtorrent countedConfig
      codec_counted 2 ⟨[], [], 0, 0⟩ (fun _ => none)
      (shutdown ++ saveAndLeave) p hExec left hLeft).2.2
      zeroHash
  rw [hTrace, hSuccesses] at hKept
  apply hKept
  intro event hIn
  cases List.mem_singleton.mp hIn
  intro _
  exact ⟨23, rfl, by decide, by decide⟩

end Program

end Kedge

------------------------------------------------------------
-- What the Threads Still Have to Do
------------------------------------------------------------

namespace Kedge

open Sheath

/- What is left of a handler in `drop_torrent`. -/
def Sheath.Drop.effort : Drop → Nat
  | .idle => 2
  | .found _ _ => 3
  | .deleted _ _ => 4

/- A handler may still call `drop_torrent`. -/
def Runner.effort : Runner → Drop → Nat
  | .polling, _ => 1
  | .handling false, _ => 5
  | .handling true, drop => Drop.effort drop
  | .returned, _ => 0

def ShthLoader.effort : ShthLoader → Nat
  | .testing => 2
  | .posting => 5
  | .popping _ => 3
  | .scanning => 3
  | .stopping => 1
  | .finished => 0

def CallerLoader.effort : CallerLoader → Nat
  | .testing => 1
  | .passing => 2
  | .finished => 0

/- The steps by which the program comes to its end. -/
def ProgramEvent.drains : ProgramEvent → Bool
  | .libtorrent action => action.drains
  | .drop _ _ => true
  | .done _ => true
  | .leave _ => true
  | .test => true
  | .loop _ => true
  | .scanned => true
  | .stop => true
  | .callerTest => true
  | .callerPassed => true
  | .started => true
  | .main expired => !expired
  | .save (.saveAll _) => true
  | .save action => action.drains
  | .saveSession _ _ => true
  | _ => false

/-
  What an event brings to do, where `count` torrents are
  expected to need saving.
-/
def ProgramEvent.brings
    (count : Nat) : ProgramEvent → Nat
  | .libtorrent action => action.price
  | .take _ => 4
  | .save (.saveAll handles) => 6 * (handles.length - count)
  | _ => 0

namespace Program

/- The steps of `end` beside the backlog of the sheath. -/
def endEffort (count : Nat) (p : Program) : Nat :=
  if p.left.isSome then 0
  else if p.system.thread = .loop then 6 * count + 4
  else 1

def runnersEffort (threads : Nat) (p : Program) : Nat :=
  (Finset.range threads).sum fun i =>
    (p.runners i).effort (p.shared.drops i)

/- What the threads have to do beside code of the sheath. -/
def threadsEffort (threads : Nat) (p : Program) : Nat :=
  p.runnersEffort threads + p.shthLoader.effort +
    p.callerLoader.effort +
    (if p.ctxStartLoader then 1 else 0) + p.todo.length

/- What the threads and `end` still have to do. -/
def rank (threads count : Nat) (p : Program) : Nat :=
  p.system.backlog + p.threadsEffort threads +
    p.endEffort count

end Program

end Kedge

------------------------------------------------------------
-- Every Step Lowers the Rank
------------------------------------------------------------

namespace Kedge

open Sheath

namespace Program

variable {config : Config}
variable {threads count : Nat}
variable {p next : Program}
variable {event : ProgramEvent}

theorem runnersEffort_congr
    (hRunners : next.runners = p.runners)
    (hDrops : next.shared.drops = p.shared.drops) :
    next.runnersEffort threads = p.runnersEffort threads := by
  unfold runnersEffort
  rw [hRunners, hDrops]

/- One of the threads in `ioc.run()` goes on. -/
theorem runnersEffort_of_runner
    {i : Nat}
    (hThread : i < threads)
    (hRunners : ∀ j, j ≠ i → next.runners j = p.runners j)
    (hDrops :
      ∀ j, j ≠ i →
        next.shared.drops j = p.shared.drops j) :
    next.runnersEffort threads +
        (p.runners i).effort (p.shared.drops i) =
      p.runnersEffort threads +
        (next.runners i).effort (next.shared.drops i) := by
  apply Run.sum_rank_of_part hThread
  intro j hOther
  rw [hRunners j hOther, hDrops j hOther]

theorem runnersEffort_update
    {i : Nat}
    (p : Program)
    (runner : Runner)
    (hThread : i < threads) :
    runnersEffort threads
          { p with
            runners := Function.update p.runners i runner } +
        (p.runners i).effort (p.shared.drops i) =
      p.runnersEffort threads +
        runner.effort (p.shared.drops i) := by
  have hSame :
      (Function.update p.runners i runner i).effort
          (p.shared.drops i) =
        runner.effort (p.shared.drops i) := by
    rw [Function.update_self]
  rw [← hSame]
  exact
    runnersEffort_of_runner hThread
      (fun _ hOther => Function.update_of_ne hOther _ _)
      (fun _ _ => rfl)

/- A step of `drop_torrent` leaves less of it to do. -/
theorem effort_of_runner
    {s next : System}
    {action : Action}
    {i : Nat}
    {runner : Runner}
    (hKind : action.ofRunner i runner = true)
    (hStep : s.step config action = some next) :
    (next.drops i).effort + 1 ≤
      runner.effort (s.drops i) := by
  cases Action.ofRunner_cases hKind with
  | delete =>
      cases System.next_of_step hStep with
      | dropDelete _ =>
          simp [System.dropDelete, Drop.effort, Runner.effort]
  | find =>
      cases System.next_of_step hStep with
      | dropFound hDrop _
      | dropMissed hDrop =>
          simp [Drop.effort, Runner.effort, hDrop]
  | remove =>
      cases System.next_of_step hStep with
      | dropRemove hDrop =>
          simp [System.dropRemove, Drop.effort, Runner.effort,
            hDrop]

/- It brings nothing to do. -/
theorem price_of_runner
    {action : Action}
    {i : Nat}
    {runner : Runner}
    (hKind : action.ofRunner i runner = true) :
    action.price = 0 := by
  cases Action.ofRunner_cases hKind <;> rfl

/- What `doLoop` has left is paid for by what it handles. -/
theorem effort_of_loop
    {s next : System}
    {action : Action}
    {loader : ShthLoader}
    (hKind : action.ofShthLoader loader = true)
    (hStep : s.step config action = some next) :
    (ShthLoader.after next.batch).effort + 1 +
        action.price ≤
      loader.effort + (if action.drains then 1 else 0) := by
  cases Action.ofShthLoader_cases hKind with
  | pop | handle | popDone =>
      cases System.next_of_step hStep
      exact Nat.le_refl _

/- `save_all_resume` does not go back to its beginning. -/
theorem loop_iff_of_end
    {s next : System}
    {action : Action}
    (hKind : action.ofEnd = true)
    (hLater : ∀ handles, action ≠ .saveAll handles)
    (hStep : s.step config action = some next) :
    next.thread = .loop ↔ s.thread = .loop := by
  cases System.next_of_step hStep with
  | saveAll _ _ => exact absurd rfl (hLater _)
  | saveNext hThread _ =>
      unfold System.saveNext
      dsimp only
      split <;> simp [System.popAlerts, hThread]
  | saveLoopDone hThread _
  | saveReturn hThread _ _ => simp [hThread]
  | handle _
  | popDone _
  | waitTimeout
  | waitAlert _ _ => exact Iff.rfl
  | _ => cases hKind

/- The steps of `end`, and of the sheath in it. -/
theorem effort_of_end
    {s next : System}
    {action : Action}
    (count : Nat)
    (hKind : action.ofEnd = true)
    (hStep : s.step config action = some next) :
    next.backlog +
        (if next.thread = .loop then 6 * count + 4 else 1) +
        (if (ProgramEvent.save action).drains then 1 else 0) ≤
      s.backlog +
        (if s.thread = .loop then 6 * count + 4 else 1) +
        (ProgramEvent.save action).brings count := by
  have hBacklog := System.backlog_le_of_step hStep
  by_cases hFirst : ∃ handles, action = .saveAll handles
  · rcases hFirst with ⟨handles, rfl⟩
    cases System.next_of_step hStep with
    | saveAll hThread _ =>
        simp only [Action.drains, Action.price,
          Bool.false_eq_true, if_false] at hBacklog
        simp only [ProgramEvent.drains, ProgramEvent.brings,
          hThread, if_true, reduceCtorEq, if_false]
        omega
  · have hLater : ∀ handles, action ≠ .saveAll handles :=
      fun handles hSame => hFirst ⟨handles, hSame⟩
    have hLoop := loop_iff_of_end hKind hLater hStep
    have hPrice :
        action.price = 0 ∧
          (ProgramEvent.save action).drains =
              action.drains ∧
            (ProgramEvent.save action).brings count = 0 := by
      cases action with
      | saveAll handles => exact absurd rfl (hLater handles)
      | pop | post _ => cases hKind
      | _ => exact ⟨rfl, rfl, rfl⟩
    rw [hPrice.1] at hBacklog
    rw [hPrice.2.1, hPrice.2.2]
    simp only [hLoop]
    omega

/- A release leaves what is to do. -/
theorem threadsEffort_release
    (p : Program)
    (name : ThreadName) :
    (p.release name).threadsEffort threads =
      p.threadsEffort threads := by
  rcases exists_release p name with ⟨ending, hSame⟩
  rw [hSame]
  rfl

/- What a step changes beside the steps of `end`. -/
theorem rank_of_thread
    {work gain work' gain' : Nat}
    (count : Nat)
    (hBacklog :
      next.system.backlog + work ≤ p.system.backlog + gain)
    (hThread : next.system.thread = p.system.thread)
    (hLeft : next.left = p.left)
    (hThreads :
      next.threadsEffort threads + work' ≤
        p.threadsEffort threads + gain') :
    next.rank threads count + (work + work') ≤
      p.rank threads count + (gain + gain') := by
  unfold rank endEffort
  rw [hThread, hLeft]
  omega

/- The same for a step that is none of the sheath. -/
theorem rank_of_system_eq
    {work gain : Nat}
    (hSystem : next.system = p.system)
    (hLeft : next.left = p.left)
    (hThreads :
      next.threadsEffort threads + work ≤
        p.threadsEffort threads + gain) :
    next.rank threads count + work ≤
      p.rank threads count + gain := by
  unfold rank endEffort
  rw [hSystem, hLeft]
  omega

/- The same where `ioc.run()` is left as it is. -/
theorem rank_of_parts
    {work gain : Nat}
    (hSystem : next.system = p.system)
    (hLeft : next.left = p.left)
    (hRunners :
      next.runnersEffort threads = p.runnersEffort threads)
    (hParts :
      next.shthLoader.effort + next.callerLoader.effort +
          (if next.ctxStartLoader then 1 else 0) +
          next.todo.length + work ≤
        p.shthLoader.effort + p.callerLoader.effort +
          (if p.ctxStartLoader then 1 else 0) +
          p.todo.length + gain) :
    next.rank threads count + work ≤
      p.rank threads count + gain := by
  apply rank_of_system_eq hSystem hLeft
  unfold threadsEffort
  omega

theorem threadsEffort_update
    {i : Nat}
    (p : Program)
    (runner : Runner)
    (hThread : i < threads) :
    threadsEffort threads
          { p with
            runners := Function.update p.runners i runner } +
        (p.runners i).effort (p.shared.drops i) =
      p.threadsEffort threads +
        runner.effort (p.shared.drops i) := by
  have hRunners :
      runnersEffort threads
            { p with
              runners :=
                Function.update p.runners i runner } +
          (p.runners i).effort (p.shared.drops i) =
        p.runnersEffort threads +
          runner.effort (p.shared.drops i) :=
    runnersEffort_update p runner hThread
  unfold threadsEffort
  dsimp only
  omega

/- The handlers are where they were in `drop_torrent`. -/
theorem threadsEffort_shared
    {d : Shared}
    (hDrops : d.drops = p.shared.drops) :
    threadsEffort threads { p with shared := d } =
      p.threadsEffort threads := by
  have hRunners :
      runnersEffort threads { p with shared := d } =
        p.runnersEffort threads :=
    runnersEffort_congr rfl hDrops
  unfold threadsEffort
  rw [hRunners]

theorem rank_drop
    {i : Nat}
    {action : Action}
    {s : System}
    (hOrdered : p.Ordered threads)
    (hStep :
      p.step config threads (.drop i action) =
        some
          { p with
            shared := s.shared
            runners :=
              Function.update p.runners i (.handling true) })
    (hThread : i < threads)
    (hKind : action.ofRunner i (p.runners i) = true)
    (hSheath : p.system.step config action = some s) :
    rank threads count
          { p with
            shared := s.shared
            runners :=
              Function.update p.runners i
                (.handling true) } + (0 + 1) ≤
      p.rank threads count + (0 + 0) := by
  have hOwn := System.own_of_runner hKind hSheath
  have hNext := step_system hOrdered hStep rfl
  have hBacklog := System.backlog_le_of_step hNext
  have hPrice := price_of_runner hKind
  have hLess := effort_of_runner hKind hSheath
  have hRunners :
      runnersEffort threads
            { p with
              shared := s.shared
              runners :=
                Function.update p.runners i
                  (.handling true) } +
          (p.runners i).effort (p.shared.drops i) =
        p.runnersEffort threads +
          (Function.update p.runners i (.handling true)
            i).effort (s.drops i) :=
    runnersEffort_of_runner hThread
      (fun _ hOther => Function.update_of_ne hOther _ _)
      hOwn.2
  rw [Function.update_self] at hRunners
  change
    (s.drops i).effort + 1 ≤
      (p.runners i).effort (p.shared.drops i) at hLess
  have hThreads :
      threadsEffort threads
            { p with
              shared := s.shared
              runners :=
                Function.update p.runners i
                  (.handling true) } + 1 ≤
        p.threadsEffort threads + 0 := by
    unfold threadsEffort
    dsimp only
    change _ = _ + (s.drops i).effort at hRunners
    omega
  rw [hPrice] at hBacklog
  exact
    rank_of_thread count (Nat.le_of_add_right_le hBacklog)
      rfl rfl hThreads

/- The same for a step of `end`. -/
theorem rank_of_end
    {work gain : Nat}
    (count : Nat)
    (hOld : p.left = none)
    (hLeft : next.left = none)
    (hThreads :
      next.threadsEffort threads = p.threadsEffort threads)
    (hEnd :
      next.system.backlog +
          (if next.system.thread = .loop then 6 * count + 4
            else 1) + work ≤
        p.system.backlog +
          (if p.system.thread = .loop then 6 * count + 4
            else 1) + gain) :
    next.rank threads count + work ≤
      p.rank threads count + gain := by
  unfold rank endEffort
  rw [hOld, hLeft, hThreads]
  simp only [Option.isSome_none, Bool.false_eq_true,
    if_false]
  omega

/- `main` goes on by one statement. -/
theorem rank_main
    {task : Task}
    {rest : List Task}
    {expired : Bool}
    (hSystem : next.system = p.system)
    (hLeft : next.left = p.left)
    (hTodo : p.todo = task :: rest)
    (hThreads :
      next.threadsEffort threads =
        threadsEffort threads { p with todo := rest }) :
    next.rank threads count +
        (if (ProgramEvent.main expired).drains then 1
          else 0) ≤
      p.rank threads count := by
  have hLess :
      next.threadsEffort threads + 1 ≤
        p.threadsEffort threads + 0 := by
    rw [hThreads]
    unfold threadsEffort
    rw [hTodo]
    exact Nat.le_refl _
  have hRank : next.rank threads count + 1 ≤ _ :=
    rank_of_system_eq hSystem hLeft hLess
  split <;> omega

/-
  Behind a signal, the steps towards the end lower the rank,
  and the others raise it by what they bring at most.
-/
theorem rank_step
    (hOrdered : p.Ordered threads)
    (hQuit : p.quit = true)
    (hStep : p.step config threads event = some next) :
    next.rank threads count +
        (if event.drains then 1 else 0) ≤
      p.rank threads count + event.brings count := by
  have hSystem := system_eq_of_step hOrdered hStep
  cases next_of_step hStep with
  | @libtorrent action s hKind _ hSheath =>
      have hOwn := System.own_of_libtorrent hKind hSheath
      have hBacklog :=
        System.backlog_le_of_step
          (step_system hOrdered hStep rfl)
      have hThreads :
          threadsEffort threads { p with shared := s.shared } +
              0 ≤
            p.threadsEffort threads + 0 :=
        (threadsEffort_shared hOwn.2).le
      exact
        rank_of_thread count hBacklog rfl rfl hThreads
  | drop hThread hKind hSheath =>
      exact rank_drop hOrdered hStep hThread hKind hSheath
  | @loop action s hKind hSheath =>
      have hNext := step_system hOrdered hStep rfl
      have hBacklog := System.backlog_le_of_step hNext
      have hThread := (System.thread_of_loop hKind hNext).1
      have hDrops := (System.thread_of_loop hKind hSheath).2
      have hLess := effort_of_loop hKind hSheath
      have hRunners :
          runnersEffort threads
              { p with
                shared := s.shared
                shthLoader := .after s.batch } =
            p.runnersEffort threads :=
        runnersEffort_congr rfl hDrops
      have hThreads :
          threadsEffort threads
                { p with
                  shared := s.shared
                  shthLoader := .after s.batch } +
              p.shthLoader.effort ≤
            p.threadsEffort threads +
              (ShthLoader.after s.batch).effort := by
        unfold threadsEffort
        rw [hRunners]
        dsimp only
        omega
      have hRank :=
        rank_of_thread count hBacklog hThread rfl
          hThreads
      change _ + 1 ≤ _ + 0
      omega
  | @save action name own s hEnding hNone hKind hSheath =>
      have hNext := step_system hOrdered hStep rfl
      have hEnd := effort_of_end count hKind hNext
      have hDrops := System.drops_of_end hKind hSheath
      have hThreads :
          threadsEffort threads
              { p with
                shared := s.shared
                ending := some (name, s.own) } =
            p.threadsEffort threads :=
        threadsEffort_shared hDrops
      exact rank_of_end count hNone hNone hThreads hEnd
  | @saveSession out write name own hEnding hNone hReturned =>
      have hThread : p.system.thread = .returned := by
        unfold system Program.own
        rw [hEnding]
        exact hReturned
      unfold rank endEffort
      rw [hSystem rfl, hThread, hNone]
      exact Nat.le_refl _
  | @take i hThread hRunner _ =>
      refine rank_of_system_eq (hSystem rfl) rfl ?_
      have hSum :=
        threadsEffort_update p (.handling false) hThread
      rw [hRunner] at hSum
      change _ + 1 = _ + 5 at hSum
      change _ + 0 ≤ _ + 4
      omega
  | @done i hThread hRunner hDrop =>
      refine rank_of_system_eq (hSystem rfl) rfl ?_
      have hSum :=
        threadsEffort_update p .polling hThread
      have hEffort :
          2 ≤ (p.runners i).effort (p.shared.drops i) := by
        rw [hDrop]
        cases hHandling : p.runners i with
        | handling dropped =>
            cases dropped <;>
              simp [Runner.effort, Drop.effort]
        | _ =>
            rw [hHandling] at hRunner
            cases hRunner
      change _ + _ = _ + 1 at hSum
      change _ + 1 ≤ _ + 0
      omega
  | @leave i hThread hRunner _ =>
      refine rank_of_system_eq (hSystem rfl) rfl ?_
      have hSum :=
        threadsEffort_update p .returned hThread
      rw [hRunner] at hSum
      exact hSum.le
  | test hLoader =>
      refine rank_of_parts (hSystem rfl) rfl rfl ?_
      dsimp only
      rw [hQuit, hLoader]
      change 1 + _ + _ + _ + 1 ≤ 2 + _ + _ + _ + 0
      omega
  | scanned hLoader =>
      refine rank_of_parts (hSystem rfl) rfl rfl ?_
      dsimp only
      rw [hLoader]
      change 2 + _ + _ + _ + 1 ≤ 3 + _ + _ + _ + 0
      omega
  | stop hLoader =>
      refine rank_of_parts (hSystem rfl) rfl rfl ?_
      dsimp only
      rw [hLoader]
      change 0 + _ + _ + _ + 1 ≤ 1 + _ + _ + _ + 0
      omega
  | callerTest hLoader =>
      refine rank_of_parts (hSystem rfl) rfl rfl ?_
      dsimp only
      rw [hQuit, hLoader]
      change _ + 0 + _ + _ + 1 ≤ _ + 1 + _ + _ + 0
      omega
  | callerPassed hLoader =>
      refine rank_of_parts (hSystem rfl) rfl rfl ?_
      dsimp only
      rw [hLoader]
      change _ + 1 + _ + _ + 1 ≤ _ + 2 + _ + _ + 0
      omega
  | started hLoader =>
      refine rank_of_parts (hSystem rfl) rfl rfl ?_
      dsimp only
      rw [hLoader]
      change _ + _ + 0 + _ + 1 ≤ _ + _ + 1 + _ + 0
      omega
  | closed _ _
  | callerClosed _ =>
      refine
        rank_of_system_eq (hSystem rfl) (left_release _ _) ?_
      rw [threadsEffort_release]
      exact Nat.le_refl _
  | waited _ hTodo _ =>
      exact rank_main (hSystem rfl) rfl hTodo rfl
  | destroyIoc _ hTodo
  | releaseCaller _ hTodo
  | releaseCtx _ hTodo =>
      exact
        rank_main (hSystem rfl) (left_release _ _) hTodo
          (threadsEffort_release _ _)
  | _ =>
      refine rank_of_system_eq (hSystem rfl) rfl ?_
      exact Nat.le_refl _

end Program

end Kedge

------------------------------------------------------------
-- Some Thread Can Go On
------------------------------------------------------------

namespace Kedge

open Sheath

/-
  The steps towards the end, where `get_torrent_status`
  returns the torrents of these handles.
-/
def ProgramEvent.serves
    (handles : List Handle) : ProgramEvent → Bool
  | .save (.saveAll others) => others = handles
  | event => event.drains

theorem ProgramEvent.drains_of_serves
    {handles : List Handle}
    {event : ProgramEvent}
    (hServes : event.serves handles = true) :
    event.drains = true ∧
      event.brings handles.length = 0 := by
  cases event with
  | save action =>
      cases action with
      | saveAll others =>
          have hSame := of_decide_eq_true hServes
          subst hSame
          exact ⟨rfl, by simp [brings]⟩
      | _ => exact ⟨hServes, rfl⟩
  | libtorrent action =>
      refine ⟨hServes, ?_⟩
      cases action with
      | pop | post _ | saveAll _ => cases hServes
      | _ => rfl
  | take i => cases hServes
  | _ => exact ⟨hServes, rfl⟩

namespace Program

variable {config : Config}
variable {threads : Nat}
variable {p : Program}
variable {handles : List Handle}

/- Some event of the given kind can happen. -/
def Serves
    (config : Config)
    (threads : Nat)
    (handles : List Handle)
    (p : Program) : Prop :=
  ∃ event,
    event.serves handles = true ∧
      (p.act config threads event).isSome = true ∧
        (p.ending = none ∨ event.thread = none)

theorem serves_of_shthLoader
    (hNone : p.ending = none)
    (hLoader : p.shthLoader ≠ .finished) :
    p.Serves config threads handles := by
  cases hAt : p.shthLoader with
  | testing =>
      refine ⟨.test, rfl, ?_, Or.inl hNone⟩
      simp only [act, hAt]
      rfl
  | posting =>
      refine ⟨.loop .pop, rfl, ?_, Or.inl hNone⟩
      simp only [act, hAt]
      rfl
  | popping alerts =>
      cases alerts with
      | nil =>
          refine ⟨.loop .popDone, rfl, ?_, Or.inl hNone⟩
          simp only [act, hAt]
          rfl
      | cons alert rest =>
          refine
            ⟨.loop (.handle plainQuery .openFailed), rfl,
              ?_, Or.inl hNone⟩
          simp only [act, hAt]
          rfl
  | scanning =>
      refine ⟨.scanned, rfl, ?_, Or.inl hNone⟩
      simp only [act, hAt]
      rfl
  | stopping =>
      refine ⟨.stop, rfl, ?_, Or.inl hNone⟩
      simp only [act, hAt]
      rfl
  | finished => exact absurd hAt hLoader

theorem serves_of_callerLoader
    (hNone : p.ending = none)
    (hLoader : p.callerLoader ≠ .finished) :
    p.Serves config threads handles := by
  cases hAt : p.callerLoader with
  | testing =>
      exact
        ⟨.callerTest, rfl,
          Option.isSome_of_eq_some (if_pos hAt), Or.inl hNone⟩
  | passing =>
      exact
        ⟨.callerPassed, rfl,
          Option.isSome_of_eq_some (if_pos hAt), Or.inl hNone⟩
  | finished => exact absurd hAt hLoader

/- A handler comes to its end, and `ioc.run()` returns. -/
theorem serves_of_runner
    {i : Nat}
    (hOrdered : p.Ordered threads)
    (hNone : p.ending = none)
    (hStopped : p.stopped = true)
    (hThread : i < threads)
    (hRunner : p.runners i ≠ .returned) :
    p.Serves config threads handles := by
  cases hAt : p.runners i with
  | returned => exact absurd hAt hRunner
  | polling =>
      exact
        ⟨.leave i, rfl,
          Option.isSome_of_eq_some
            (if_pos ⟨hThread, hStopped, hAt⟩),
          Or.inl hNone⟩
  | handling dropped =>
      cases hDrop : p.shared.drops i with
      | idle =>
          exact
            ⟨.done i, rfl,
              Option.isSome_of_eq_some
                (if_pos ⟨hThread, by rw [hAt]; rfl, hDrop⟩),
              Or.inl hNone⟩
      | deleted ih withData =>
          have hDropped : p.runners i = .handling true :=
            hOrdered.handling_of_drop (by simp [hDrop])
          have hKind :
              (Action.dropFind i).ofRunner i (p.runners i) =
                true := by
            rw [hDropped]
            exact decide_eq_true rfl
          have hStep :
              (p.system.step config (.dropFind i)).isSome =
                true := by
            have hFound :
                p.system.drops i = .deleted ih withData :=
              hDrop
            simp only [System.step, hFound]
            split <;> rfl
          refine
            ⟨.drop i (.dropFind i), rfl, ?_, Or.inl hNone⟩
          simp only [act, hThread, hKind, and_self, if_true,
            Option.isSome_map, hStep]
      | found handle withData =>
          have hDropped : p.runners i = .handling true :=
            hOrdered.handling_of_drop (by simp [hDrop])
          have hKind :
              (Action.dropRemove i).ofRunner i (p.runners i) =
                true := by
            rw [hDropped]
            exact decide_eq_true rfl
          have hStep :
              (p.system.step config (.dropRemove i)).isSome =
                true := by
            have hFound :
                p.system.drops i = .found handle withData :=
              hDrop
            simp only [System.step, hFound]
            rfl
          refine
            ⟨.drop i (.dropRemove i), rfl, ?_, Or.inl hNone⟩
          simp only [act, hThread, hKind, and_self, if_true,
            Option.isSome_map, hStep]

/- Where all threads have ended, `main` goes on. -/
theorem serves_of_main
    {task : Task}
    {rest : List Task}
    (hOrdered : p.Ordered threads)
    (hNone : p.ending = none)
    (hTodo : p.todo = task :: rest)
    (hPositive : 0 < threads)
    (hRunners : ∀ i < threads, p.runners i = .returned)
    (hStart : p.ctxStartLoader = false)
    (hLoader : p.shthLoader = .finished)
    (hCaller : p.callerLoader = .finished) :
    p.Serves config threads handles := by
  have hMain := hRunners 0 hPositive
  have hTask :
      (p.runTask threads rest false task).isSome = true := by
    cases task with
    | joinRunner i =>
        have hIn : Task.joinRunner i ∈ tasks threads := by
          apply hOrdered.todo.subset
          rw [hTodo]
          exact List.mem_cons_self
        have hThread : i < threads := by
          simp [tasks, List.mem_range'_1] at hIn
          omega
        exact
          Option.isSome_of_eq_some
            (if_pos (hRunners i hThread))
    | joinCtxStartLoader =>
        exact
          Option.isSome_of_eq_some
            (if_neg (by simp [hStart]))
    | joinShthLoader =>
        simp only [runTask, hLoader]
        rfl
    | joinCallerLoader =>
        exact Option.isSome_of_eq_some (if_pos hCaller)
    | _ => rfl
  refine ⟨.main false, rfl, ?_, Or.inl hNone⟩
  have hFree : false = true → task = .closeWS :=
    fun hExpired => by cases hExpired
  simp only [act, hTodo]
  rw [if_pos ⟨hMain, hFree⟩]
  exact hTask

/- `end` goes on, or `libtorrent` can answer it. -/
theorem serves_of_ending
    {name : ThreadName}
    {own : Local}
    (hInvariants : p.Invariants config threads)
    (hEnding : p.ending = some (name, own))
    (hLeft : p.left = none) :
    p.Serves config threads handles := by
  have hSystem : p.system = p.shared.seenBy own := by
    unfold system Program.own
    rw [hEnding]
  have hSave :
      ∀ action s,
        action.ofEnd = true →
          p.system.step config action = some s →
            (p.act config threads (.save action)).isSome =
              true := by
    intro action s hKind hStep
    rw [hSystem] at hStep
    simp only [act, hEnding, hLeft, if_pos hKind, hStep]
    rfl
  by_cases hLoop : own.thread = .loop
  · have hBatch :=
      hInvariants.begun name own hEnding hLoop
    have hFirst :
        p.system.step config (.saveAll handles) =
          some
            { p.system with thread := .saving handles 0 } := by
      rw [hSystem]
      exact if_pos ⟨hLoop, hBatch⟩
    exact
      ⟨.save (.saveAll handles), decide_eq_true rfl,
        hSave _ _ rfl hFirst, Or.inr rfl⟩
  by_cases hReturned : own.thread = .returned
  · refine
      ⟨.saveSession [] .openFailed, rfl, ?_, Or.inr rfl⟩
    simp only [act, hEnding, hLeft, if_pos hReturned]
    rfl
  have hSaving : p.system.Saving := by
    rw [hSystem]
    exact ⟨hLoop, hReturned⟩
  rcases System.exists_drain hInvariants.accounted hSaving with
    ⟨action, s, hDrains, hStep⟩
  by_cases hKind : action.ofLibtorrent = true
  · refine ⟨.libtorrent action, hDrains, ?_, Or.inr rfl⟩
    simp only [act, hKind, hLeft, hStep]
    rfl
  · have hEnd : action.ofEnd = true := by
      cases action <;>
        first | rfl | exact absurd rfl hKind | cases hDrains
    refine
      ⟨.save action, ?_, hSave action s hEnd hStep,
        Or.inr rfl⟩
    cases action <;> first | exact hDrains | cases hDrains

/- As long as `end` has not returned, some thread goes on. -/
theorem serves_of_invariants
    (handles : List Handle)
    (hInvariants : p.Invariants config threads)
    (hPositive : 0 < threads)
    (hLeft : p.left = none) :
    p.Serves config threads handles := by
  have hOrdered := hInvariants.ordered
  cases hEnding : p.ending with
  | some ender =>
      rcases ender with ⟨name, own⟩
      exact serves_of_ending hInvariants hEnding hLeft
  | none =>
      by_cases hLoader : p.shthLoader = .finished
      case neg =>
        exact serves_of_shthLoader hEnding hLoader
      by_cases hCaller : p.callerLoader = .finished
      case neg =>
        exact serves_of_callerLoader hEnding hCaller
      cases hStart : p.ctxStartLoader with
      | true =>
          exact
            ⟨.started, rfl,
              Option.isSome_of_eq_some (if_pos hStart),
              Or.inl hEnding⟩
      | false =>
          by_cases hRunners :
              ∀ i < threads, p.runners i = .returned
          · cases hTodo : p.todo with
            | nil =>
                have hEnded := hOrdered.ended hTodo
                rw [hEnding] at hEnded
                cases hEnded
            | cons task rest =>
                exact
                  serves_of_main hOrdered hEnding hTodo
                    hPositive hRunners hStart hLoader hCaller
          · rw [not_forall] at hRunners
            rcases hRunners with ⟨i, hRunner⟩
            rw [Classical.not_imp] at hRunner
            exact
              serves_of_runner hOrdered hEnding
                (hInvariants.signalled.finished hLoader)
                hRunner.1 hRunner.2

/- `closeWS` is the only statement that may abort. -/
theorem aborted_of_drains
    {next : Program}
    {event : ProgramEvent}
    (hDrains : event.drains = true)
    (hStep : p.step config threads event = some next) :
    next.aborted = p.aborted := by
  cases next_of_step hStep with
  | abort _ _ => cases hDrains
  | closed _ _
  | callerClosed _
  | destroyIoc _ _
  | releaseCaller _ _
  | releaseCtx _ _ =>
      rcases exists_release _ _ with ⟨ending, hSame⟩
      rw [hSame]
  | _ => rfl

/- `quit` is not taken back. -/
theorem quit_step
    {next : Program}
    {event : ProgramEvent}
    (hQuit : p.quit = true)
    (hStep : p.step config threads event = some next) :
    next.quit = true := by
  cases next_of_step hStep with
  | signal _ _ => rfl
  | closed _ _
  | callerClosed _
  | destroyIoc _ _
  | releaseCaller _ _
  | releaseCtx _ _ =>
      rcases exists_release _ _ with ⟨ending, hSame⟩
      rw [hSame]
      exact hQuit
  | _ => exact hQuit

end Program

end Kedge

------------------------------------------------------------
-- The Program Comes to Its End
------------------------------------------------------------

namespace Kedge

open Sheath

theorem ioThreads_pos (hardwareConcurrency : Nat) :
    0 < ioThreads hardwareConcurrency :=
  Nat.lt_of_lt_of_le Nat.one_pos (Nat.le_max_left _ _)

namespace Program

variable {config : Config}
variable {threads : Nat}
variable {p : Program}

/- Some step towards the end is possible and lowers it. -/
theorem exists_serving
    (handles : List Handle)
    (hInvariants : p.Invariants config threads)
    (hPositive : 0 < threads)
    (hQuit : p.quit = true)
    (hAborted : p.aborted = false)
    (hLeft : p.left = none) :
    ∃ event next,
      event.serves handles = true ∧
        p.step config threads event = some next ∧
          next.aborted = false ∧
            next.rank threads handles.length <
              p.rank threads handles.length := by
  rcases serves_of_invariants handles hInvariants hPositive
      hLeft with ⟨event, hServes, hAct, hFree⟩
  rcases Option.isSome_iff_exists.mp hAct with ⟨next, hNext⟩
  have hOutside : event.thread.any p.inEnd = false := by
    rcases hFree with hNone | hNone
    · cases event.thread with
      | none => rfl
      | some name =>
          simp only [Option.any_some, inEnd, hNone]
    · rw [hNone]
      rfl
  have hStep : p.step config threads event = some next := by
    simp only [step, hAborted, hOutside, Bool.false_eq_true,
      if_false]
    exact hNext
  rcases ProgramEvent.drains_of_serves hServes with
    ⟨hDrains, hBrings⟩
  have hRank :
      next.rank threads handles.length +
          (if event.drains then 1 else 0) ≤
        p.rank threads handles.length +
          event.brings handles.length :=
    rank_step hInvariants.ordered hQuit hStep
  rw [hDrains, hBrings, if_pos rfl] at hRank
  exact
    ⟨event, next, hServes, hStep,
      (aborted_of_drains hDrains hStep).trans hAborted,
      by omega⟩

/-
  Behind a signal the program comes to its end, where no
  handler and no loop throws but `closeWS`. However the
  threads interleave, the steps towards the end are no more
  than the rank and what new handlers, new alerts and the
  torrents that need saving bring. Unless `closeWS` aborts
  the program, such steps lead to the return of `end` from
  every state, whatever torrents need saving.
-/
theorem ends_after_signal
    (config : Config)
    (hardwareConcurrency : Nat)
    (values : SessionValues)
    (files : FileSystem)
    (events : List ProgramEvent)
    (p : Program)
    (hExec :
      Run.exec (step config (ioThreads hardwareConcurrency))
          (init (ioThreads hardwareConcurrency) values files)
          events =
        some p)
    (hQuit : p.quit = true) :
    (∀ later finish,
      Run.exec (step config (ioThreads hardwareConcurrency)) p
          later =
        some finish →
        later.countP ProgramEvent.drains ≤
          p.rank (ioThreads hardwareConcurrency) 0 +
            (later.map (ProgramEvent.brings 0)).sum) ∧
      (p.aborted = false →
        ∀ handles : List Handle, ∃ later finish,
          (∀ event ∈ later, event.serves handles = true) ∧
            Run.exec
                (step config (ioThreads hardwareConcurrency))
                p later =
              some finish ∧
            finish.left.isSome = true ∧
              later.length ≤
                p.rank (ioThreads hardwareConcurrency)
                  handles.length) := by
  have hInvariants := all_invariants_of_exec hExec
  have hPositive := ioThreads_pos hardwareConcurrency
  generalize ioThreads hardwareConcurrency = threads at *
  constructor
  · intro later finish hLater
    have hKeep :
        ∀ (q : Program) (event : ProgramEvent)
          (next : Program),
          True → (q.Ordered threads ∧ q.quit = true) →
            q.step config threads event = some next →
              next.Ordered threads ∧ next.quit = true :=
      fun _ _ _ _ hHolds hStep =>
        ⟨ordered_step hHolds.1 hStep,
          quit_step hHolds.2 hStep⟩
    have hMeets :=
      Run.Meets.and_invariant hKeep
        ⟨hInvariants.ordered, hQuit⟩
        (Run.meets_true p later)
    have hBound :
        finish.rank threads 0 +
            later.countP ProgramEvent.drains ≤
          p.rank threads 0 +
            (later.map (ProgramEvent.brings 0)).sum :=
      Run.amortized_counted
        (fun _ _ _ hHolds hStep =>
          rank_step hHolds.2.1 hHolds.2.2 hStep)
        hMeets hLater
    omega
  · intro hAborted handles
    have hProgress :
        ∀ q : Program,
          (q.Invariants config threads ∧ q.quit = true ∧
            q.aborted = false) →
            ¬ q.left.isSome = true →
              ∃ event next,
                event.serves handles = true ∧
                  q.step config threads event = some next ∧
                    (next.Invariants config threads ∧
                      next.quit = true ∧
                        next.aborted = false) ∧
                      next.rank threads handles.length <
                        q.rank threads handles.length := by
      rintro q ⟨hHolds, hSignal, hRunning⟩ hBefore
      rw [Option.not_isSome_iff_eq_none] at hBefore
      rcases exists_serving handles hHolds hPositive hSignal
          hRunning hBefore with
        ⟨event, next, hServes, hStep, hSame, hLess⟩
      exact
        ⟨event, next, hServes, hStep,
          ⟨invariants_step hHolds hStep,
            quit_step hSignal hStep, hSame⟩,
          hLess⟩
    rcases Run.exists_exec_of_progress hProgress
        ⟨hInvariants, hQuit, hAborted⟩ with
      ⟨later, finish, hServes, hLater, _, hEnd, hLength⟩
    exact ⟨later, finish, hServes, hLater, hEnd, hLength⟩

theorem ends_after_signal_one_thread :
    ∃ p,
      Run.exec (step plainConfig (ioThreads 2))
          (init (ioThreads 2) ⟨[], [], 0, 0⟩ fun _ => none)
          [.take 0, .done 0, .signal 0] =
        some p ∧
      ∃ later finish,
        Run.exec (step plainConfig (ioThreads 2)) p later =
            some finish ∧
          finish.left.isSome = true ∧ later.length ≤ 22 := by
  have hRun :
      ∃ p,
        Run.exec (step plainConfig (ioThreads 2))
            (init (ioThreads 2) ⟨[], [], 0, 0⟩ fun _ => none)
            [.take 0, .done 0, .signal 0] =
          some p ∧
        p.quit = true ∧ p.aborted = false ∧
          p.rank (ioThreads 2) [firstTorrent].length ≤ 22 :=
    ⟨_, rfl, rfl, rfl, by decide⟩
  rcases hRun with ⟨p, hExec, hQuit, hAborted, hRank⟩
  rcases
      (ends_after_signal plainConfig 2 ⟨[], [], 0, 0⟩
        (fun _ => none) [.take 0, .done 0, .signal 0] p
        hExec hQuit).2 hAborted [firstTorrent] with
    ⟨later, finish, _, hLater, hEnd, hLength⟩
  exact
    ⟨p, hExec, later, finish, hLater, hEnd,
      hLength.trans hRank⟩

end Program

end Kedge
