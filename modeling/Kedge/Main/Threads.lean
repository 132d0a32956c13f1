import Kedge.Files.SessionState
import Kedge.Sheath.System

/-
  The threads of `main` behind the listener.

  `ioc.run()` is called by `main` itself and by the threads
  of `tv`. Besides these, `ctx_start_loader` loads the
  resume data, and `shth_loader` and `caller_loader` run the
  loops of the sheath and of the caller until `quit` is set.
  A signal sets it; `shth_loader` then stops the
  `io_context`, so that `ioc.run()` returns. `main` closes
  the websockets, joins the threads and destroys what it
  holds. The thread that releases the last reference to the
  sheath runs `~sheath`, and with it `end`.

  Handlers and loops that throw have no event and are left
  out, with the exception of `closeWS`: where it meets a
  session whose destructor is running, nothing catches what
  it throws and the program aborts.

  Main declarations:
    * `Program`
    * `Program.step`
    * `Program.system`
    * `Program.Next`
    * `Program.next_of_step`
-/

------------------------------------------------------------
-- Threads
------------------------------------------------------------

namespace Kedge

open Sheath

/- The number of threads that call `ioc.run()`. -/
def ioThreads (hardwareConcurrency : Nat) : Nat :=
  max 1 (hardwareConcurrency / 2 - 1)

/- `main` is the first of the threads in `ioc.run()`. -/
inductive ThreadName where
  | runner (i : Nat)
  | ctxStartLoader
  | shthLoader
  | callerLoader
  deriving DecidableEq

/-
  Where a thread stands in `ioc.run()`. A handler calls
  `drop_torrent` once at most.
-/
inductive Runner where
  | polling
  | handling (dropped : Bool)
  | returned
  deriving DecidableEq

def Runner.isHandling : Runner → Bool
  | .handling _ => true
  | _ => false

/-
  Where `shth_loader` stands. The alerts are those that
  `pop_alerts` still has to handle.
-/
inductive ShthLoader where
  | testing
  | posting
  | popping (alerts : List Alert)
  | scanning
  | stopping
  | finished

def ShthLoader.batch : ShthLoader → Option (List Alert)
  | .popping alerts => some alerts
  | _ => none

/- How it goes on in `doLoop` after a step of the sheath. -/
def ShthLoader.after : Option (List Alert) → ShthLoader
  | some alerts => .popping alerts
  | none => .scanning

/- Where `caller_loader` stands. -/
inductive CallerLoader where
  | testing
  | passing
  | finished
  deriving DecidableEq

/-
  What `main` does behind `ioc.run()`. At its end it
  destroys `ioc`, then `caller`, then `ctx`.
-/
inductive Task where
  | closeWS
  | joinRunner (i : Nat)
  | joinCtxStartLoader
  | joinShthLoader
  | joinCallerLoader
  | destroyIoc
  | releaseCaller
  | releaseCtx
  deriving DecidableEq

def tasks (threads : Nat) : List Task :=
  .closeWS ::
    ((List.range' 1 (threads - 1)).map Task.joinRunner ++
      [.joinCtxStartLoader, .joinShthLoader,
        .joinCallerLoader, .destroyIoc, .releaseCaller,
        .releaseCtx])

end Kedge

------------------------------------------------------------
-- The Sheath Among the Threads
------------------------------------------------------------

namespace Kedge

namespace Sheath

/-
  What a thread that runs code of the sheath keeps to
  itself: where it stands in `save_all_resume`, and the
  alerts of its `pop_alerts`.
-/
structure Local where
  thread : Thread
  batch : Option (List Alert)

/- What all threads share of the sheath. -/
structure Shared where
  torrents : List Handle
  nextId : Nat
  outstanding : List Handle
  queue : List Alert
  members : Members
  drops : Nat → Drop
  files : FileSystem
  logged : List Alert
  issued : Nat
  answered : Nat
  successes : List AddTorrentParams
  saves : List (Str × Bytes)
  removed : List (Handle × Bool)
  dropped : InfoHash → Bool

def System.own (s : System) : Local where
  thread := s.thread
  batch := s.batch

def System.shared (s : System) : Shared where
  torrents := s.torrents
  nextId := s.nextId
  outstanding := s.outstanding
  queue := s.queue
  members := s.members
  drops := s.drops
  files := s.files
  logged := s.logged
  issued := s.issued
  answered := s.answered
  successes := s.successes
  saves := s.saves
  removed := s.removed
  dropped := s.dropped

/- The sheath as a thread sees it. -/
def Shared.seenBy (d : Shared) (own : Local) : System where
  torrents := d.torrents
  nextId := d.nextId
  outstanding := d.outstanding
  queue := d.queue
  thread := own.thread
  batch := own.batch
  members := d.members
  drops := d.drops
  files := d.files
  logged := d.logged
  issued := d.issued
  answered := d.answered
  successes := d.successes
  saves := d.saves
  removed := d.removed
  dropped := d.dropped

/- What `libtorrent` does on its own. -/
def Action.ofLibtorrent : Action → Bool
  | .add _ => true
  | .post _ => true
  | .answer _ _ => true
  | _ => false

/- What a handler does in `drop_torrent`. -/
def Action.ofRunner (i : Nat) : Runner → Action → Bool
  | .handling false, .dropDelete j _ _ _ => i = j
  | .handling true, .dropFind j => i = j
  | .handling true, .dropRemove j => i = j
  | _, _ => false

/- What `shth_loader` does in `pop_alerts`. -/
def Action.ofShthLoader : ShthLoader → Action → Bool
  | .posting, .pop => true
  | .popping _, .handle _ _ => true
  | .popping _, .popDone => true
  | _, _ => false

/- The steps of `save_all_resume`. -/
def Action.ofEnd : Action → Bool
  | .handle _ _ => true
  | .popDone => true
  | .saveAll _ => true
  | .saveNext => true
  | .saveLoopDone => true
  | .waitTimeout => true
  | .waitAlert => true
  | .saveReturn => true
  | _ => false

end Sheath

end Kedge

------------------------------------------------------------
-- States
------------------------------------------------------------

namespace Kedge

open Sheath

/-
  `signals` says that the wait for a signal is pending, and
  `stopped` that `ioc` is. `owners` counts the listener and
  the sessions, which hold `caller` and are held by what is
  pending in `ioc`. `ending` is the thread that runs
  `~sheath`, and `left` what is on the disk behind it.
-/
structure Program where
  quit : Bool
  signals : Bool
  stopped : Bool
  runners : Nat → Runner
  ctxStartLoader : Bool
  shthLoader : ShthLoader
  callerLoader : CallerLoader
  todo : List Task
  owners : Nat
  holdsCaller : Bool
  holdsCtx : Bool
  shared : Shared
  ending : Option (ThreadName × Local)
  left : Option FileSystem
  aborted : Bool

inductive ProgramEvent where
  | libtorrent (action : Action)
  | signal (i : Nat)
  | take (i : Nat)
  | drop (i : Nat) (action : Action)
  | opened (i : Nat)
  | closed (i : Nat)
  | done (i : Nat)
  | outOfWork (i : Nat)
  | leave (i : Nat)
  | test
  | loop (action : Action)
  | scanned
  | stop
  | callerTest
  | callerClosed
  | callerPassed
  | started
  | main (expired : Bool)
  | save (action : Action)
  | saveSession (out : Bytes) (write : WriteOutcome)

/- The thread whose next statement is run. -/
def ProgramEvent.thread : ProgramEvent → Option ThreadName
  | .signal i => some (.runner i)
  | .take i => some (.runner i)
  | .drop i _ => some (.runner i)
  | .opened i => some (.runner i)
  | .closed i => some (.runner i)
  | .done i => some (.runner i)
  | .outOfWork i => some (.runner i)
  | .leave i => some (.runner i)
  | .test => some .shthLoader
  | .loop _ => some .shthLoader
  | .scanned => some .shthLoader
  | .stop => some .shthLoader
  | .callerTest => some .callerLoader
  | .callerClosed => some .callerLoader
  | .callerPassed => some .callerLoader
  | .started => some .ctxStartLoader
  | .main _ => some (.runner 0)
  | _ => none

namespace Program

/- All threads are started. The listener holds `caller`. -/
def init
    (threads : Nat)
    (values : SessionValues)
    (files : FileSystem) : Program where
  quit := false
  signals := true
  stopped := false
  runners := fun _ => .polling
  ctxStartLoader := true
  shthLoader := .testing
  callerLoader := .testing
  todo := tasks threads
  owners := 1
  holdsCaller := true
  holdsCtx := true
  shared := (System.init values files).shared
  ending := none
  left := none
  aborted := false

/- The thread is in `~sheath`. -/
def inEnd (p : Program) (name : ThreadName) : Bool :=
  match p.ending, p.left with
  | some (other, _), none => other = name
  | _, _ => false

/- The last reference to the sheath destroys it. -/
def release (p : Program) (name : ThreadName) : Program :=
  if p.holdsCtx ∨ p.holdsCaller ∨ 0 < p.owners then p
  else { p with ending := some (name, ⟨.loop, none⟩) }

/-
  What the threads have of the sheath's code under way:
  `end`, or else the loop of `shth_loader`.
-/
def own (p : Program) : Local :=
  match p.ending with
  | some (_, own) => own
  | none => ⟨.loop, p.shthLoader.batch⟩

/- The threads that run the sheath as one thread. -/
def system (p : Program) : System :=
  p.shared.seenBy p.own

/-
  A session can only be expired while some thread runs its
  destructor.
-/
def mayExpire (threads : Nat) (p : Program) : Prop :=
  p.callerLoader = .passing ∨
    ∃ i < threads, (p.runners i).isHandling = true

instance (threads : Nat) (p : Program) :
    Decidable (p.mayExpire threads) := by
  unfold mayExpire
  infer_instance

end Program

end Kedge

------------------------------------------------------------
-- Steps
------------------------------------------------------------

namespace Kedge

open Sheath

namespace Program

/-
  A statement of `main` behind `ioc.run()`, where `expired`
  says that `closeWS` meets an expired session.
-/
def runTask
    (threads : Nat)
    (p : Program)
    (rest : List Task)
    (expired : Bool) : Task → Option Program
  | .closeWS =>
      if expired then
        if p.mayExpire threads then
          some { p with aborted := true }
        else none
      else some { p with todo := rest }
  | .joinRunner i =>
      if p.runners i = .returned then
        some { p with todo := rest }
      else none
  | .joinCtxStartLoader =>
      if p.ctxStartLoader then none
      else some { p with todo := rest }
  | .joinShthLoader =>
      match p.shthLoader with
      | .finished => some { p with todo := rest }
      | _ => none
  | .joinCallerLoader =>
      if p.callerLoader = .finished then
        some { p with todo := rest }
      else none
  | .destroyIoc =>
      some
        (release { p with todo := rest, owners := 0 }
          (.runner 0))
  | .releaseCaller =>
      some
        (release { p with todo := rest, holdsCaller := false }
          (.runner 0))
  | .releaseCtx =>
      some
        (release { p with todo := rest, holdsCtx := false }
          (.runner 0))

/- A step of the threads, where none of them is in `end`. -/
def act
    (config : Config)
    (threads : Nat)
    (p : Program) : ProgramEvent → Option Program
  | .libtorrent action =>
      if action.ofLibtorrent ∧ p.left = none then
        (p.system.step config action).map fun s =>
          { p with shared := s.shared }
      else none
  | .signal i =>
      if i < threads ∧ p.stopped = false ∧
          p.runners i = .polling ∧ p.signals then
        some { p with quit := true, signals := false }
      else none
  | .take i =>
      if i < threads ∧ p.stopped = false ∧
          p.runners i = .polling then
        some { p with
          runners :=
            Function.update p.runners i (.handling false) }
      else none
  | .drop i action =>
      if i < threads ∧ action.ofRunner i (p.runners i) then
        (p.system.step config action).map fun s =>
          { p with
            shared := s.shared
            runners :=
              Function.update p.runners i (.handling true) }
      else none
  | .opened i =>
      if i < threads ∧ (p.runners i).isHandling then
        some { p with owners := p.owners + 1 }
      else none
  | .closed i =>
      if i < threads ∧ (p.runners i).isHandling ∧
          0 < p.owners then
        some
          (release { p with owners := p.owners - 1 }
            (.runner i))
      else none
  | .done i =>
      if i < threads ∧ (p.runners i).isHandling ∧
          p.shared.drops i = .idle then
        some { p with
          runners := Function.update p.runners i .polling }
      else none
  | .outOfWork i =>
      if i < threads ∧ p.runners i = .polling ∧
          p.signals = false ∧
            ∀ j < threads,
              (p.runners j).isHandling = false then
        some { p with stopped := true }
      else none
  | .leave i =>
      if i < threads ∧ p.stopped ∧
          p.runners i = .polling then
        some { p with
          runners := Function.update p.runners i .returned }
      else none
  | .test =>
      match p.shthLoader with
      | .testing =>
          some { p with
            shthLoader :=
              if p.quit then .stopping else .posting }
      | _ => none
  | .loop action =>
      if action.ofShthLoader p.shthLoader then
        ((p.shared.seenBy
          ⟨.loop, p.shthLoader.batch⟩).step config
            action).map fun s =>
          { p with
            shared := s.shared
            shthLoader := .after s.batch }
      else none
  | .scanned =>
      match p.shthLoader with
      | .scanning => some { p with shthLoader := .testing }
      | _ => none
  | .stop =>
      match p.shthLoader with
      | .stopping =>
          some { p with
            stopped := true
            shthLoader := .finished }
      | _ => none
  | .callerTest =>
      if p.callerLoader = .testing then
        some { p with
          callerLoader :=
            if p.quit then .finished else .passing }
      else none
  | .callerClosed =>
      if p.callerLoader = .passing ∧ 0 < p.owners then
        some
          (release { p with owners := p.owners - 1 }
            .callerLoader)
      else none
  | .callerPassed =>
      if p.callerLoader = .passing then
        some { p with callerLoader := .testing }
      else none
  | .started =>
      if p.ctxStartLoader then
        some { p with ctxStartLoader := false }
      else none
  | .main expired =>
      match p.todo with
      | [] => none
      | task :: rest =>
          if p.runners 0 = .returned ∧
              (expired = true → task = .closeWS) then
            p.runTask threads rest expired task
          else none
  | .save action =>
      match p.ending, p.left with
      | some (name, own), none =>
          if action.ofEnd then
            ((p.shared.seenBy own).step config action).map
              fun s =>
                { p with
                  shared := s.shared
                  ending := some (name, s.own) }
          else none
      | _, _ => none
  | .saveSession out write =>
      match p.ending, p.left with
      | some (_, own), none =>
          if own.thread = .returned then
            some { p with
              left :=
                some
                  (saveSession config.stream p.shared.files
                    config.dirConf out write).1 }
          else none
      | _, _ => none

/-
  Behind an abort nothing happens, and a thread in `~sheath`
  runs nothing else.
-/
def step
    (config : Config)
    (threads : Nat)
    (p : Program)
    (event : ProgramEvent) : Option Program :=
  if p.aborted then none
  else if event.thread.any p.inEnd then none
  else p.act config threads event

end Program

end Kedge

------------------------------------------------------------
-- What One Step Can Do
------------------------------------------------------------

namespace Kedge

open Sheath

/- What holds behind a statement of `main`. -/
def Task.Done (p : Program) : Task → Prop
  | .closeWS => True
  | .joinRunner i => p.runners i = .returned
  | .joinCtxStartLoader => p.ctxStartLoader = false
  | .joinShthLoader => p.shthLoader = .finished
  | .joinCallerLoader => p.callerLoader = .finished
  | .destroyIoc => p.owners = 0
  | .releaseCaller => p.holdsCaller = false
  | .releaseCtx => p.holdsCtx = false

namespace Program

/-
  The steps as a relation. The statements of `main` are one
  rule each for an abort, a statement that releases nothing
  and a release.
-/
inductive Next
    (config : Config)
    (threads : Nat)
    (p : Program) :
    ProgramEvent → Program → Prop where
  | libtorrent {action s}
      (hKind : action.ofLibtorrent = true)
      (hLeft : p.left = none)
      (hStep : p.system.step config action = some s) :
      Next config threads p (.libtorrent action)
        { p with shared := s.shared }
  | signal {i}
      (hThread : i < threads)
      (hRunner : p.runners i = .polling) :
      Next config threads p (.signal i)
        { p with quit := true, signals := false }
  | take {i}
      (hThread : i < threads)
      (hRunner : p.runners i = .polling)
      (hStopped : p.stopped = false) :
      Next config threads p (.take i)
        { p with
          runners :=
            Function.update p.runners i (.handling false) }
  | drop {i action s}
      (hThread : i < threads)
      (hKind : action.ofRunner i (p.runners i) = true)
      (hStep : p.system.step config action = some s) :
      Next config threads p (.drop i action)
        { p with
          shared := s.shared
          runners :=
            Function.update p.runners i (.handling true) }
  | opened {i}
      (hThread : i < threads)
      (hRunner : (p.runners i).isHandling = true) :
      Next config threads p (.opened i)
        { p with owners := p.owners + 1 }
  | closed {i}
      (hThread : i < threads)
      (hRunner : (p.runners i).isHandling = true) :
      Next config threads p (.closed i)
        (release { p with owners := p.owners - 1 }
          (.runner i))
  | done {i}
      (hThread : i < threads)
      (hRunner : (p.runners i).isHandling = true)
      (hDrop : p.shared.drops i = .idle) :
      Next config threads p (.done i)
        { p with
          runners := Function.update p.runners i .polling }
  | outOfWork {i}
      (hThread : i < threads)
      (hRunner : p.runners i = .polling)
      (hSignals : p.signals = false) :
      Next config threads p (.outOfWork i)
        { p with stopped := true }
  | leave {i}
      (hThread : i < threads)
      (hRunner : p.runners i = .polling)
      (hStopped : p.stopped = true) :
      Next config threads p (.leave i)
        { p with
          runners := Function.update p.runners i .returned }
  | test
      (hLoader : p.shthLoader = .testing) :
      Next config threads p .test
        { p with
          shthLoader :=
            if p.quit then .stopping else .posting }
  | loop {action s}
      (hKind : action.ofShthLoader p.shthLoader = true)
      (hStep :
        (p.shared.seenBy
          ⟨.loop, p.shthLoader.batch⟩).step config action =
            some s) :
      Next config threads p (.loop action)
        { p with
          shared := s.shared
          shthLoader := .after s.batch }
  | scanned
      (hLoader : p.shthLoader = .scanning) :
      Next config threads p .scanned
        { p with shthLoader := .testing }
  | stop
      (hLoader : p.shthLoader = .stopping) :
      Next config threads p .stop
        { p with stopped := true, shthLoader := .finished }
  | callerTest
      (hLoader : p.callerLoader = .testing) :
      Next config threads p .callerTest
        { p with
          callerLoader :=
            if p.quit then .finished else .passing }
  | callerClosed
      (hLoader : p.callerLoader = .passing) :
      Next config threads p .callerClosed
        (release { p with owners := p.owners - 1 }
          .callerLoader)
  | callerPassed
      (hLoader : p.callerLoader = .passing) :
      Next config threads p .callerPassed
        { p with callerLoader := .testing }
  | started
      (hLoader : p.ctxStartLoader = true) :
      Next config threads p .started
        { p with ctxStartLoader := false }
  | abort {rest}
      (hTodo : p.todo = .closeWS :: rest)
      (hExpire : p.mayExpire threads) :
      Next config threads p (.main true)
        { p with aborted := true }
  | waited {expired task rest}
      (hMain : p.runners 0 = .returned)
      (hTodo : p.todo = task :: rest)
      (hDone : task.Done p) :
      Next config threads p (.main expired)
        { p with todo := rest }
  | destroyIoc {expired rest}
      (hMain : p.runners 0 = .returned)
      (hTodo : p.todo = .destroyIoc :: rest) :
      Next config threads p (.main expired)
        (release { p with todo := rest, owners := 0 }
          (.runner 0))
  | releaseCaller {expired rest}
      (hMain : p.runners 0 = .returned)
      (hTodo : p.todo = .releaseCaller :: rest) :
      Next config threads p (.main expired)
        (release { p with todo := rest, holdsCaller := false }
          (.runner 0))
  | releaseCtx {expired rest}
      (hMain : p.runners 0 = .returned)
      (hTodo : p.todo = .releaseCtx :: rest) :
      Next config threads p (.main expired)
        (release { p with todo := rest, holdsCtx := false }
          (.runner 0))
  | save {action name own s}
      (hEnding : p.ending = some (name, own))
      (hLeft : p.left = none)
      (hKind : action.ofEnd = true)
      (hStep :
        (p.shared.seenBy own).step config action = some s) :
      Next config threads p (.save action)
        { p with
          shared := s.shared
          ending := some (name, s.own) }
  | saveSession {out write name own}
      (hEnding : p.ending = some (name, own))
      (hLeft : p.left = none)
      (hReturned : own.thread = .returned) :
      Next config threads p (.saveSession out write)
        { p with
          left :=
            some
              (saveSession config.stream p.shared.files
                config.dirConf out write).1 }

variable {config : Config}
variable {threads : Nat}

/- A statement of `main` follows one of its rules. -/
theorem next_of_runTask
    {p next : Program}
    {task : Task}
    {rest : List Task}
    {expired : Bool}
    (hMain : p.runners 0 = .returned)
    (hTodo : p.todo = task :: rest)
    (hTask :
      p.runTask threads rest expired task = some next) :
    Next config threads p (.main expired) next := by
  cases task with
  | closeWS =>
      cases expired with
      | true =>
          rcases Option.ite_none_right_eq_some.mp hTask with
            ⟨hExpire, hNext⟩
          cases hNext
          exact .abort hTodo hExpire
      | false =>
          cases hTask
          exact .waited hMain hTodo trivial
  | joinRunner i =>
      rcases Option.ite_none_right_eq_some.mp hTask with
        ⟨hReturned, hNext⟩
      cases hNext
      exact .waited hMain hTodo hReturned
  | joinCtxStartLoader =>
      rcases Option.ite_none_left_eq_some.mp hTask with
        ⟨hFinished, hNext⟩
      cases hNext
      exact
        .waited hMain hTodo (Bool.eq_false_iff.mpr hFinished)
  | joinShthLoader =>
      simp only [runTask] at hTask
      split at hTask
      · next hFinished =>
        cases hTask
        exact .waited hMain hTodo hFinished
      · cases hTask
  | joinCallerLoader =>
      rcases Option.ite_none_right_eq_some.mp hTask with
        ⟨hFinished, hNext⟩
      cases hNext
      exact .waited hMain hTodo hFinished
  | destroyIoc =>
      cases hTask
      exact .destroyIoc hMain hTodo
  | releaseCaller =>
      cases hTask
      exact .releaseCaller hMain hTodo
  | releaseCtx =>
      cases hTask
      exact .releaseCtx hMain hTodo

/- Every step of a thread follows one of the rules. -/
theorem next_of_act
    {p next : Program}
    {event : ProgramEvent}
    (hAct : p.act config threads event = some next) :
    Next config threads p event next := by
  cases event with
  | libtorrent action =>
      rcases Option.ite_none_right_eq_some.mp hAct with
        ⟨⟨hKind, hLeft⟩, hMap⟩
      rcases Option.map_eq_some_iff.mp hMap with
        ⟨s, hStep, rfl⟩
      exact .libtorrent hKind hLeft hStep
  | signal i =>
      rcases Option.ite_none_right_eq_some.mp hAct with
        ⟨⟨hThread, _, hRunner, _⟩, hNext⟩
      cases hNext
      exact .signal hThread hRunner
  | take i =>
      rcases Option.ite_none_right_eq_some.mp hAct with
        ⟨⟨hThread, hStopped, hRunner⟩, hNext⟩
      cases hNext
      exact .take hThread hRunner hStopped
  | drop i action =>
      rcases Option.ite_none_right_eq_some.mp hAct with
        ⟨⟨hThread, hKind⟩, hMap⟩
      rcases Option.map_eq_some_iff.mp hMap with
        ⟨s, hStep, rfl⟩
      exact .drop hThread hKind hStep
  | opened i =>
      rcases Option.ite_none_right_eq_some.mp hAct with
        ⟨⟨hThread, hRunner⟩, hNext⟩
      cases hNext
      exact .opened hThread hRunner
  | closed i =>
      rcases Option.ite_none_right_eq_some.mp hAct with
        ⟨⟨hThread, hRunner, _⟩, hNext⟩
      cases hNext
      exact .closed hThread hRunner
  | done i =>
      rcases Option.ite_none_right_eq_some.mp hAct with
        ⟨⟨hThread, hRunner, hDrop⟩, hNext⟩
      cases hNext
      exact .done hThread hRunner hDrop
  | outOfWork i =>
      rcases Option.ite_none_right_eq_some.mp hAct with
        ⟨⟨hThread, hRunner, hSignals, _⟩, hNext⟩
      cases hNext
      exact .outOfWork hThread hRunner hSignals
  | leave i =>
      rcases Option.ite_none_right_eq_some.mp hAct with
        ⟨⟨hThread, hStopped, hRunner⟩, hNext⟩
      cases hNext
      exact .leave hThread hRunner hStopped
  | test =>
      simp only [act] at hAct
      split at hAct
      · next hLoader =>
        cases hAct
        exact .test hLoader
      · cases hAct
  | loop action =>
      rcases Option.ite_none_right_eq_some.mp hAct with
        ⟨hKind, hMap⟩
      rcases Option.map_eq_some_iff.mp hMap with
        ⟨s, hStep, rfl⟩
      exact .loop hKind hStep
  | scanned =>
      simp only [act] at hAct
      split at hAct
      · next hLoader =>
        cases hAct
        exact .scanned hLoader
      · cases hAct
  | stop =>
      simp only [act] at hAct
      split at hAct
      · next hLoader =>
        cases hAct
        exact .stop hLoader
      · cases hAct
  | callerTest =>
      rcases Option.ite_none_right_eq_some.mp hAct with
        ⟨hLoader, hNext⟩
      cases hNext
      exact .callerTest hLoader
  | callerClosed =>
      rcases Option.ite_none_right_eq_some.mp hAct with
        ⟨⟨hLoader, _⟩, hNext⟩
      cases hNext
      exact .callerClosed hLoader
  | callerPassed =>
      rcases Option.ite_none_right_eq_some.mp hAct with
        ⟨hLoader, hNext⟩
      cases hNext
      exact .callerPassed hLoader
  | started =>
      rcases Option.ite_none_right_eq_some.mp hAct with
        ⟨hLoader, hNext⟩
      cases hNext
      exact .started hLoader
  | main expired =>
      simp only [act] at hAct
      split at hAct
      · cases hAct
      · next task rest hTodo =>
        rcases Option.ite_none_right_eq_some.mp hAct with
          ⟨⟨hMain, _⟩, hTask⟩
        exact next_of_runTask hMain hTodo hTask
  | save action =>
      simp only [act] at hAct
      split at hAct
      · next name own hEnding hLeft =>
        rcases Option.ite_none_right_eq_some.mp hAct with
          ⟨hKind, hMap⟩
        rcases Option.map_eq_some_iff.mp hMap with
          ⟨s, hStep, rfl⟩
        exact .save hEnding hLeft hKind hStep
      · cases hAct
  | saveSession out write =>
      simp only [act] at hAct
      split at hAct
      · next name own hEnding hLeft =>
        rcases Option.ite_none_right_eq_some.mp hAct with
          ⟨hReturned, hNext⟩
        cases hNext
        exact .saveSession hEnding hLeft hReturned
      · cases hAct

theorem act_of_step
    {p next : Program}
    {event : ProgramEvent}
    (hStep : p.step config threads event = some next) :
    p.aborted = false ∧
      event.thread.any p.inEnd = false ∧
        p.act config threads event = some next := by
  rcases Option.ite_none_left_eq_some.mp hStep with
    ⟨hAborted, hRest⟩
  rcases Option.ite_none_left_eq_some.mp hRest with
    ⟨hFree, hAct⟩
  exact
    ⟨Bool.eq_false_iff.mpr hAborted,
      Bool.eq_false_iff.mpr hFree, hAct⟩

theorem next_of_step
    {p next : Program}
    {event : ProgramEvent}
    (hStep : p.step config threads event = some next) :
    Next config threads p event next :=
  next_of_act (act_of_step hStep).2.2

end Program

end Kedge
