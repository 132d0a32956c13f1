import Mathlib.Logic.Function.Basic
import Kedge.Library.Run

/-
  Pausing and resuming a torrent: `pause_resume_torrent` and
  `resume_torrent` of `src/sheath.cpp`.

  Both read the flags of the torrent and then change them
  with one or two more calls of `libtorrent`. The threads
  that serve HTTP requests run them at the same time, and
  `libtorrent` itself pauses and resumes the torrents that
  it manages, and pauses any torrent after an error.

  To a user a torrent is stopped, forced to run, or managed
  by `libtorrent`.

  Key definitions include:
    * `TorrentFlags`
    * `Controlled.step`
    * `Mode.act`

  Main theorems include:
    * `Controlled.never_left_forced`
    * `Controlled.modes_follow_calls_in_turn`
-/

------------------------------------------------------------
-- Flags
------------------------------------------------------------

namespace Kedge

namespace Sheath

/- The bits of `lt::torrent_flags_t` that are used. -/
structure TorrentFlags where
  autoManaged : Bool
  paused : Bool
  deriving DecidableEq, Repr

namespace TorrentFlags

def autoManagedFlag : TorrentFlags := ⟨true, false⟩

def pausedFlag : TorrentFlags := ⟨false, true⟩

def and (a b : TorrentFlags) : TorrentFlags :=
  ⟨a.autoManaged && b.autoManaged, a.paused && b.paused⟩

def or (a b : TorrentFlags) : TorrentFlags :=
  ⟨a.autoManaged || b.autoManaged, a.paused || b.paused⟩

def not (a : TorrentFlags) : TorrentFlags :=
  ⟨!a.autoManaged, !a.paused⟩

/- `torrent_handle::set_flags` with a mask. -/
def setFlagsMask
    (current flags mask : TorrentFlags) : TorrentFlags :=
  (current.and mask.not).or (flags.and mask)

/- `torrent_handle::set_flags`. -/
def setFlags (current flags : TorrentFlags) : TorrentFlags :=
  current.or flags

/- `torrent_handle::unset_flags`. -/
def unsetFlags
    (current flags : TorrentFlags) : TorrentFlags :=
  current.and flags.not

/- `torrent_handle::pause`. -/
def pause (current : TorrentFlags) : TorrentFlags :=
  { current with paused := true }

/- `torrent_handle::resume`. -/
def resume (current : TorrentFlags) : TorrentFlags :=
  { current with paused := false }

end TorrentFlags

end Sheath

end Kedge

------------------------------------------------------------
-- The Two Functions
------------------------------------------------------------

namespace Kedge

namespace Sheath

open TorrentFlags (autoManagedFlag pausedFlag)

/- What a thread is about to call, in the two functions. -/
inductive FlagCall where
  | idle
  | setManaged
  | unsetManaged
  | pause
  | setInverted (flags : TorrentFlags)
  | resume
  deriving DecidableEq

namespace FlagCall

/- `pause_resume_torrent` up to the branch on the flags. -/
def pauseResumeTorrent (flags : TorrentFlags) : FlagCall :=
  if flags.and (autoManagedFlag.or pausedFlag) =
      pausedFlag then
    .setManaged
  else .unsetManaged

/- `resume_torrent` up to the look at the flags. -/
def resumeTorrent (flags : TorrentFlags) : FlagCall :=
  .setInverted flags

/- The next call, and what is left of the function. -/
def next
    (current : TorrentFlags) :
    FlagCall → TorrentFlags × FlagCall
  | .idle => (current, .idle)
  | .setManaged => (current.setFlags autoManagedFlag, .idle)
  | .unsetManaged =>
      (current.unsetFlags autoManagedFlag, .pause)
  | .pause => (current.pause, .idle)
  | .setInverted flags =>
      (current.setFlagsMask (flags.and autoManagedFlag).not
          autoManagedFlag,
        if flags.autoManaged && flags.paused then .resume
        else .idle)
  | .resume => (current.resume, .idle)

end FlagCall

/- What counts for a user. -/
inductive ModeEvent where
  | pauseResume
  | resume
  | error
  deriving DecidableEq, Repr

/-
  A torrent with the threads that call the functions for it.
  The last field only records what happened.
-/
structure Controlled where
  flags : TorrentFlags
  calls : Nat → FlagCall
  history : List ModeEvent

/-
  A thread starts one of the functions or makes its next
  call; the queue of `libtorrent` pauses or resumes the
  torrent, or an error pauses it.
-/
inductive ControlAction where
  | pauseResume (thread : Nat)
  | resume (thread : Nat)
  | next (thread : Nat)
  | queue (paused : Bool)
  | error

namespace Controlled

def init (flags : TorrentFlags) : Controlled where
  flags := flags
  calls := fun _ => .idle
  history := []

def step (s : Controlled) :
    ControlAction → Option Controlled
  | .pauseResume thread =>
      if s.calls thread = .idle then
        some
          { s with
            calls :=
              Function.update s.calls thread
                (.pauseResumeTorrent s.flags)
            history := s.history ++ [.pauseResume] }
      else none
  | .resume thread =>
      if s.calls thread = .idle then
        some
          { s with
            calls :=
              Function.update s.calls thread
                (.resumeTorrent s.flags)
            history := s.history ++ [.resume] }
      else none
  | .next thread =>
      if s.calls thread = .idle then none
      else
        some
          { s with
            flags := ((s.calls thread).next s.flags).1
            calls :=
              Function.update s.calls thread
                ((s.calls thread).next s.flags).2 }
  | .queue paused =>
      if s.flags.autoManaged = true then
        some
          { s with
            flags := { s.flags with paused := paused } }
      else none
  | .error =>
      some
        { s with
          flags := s.flags.pause
          history := s.history ++ [.error] }

/- No thread is in one of the functions. -/
def Quiet (s : Controlled) : Prop :=
  ∀ thread, s.calls thread = .idle

end Controlled

end Sheath

end Kedge

------------------------------------------------------------
-- Toggles at the Same Time
------------------------------------------------------------

namespace Kedge

namespace Sheath

/- The torrent runs, and not because `libtorrent` wants. -/
def TorrentFlags.Forced (flags : TorrentFlags) : Prop :=
  flags.autoManaged = false ∧ flags.paused = false

instance
    (flags : TorrentFlags) :
    Decidable flags.Forced :=
  inferInstanceAs
    (Decidable
      (flags.autoManaged = false ∧ flags.paused = false))

namespace Controlled

/- Who leaves the torrent forced is about to pause it. -/
structure Unforced (s : Controlled) : Prop where
  pausing :
    s.flags.Forced → ∃ thread, s.calls thread = .pause
  toggles :
    ∀ thread flags,
      s.calls thread ≠ .setInverted flags ∧
        s.calls thread ≠ .resume

theorem unforced_init
    {flags : TorrentFlags}
    (hStart : ¬ flags.Forced) :
    (init flags).Unforced where
  pausing := fun hForced => absurd hForced hStart
  toggles := by
    intro thread flags
    exact ⟨by rintro ⟨⟩, by rintro ⟨⟩⟩

theorem pauseResumeTorrent_eq
    (flags : TorrentFlags) :
    FlagCall.pauseResumeTorrent flags = .setManaged ∨
      FlagCall.pauseResumeTorrent flags = .unsetManaged := by
  unfold FlagCall.pauseResumeTorrent
  split
  · exact Or.inl rfl
  · exact Or.inr rfl

/- A toggle only starts to write with its second step. -/
theorem unforced_pauseResume
    {s : Controlled}
    {thread : Nat}
    (hUnforced : s.Unforced)
    (hIdle : s.calls thread = .idle)
    (history : List ModeEvent) :
    Unforced
      { s with
        calls :=
          Function.update s.calls thread
            (.pauseResumeTorrent s.flags)
        history := history } := by
  constructor
  · intro hForced
    rcases hUnforced.pausing hForced with ⟨other, hOther⟩
    have hNe : other ≠ thread := by
      rintro rfl
      rw [hIdle] at hOther
      cases hOther
    refine ⟨other, ?_⟩
    exact (Function.update_of_ne hNe _ _).trans hOther
  · intro other flags
    by_cases hSame : other = thread
    · subst hSame
      dsimp only
      rw [Function.update_self]
      rcases pauseResumeTorrent_eq s.flags with hEq | hEq <;>
        rw [hEq] <;>
        exact ⟨by rintro ⟨⟩, by rintro ⟨⟩⟩
    · dsimp only
      rw [Function.update_of_ne hSame]
      exact hUnforced.toggles other flags

theorem unforced_next
    {s : Controlled}
    {thread : Nat}
    (hUnforced : s.Unforced)
    (hBusy : s.calls thread ≠ .idle) :
    Unforced
      { s with
        flags := ((s.calls thread).next s.flags).1
        calls :=
          Function.update s.calls thread
            ((s.calls thread).next s.flags).2 } := by
  have hNext :
      (∀ flags,
          ((s.calls thread).next s.flags).2 ≠
            .setInverted flags) ∧
        ((s.calls thread).next s.flags).2 ≠ .resume ∧
        (((s.calls thread).next s.flags).1.Forced →
          ((s.calls thread).next s.flags).2 = .pause) := by
    cases hCall : s.calls thread with
    | idle => exact absurd hCall hBusy
    | setManaged =>
        simp [FlagCall.next, TorrentFlags.setFlags,
          TorrentFlags.or, TorrentFlags.autoManagedFlag,
          TorrentFlags.Forced]
    | unsetManaged => simp [FlagCall.next]
    | pause =>
        simp [FlagCall.next, TorrentFlags.pause,
          TorrentFlags.Forced]
    | setInverted flags =>
        exact absurd hCall (hUnforced.toggles thread flags).1
    | resume =>
        exact
          absurd hCall
            (hUnforced.toggles thread s.flags).2
  constructor
  · intro hForced
    refine ⟨thread, ?_⟩
    dsimp only
    rw [Function.update_self]
    exact hNext.2.2 hForced
  · intro other flags
    dsimp only
    by_cases hSame : other = thread
    · subst hSame
      rw [Function.update_self]
      exact ⟨hNext.1 flags, hNext.2.1⟩
    · rw [Function.update_of_ne hSame]
      exact hUnforced.toggles other flags

theorem unforced_step
    {s next : Controlled}
    {action : ControlAction}
    (hToggle : ∀ thread, action ≠ .resume thread)
    (hUnforced : s.Unforced)
    (hStep : s.step action = some next) :
    next.Unforced := by
  cases action with
  | pauseResume thread =>
      rcases Option.ite_none_right_eq_some.mp hStep with
        ⟨hIdle, hNext⟩
      cases hNext
      exact unforced_pauseResume hUnforced hIdle _
  | resume thread => exact absurd rfl (hToggle thread)
  | next thread =>
      rcases Option.ite_none_left_eq_some.mp hStep with
        ⟨hBusy, hNext⟩
      cases hNext
      exact unforced_next hUnforced hBusy
  | queue paused =>
      rcases Option.ite_none_right_eq_some.mp hStep with
        ⟨hManaged, hNext⟩
      cases hNext
      refine ⟨?_, hUnforced.toggles⟩
      rintro ⟨hUnmanaged, _⟩
      exact absurd (hManaged.symm.trans hUnmanaged) (by decide)
  | error =>
      cases hStep
      refine ⟨?_, hUnforced.toggles⟩
      rintro ⟨_, hRunning⟩
      cases hRunning

/-
  However many threads toggle a torrent at the same time,
  and whatever the queue does in between: a torrent that is
  not running outside the queue at the start is never left
  so unless somebody asks for it. When no thread is in a
  call any more, it is managed or paused.
-/
theorem never_left_forced
    (flags : TorrentFlags)
    (hStart : ¬ flags.Forced)
    (actions : List ControlAction)
    (hToggles :
      ∀ action ∈ actions, ∀ thread,
        action ≠ .resume thread)
    (s : Controlled)
    (hExec : Run.exec step (init flags) actions = some s) :
    (s.flags.Forced →
        ∃ thread, s.calls thread = .pause) ∧
      (s.Quiet →
        s.flags.autoManaged = true ∨
          s.flags.paused = true) := by
  have hMeets :
      Run.Meets step
        (fun _ action => ∀ thread, action ≠ .resume thread)
        (init flags) actions :=
    Run.meets_of_forall (fun action hIn _ =>
      hToggles action hIn) _
  have hUnforced :=
    Run.invariant_of_meets
      (fun _ _ _ hToggle hUnforced hStep =>
        unforced_step hToggle hUnforced hStep)
      (unforced_init hStart) hMeets hExec
  refine ⟨hUnforced.pausing, ?_⟩
  intro hQuiet
  by_contra hOutside
  simp only [not_or, Bool.not_eq_true] at hOutside
  rcases hUnforced.pausing hOutside with ⟨thread, hPausing⟩
  rw [hQuiet thread] at hPausing
  cases hPausing

/- A managed torrent is toggled by two threads at once. -/
def twoToggles : List ControlAction :=
  [.pauseResume 1, .pauseResume 2, .next 1, .next 2, .next 2,
    .next 1]

theorem never_left_forced_two_toggles :
    ∃ s,
      Run.exec step (init ⟨true, false⟩) twoToggles =
        some s ∧
      s.Quiet ∧
      (s.flags.autoManaged = true ∨
        s.flags.paused = true) := by
  have hToggles :
      ∀ action ∈ twoToggles, ∀ thread,
        action ≠ .resume thread := by
    simp [twoToggles]
  have hRun :
      ∃ s,
        Run.exec step (init ⟨true, false⟩) twoToggles =
          some s ∧
        s.Quiet := by
    refine ⟨_, rfl, ?_⟩
    intro thread
    simp only [init, Function.update_apply]
    split
    · rfl
    · split <;> rfl
  rcases hRun with ⟨s, hExec, hQuiet⟩
  have hUnforced :=
    never_left_forced ⟨true, false⟩ (by decide) twoToggles
      hToggles s hExec
  exact ⟨s, hExec, hQuiet, hUnforced.2 hQuiet⟩

end Controlled

end Sheath

end Kedge

------------------------------------------------------------
-- Modes
------------------------------------------------------------

namespace Kedge

namespace Sheath

/- A torrent as its user knows it. -/
inductive Mode where
  | stopped
  | forced
  | managed
  deriving DecidableEq, Repr

def TorrentFlags.mode (flags : TorrentFlags) : Mode :=
  if flags.autoManaged then .managed
  else if flags.paused then .stopped
  else .forced

/-
  A toggle stops everything but a stopped torrent, which it
  leaves to the queue. Resuming forces a managed torrent and
  leaves every other one to the queue.
-/
def Mode.act : Mode → ModeEvent → Mode
  | .stopped, .pauseResume => .managed
  | _, .pauseResume => .stopped
  | .managed, .resume => .forced
  | _, .resume => .managed
  | .forced, .error => .stopped
  | mode, .error => mode

namespace FlagCall

/- The flags when nothing comes between the calls. -/
def finish
    (call : FlagCall)
    (current : TorrentFlags) : TorrentFlags :=
  let first := call.next current
  (first.2.next first.1).1

theorem finish_next
    (call : FlagCall)
    (current : TorrentFlags) :
    (call.next current).2.finish (call.next current).1 =
      call.finish current := by
  cases call with
  | setInverted flags =>
      rcases flags with ⟨autoManaged, paused⟩
      cases autoManaged <;> cases paused <;> rfl
  | _ => rfl

theorem mode_pauseResumeTorrent
    (flags : TorrentFlags) :
    ((pauseResumeTorrent flags).finish flags).mode =
      flags.mode.act .pauseResume := by
  rcases flags with ⟨autoManaged, paused⟩
  cases autoManaged <;> cases paused <;> rfl

theorem mode_resumeTorrent
    (flags : TorrentFlags) :
    ((resumeTorrent flags).finish flags).mode =
      flags.mode.act .resume := by
  rcases flags with ⟨autoManaged, paused⟩
  cases autoManaged <;> cases paused <;> rfl

end FlagCall

namespace Controlled

/- A call is over before anything else happens. -/
def InTurn (s : Controlled) : ControlAction → Prop
  | .next _ => True
  | _ => s.Quiet

/-
  At most one thread is in a call, and when it is through
  the mode is what the history says.
-/
structure Serial
    (start : Mode)
    (s : Controlled) : Prop where
  alone :
    ∀ thread other,
      s.calls thread ≠ .idle → s.calls other ≠ .idle →
        thread = other
  running :
    ∀ thread,
      ((s.calls thread).finish s.flags).mode =
          s.history.foldl Mode.act start ∨
        s.calls thread = .idle ∧
          ∃ other, s.calls other ≠ .idle

theorem serial_init
    (flags : TorrentFlags) :
    Serial flags.mode (init flags) where
  alone := by
    intro thread other hBusy
    exact absurd rfl hBusy
  running := fun _ => Or.inl rfl

/- Between two calls the mode is what the history says. -/
theorem Serial.mode_of_quiet
    {start : Mode}
    {s : Controlled}
    (hSerial : s.Serial start)
    (hQuiet : s.Quiet) :
    s.flags.mode = s.history.foldl Mode.act start := by
  rcases hSerial.running 0 with hMode | ⟨_, other, hBusy⟩
  · rw [hQuiet 0] at hMode
    exact hMode
  · exact absurd (hQuiet other) hBusy

/- A change of the mode while no thread is in a call. -/
theorem serial_of_quiet
    {start : Mode}
    {s next : Controlled}
    (hQuiet : s.Quiet)
    (hCalls : next.calls = s.calls)
    (hMode :
      next.flags.mode = next.history.foldl Mode.act start) :
    next.Serial start := by
  have hIdle : ∀ thread, next.calls thread = .idle := by
    intro thread
    rw [hCalls]
    exact hQuiet thread
  constructor
  · intro thread other hBusy
    exact absurd (hIdle thread) hBusy
  · intro thread
    left
    rw [hIdle thread]
    exact hMode

/- A call that starts while no thread is in one. -/
theorem serial_start
    {start : Mode}
    {s : Controlled}
    {call : FlagCall}
    {event : ModeEvent}
    (thread : Nat)
    (hSerial : s.Serial start)
    (hQuiet : s.Quiet)
    (hMode :
      (call.finish s.flags).mode =
        s.flags.mode.act event) :
    Serial start
      { s with
        calls := Function.update s.calls thread call
        history := s.history ++ [event] } := by
  have hOther :
      ∀ other, other ≠ thread →
        Function.update s.calls thread call other = .idle := by
    intro other hNe
    rw [Function.update_of_ne hNe]
    exact hQuiet other
  constructor
  · intro first second hFirst hSecond
    have hIn : ∀ other,
        Function.update s.calls thread call other ≠ .idle →
          other = thread := by
      intro other hBusy
      by_contra hNe
      exact hBusy (hOther other hNe)
    rw [hIn first hFirst, hIn second hSecond]
  · have hThread :
        (call.finish s.flags).mode =
          (s.history ++ [event]).foldl Mode.act start := by
      rw [hMode, hSerial.mode_of_quiet hQuiet,
        List.foldl_append]
      rfl
    intro other
    dsimp only
    by_cases hSame : other = thread
    · subst hSame
      rw [Function.update_self]
      exact Or.inl hThread
    · by_cases hDone : call = .idle
      · left
        rw [hOther other hSame]
        subst hDone
        exact hThread
      · right
        refine ⟨hOther other hSame, thread, ?_⟩
        rw [Function.update_self]
        exact hDone

theorem serial_next
    {start : Mode}
    {s : Controlled}
    {thread : Nat}
    (hSerial : s.Serial start)
    (hBusy : s.calls thread ≠ .idle) :
    Serial start
      { s with
        flags := ((s.calls thread).next s.flags).1
        calls :=
          Function.update s.calls thread
            ((s.calls thread).next s.flags).2 } := by
  have hOthers :
      ∀ other, other ≠ thread → s.calls other = .idle := by
    intro other hNe
    by_contra hOther
    exact hNe (hSerial.alone other thread hOther hBusy)
  have hMode :
      (((s.calls thread).next s.flags).2.finish
          ((s.calls thread).next s.flags).1).mode =
        s.history.foldl Mode.act start := by
    rw [FlagCall.finish_next]
    rcases hSerial.running thread with hMode | ⟨hIdle, _⟩
    · exact hMode
    · exact absurd hIdle hBusy
  constructor
  · have hIn : ∀ other,
        Function.update s.calls thread
            ((s.calls thread).next s.flags).2 other ≠
          .idle →
          other = thread := by
      intro other hOther
      by_contra hNe
      rw [Function.update_of_ne hNe] at hOther
      exact hOther (hOthers other hNe)
    intro first second hFirst hSecond
    rw [hIn first hFirst, hIn second hSecond]
  · intro other
    dsimp only
    by_cases hSame : other = thread
    · subst hSame
      rw [Function.update_self]
      exact Or.inl hMode
    · rw [Function.update_of_ne hSame, hOthers other hSame]
      by_cases hDone :
          ((s.calls thread).next s.flags).2 = .idle
      · left
        rw [hDone] at hMode
        exact hMode
      · right
        refine ⟨rfl, thread, ?_⟩
        rw [Function.update_self]
        exact hDone

theorem serial_step
    {start : Mode}
    {s next : Controlled}
    {action : ControlAction}
    (hTurn : s.InTurn action)
    (hSerial : s.Serial start)
    (hStep : s.step action = some next) :
    next.Serial start := by
  cases action with
  | pauseResume thread =>
      rcases Option.ite_none_right_eq_some.mp hStep with
        ⟨_, hNext⟩
      cases hNext
      exact
        serial_start thread hSerial hTurn
          (FlagCall.mode_pauseResumeTorrent s.flags)
  | resume thread =>
      rcases Option.ite_none_right_eq_some.mp hStep with
        ⟨_, hNext⟩
      cases hNext
      exact
        serial_start thread hSerial hTurn
          (FlagCall.mode_resumeTorrent s.flags)
  | next thread =>
      rcases Option.ite_none_left_eq_some.mp hStep with
        ⟨hBusy, hNext⟩
      cases hNext
      exact serial_next hSerial hBusy
  | queue paused =>
      rcases Option.ite_none_right_eq_some.mp hStep with
        ⟨hManaged, hNext⟩
      cases hNext
      refine serial_of_quiet hTurn rfl ?_
      rw [← hSerial.mode_of_quiet hTurn]
      simp [TorrentFlags.mode, hManaged]
  | error =>
      cases hStep
      refine serial_of_quiet hTurn rfl ?_
      rw [List.foldl_append, ← hSerial.mode_of_quiet hTurn]
      rcases s.flags with ⟨autoManaged, paused⟩
      cases autoManaged <;> cases paused <;> rfl

/-
  When the calls come one after the other, the mode of a
  torrent follows from them and from its errors, whatever
  the queue of `libtorrent` does between them.
-/
theorem modes_follow_calls_in_turn
    (flags : TorrentFlags)
    (actions : List ControlAction)
    (hTurns : Run.Meets step InTurn (init flags) actions)
    (s : Controlled)
    (hExec : Run.exec step (init flags) actions = some s)
    (hQuiet : s.Quiet) :
    s.flags.mode =
      s.history.foldl Mode.act flags.mode := by
  have hSerial :=
    Run.invariant_of_meets
      (fun _ _ _ hTurn hSerial hStep =>
        serial_step hTurn hSerial hStep)
      (serial_init flags) hTurns hExec
  exact hSerial.mode_of_quiet hQuiet

theorem quiet_update
    {s : Controlled}
    (hQuiet : s.Quiet)
    (flags : TorrentFlags)
    (first : FlagCall)
    (history : List ModeEvent)
    (thread : Nat) :
    Quiet
      { flags := flags
        calls :=
          Function.update
            (Function.update s.calls thread first) thread
            .idle
        history := history } := by
  intro other
  dsimp only
  rw [Function.update_idem]
  by_cases hSame : other = thread
  · rw [hSame, Function.update_self]
  · rw [Function.update_of_ne hSame]
    exact hQuiet other

/- A managed torrent is forced, and goes on after an error. -/
theorem modes_follow_calls_in_turn_resume :
    ∃ s,
      Run.exec step (init ⟨true, true⟩)
          [.queue false, .resume 1, .next 1, .error] =
        some s ∧
      s.flags.mode =
        [ModeEvent.resume, .error].foldl Mode.act
          .managed := by
  have hStart : (init ⟨true, false⟩).Quiet := fun _ => rfl
  have hTurns :
      Run.Meets step InTurn (init ⟨true, true⟩)
        [.queue false, .resume 1, .next 1, .error] := by
    refine ⟨fun _ => rfl, ?_⟩
    rintro _ ⟨⟩
    refine ⟨fun _ => rfl, ?_⟩
    rintro _ ⟨⟩
    refine ⟨trivial, ?_⟩
    rintro _ ⟨⟩
    refine ⟨quiet_update hStart _ _ _ 1, ?_⟩
    rintro _ ⟨⟩
    trivial
  refine ⟨_, rfl, ?_⟩
  exact
    modes_follow_calls_in_turn ⟨true, true⟩ _ hTurns _ rfl
      (quiet_update hStart _ _ _ 1)

end Controlled

end Sheath

end Kedge
