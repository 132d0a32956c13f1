import Mathlib.Logic.Function.Basic
import Mathlib.Data.List.Perm.Basic
import Kedge.Library.Text
import Kedge.Library.Run

/-
  The sync part of `httpCaller` (`src/handlers.cpp`) with the
  websocket sessions it serves.

  `join` and `leave` hold `mutex_` and are single steps. The
  thread of `doLoop` takes one step for every access to the
  shared members: it counts up `sync_ver`, assigns
  `curr_stats`, builds the message, copies the session list
  under `mutex_`, sends to one session after the other and
  finally assigns `prev_stats`. Between any two of these
  steps sessions may join, expire or leave. `send` posts to
  the strand of a session, which runs its handlers in
  posting order.

  Documents and patches are parameters, so that the protocol
  can be studied apart from JSON. Text frames that a client
  sends, which `on_read` broadcasts as they are, and the
  shutdown are added in `Sync.Hub`.

  Key definitions include:
    * `Format`
    * `Message`
    * `Caller`
    * `Action`
    * `Caller.step`
    * `Caller.Next`
-/

------------------------------------------------------------
-- Messages
------------------------------------------------------------

namespace Kedge

namespace Sync

/-
  The document operations `httpCaller` uses: the null value,
  its test and the difference of two documents.
-/
structure Format (D P : Type) where
  null : D
  isNull : D → Bool
  isNull_iff :
    ∀ document, isNull document = true ↔ document = null
  diff : D → D → P

/- The identity of a websocket session. -/
abbrev SessionId := Nat

/-
  A message to a client: the whole document sent by `join`,
  or the patch sent by `doLoop`. A delta records the two
  documents its patch was computed from, which are not part
  of the serialized message.
-/
inductive Message (D P : Type) where
  | snapshot (version : UInt64) (id : Str) (body : D)
  | delta (version : UInt64) (base target : D) (body : P)

/- The document a client is meant to hold after a message. -/
def Message.target {D P : Type} : Message D P → D
  | .snapshot _ _ body => body
  | .delta _ _ target _ => target

/- `n2hex` of a `std::uint32_t`. -/
def n2hex (number : Nat) : Str :=
  Text.hexDigits 8 number

end Sync

end Kedge

------------------------------------------------------------
-- States
------------------------------------------------------------

namespace Kedge

namespace Sync

/-
  The life of a session: it is live from its `join` until
  the last `shared_ptr` is gone, then expired until its
  destructor has called `leave`.
-/
inductive Life where
  | unborn
  | live
  | expired
  | gone
  deriving DecidableEq, Repr

/- Where the thread of `doLoop` stands in its pass. -/
inductive Pass (D P : Type) where
  | idle
  | entered
  | counted
  | assigned
  | built (message : Message D P)
  | sending (message : Message D P)
      (targets : List SessionId)

/- What happened under `mutex_`, in order. -/
inductive Event (D P : Type) where
  | joined (session : SessionId) (message : Message D P)
  | copied (message : Message D P)
  | left (session : SessionId)

/-
  `sessions` to `currStats` are the shared members,
  `life` to `onSend` the state of the sessions: the handlers
  posted to a strand and the messages given to `on_send`.
  `history` only records what happened.
-/
structure Caller (D P : Type) where
  sessions : List SessionId
  syncVer : UInt64
  prevStats : D
  currStats : D
  pass : Pass D P
  life : SessionId → Life
  strand : SessionId → List (Message D P)
  onSend : SessionId → List (Message D P)
  history : List (Event D P)

namespace Caller

variable {D P : Type}

def init (f : Format D P) : Caller D P where
  sessions := []
  syncVer := 0
  prevStats := f.null
  currStats := f.null
  pass := .idle
  life := fun _ => .unborn
  strand := fun _ => []
  onSend := fun _ => []
  history := []

/- All messages posted to a session, oldest first. -/
def posted
    (s : Caller D P)
    (session : SessionId) : List (Message D P) :=
  s.onSend session ++ s.strand session

end Caller

end Sync

end Kedge

------------------------------------------------------------
-- Steps
------------------------------------------------------------

namespace Kedge

namespace Sync

/-
  The steps of the system. `stats` is the document that
  `getSyncStats` returns, `random` the number drawn by
  `randNum`, and `order` the order in which the unordered
  set of sessions is copied.
-/
inductive Action (D : Type) where
  | join (session : SessionId) (qid : Str) (random : Nat)
      (stats : D)
  | release (session : SessionId)
  | leave (session : SessionId)
  | runStrand (session : SessionId)
  | skip
  | enter
  | count
  | assign (stats : D)
  | build
  | copy (order : List SessionId)
  | send
  | finish

/- One pass of `doLoop` that sends to the listed sessions. -/
def passActions
    {D : Type}
    (stats : D)
    (order : List SessionId) : List (Action D) :=
  [.enter, .count, .assign stats, .build, .copy order] ++
    order.map (fun _ => .send) ++ [.finish]

namespace Caller

variable {D P : Type}

/- `websocket_session::send`: post to the session's strand. -/
def post
    (s : Caller D P)
    (session : SessionId)
    (message : Message D P) : Caller D P :=
  { s with
    strand := Function.update s.strand session
      (s.strand session ++ [message]) }

/- `curr_stats` after the null test of `join`. -/
def statsForJoin
    (f : Format D P)
    (s : Caller D P)
    (stats : D) : D :=
  if f.isNull s.currStats then stats else s.currStats

/- The message that `join` sends. -/
def joinMessage
    (f : Format D P)
    (s : Caller D P)
    (qid : Str)
    (random : Nat)
    (stats : D) : Message D P :=
  .snapshot (s.syncVer + 1)
    (if qid = [] then n2hex random else qid)
    (s.statsForJoin f stats)

/- `httpCaller::join`. -/
def join
    (f : Format D P)
    (s : Caller D P)
    (session : SessionId)
    (qid : Str)
    (random : Nat)
    (stats : D) : Caller D P :=
  let message := s.joinMessage f qid random stats
  { s.post session message with
    sessions := session :: s.sessions
    syncVer := s.syncVer + 1
    currStats := s.statsForJoin f stats
    life := Function.update s.life session .live
    history := s.history ++ [.joined session message] }

/- The last reference to a session is dropped. -/
def release
    (s : Caller D P)
    (session : SessionId) : Caller D P :=
  { s with
    life := Function.update s.life session .expired }

/- `httpCaller::leave`, called by the destructor. -/
def leave
    (s : Caller D P)
    (session : SessionId) : Caller D P :=
  { s with
    sessions := s.sessions.erase session
    life := Function.update s.life session .gone
    history := s.history ++ [.left session] }

/- The strand runs the handler that was posted first. -/
def runStrand
    (s : Caller D P)
    (session : SessionId)
    (message : Message D P)
    (rest : List (Message D P)) : Caller D P :=
  { s with
    strand := Function.update s.strand session rest
    onSend := Function.update s.onSend session
      (s.onSend session ++ [message]) }

/- The message that `doLoop` builds. -/
def loopMessage
    (f : Format D P)
    (s : Caller D P) : Message D P :=
  .delta s.syncVer s.prevStats s.currStats
    (f.diff s.prevStats s.currStats)

/-
  One step. A session joins once, as its `on_accept` runs
  once. A session expires only when no handler that owns a
  `shared_ptr` to it waits on its strand. `getSyncStats`
  never returns null.
-/
def step
    (f : Format D P)
    (s : Caller D P) :
    Action D → Option (Caller D P)
  | .join session qid random stats =>
      if s.life session = .unborn ∧ f.isNull stats = false ∧
          1000 ≤ random ∧ random ≤ 9999 then
        some (s.join f session qid random stats)
      else none
  | .release session =>
      if s.life session = .live ∧
          (s.strand session).isEmpty then
        some (s.release session)
      else none
  | .leave session =>
      if s.life session = .expired then
        some (s.leave session)
      else none
  | .runStrand session =>
      match s.strand session with
      | message :: rest =>
          some (s.runStrand session message rest)
      | [] => none
  | .skip =>
      match s.pass with
      | .idle => if s.sessions = [] then some s else none
      | _ => none
  | .enter =>
      match s.pass with
      | .idle =>
          if s.sessions = [] then none
          else some { s with pass := .entered }
      | _ => none
  | .count =>
      match s.pass with
      | .entered =>
          some { s with
            syncVer := s.syncVer + 1
            pass := .counted }
      | _ => none
  | .assign stats =>
      match s.pass with
      | .counted =>
          if f.isNull stats = false then
            some { s with
              currStats := stats
              pass := .assigned }
          else none
      | _ => none
  | .build =>
      match s.pass with
      | .assigned =>
          some { s with pass := .built (s.loopMessage f) }
      | _ => none
  | .copy order =>
      match s.pass with
      | .built message =>
          if order.isPerm s.sessions then
            some { s with
              pass := .sending message order
              history := s.history ++ [.copied message] }
          else none
      | _ => none
  | .send =>
      match s.pass with
      | .sending message (session :: targets) =>
          if s.life session = .live then
            some { s.post session message with
              pass := .sending message targets }
          else
            some { s with pass := .sending message targets }
      | _ => none
  | .finish =>
      match s.pass with
      | .sending _ [] =>
          some { s with
            prevStats := s.currStats
            pass := .idle }
      | _ => none

end Caller

end Sync

end Kedge

------------------------------------------------------------
-- What One Step Can Do
------------------------------------------------------------

namespace Kedge

namespace Sync

namespace Caller

variable {D P : Type}

/-
  The steps as a relation, one rule for each way a step can
  go. Sending has two: an expired session is passed over.
-/
inductive Next
    (f : Format D P)
    (s : Caller D P) :
    Action D → Caller D P → Prop where
  | join {session qid random stats}
      (hLife : s.life session = .unborn)
      (hStats : f.isNull stats = false) :
      Next f s (.join session qid random stats)
        (s.join f session qid random stats)
  | release {session}
      (hLife : s.life session = .live)
      (hStrand : s.strand session = []) :
      Next f s (.release session) (s.release session)
  | leave {session}
      (hLife : s.life session = .expired) :
      Next f s (.leave session) (s.leave session)
  | runStrand {session message rest}
      (hStrand : s.strand session = message :: rest) :
      Next f s (.runStrand session)
        (s.runStrand session message rest)
  | skip
      (hPass : s.pass = .idle)
      (hSessions : s.sessions = []) :
      Next f s .skip s
  | enter
      (hPass : s.pass = .idle)
      (hSessions : s.sessions ≠ []) :
      Next f s .enter { s with pass := .entered }
  | count
      (hPass : s.pass = .entered) :
      Next f s .count
        { s with syncVer := s.syncVer + 1, pass := .counted }
  | assign {stats}
      (hPass : s.pass = .counted)
      (hStats : f.isNull stats = false) :
      Next f s (.assign stats)
        { s with currStats := stats, pass := .assigned }
  | build
      (hPass : s.pass = .assigned) :
      Next f s .build
        { s with pass := .built (s.loopMessage f) }
  | copy {message order}
      (hPass : s.pass = .built message)
      (hOrder : order.Perm s.sessions) :
      Next f s (.copy order)
        { s with
          pass := .sending message order
          history := s.history ++ [.copied message] }
  | send {message session targets}
      (hPass : s.pass = .sending message (session :: targets))
      (hLife : s.life session = .live) :
      Next f s .send
        { s.post session message with
          pass := .sending message targets }
  | passOver {message session targets}
      (hPass : s.pass = .sending message (session :: targets))
      (hLife : s.life session ≠ .live) :
      Next f s .send
        { s with pass := .sending message targets }
  | finish {message}
      (hPass : s.pass = .sending message []) :
      Next f s .finish
        { s with prevStats := s.currStats, pass := .idle }

/- Every step follows one of the rules. -/
theorem next_of_step
    {f : Format D P}
    {s next : Caller D P}
    {action : Action D}
    (hStep : s.step f action = some next) :
    Next f s action next := by
  cases action with
  | join session qid random stats =>
      simp only [step, Option.ite_none_right_eq_some] at hStep
      rcases hStep with ⟨⟨hLife, hStats, _⟩, hNext⟩
      cases hNext
      exact .join hLife hStats
  | release session =>
      simp only [step, Option.ite_none_right_eq_some,
        List.isEmpty_iff] at hStep
      rcases hStep with ⟨⟨hLife, hStrand⟩, hNext⟩
      cases hNext
      exact .release hLife hStrand
  | leave session =>
      simp only [step, Option.ite_none_right_eq_some] at hStep
      rcases hStep with ⟨hLife, hNext⟩
      cases hNext
      exact .leave hLife
  | runStrand session =>
      simp only [step] at hStep
      split at hStep
      · next message rest hStrand =>
        cases hStep
        exact .runStrand hStrand
      · cases hStep
  | skip =>
      simp only [step] at hStep
      split at hStep
      · next hPass =>
        rcases Option.ite_none_right_eq_some.mp hStep with
          ⟨hSessions, hNext⟩
        cases hNext
        exact .skip hPass hSessions
      · cases hStep
  | enter =>
      simp only [step] at hStep
      split at hStep
      · next hPass =>
        rcases Option.ite_none_left_eq_some.mp hStep with
          ⟨hSessions, hNext⟩
        cases hNext
        exact .enter hPass hSessions
      · cases hStep
  | count =>
      simp only [step] at hStep
      split at hStep
      · next hPass =>
        cases hStep
        exact .count hPass
      · cases hStep
  | assign stats =>
      simp only [step] at hStep
      split at hStep
      · next hPass =>
        rcases Option.ite_none_right_eq_some.mp hStep with
          ⟨hStats, hNext⟩
        cases hNext
        exact .assign hPass hStats
      · cases hStep
  | build =>
      simp only [step] at hStep
      split at hStep
      · next hPass =>
        cases hStep
        exact .build hPass
      · cases hStep
  | copy order =>
      simp only [step] at hStep
      split at hStep
      · next message hPass =>
        rcases Option.ite_none_right_eq_some.mp hStep with
          ⟨hOrder, hNext⟩
        cases hNext
        exact .copy hPass (List.isPerm_iff.mp hOrder)
      · cases hStep
  | send =>
      simp only [step] at hStep
      split at hStep
      · next message session targets hPass =>
        by_cases hLife : s.life session = .live
        · rw [if_pos hLife] at hStep
          cases hStep
          exact .send hPass hLife
        · rw [if_neg hLife] at hStep
          cases hStep
          exact .passOver hPass hLife
      · cases hStep
  | finish =>
      simp only [step] at hStep
      split at hStep
      · next hPass =>
        cases hStep
        exact .finish hPass
      · cases hStep

end Caller

end Sync

end Kedge

------------------------------------------------------------
-- Posted Messages after a Step
------------------------------------------------------------

namespace Kedge

namespace Sync

namespace Caller

variable {D P : Type}

theorem posted_post_self
    (s : Caller D P)
    (session : SessionId)
    (message : Message D P) :
    (s.post session message).posted session =
      s.posted session ++ [message] := by
  simp [posted, post]

theorem posted_post_of_ne
    (s : Caller D P)
    {session other : SessionId}
    (message : Message D P)
    (hOther : other ≠ session) :
    (s.post session message).posted other =
      s.posted other := by
  simp [posted, post, hOther]

/- Running a strand moves a message but posts none. -/
theorem posted_runStrand
    (s : Caller D P)
    {session : SessionId}
    {message : Message D P}
    {rest : List (Message D P)}
    (hStrand : s.strand session = message :: rest)
    (other : SessionId) :
    (s.runStrand session message rest).posted other =
      s.posted other := by
  by_cases hOther : other = session
  · subst hOther
    simp [posted, runStrand, hStrand]
  · simp [posted, runStrand, hOther]

end Caller

end Sync

end Kedge

------------------------------------------------------------
-- Bookkeeping of Sessions
------------------------------------------------------------

namespace Kedge

namespace Sync

namespace Caller

variable {D P : Type}

/-
  The session list holds exactly the sessions that joined
  and have not left, each once; a pass sends to each of its
  targets once; nothing was posted to a session that has
  not joined.
-/
structure Tracked (s : Caller D P) : Prop where
  nodup : s.sessions.Nodup
  member :
    ∀ w, w ∈ s.sessions ↔
      s.life w = .live ∨ s.life w = .expired
  targets :
    ∀ message targets,
      s.pass = .sending message targets →
        targets.Nodup ∧ ∀ w ∈ targets, s.life w ≠ .unborn
  fresh : ∀ w, s.life w = .unborn → s.posted w = []

theorem tracked_init
    (f : Format D P) :
    Tracked (init f) where
  nodup := List.nodup_nil
  member := by simp [init]
  targets := by
    intro message targets hPass
    cases hPass
  fresh := by
    intro w _
    rfl

/- Only the pass changes, and it is not sending. -/
theorem Tracked.of_pass
    {s next : Caller D P}
    (hTracked : Tracked s)
    (hSessions : next.sessions = s.sessions)
    (hLife : next.life = s.life)
    (hPosted : ∀ w, next.posted w = s.posted w)
    (hTargets :
      ∀ message targets,
        next.pass = .sending message targets →
          targets.Nodup ∧
            ∀ w ∈ targets, s.life w ≠ .unborn) :
    Tracked next where
  nodup := by
    rw [hSessions]
    exact hTracked.nodup
  member := by
    rw [hSessions, hLife]
    exact hTracked.member
  targets := by
    rw [hLife]
    exact hTargets
  fresh := by
    intro w hUnborn
    rw [hPosted]
    exact hTracked.fresh w (hLife ▸ hUnborn)

theorem Tracked.not_mem_of_unborn
    {s : Caller D P}
    (hTracked : Tracked s)
    {w : SessionId}
    (hLife : s.life w = .unborn) :
    w ∉ s.sessions := by
  rw [hTracked.member, hLife]
  simp

/-
  One session begins or ends its life. The pass and what was
  posted to the others stay as they are.
-/
theorem Tracked.of_life
    {s next : Caller D P}
    {session : SessionId}
    (hTracked : Tracked s)
    (hPass : next.pass = s.pass)
    (hBorn : next.life session ≠ .unborn)
    (hOther :
      ∀ w, w ≠ session →
        next.life w = s.life w ∧ next.posted w = s.posted w)
    (hNodup : next.sessions.Nodup)
    (hMember :
      ∀ w, w ∈ next.sessions ↔
        next.life w = .live ∨ next.life w = .expired) :
    Tracked next where
  nodup := hNodup
  member := hMember
  targets := by
    intro message targets hSending
    rw [hPass] at hSending
    rcases hTracked.targets message targets hSending with
      ⟨hNodup, hAlive⟩
    refine ⟨hNodup, ?_⟩
    intro w hW
    by_cases hSame : w = session
    · rw [hSame]
      exact hBorn
    · rw [(hOther w hSame).1]
      exact hAlive w hW
  fresh := by
    intro w hUnborn
    have hSame : w ≠ session := by
      rintro rfl
      exact hBorn hUnborn
    rcases hOther w hSame with ⟨hLife, hPosted⟩
    rw [hPosted]
    exact hTracked.fresh w (hLife ▸ hUnborn)

theorem tracked_join
    {f : Format D P}
    {s : Caller D P}
    {session : SessionId}
    {qid : Str}
    {random : Nat}
    {stats : D}
    (hTracked : Tracked s)
    (hLife : s.life session = .unborn) :
    Tracked (s.join f session qid random stats) := by
  have hBorn :
      (s.join f session qid random stats).life session ≠
        .unborn := by
    simp [join, post]
  refine hTracked.of_life rfl hBorn ?_ ?_ ?_
  · intro w hW
    exact
      ⟨by simp [join, post, hW], posted_post_of_ne s _ hW⟩
  · exact List.nodup_cons.mpr
      ⟨hTracked.not_mem_of_unborn hLife, hTracked.nodup⟩
  · intro w
    by_cases hW : w = session
    · simp [join, post, hW]
    · simpa [join, post, hW] using hTracked.member w

/- Ending the life of a session. -/
theorem tracked_release
    {s : Caller D P}
    {session : SessionId}
    (hTracked : Tracked s)
    (hLife : s.life session = .live) :
    Tracked (s.release session) := by
  have hBorn : (s.release session).life session ≠ .unborn := by
    simp [release]
  refine hTracked.of_life rfl hBorn ?_ hTracked.nodup ?_
  · intro w hW
    exact ⟨by simp [release, hW], rfl⟩
  · intro w
    by_cases hW : w = session
    · subst hW
      simp [release, hTracked.member, hLife]
    · simpa [release, hW] using hTracked.member w

theorem tracked_leave
    {s : Caller D P}
    {session : SessionId}
    (hTracked : Tracked s) :
    Tracked (s.leave session) := by
  have hBorn : (s.leave session).life session ≠ .unborn := by
    simp [leave]
  refine hTracked.of_life rfl hBorn ?_
    (hTracked.nodup.erase session) ?_
  · intro w hW
    exact ⟨by simp [leave, hW], rfl⟩
  · intro w
    by_cases hW : w = session
    · subst hW
      simp [leave, hTracked.nodup.mem_erase_iff]
    · simpa [leave, hW, hTracked.nodup.mem_erase_iff] using
        hTracked.member w

/- The targets behind the first one. -/
theorem Tracked.rest
    {s : Caller D P}
    {message : Message D P}
    {session : SessionId}
    {targets : List SessionId}
    (hTracked : Tracked s)
    (hPass : s.pass = .sending message (session :: targets)) :
    targets.Nodup ∧ ∀ w ∈ targets, s.life w ≠ .unborn := by
  rcases hTracked.targets _ _ hPass with ⟨hNodup, hAlive⟩
  exact
    ⟨(List.nodup_cons.mp hNodup).2,
      fun w hW => hAlive w (List.mem_cons_of_mem _ hW)⟩

/- The bookkeeping survives every step. -/
theorem tracked_step
    {f : Format D P}
    {s next : Caller D P}
    {action : Action D}
    (hTracked : Tracked s)
    (hStep : s.step f action = some next) :
    Tracked next := by
  cases next_of_step hStep with
  | join hLife _ => exact tracked_join hTracked hLife
  | release hLife _ => exact tracked_release hTracked hLife
  | leave _ => exact tracked_leave hTracked
  | runStrand hStrand =>
      exact hTracked.of_pass rfl rfl
        (posted_runStrand s hStrand) hTracked.targets
  | skip _ _ => exact hTracked
  | copy hPass hOrder =>
      refine hTracked.of_pass (by rfl) (by rfl)
        (by intro; rfl) ?_
      intro message targets hSending
      cases hSending
      refine ⟨hOrder.nodup_iff.mpr hTracked.nodup, ?_⟩
      intro w hW
      rw [hOrder.mem_iff, hTracked.member] at hW
      rcases hW with hLive | hExpired
      · simp [hLive]
      · simp [hExpired]
  | @send message session targets hPass hLife =>
      have hAlive := (hTracked.targets _ _ hPass).2
      refine
        { nodup := hTracked.nodup
          member := hTracked.member
          targets := ?_
          fresh := ?_ }
      · intro message' targets' hSending
        cases hSending
        exact hTracked.rest hPass
      · intro w hUnborn
        have hW : w ≠ session := by
          rintro rfl
          exact hAlive w (by simp) hUnborn
        have hPosted := posted_post_of_ne s message hW
        exact hPosted.trans (hTracked.fresh w hUnborn)
  | passOver hPass _ =>
      refine hTracked.of_pass (by rfl) (by rfl)
        (by intro; rfl) ?_
      intro message' targets' hSending
      cases hSending
      exact hTracked.rest hPass
  | _ =>
      refine hTracked.of_pass (by rfl) (by rfl)
        (by intro; rfl) ?_
      intro message targets hSending
      cases hSending

theorem tracked_of_exec
    {f : Format D P}
    {actions : List (Action D)}
    {s : Caller D P}
    (hExec : Run.exec (step f) (init f) actions = some s) :
    Tracked s :=
  Run.invariant
    (fun _ _ _ hTracked hStep => tracked_step hTracked hStep)
    (tracked_init f) hExec

/- A joining session is posted its snapshot and no more. -/
theorem posted_join_self
    {f : Format D P}
    {s : Caller D P}
    (hTracked : s.Tracked)
    {session : SessionId}
    (hLife : s.life session = .unborn)
    (qid : Str)
    (random : Nat)
    (stats : D) :
    (s.join f session qid random stats).posted session =
      [s.joinMessage f qid random stats] := by
  have hPosted :=
    posted_post_self s session
      (s.joinMessage f qid random stats)
  rw [hTracked.fresh session hLife] at hPosted
  exact hPosted

theorem posted_join_of_ne
    {f : Format D P}
    {s : Caller D P}
    {session other : SessionId}
    (hOther : other ≠ session)
    (qid : Str)
    (random : Nat)
    (stats : D) :
    (s.join f session qid random stats).posted other =
      s.posted other :=
  posted_post_of_ne s _ hOther

end Caller

end Sync

end Kedge
