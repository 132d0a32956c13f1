import Mathlib.Data.List.Chain
import Kedge.Library.Directory
import Kedge.Library.Run
import Kedge.Library.Text
import Kedge.Sheath.AddTorrent

/-
  The watched directory: `scan_dir` and its timer in
  `sheath::doLoop`.

  A scan passes every torrent file to `add_torrent` and
  removes it when that returns true. The directory is shared
  with its users, who put files there, also over others, and
  take them back between any two steps of a scan. The scan
  removes by name: what lies under the name of the file in
  hand by then is gone, be it another file. An error of
  `fs::remove` is an exception that nobody catches: the
  program is gone, and the file is still there when it
  starts again.

  Key definitions include:
    * `pathExtension`
    * `Watch`
    * `Watch.step`
    * `Watch.Stepped`
    * `Watch.Booked`

  Main theorems include:
    * `Watch.stepped_of_step`
    * `Watch.watched_files_submitted_once`
-/

------------------------------------------------------------
-- The Watched Directory
------------------------------------------------------------

namespace Kedge

namespace Sheath

/- `sheath::dir_watches`. -/
def dirWatches (dirConf : Str) : Str :=
  pathAppend dirConf watchDir

/- `extension()` of an `fs::path` that is a file name. -/
def pathExtension (name : Str) : Str :=
  if name = Posix.dotdot then []
  else
    match Text.rfind '.' name with
    | none => []
    | some 0 => []
    | some pos => name.drop pos

def torrentExt : Str := ".torrent".toList

/- `WATCH_INTERVAL` in the nanoseconds of the clock. -/
def watchInterval : Int := 2000000000

/- A call of `add_torrent` that returned true. -/
structure Submission where
  name : Str
  file : Nat
  params : TorrentParams

/-
  `inHand` is the file that was added and is not removed
  yet. The last five fields only record what happened: the
  times of the scans since the start, the files that users
  took back or replaced, the calls of `add_torrent` that
  returned true, the files that were in hand when the
  program was gone, and the files that were removed in the
  place of the one in hand.
-/
structure Watch where
  dir : Directory Str
  nextDirScan : Int
  isScanning : Bool
  inHand : Option (Str × Nat)
  isCrashed : Bool
  scans : List Int
  taken : List Nat
  submitted : List Submission
  interrupted : List Nat
  mistaken : List Nat

/- How `fs::remove` ends when the file exists. -/
inductive UnlinkOutcome where
  | removed
  | throws
  deriving DecidableEq, Repr

/-
  The steps of the users, of the session thread, and the end
  of the program with its next start. A directory that
  cannot be listed has no entries. A file that is written
  over is replaced by a new one, and one that gets another
  name is taken and put there again.
-/
inductive WatchAction where
  | put (name : Str)
  | take (name : Str)
  | pass (now : Int) (listed : Bool)
  | entry (name : Str) (ctx : AddContext)
  | remove (outcome : UnlinkOutcome)
  | scanDone
  | restart (now : Int)

namespace Watch

def init (dir : Directory Str) (now : Int) : Watch where
  dir := dir
  nextDirScan := now
  isScanning := false
  inHand := none
  isCrashed := false
  scans := []
  taken := []
  submitted := []
  interrupted := []
  mistaken := []

/- The check of the timer at the end of `sheath::doLoop`. -/
def pass (s : Watch) (now : Int) (listed : Bool) : Watch :=
  if s.nextDirScan < now then
    { s with
      isScanning := listed
      scans := s.scans ++ [now]
      nextDirScan := now + watchInterval }
  else s

/- One round of the loop of `sheath::scan_dir`. -/
def entry
    (s : Watch)
    (name : Str)
    (ctx : AddContext) : Watch :=
  if pathExtension name ≠ torrentExt then s
  else
    match s.dir.file name with
    | none => s
    | some file =>
        match ctx.addTorrentFile
            (pathAppend (dirWatches ctx.dirConf) name) with
        | none => s
        | some params =>
            { s with
              inHand := some (name, file)
              submitted :=
                s.submitted ++ [⟨name, file, params⟩] }

/-
  `fs::remove` under the name of the file in hand, whatever
  file is there by then.
-/
def remove
    (s : Watch)
    (name : Str)
    (file : Nat)
    (outcome : UnlinkOutcome) : Watch :=
  match s.dir.file name with
  | none => { s with inHand := none }
  | some other =>
      match outcome with
      | .removed =>
          { s with
            dir := s.dir.clear name
            inHand := none
            mistaken :=
              if other = file then s.mistaken
              else s.mistaken ++ [other] }
      | .throws => { s with isCrashed := true }

def step (s : Watch) : WatchAction → Option Watch
  | .put name =>
      some
        { s with
          dir := s.dir.put name
          taken := s.taken ++ (s.dir.file name).toList }
  | .take name =>
      match s.dir.file name with
      | some file =>
          some
            { s with
              dir := s.dir.clear name
              taken := s.taken ++ [file] }
      | none => none
  | .pass now listed =>
      if s.isScanning = false ∧ s.isCrashed = false then
        some (s.pass now listed)
      else none
  | .entry name ctx =>
      if s.isScanning = true ∧ s.inHand = none then
        some (s.entry name ctx)
      else none
  | .remove outcome =>
      match s.inHand with
      | some (name, file) =>
          if s.isCrashed = false then
            some (s.remove name file outcome)
          else none
      | none => none
  | .scanDone =>
      if s.isScanning = true ∧ s.inHand = none then
        some { s with isScanning := false }
      else none
  | .restart now =>
      some
        { init s.dir now with
          taken := s.taken
          submitted := s.submitted
          interrupted :=
            s.interrupted ++ (s.inHand.map Prod.snd).toList
          mistaken := s.mistaken }

/- How often a file was submitted. -/
def submissions (s : Watch) (file : Nat) : Nat :=
  (s.submitted.map Submission.file).count file

def IsInHand (s : Watch) (file : Nat) : Prop :=
  ∃ name, s.inHand = some (name, file)

end Watch

/- Whether a user puts a file there. -/
def WatchAction.puts : WatchAction → Bool
  | .put _ => true
  | _ => false

/- No user puts a file under the name of the one in hand. -/
def WatchAction.SparesHand
    (s : Watch)
    (action : WatchAction) : Prop :=
  ∀ name file, s.inHand = some (name, file) →
    action ≠ .put name

end Sheath

end Kedge

------------------------------------------------------------
-- What a Step Does
------------------------------------------------------------

namespace Kedge

namespace Sheath

namespace Watch

/-
  The ways a step can go, with what is known of the state
  before it. A step without effect puts no file there.
-/
inductive Stepped
    (s : Watch) : WatchAction → Watch → Prop where
  | quiet {action}
      (hPuts : action.puts = false) :
      Stepped s action s
  | put (name : Str) :
      Stepped s (.put name)
        { s with
          dir := s.dir.put name
          taken := s.taken ++ (s.dir.file name).toList }
  | take {name file}
      (hThere : s.dir.file name = some file) :
      Stepped s (.take name)
        { s with
          dir := s.dir.clear name
          taken := s.taken ++ [file] }
  | scan {now} (listed : Bool)
      (hDue : s.nextDirScan < now) :
      Stepped s (.pass now listed)
        { s with
          isScanning := listed
          scans := s.scans ++ [now]
          nextDirScan := now + watchInterval }
  | submit {name file ctx} (params : TorrentParams)
      (hHand : s.inHand = none)
      (hTorrent : pathExtension name = torrentExt)
      (hThere : s.dir.file name = some file) :
      Stepped s (.entry name ctx)
        { s with
          inHand := some (name, file)
          submitted := s.submitted ++ [⟨name, file, params⟩] }
  | gone {name file outcome}
      (hHand : s.inHand = some (name, file))
      (hGone : s.dir.file name = none) :
      Stepped s (.remove outcome) { s with inHand := none }
  | unlink {name file other}
      (hHand : s.inHand = some (name, file))
      (hThere : s.dir.file name = some other) :
      Stepped s (.remove .removed)
        { s with
          dir := s.dir.clear name
          inHand := none
          mistaken :=
            if other = file then s.mistaken
            else s.mistaken ++ [other] }
  | crash :
      Stepped s (.remove .throws) { s with isCrashed := true }
  | scanDone :
      Stepped s .scanDone { s with isScanning := false }
  | restart (now : Int) :
      Stepped s (.restart now)
        { init s.dir now with
          taken := s.taken
          submitted := s.submitted
          interrupted :=
            s.interrupted ++ (s.inHand.map Prod.snd).toList
          mistaken := s.mistaken }

variable {s next : Watch}
variable {action : WatchAction}

theorem stepped_entry
    (hHand : s.inHand = none)
    (name : Str)
    (ctx : AddContext) :
    Stepped s (.entry name ctx) (s.entry name ctx) := by
  unfold entry
  split
  · exact .quiet rfl
  · next hTorrent =>
    split
    · exact .quiet rfl
    · next file hThere =>
      split
      · exact .quiet rfl
      · next params _ =>
        exact
          .submit params hHand (not_not.mp hTorrent) hThere

theorem stepped_remove
    {name : Str}
    {file : Nat}
    (hHand : s.inHand = some (name, file))
    (outcome : UnlinkOutcome) :
    Stepped s (.remove outcome)
      (s.remove name file outcome) := by
  unfold remove
  split
  · next hGone => exact .gone hHand hGone
  · next other hThere =>
    cases outcome with
    | removed => exact .unlink hHand hThere
    | throws => exact .crash

theorem stepped_of_step
    (hStep : s.step action = some next) :
    Stepped s action next := by
  cases action with
  | put name =>
      cases hStep
      exact .put name
  | take name =>
      simp only [step] at hStep
      split at hStep
      · next hThere =>
        cases hStep
        exact .take hThere
      · cases hStep
  | pass now listed =>
      rcases Option.ite_none_right_eq_some.mp hStep with
        ⟨_, hNext⟩
      cases hNext
      unfold pass
      split
      · next hDue => exact .scan listed hDue
      · exact .quiet rfl
  | entry name ctx =>
      rcases Option.ite_none_right_eq_some.mp hStep with
        ⟨⟨_, hHand⟩, hNext⟩
      cases hNext
      exact stepped_entry hHand name ctx
  | remove outcome =>
      simp only [step] at hStep
      split at hStep
      · next name file hHand =>
        rcases Option.ite_none_right_eq_some.mp hStep with
          ⟨_, hNext⟩
        cases hNext
        exact stepped_remove hHand outcome
      · cases hStep
  | scanDone =>
      rcases Option.ite_none_right_eq_some.mp hStep with
        ⟨_, hNext⟩
      cases hNext
      exact .scanDone
  | restart now =>
      cases hStep
      exact .restart now

/- Files are numbered as they are put there. -/
theorem count_step
    (hStep : s.step action = some next) :
    next.dir.count = s.dir.count + action.puts.toNat := by
  cases stepped_of_step hStep with
  | quiet hPuts =>
      rw [hPuts]
      rfl
  | _ => rfl

/- Every file beyond the first ones was put there. -/
theorem count_of_exec
    {start : Directory Str}
    {now : Int}
    {actions : List WatchAction}
    (hExec :
      Run.exec step (init start now) actions = some s) :
    s.dir.count = start.count + actions.countP (·.puts) := by
  have hKeep :
      ∀ past (s : Watch) action next,
        s.dir.count = start.count + past.countP (·.puts) →
          s.step action = some next →
            next.dir.count =
              start.count +
                (past ++ [action]).countP (·.puts) := by
    intro past s action next hCount hStep
    rw [count_step hStep, hCount, List.countP_append,
      List.countP_singleton, Nat.add_assoc]
    cases action.puts <;> rfl
  exact Run.invariant_of_past hKeep rfl hExec

end Watch

end Sheath

end Kedge

------------------------------------------------------------
-- The Books of One File
------------------------------------------------------------

namespace Kedge

namespace Sheath

namespace Watch

/- A file that is there, or what became of it. -/
def Accounted (s : Watch) (file : Nat) : Prop :=
  s.dir.Has file ∨
    file ∈ s.taken ∨
    0 < s.submissions file ∨
    file ∈ s.mistaken

/-
  What holds of one file after any number of steps. A file
  in hand was submitted and lies under its own name, if it
  is still there. Every submission but one was interrupted,
  and that one too while the file is there and not in hand.
-/
structure Booked
    (start : Directory Str)
    (file : Nat)
    (s : Watch) : Prop where
  grown : start.count ≤ s.dir.count
  named :
    ∀ {name other}, s.inHand = some (name, file) →
      s.dir.file other = some file → other = name
  handed : s.IsInHand file → 0 < s.submissions file
  fresh : s.dir.count ≤ file → s.submissions file = 0
  kept :
    start.Has file ∨ start.count ≤ file →
      file < s.dir.count → s.Accounted file
  once : s.submissions file ≤ 1 + s.interrupted.count file
  there :
    s.dir.Has file → ¬ s.IsInHand file →
      s.submissions file ≤ s.interrupted.count file

variable {start : Directory Str}
variable {file : Nat}
variable {s next : Watch}
variable {action : WatchAction}

theorem booked_init
    (start : Directory Str)
    (now : Int)
    (file : Nat) :
    Booked start file (init start now) where
  grown := Nat.le_refl _
  named := nofun
  handed := nofun
  fresh := fun _ => rfl
  kept := by
    rintro (hThere | hLater) hBound
    · exact Or.inl hThere
    · exact absurd hBound (Nat.not_lt.mpr hLater)
  once := Nat.zero_le _
  there := fun _ _ => Nat.zero_le _

/- What the users put over a file was taken. -/
theorem booked_put
    (hBooked : Booked start file s)
    (name : Str) :
    Booked start file
      { s with
        dir := s.dir.put name
        taken := s.taken ++ (s.dir.file name).toList } where
  grown := Nat.le_succ_of_le hBooked.grown
  named := by
    intro own other hHand hFile
    rcases (s.dir.put_eq_some_iff name other file).mp hFile
      with ⟨_, rfl⟩ | ⟨_, hOld⟩
    · have hSubmitted := hBooked.handed ⟨own, hHand⟩
      have hNone := hBooked.fresh (Nat.le_refl _)
      omega
    · exact hBooked.named hHand hOld
  handed := hBooked.handed
  fresh := fun hBound =>
    hBooked.fresh (Nat.le_of_succ_le hBound)
  kept := by
    intro hFile hBound
    rcases Nat.lt_succ_iff_lt_or_eq.mp hBound with
      hOld | rfl
    · rcases hBooked.kept hFile hOld with
        hThere | hTaken | hRest
      · by_cases hOver : s.dir.file name = some file
        · refine Or.inr (Or.inl ?_)
          simp [hOver]
        · exact
            Or.inl
              ((s.dir.has_put_iff name file).mpr
                (Or.inr ⟨hThere, hOver⟩))
      · exact
          Or.inr (Or.inl (List.mem_append_left _ hTaken))
      · exact Or.inr (Or.inr hRest)
    · exact
        Or.inl ((s.dir.has_put_iff name _).mpr (Or.inl rfl))
  once := hBooked.once
  there := by
    intro hThere hHand
    rcases (s.dir.has_put_iff name file).mp hThere with
      rfl | ⟨hOld, _⟩
    · have hNone := hBooked.fresh (Nat.le_refl _)
      change s.submissions _ ≤ _
      omega
    · exact hBooked.there hOld hHand

theorem booked_take
    {name : Str}
    {other : Nat}
    (hBooked : Booked start file s)
    (hOther : s.dir.file name = some other) :
    Booked start file
      { s with
        dir := s.dir.clear name
        taken := s.taken ++ [other] } where
  grown := hBooked.grown
  named := by
    intro own place hHand hFile
    exact
      hBooked.named hHand
        ((s.dir.clear_eq_some_iff ..).mp hFile).2
  handed := hBooked.handed
  fresh := hBooked.fresh
  kept := by
    intro hFile hBound
    rcases hBooked.kept hFile hBound with
      hThere | hTaken | hRest
    · by_cases hSame : other = file
      · refine Or.inr (Or.inl ?_)
        simp [hSame]
      · refine Or.inl ((s.dir.has_clear_iff ..).mpr ?_)
        refine ⟨hThere, ?_⟩
        rw [hOther]
        exact fun hEq => hSame (Option.some.inj hEq)
    · exact Or.inr (Or.inl (List.mem_append_left _ hTaken))
    · exact Or.inr (Or.inr hRest)
  once := hBooked.once
  there := by
    intro hThere hHand
    have hOld := ((s.dir.has_clear_iff ..).mp hThere).1
    exact hBooked.there hOld hHand

/- What is submitted was there and not in hand. -/
theorem booked_submit
    {name : Str}
    {other : Nat}
    (hBooked : Booked start file s)
    (hHand : s.inHand = none)
    (hOther : s.dir.file name = some other)
    (params : TorrentParams) :
    Booked start file
      { s with
        inHand := some (name, other)
        submitted :=
          s.submitted ++ [⟨name, other, params⟩] } := by
  have hFree : ¬ s.IsInHand file := by
    rintro ⟨own, hOwn⟩
    rw [hHand] at hOwn
    cases hOwn
  have hOnce := hBooked.once
  rcases eq_or_ne other file with rfl | hNe
  · have hThere := hBooked.there ⟨name, hOther⟩ hFree
    have hMore :
        ((s.submitted ++
                [Submission.mk name other params]).map
            Submission.file).count other =
          s.submissions other + 1 := by
      simp [submissions]
    refine
      { grown := hBooked.grown, named := ?_, handed := ?_,
        fresh := ?_, kept := ?_, once := ?_, there := ?_ }
    · intro own place hOwn hPlace
      cases hOwn
      exact s.dir.apart hPlace hOther
    · intro _
      rw [submissions, hMore]
      exact Nat.succ_pos _
    · intro hBound
      exact
        absurd (s.dir.bound hOther) (Nat.not_lt.mpr hBound)
    · intro _ _
      exact Or.inl ⟨name, hOther⟩
    · rw [submissions, hMore]
      change _ ≤ 1 + s.interrupted.count other
      omega
    · intro _ hNot
      exact absurd ⟨name, rfl⟩ hNot
  · have hSame :
        ((s.submitted ++
                [Submission.mk name other params]).map
            Submission.file).count file =
          s.submissions file := by
      simp [submissions, hNe]
    have hNotNow :
        ¬ ∃ own, some (name, other) = some (own, file) := by
      rintro ⟨own, hOwn⟩
      cases hOwn
      exact hNe rfl
    refine
      { grown := hBooked.grown, named := ?_, handed := ?_,
        fresh := ?_, kept := ?_, once := ?_, there := ?_ }
    · intro own place hOwn _
      exact absurd ⟨own, hOwn⟩ hNotNow
    · intro hOwn
      exact absurd hOwn hNotNow
    · intro hBound
      rw [submissions, hSame]
      exact hBooked.fresh hBound
    · intro hFile hBound
      rw [Accounted, submissions, hSame]
      exact hBooked.kept hFile hBound
    · rw [submissions, hSame]
      exact hOnce
    · intro hThere _
      rw [submissions, hSame]
      exact hBooked.there hThere hFree

/- The file in hand is not even under its name. -/
theorem booked_gone
    {name : Str}
    {held : Nat}
    (hBooked : Booked start file s)
    (hHand : s.inHand = some (name, held))
    (hGone : s.dir.file name = none) :
    Booked start file { s with inHand := none } where
  grown := hBooked.grown
  named := nofun
  handed := nofun
  fresh := hBooked.fresh
  kept := hBooked.kept
  once := hBooked.once
  there := by
    rintro ⟨place, hPlace⟩ _
    refine hBooked.there ⟨place, hPlace⟩ ?_
    rintro ⟨own, hOwn⟩
    cases hHand.symm.trans hOwn
    cases hBooked.named hHand hPlace
    cases hGone.symm.trans hPlace

/-
  A file that is removed was in hand, and submitted, or is
  one that was there in its place.
-/
theorem booked_unlink
    {name : Str}
    {held other : Nat}
    (hBooked : Booked start file s)
    (hHand : s.inHand = some (name, held))
    (hThere : s.dir.file name = some other) :
    Booked start file
      { s with
        dir := s.dir.clear name
        inHand := none
        mistaken :=
          if other = held then s.mistaken
          else s.mistaken ++ [other] } where
  grown := hBooked.grown
  named := nofun
  handed := nofun
  fresh := hBooked.fresh
  kept := by
    intro hFile hBound
    rcases hBooked.kept hFile hBound with
      hHas | hTaken | hSubmitted | hMistaken
    · by_cases hSame : other = file
      · subst hSame
        by_cases hHeld : other = held
        · subst hHeld
          have hSubmitted := hBooked.handed ⟨name, hHand⟩
          exact Or.inr (Or.inr (Or.inl hSubmitted))
        · refine Or.inr (Or.inr (Or.inr ?_))
          simp [hHeld]
      · refine Or.inl ((s.dir.has_clear_iff ..).mpr ?_)
        refine ⟨hHas, ?_⟩
        rw [hThere]
        exact fun hEq => hSame (Option.some.inj hEq)
    · exact Or.inr (Or.inl hTaken)
    · exact Or.inr (Or.inr (Or.inl hSubmitted))
    · refine Or.inr (Or.inr (Or.inr ?_))
      change file ∈ ite _ _ _
      split
      · exact hMistaken
      · exact List.mem_append_left _ hMistaken
  once := hBooked.once
  there := by
    intro hLeft _
    rcases (s.dir.has_clear_iff ..).mp hLeft with
      ⟨hHas, hNot⟩
    refine hBooked.there hHas ?_
    rintro ⟨own, hOwn⟩
    cases hHand.symm.trans hOwn
    rcases hHas with ⟨place, hPlace⟩
    cases hBooked.named hHand hPlace
    exact hNot hPlace

/- The file in hand is the one that may come back. -/
theorem booked_restart
    (hBooked : Booked start file s)
    (now : Int) :
    Booked start file
      { init s.dir now with
        taken := s.taken
        submitted := s.submitted
        interrupted :=
          s.interrupted ++ (s.inHand.map Prod.snd).toList
        mistaken := s.mistaken } := by
  have hMore :
      s.interrupted.count file ≤
        (s.interrupted ++
          (s.inHand.map Prod.snd).toList).count file := by
    rw [List.count_append]
    exact Nat.le_add_right _ _
  refine
    { grown := hBooked.grown, named := nofun, handed := nofun,
      fresh := hBooked.fresh, kept := hBooked.kept,
      once := ?_, there := ?_ }
  · have hOnce := hBooked.once
    exact hOnce.trans (Nat.add_le_add_left hMore 1)
  · intro hThere _
    by_cases hOwn : s.IsInHand file
    · rcases hOwn with ⟨own, hOwn⟩
      have hLost :
          (s.interrupted ++
              (s.inHand.map Prod.snd).toList).count file =
            1 + s.interrupted.count file := by
        simp [hOwn, Nat.add_comm]
      exact hBooked.once.trans (Nat.le_of_eq hLost.symm)
    · exact (hBooked.there hThere hOwn).trans hMore

theorem booked_step
    (hBooked : Booked start file s)
    (hStep : s.step action = some next) :
    Booked start file next := by
  cases stepped_of_step hStep with
  | quiet _ => exact hBooked
  | put name => exact booked_put hBooked name
  | take hThere => exact booked_take hBooked hThere
  | submit params hHand _ hThere =>
      exact booked_submit hBooked hHand hThere params
  | gone hHand hGone => exact booked_gone hBooked hHand hGone
  | unlink hHand hThere =>
      exact booked_unlink hBooked hHand hThere
  | restart now => exact booked_restart hBooked now
  | _ =>
      -- No file is moved, submitted or let go of.
      exact
        { grown := hBooked.grown, named := hBooked.named,
          handed := hBooked.handed, fresh := hBooked.fresh,
          kept := hBooked.kept, once := hBooked.once,
          there := hBooked.there }

theorem booked_of_exec
    {now : Int}
    {actions : List WatchAction}
    (hExec :
      Run.exec step (init start now) actions = some s)
    (file : Nat) :
    Booked start file s :=
  Run.invariant
    (fun _ _ _ hBooked hStep => booked_step hBooked hStep)
    (booked_init start now file) hExec

end Watch

end Sheath

end Kedge

------------------------------------------------------------
-- What Scans Submit
------------------------------------------------------------

namespace Kedge

namespace Sheath

namespace Watch

/-
  Only torrent files are submitted, and the scans since the
  start are further apart than the interval.
-/
structure OnTime (s : Watch) : Prop where
  torrents :
    ∀ submission ∈ s.submitted,
      pathExtension submission.name = torrentExt
  spaced :
    s.scans.IsChain fun earlier later =>
      earlier + watchInterval < later
  timer :
    ∀ last ∈ s.scans.getLast?,
      s.nextDirScan = last + watchInterval

theorem onTime_step
    {s next : Watch}
    {action : WatchAction}
    (hOnTime : s.OnTime)
    (hStep : s.step action = some next) :
    next.OnTime := by
  cases stepped_of_step hStep with
  | quiet _ => exact hOnTime
  | scan listed hDue =>
      refine
        { torrents := hOnTime.torrents, spaced := ?_,
          timer := ?_ }
      · refine hOnTime.spaced.append (.singleton _) ?_
        intro last hLast later hLater
        cases hLater
        rw [← hOnTime.timer last hLast]
        exact hDue
      · intro last hLast
        rw [List.getLast?_concat] at hLast
        cases hLast
        rfl
  | submit params _ hTorrent _ =>
      refine
        { torrents := ?_, spaced := hOnTime.spaced,
          timer := hOnTime.timer }
      intro submission hIn
      rcases List.mem_append.mp hIn with hOld | hNew
      · exact hOnTime.torrents submission hOld
      · cases List.mem_singleton.mp hNew
        exact hTorrent
  | restart now =>
      exact
        { torrents := hOnTime.torrents, spaced := .nil,
          timer := nofun }
  | _ =>
      exact
        { torrents := hOnTime.torrents,
          spaced := hOnTime.spaced, timer := hOnTime.timer }

theorem onTime_of_exec
    {start : Directory Str}
    {now : Int}
    {actions : List WatchAction}
    {s : Watch}
    (hExec :
      Run.exec step (init start now) actions = some s) :
    s.OnTime := by
  have hInit : (init start now).OnTime := by
    refine
      { torrents := ?_, spaced := .nil, timer := ?_ }
    · intro submission hIn
      cases hIn
    · intro last hLast
      cases hLast
  exact
    Run.invariant
      (fun _ _ _ hOnTime hStep => onTime_step hOnTime hStep)
      hInit hExec

/-
  A file that is removed is the one in hand, as long as
  users put none under its name.
-/
structure HandOnly (s : Watch) : Prop where
  own :
    ∀ {name file other}, s.inHand = some (name, file) →
      s.dir.file name = some other → other = file
  none : s.mistaken = []

theorem handOnly_step
    {s next : Watch}
    {action : WatchAction}
    (hSpares : action.SparesHand s)
    (hHandOnly : s.HandOnly)
    (hStep : s.step action = some next) :
    next.HandOnly := by
  have hNone := hHandOnly.none
  cases stepped_of_step hStep with
  | put name =>
      refine ⟨?_, hNone⟩
      intro own file other hHand hOther
      have hNe : own ≠ name := by
        rintro rfl
        exact hSpares own file hHand rfl
      rcases (s.dir.put_eq_some_iff ..).mp hOther with
        ⟨hSame, _⟩ | ⟨_, hOld⟩
      · exact absurd hSame hNe
      · exact hHandOnly.own hHand hOld
  | take _ =>
      refine ⟨?_, hNone⟩
      intro own file other hHand hOther
      rcases (s.dir.clear_eq_some_iff ..).mp hOther with
        ⟨_, hOld⟩
      exact hHandOnly.own hHand hOld
  | submit params _ _ hThere =>
      refine ⟨?_, hNone⟩
      intro own held other hHand hOther
      cases hHand
      cases hThere.symm.trans hOther
      rfl
  | gone _ _ => exact ⟨nofun, hNone⟩
  | unlink hHand hThere =>
      refine ⟨nofun, ?_⟩
      rw [if_pos (hHandOnly.own hHand hThere)]
      exact hNone
  | restart now => exact ⟨nofun, hNone⟩
  | _ => exact ⟨hHandOnly.own, hNone⟩

/-
  However users and scans interleave, and however often the
  program is gone and starts again: a file that was there at
  first or was put there, also over another one, is there,
  unless users took it back or replaced it, it was submitted,
  or it was removed in the place of the file in hand, whose
  name it had got. The last never happens while users put no
  file under the name of the one in hand. No file is
  submitted again but for those that were in hand when the
  program was gone. What is no torrent file is never
  submitted, and two scans of one run of the program are
  more than the interval apart.
-/
theorem watched_files_submitted_once
    (start : Directory Str)
    (now : Int)
    (actions : List WatchAction)
    (s : Watch)
    (hExec :
      Run.exec step (init start now) actions = some s) :
    s.dir.count = start.count + actions.countP (·.puts) ∧
      (∀ file < s.dir.count,
        start.Has file ∨ start.count ≤ file →
          s.Accounted file) ∧
      (∀ file,
        s.submissions file ≤ 1 + s.interrupted.count file ∧
          (s.dir.Has file → ¬ s.IsInHand file →
            s.submissions file ≤
              s.interrupted.count file)) ∧
      (Run.Meets step (fun s action => action.SparesHand s)
          (init start now) actions →
        s.mistaken = []) ∧
      (∀ submission ∈ s.submitted,
        pathExtension submission.name = torrentExt) ∧
      s.scans.IsChain fun earlier later =>
        earlier + watchInterval < later := by
  have hOnTime := onTime_of_exec hExec
  refine
    ⟨count_of_exec hExec, ?_, ?_, ?_, hOnTime.torrents,
      hOnTime.spaced⟩
  · intro file hBound hFile
    exact (booked_of_exec hExec file).kept hFile hBound
  · intro file
    have hBooked := booked_of_exec hExec file
    exact ⟨hBooked.once, hBooked.there⟩
  · intro hMeets
    have hInit : (init start now).HandOnly := ⟨nofun, rfl⟩
    have hHandOnly : s.HandOnly :=
      Run.invariant_of_meets
        (fun _ _ _ => handOnly_step) hInit hMeets hExec
    exact hHandOnly.none

/- `libtorrent` on a directory of torrent files. -/
def watchContext : AddContext :=
  { plainContext fun _ => none with
    lt :=
      { plainLibtorrent with
        torrentInfoFile := fun _ =>
          some ⟨oneHash, [100, 101]⟩ } }

def torrentFile : Str := "a.torrent".toList

/-
  The program is gone before the file is removed. When the
  file is in hand again, users put another one over it,
  which is removed in its place.
-/
theorem watched_files_submitted_once_but_one :
    ∃ s,
      Run.exec step (init Directory.empty 0)
          [.put torrentFile, .pass 1 true,
            .entry torrentFile watchContext,
            .remove .throws, .restart 10, .pass 11 true,
            .entry torrentFile watchContext,
            .put torrentFile, .remove .removed, .scanDone] =
        some s ∧
      s.submissions 0 = 2 ∧
      s.interrupted = [0] ∧
      s.taken = [0] ∧
      s.mistaken = [1] ∧
      s.submissions 1 = 0 ∧
      s.Accounted 1 ∧
      s.submissions 0 ≤ 1 + s.interrupted.count 0 := by
  have hRun :
      ∃ s,
        Run.exec step (init Directory.empty 0)
            [.put torrentFile, .pass 1 true,
              .entry torrentFile watchContext,
              .remove .throws, .restart 10, .pass 11 true,
              .entry torrentFile watchContext,
              .put torrentFile, .remove .removed,
              .scanDone] =
          some s ∧
        s.submissions 0 = 2 ∧
        s.interrupted = [0] ∧
        s.taken = [0] ∧
        s.mistaken = [1] ∧
        s.submissions 1 = 0 :=
    ⟨_, rfl, rfl, rfl, rfl, rfl, rfl⟩
  rcases hRun with
    ⟨s, hExec, hTwice, hLost, hTaken, hMistaken, hNever⟩
  rcases watched_files_submitted_once Directory.empty 0 _ s
      hExec with
    ⟨hCount, hKept, hOnce, _⟩
  have hBound : 1 < s.dir.count := by
    rw [hCount]
    decide
  exact
    ⟨s, hExec, hTwice, hLost, hTaken, hMistaken, hNever,
      hKept 1 hBound (Or.inr (Nat.zero_le 1)),
      (hOnce 0).1⟩

end Watch

end Sheath

end Kedge
