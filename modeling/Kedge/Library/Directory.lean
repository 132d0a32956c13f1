import Mathlib.Logic.Function.Basic

/-
  Directories whose files keep their identity.

  Programs name files by their place in a directory, and what
  lies under a name changes hands. Here every file has a
  number of its own, so that a file can be followed while
  others take its name.

  Key definitions include:
    * `Directory`
    * `Directory.put`
    * `Directory.clear`

  Key theorems include:
    * `Directory.has_put_iff`
    * `Directory.has_clear_iff`
-/

------------------------------------------------------------
-- Files and Their Names
------------------------------------------------------------

universe u

/-
  The files of a directory are told apart by numbers, not by
  their names, and `count` is the number of the next file.
  No file lies under two names.
-/
structure Directory (N : Type u) where
  file : N → Option Nat
  count : Nat
  bound : ∀ {name id}, file name = some id → id < count
  apart :
    ∀ {name other id},
      file name = some id → file other = some id →
        name = other

namespace Directory

variable {N : Type u}

def Has (dir : Directory N) (id : Nat) : Prop :=
  ∃ name, dir.file name = some id

def empty : Directory N where
  file := fun _ => none
  count := 0
  bound := nofun
  apart := nofun

variable [DecidableEq N]

/- What lies under the names when one of them is changed. -/
theorem update_eq_some_iff
    (file : N → Option Nat)
    (name other : N)
    (value : Option Nat)
    (id : Nat) :
    Function.update file name value other = some id ↔
      (other = name ∧ value = some id) ∨
        (other ≠ name ∧ file other = some id) := by
  rcases eq_or_ne other name with rfl | hOther
  · simp
  · simp [hOther]

/- A new file, in the place of what lies under the name. -/
def put (dir : Directory N) (name : N) : Directory N where
  file := Function.update dir.file name (some dir.count)
  count := dir.count + 1
  bound := by
    intro other id hFile
    rcases (update_eq_some_iff ..).mp hFile with
      ⟨_, hNew⟩ | ⟨_, hOld⟩
    · cases hNew
      exact Nat.lt_succ_self _
    · exact Nat.lt_succ_of_lt (dir.bound hOld)
  apart := by
    intro first second id hFirst hSecond
    rcases (update_eq_some_iff ..).mp hFirst with
      ⟨rfl, hNew⟩ | ⟨_, hOld⟩ <;>
    rcases (update_eq_some_iff ..).mp hSecond with
      ⟨rfl, hNew'⟩ | ⟨_, hOld'⟩
    · rfl
    · -- The new file is no older one.
      cases hNew
      exact absurd (dir.bound hOld') (Nat.lt_irrefl _)
    · cases hNew'
      exact absurd (dir.bound hOld) (Nat.lt_irrefl _)
    · exact dir.apart hOld hOld'

/- Nothing lies under the name any more. -/
def clear (dir : Directory N) (name : N) : Directory N where
  file := Function.update dir.file name none
  count := dir.count
  bound := by
    intro other id hFile
    rcases (update_eq_some_iff ..).mp hFile with
      ⟨_, hNone⟩ | ⟨_, hOld⟩
    · cases hNone
    · exact dir.bound hOld
  apart := by
    intro first second id hFirst hSecond
    rcases (update_eq_some_iff ..).mp hFirst with
      ⟨_, hNone⟩ | ⟨_, hOld⟩
    · cases hNone
    · rcases (update_eq_some_iff ..).mp hSecond with
        ⟨_, hNone⟩ | ⟨_, hOld'⟩
      · cases hNone
      · exact dir.apart hOld hOld'

end Directory

------------------------------------------------------------
-- What Lies There
------------------------------------------------------------

namespace Directory

variable {N : Type u}
variable [DecidableEq N]

theorem put_eq_some_iff
    (dir : Directory N)
    (name other : N)
    (id : Nat) :
    (dir.put name).file other = some id ↔
      (other = name ∧ id = dir.count) ∨
        (other ≠ name ∧ dir.file other = some id) := by
  unfold put
  rw [update_eq_some_iff, Option.some.injEq,
    eq_comm (a := dir.count)]

theorem clear_eq_some_iff
    (dir : Directory N)
    (name other : N)
    (id : Nat) :
    (dir.clear name).file other = some id ↔
      other ≠ name ∧ dir.file other = some id := by
  unfold clear
  rw [update_eq_some_iff]
  simp

/- What is left when a name is cleared. -/
theorem has_clear_iff
    (dir : Directory N)
    (name : N)
    (id : Nat) :
    (dir.clear name).Has id ↔
      dir.Has id ∧ dir.file name ≠ some id := by
  constructor
  · rintro ⟨other, hOther⟩
    rcases (clear_eq_some_iff dir name other id).mp hOther
      with ⟨hNe, hThere⟩
    exact
      ⟨⟨other, hThere⟩,
        fun hSame => hNe (dir.apart hThere hSame)⟩
  · rintro ⟨⟨other, hThere⟩, hNot⟩
    refine
      ⟨other, (clear_eq_some_iff ..).mpr ⟨?_, hThere⟩⟩
    rintro rfl
    exact hNot hThere

/- A new file is there, and what it replaces is not. -/
theorem has_put_iff
    (dir : Directory N)
    (name : N)
    (id : Nat) :
    (dir.put name).Has id ↔
      id = dir.count ∨
        (dir.Has id ∧ dir.file name ≠ some id) := by
  rw [← has_clear_iff]
  constructor
  · rintro ⟨other, hOther⟩
    rcases (put_eq_some_iff dir name other id).mp hOther with
      ⟨_, hNew⟩ | hOld
    · exact Or.inl hNew
    · exact
        Or.inr ⟨other, (clear_eq_some_iff ..).mpr hOld⟩
  · rintro (rfl | ⟨other, hOther⟩)
    · refine ⟨name, (put_eq_some_iff ..).mpr ?_⟩
      exact Or.inl ⟨rfl, rfl⟩
    · have hOld :=
        (clear_eq_some_iff dir name other id).mp hOther
      exact ⟨other, (put_eq_some_iff ..).mpr (Or.inr hOld)⟩

end Directory
