import Mathlib.Data.Int.Notation

/-
  A cursor that moves forward over indexed elements.

  A loop over positions takes the element under the cursor
  when its index is the position, and moves on. Over
  elements in strictly ascending order, none of them behind
  the position, no element is passed over and none is taken
  at another position. What is left of a list without
  repetitions is known by its first element.

  Key definitions include:
    * `Cursor.advance`
    * `Cursor.nth`
    * `Cursor.Ahead`

  Main theorems include:
    * `Cursor.nth_eq_some_iff`
    * `Cursor.rest_eq_of_suffix`
-/

------------------------------------------------------------
-- Moving a Cursor
------------------------------------------------------------

namespace Cursor

universe u

variable {β : Type u}

/- The element for the position, and the cursor after it. -/
def advance
    (index : β → ℤ)
    (i : ℤ) : List β → Option β × List β
  | [] => (none, [])
  | b :: rest =>
      if index b = i then (some b, rest)
      else (none, b :: rest)

/- The element that is taken at the position `start + k`. -/
def nth
    (index : β → ℤ)
    (start : ℤ) : Nat → List β → Option β
  | 0, cursor => (advance index start cursor).1
  | k + 1, cursor =>
      nth index (start + 1) k (advance index start cursor).2

/- The elements are in order and at the position or later. -/
structure Ahead
    (index : β → ℤ)
    (i : ℤ)
    (cursor : List β) : Prop where
  ascending : cursor.Pairwise (index · < index ·)
  later : ∀ b ∈ cursor, i ≤ index b

end Cursor

------------------------------------------------------------
-- Nothing Is Passed Over
------------------------------------------------------------

namespace Cursor

universe u

variable {β : Type u}
variable {index : β → ℤ}
variable {i : ℤ}
variable {cursor : List β}

/- The element that is taken is the one for the position. -/
theorem advance_fst_eq_some_iff
    (hAhead : Ahead index i cursor)
    (b : β) :
    (advance index i cursor).1 = some b ↔
      b ∈ cursor ∧ index b = i := by
  cases cursor with
  | nil => simp [advance]
  | cons c rest =>
      have hLater :=
        (List.pairwise_cons.mp hAhead.ascending).1
      have hHead := hAhead.later c List.mem_cons_self
      by_cases hC : index c = i
      · rw [advance, if_pos hC]
        constructor
        · intro hSame
          cases hSame
          exact ⟨List.mem_cons_self, hC⟩
        · rintro ⟨hMember, hIndex⟩
          rcases List.mem_cons.mp hMember with rfl | hRest
          · rfl
          · have hOrder := hLater b hRest
            omega
      · rw [advance, if_neg hC]
        refine iff_of_false (by simp) ?_
        rintro ⟨hMember, hIndex⟩
        rcases List.mem_cons.mp hMember with rfl | hRest
        · exact hC hIndex
        · have hOrder := hLater b hRest
          omega

/- Only an element that was taken leaves the cursor. -/
theorem mem_advance_snd_iff
    (hAhead : Ahead index i cursor)
    (b : β) :
    b ∈ (advance index i cursor).2 ↔
      b ∈ cursor ∧ index b ≠ i := by
  cases cursor with
  | nil => simp [advance]
  | cons c rest =>
      have hLater :=
        (List.pairwise_cons.mp hAhead.ascending).1
      have hHead := hAhead.later c List.mem_cons_self
      by_cases hC : index c = i
      · rw [advance, if_pos hC]
        constructor
        · intro hRest
          have hOrder := hLater b hRest
          exact ⟨List.mem_cons_of_mem c hRest, by omega⟩
        · rintro ⟨hMember, hIndex⟩
          rcases List.mem_cons.mp hMember with rfl | hRest
          · exact absurd hC hIndex
          · exact hRest
      · rw [advance, if_neg hC]
        constructor
        · intro hMember
          refine ⟨hMember, ?_⟩
          rcases List.mem_cons.mp hMember with rfl | hRest
          · exact hC
          · have hOrder := hLater b hRest
            omega
        · exact And.left

theorem Ahead.advance
    (hAhead : Ahead index i cursor) :
    Ahead index (i + 1)
      (Cursor.advance index i cursor).2 := by
  constructor
  · cases cursor with
    | nil => exact List.Pairwise.nil
    | cons c rest =>
        by_cases hC : index c = i
        · rw [Cursor.advance, if_pos hC]
          exact (List.pairwise_cons.mp hAhead.ascending).2
        · rw [Cursor.advance, if_neg hC]
          exact hAhead.ascending
  · intro b hMember
    rcases (mem_advance_snd_iff hAhead b).mp hMember with
      ⟨hIn, hIndex⟩
    have hLater := hAhead.later b hIn
    omega

/- Every position gets its own element, if there is one. -/
theorem nth_eq_some_iff
    (hAhead : Ahead index i cursor)
    (k : Nat)
    (b : β) :
    nth index i k cursor = some b ↔
      b ∈ cursor ∧ index b = i + k := by
  induction k generalizing i cursor with
  | zero =>
      rw [nth, advance_fst_eq_some_iff hAhead]
      simp
  | succ k ih =>
      rw [nth, ih hAhead.advance, mem_advance_snd_iff hAhead]
      constructor
      · rintro ⟨⟨hIn, _⟩, hIndex⟩
        exact ⟨hIn, by omega⟩
      · rintro ⟨hIn, hIndex⟩
        exact ⟨⟨hIn, by omega⟩, by omega⟩

end Cursor

------------------------------------------------------------
-- Suffixes of a List
------------------------------------------------------------

namespace Cursor

universe u

variable {β : Type u}

/- A suffix that lacks an element starts behind it. -/
theorem suffix_of_not_mem
    {todo rest all : List β}
    {x : β}
    (hTodo : todo <:+ all)
    (hRest : x :: rest <:+ all)
    (hNot : x ∉ todo) :
    todo <:+ rest := by
  rcases List.suffix_or_suffix_of_suffix hTodo hRest with
    hShort | hLong
  · rcases List.suffix_cons_iff.mp hShort with rfl | hBehind
    · exact absurd List.mem_cons_self hNot
    · exact hBehind
  · exact absurd (hLong.subset List.mem_cons_self) hNot

/- An element that occurs once starts one suffix. -/
theorem rest_eq_of_suffix
    {rest rest' all : List β}
    {x : β}
    (hOnce : all.Nodup)
    (hRest : x :: rest <:+ all)
    (hRest' : x :: rest' <:+ all) :
    rest = rest' := by
  have hNew : x ∉ rest :=
    (List.nodup_cons.mp (hOnce.sublist hRest.sublist)).1
  have hNew' : x ∉ rest' :=
    (List.nodup_cons.mp (hOnce.sublist hRest'.sublist)).1
  have hBehind : rest <:+ rest' :=
    suffix_of_not_mem ((List.suffix_cons x rest).trans hRest)
      hRest' hNew
  have hBehind' : rest' <:+ rest :=
    suffix_of_not_mem
      ((List.suffix_cons x rest').trans hRest') hRest hNew'
  exact hBehind.eq_of_length_le hBehind'.length_le

end Cursor
