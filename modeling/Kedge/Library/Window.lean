import Mathlib.Data.List.Induction

/-
  A window of two values over a stream.

  The last value is always kept. The value before it is
  replaced by the last one when a new value is far from it,
  and stays otherwise. Whatever comes, the two values are
  different members of the stream, in their order.

  Key definitions include:
    * `Window`
    * `Window.push`
    * `Window.AdvancesAt`

  Main theorems include:
    * `Window.related_of_pairwise`
    * `Window.exists_previous_of_advances`
-/

------------------------------------------------------------
-- Pushing Values
------------------------------------------------------------

universe u

/- An earlier value and the last one. -/
structure Window (α : Type u) where
  previous : α
  last : α
  deriving DecidableEq

namespace Window

variable {α : Type u}

/- The next value, and whether the window moves on. -/
def push
    (far : α → α → Bool)
    (w : Window α)
    (new : α) : Window α :=
  if far new w.previous then ⟨w.last, new⟩
  else ⟨w.previous, new⟩

def pushAll
    (far : α → α → Bool)
    (w : Window α)
    (news : List α) : Window α :=
  news.foldl (push far) w

/- The window moves on at the value with this position. -/
def AdvancesAt
    (far : α → α → Bool)
    (w : Window α)
    (news : List α)
    (k : Nat) : Prop :=
  ∃ new,
    news[k]? = some new ∧
      far new (w.pushAll far (news.take k)).previous = true

variable {far : α → α → Bool}

@[simp] theorem push_last
    (w : Window α)
    (new : α) :
    (w.push far new).last = new := by
  unfold push
  split <;> rfl

@[simp] theorem pushAll_nil
    (w : Window α) :
    w.pushAll far [] = w := rfl

theorem pushAll_concat
    (w : Window α)
    (news : List α)
    (new : α) :
    w.pushAll far (news ++ [new]) =
      (w.pushAll far news).push far new := by
  rw [pushAll, List.foldl_append]
  rfl

/- The value that is kept is the one with that position. -/
theorem pushAll_last_of_getElem?
    (w : Window α)
    {news : List α}
    {k : Nat}
    {new : α}
    (hLast : k + 1 = news.length)
    (hNew : news[k]? = some new) :
    (w.pushAll far news).last = new := by
  rcases List.eq_nil_or_concat news with rfl | ⟨init, x, rfl⟩
  · cases hNew
  · rw [List.concat_eq_append] at hLast hNew ⊢
    rw [List.length_append, List.length_singleton] at hLast
    have hK : k = init.length := by
      omega
    rw [hK, List.getElem?_concat_length] at hNew
    rw [pushAll_concat, push_last]
    exact Option.some.inj hNew

end Window

------------------------------------------------------------
-- Where the Values Come from
------------------------------------------------------------

namespace Window

variable {α : Type u}
variable {far : α → α → Bool}

/- The stream so far, with the two values at its start. -/
def history
    (w : Window α)
    (news : List α) : List α :=
  w.previous :: w.last :: news

theorem last_mem_history
    (w : Window α)
    (news : List α) :
    (w.pushAll far news).last ∈ w.history news := by
  rcases List.eq_nil_or_concat news with rfl | ⟨init, x, rfl⟩
  · simp [history]
  · rw [List.concat_eq_append, pushAll_concat, push_last]
    simp [history]

/- The earlier value has come before the last one. -/
theorem previous_mem_dropLast
    (w : Window α)
    (news : List α) :
    (w.pushAll far news).previous ∈
      (w.history news).dropLast := by
  induction news using List.reverseRecOn with
  | nil => simp [history]
  | append_singleton news new ih =>
      have hHistory :
          w.history (news ++ [new]) =
            w.history news ++ [new] := rfl
      rw [hHistory, List.dropLast_concat, pushAll_concat,
        push]
      split
      · exact last_mem_history w news
      · exact List.dropLast_subset _ ih

/- The last value of the stream is kept. -/
theorem history_eq_concat
    (w : Window α)
    (news : List α) :
    w.history news =
      (w.history news).dropLast ++
        [(w.pushAll far news).last] := by
  rcases List.eq_nil_or_concat news with rfl | ⟨init, x, rfl⟩
  · rfl
  · have hHistory :
        w.history (init ++ [x]) = w.history init ++ [x] :=
      rfl
    rw [List.concat_eq_append, hHistory,
      List.dropLast_concat, pushAll_concat, push_last]

/- A relation along the stream is one of the two values. -/
theorem related_of_pairwise
    {R : α → α → Prop}
    {w : Window α}
    {news : List α}
    (hPairwise : (w.history news).Pairwise R) :
    R (w.pushAll far news).previous
      (w.pushAll far news).last := by
  rw [@history_eq_concat _ far w news,
    List.pairwise_append] at hPairwise
  exact hPairwise.2.2 _ (previous_mem_dropLast w news) _
    (List.mem_singleton_self _)

/-
  Once the window has moved on behind the first value, both
  values are of the stream, and the earlier one is the one
  right before the last, or the last one is not far from it.
-/
theorem exists_previous_of_advances
    {w : Window α}
    {news : List α}
    {k : Nat}
    (hLater : 1 ≤ k)
    (hAdvances : w.AdvancesAt far news k) :
    ∃ j,
      j + 1 < news.length ∧
        news[j]? = some (w.pushAll far news).previous ∧
        (j + 2 = news.length ∨
          far (w.pushAll far news).last
            (w.pushAll far news).previous = false) := by
  induction news using List.reverseRecOn with
  | nil =>
      rcases hAdvances with ⟨new, hNew, _⟩
      cases hNew
  | append_singleton news new ih =>
      rw [pushAll_concat, push]
      by_cases hFar :
          far new (w.pushAll far news).previous = true
      · -- The value behind the last one becomes the earlier.
        rw [if_pos hFar]
        rcases hAdvances with ⟨value, hValue, _⟩
        have hK : k < (news ++ [new]).length :=
          (List.getElem?_eq_some_iff.mp hValue).1
        rw [List.length_append,
          List.length_singleton] at hK ⊢
        have hShort : news.length - 1 < news.length := by
          omega
        refine ⟨news.length - 1, by omega, ?_,
          Or.inl (by omega)⟩
        rw [List.getElem?_append_left hShort,
          List.getElem?_eq_getElem hShort]
        have hLast :=
          @pushAll_last_of_getElem? _ far w news _ _
            (by omega) (List.getElem?_eq_getElem hShort)
        rw [hLast]
      · rw [if_neg hFar]
        have hEarlier : w.AdvancesAt far news k := by
          rcases hAdvances with ⟨value, hValue, hMoves⟩
          rcases Nat.lt_or_ge k news.length with hK | hK
          · refine ⟨value, ?_, ?_⟩
            · rwa [List.getElem?_append_left hK] at hValue
            · rwa [List.take_append_of_le_length
                (Nat.le_of_lt hK)] at hMoves
          · have hBound :=
              (List.getElem?_eq_some_iff.mp hValue).1
            rw [List.length_append,
              List.length_singleton] at hBound
            have hSame : k = news.length := by
              omega
            rw [hSame, List.getElem?_concat_length] at hValue
            rw [hSame, List.take_left] at hMoves
            cases hValue
            exact absurd hMoves hFar
        rcases ih hEarlier with ⟨j, hJ, hPrevious, _⟩
        rw [List.length_append, List.length_singleton]
        refine ⟨j, by omega, ?_, Or.inr ?_⟩
        · rw [List.getElem?_append_left (by omega)]
          exact hPrevious
        · exact Bool.of_not_eq_true hFar

end Window
