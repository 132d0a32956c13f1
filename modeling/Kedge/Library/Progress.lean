import Mathlib.Algebra.BigOperators.Group.Finset.Basic
import Mathlib.Algebra.GroupWithZero.Nat
import Kedge.Library.Run

/-
  Bounds on the work of a run, and runs that come to an end.

  A rank pays for the steps of a system: each step costs its
  work, and may bring a gain. Over a whole run the work is
  at most the rank of the first state and the gains. Where
  every state that is not done can take a step that lowers
  the rank, a run to a state that is done exists, and none
  of the runs of such steps is longer than the rank. The
  rank of a system of parts is the sum of theirs.

  Key theorems include:
    * `Run.amortized`
    * `Run.amortized_counted`
    * `Run.amortized_count`
    * `Run.length_le_rank`
    * `Run.exists_exec_of_progress`
    * `Run.sum_rank_of_part`
-/

------------------------------------------------------------
-- Amortized Work
------------------------------------------------------------

namespace Run

variable {σ ε : Type}
variable {step : σ → ε → Option σ}
variable {condition : σ → ε → Prop}
variable {rank : σ → Nat}

/- The inequality of one step, summed up over a run. -/
theorem amortized
    {work gain : ε → Nat}
    (hStep :
      ∀ s e next, condition s e → step s e = some next →
        rank next + work e ≤ rank s + gain e)
    {s finish : σ}
    {es : List ε}
    (hMeets : Meets step condition s es)
    (hExec : exec step s es = some finish) :
    rank finish + (es.map work).sum ≤
      rank s + (es.map gain).sum := by
  induction es generalizing s with
  | nil =>
      cases hExec
      exact Nat.le_refl _
  | cons e es ih =>
      rcases Option.bind_eq_some_iff.mp hExec with
        ⟨next, hNext, hRest⟩
      have hFirst := hStep s e next hMeets.1 hNext
      have hLater := ih (hMeets.2 next hNext) hRest
      rw [List.map_cons, List.map_cons, List.sum_cons,
        List.sum_cons]
      omega

/- The same where some steps are counted. -/
theorem amortized_counted
    {counted : ε → Bool}
    {gain : ε → Nat}
    (hStep :
      ∀ s e next, condition s e → step s e = some next →
        rank next + (if counted e then 1 else 0) ≤
          rank s + gain e)
    {s finish : σ}
    {es : List ε}
    (hMeets : Meets step condition s es)
    (hExec : exec step s es = some finish) :
    rank finish + es.countP counted ≤
      rank s + (es.map gain).sum := by
  have hTotal := amortized hStep hMeets hExec
  have hWork :
      (es.map fun e => if counted e then 1 else 0).sum =
        es.countP counted := by
    clear hMeets hExec hTotal
    induction es with
    | nil => rfl
    | cons e es ih =>
        rw [List.map_cons, List.sum_cons, ih,
          List.countP_cons, Nat.add_comm]
  rw [hWork] at hTotal
  exact hTotal

/-
  Counted steps lower the rank by one each, and the paying
  steps raise it by at most `price` each.
-/
theorem amortized_count
    {counted paying : ε → Bool}
    {price : Nat}
    (hStep :
      ∀ s e next, condition s e → step s e = some next →
        rank next + (if counted e then 1 else 0) ≤
          rank s + (if paying e then price else 0))
    {s finish : σ}
    {es : List ε}
    (hMeets : Meets step condition s es)
    (hExec : exec step s es = some finish) :
    rank finish + es.countP counted ≤
      rank s + price * es.countP paying := by
  have hTotal := amortized_counted hStep hMeets hExec
  have hGain :
      (es.map fun e => if paying e then price else 0).sum =
        price * es.countP paying := by
    clear hMeets hExec hTotal
    induction es with
    | nil => rfl
    | cons e es ih =>
        rw [List.map_cons, List.sum_cons, ih,
          List.countP_cons, Nat.mul_add, Nat.add_comm]
        split <;> simp
  rw [hGain] at hTotal
  exact hTotal

/- Steps that lower the rank are no more than the rank. -/
theorem length_le_rank
    (hStep :
      ∀ s e next, condition s e → step s e = some next →
        rank next < rank s)
    {s finish : σ}
    {es : List ε}
    (hMeets : Meets step condition s es)
    (hExec : exec step s es = some finish) :
    es.length ≤ rank s := by
  have hCount :
      rank finish + es.countP (fun _ => true) ≤
        rank s + 0 * es.countP (fun _ => false) := by
    apply amortized_count _ hMeets hExec
    intro s e next hCondition hNext
    have hLower := hStep s e next hCondition hNext
    simp only [if_true, Bool.false_eq_true, if_false]
    omega
  rw [List.countP_true] at hCount
  omega

end Run

------------------------------------------------------------
-- Runs That Come to an End
------------------------------------------------------------

namespace Run

variable {σ ε : Type}
variable {step : σ → ε → Option σ}
variable {rank : σ → Nat}

/-
  Every state with the invariant that is not done has a step
  of the given kind that keeps the invariant and lowers the
  rank. Then such steps lead to a state that is done.
-/
theorem exists_exec_of_progress
    {Inv Done : σ → Prop}
    {kind : ε → Bool}
    (hProgress :
      ∀ s, Inv s → ¬ Done s →
        ∃ e next,
          kind e = true ∧ step s e = some next ∧
            Inv next ∧ rank next < rank s)
    {s : σ}
    (hInit : Inv s) :
    ∃ es finish,
      (∀ e ∈ es, kind e = true) ∧
        exec step s es = some finish ∧
          Inv finish ∧ Done finish ∧
            es.length ≤ rank s := by
  induction hRank : rank s using Nat.strongRecOn
      generalizing s with
  | _ bound ih =>
      by_cases hDone : Done s
      · exact ⟨[], s, by simp, rfl, hInit, hDone, by simp⟩
      · rcases hProgress s hInit hDone with
          ⟨e, next, hKind, hNext, hInv, hLower⟩
        rcases ih (rank next) (by omega) hInv rfl with
          ⟨es, finish, hKinds, hExec, hFinish, hEnd,
            hLength⟩
        refine
          ⟨e :: es, finish, ?_, ?_, hFinish, hEnd, ?_⟩
        · intro e' hMember
          rcases List.mem_cons.mp hMember with rfl | hRest
          · exact hKind
          · exact hKinds e' hRest
        · rw [exec_cons, hNext]
          exact hExec
        · rw [List.length_cons]
          omega

end Run

------------------------------------------------------------
-- Systems of Parts
------------------------------------------------------------

namespace Run

/- One of the parts goes on, and the others keep theirs. -/
theorem sum_rank_of_part
    {parts i : Nat}
    {rank next : Nat → Nat}
    (hPart : i < parts)
    (hOthers : ∀ j, j ≠ i → next j = rank j) :
    (Finset.range parts).sum next + rank i =
      (Finset.range parts).sum rank + next i := by
  have hIn : i ∈ Finset.range parts :=
    Finset.mem_range.mpr hPart
  have hRest :
      ((Finset.range parts).erase i).sum next =
        ((Finset.range parts).erase i).sum rank :=
    Finset.sum_congr rfl fun j hJ =>
      hOthers j (Finset.ne_of_mem_erase hJ)
  have hNext :
      next i + ((Finset.range parts).erase i).sum next =
        (Finset.range parts).sum next :=
    Finset.add_sum_erase _ _ hIn
  have hRank :
      rank i + ((Finset.range parts).erase i).sum rank =
        (Finset.range parts).sum rank :=
    Finset.add_sum_erase _ _ hIn
  omega

end Run
