import Mathlib.Init

/-
  Runs of partial, labelled step functions.

  A step function says what one labelled event does to a
  state and fails when the event cannot happen there. `exec`
  chains the events of a run. `Meets` says that every step
  of a run satisfies a condition on the state before it and
  the event taken. The invariant rules derive properties of
  every state a run reaches from what one step preserves.
  The projection rules replay a run, with some of its events
  left out, on an image of its states. `trace` lists what an
  observer sees of the steps, from which an image of the
  states can be computed.

  Key definitions include:
    * `Run.exec`
    * `Run.Meets`
    * `Run.trace`

  Key theorems include:
    * `Run.exec_append`
    * `Run.invariant_of_meets`
    * `Run.invariant`
    * `Run.invariant_of_past`
    * `Run.forall_reached_iff`
    * `Run.meets_congr`
    * `Run.exists_exec_of_refines`
    * `Run.exec_filterMap_of_invariant`
    * `Run.exec_filterMap`
    * `Run.meets_filterMap`
    * `Run.exec_filter`
    * `Run.image_eq_foldl_trace`
-/

------------------------------------------------------------
-- Executions
------------------------------------------------------------

namespace Run

variable {σ ε : Type}

/- Take the events of a run one after the other. -/
def exec (step : σ → ε → Option σ) :
    σ → List ε → Option σ
  | s, [] => some s
  | s, e :: es => (step s e).bind fun next => exec step next es

/-
  Every step of the run satisfies the condition. Behind an
  event that cannot happen there are no further steps.
-/
def Meets
    (step : σ → ε → Option σ)
    (condition : σ → ε → Prop) :
    σ → List ε → Prop
  | _, [] => True
  | s, e :: es =>
      condition s e ∧
        ∀ next, step s e = some next →
          Meets step condition next es

variable {step : σ → ε → Option σ}

@[simp] theorem exec_nil
    (s : σ) :
    exec step s [] = some s := rfl

@[simp] theorem exec_cons
    (s : σ)
    (e : ε)
    (es : List ε) :
    exec step s (e :: es) =
      (step s e).bind fun next => exec step next es := rfl

/- A run can be cut into two runs at any event. -/
theorem exec_append
    (s : σ)
    (es fs : List ε) :
    exec step s (es ++ fs) =
      (exec step s es).bind fun next =>
        exec step next fs := by
  induction es generalizing s with
  | nil => rfl
  | cons e es ih =>
      cases hStep : step s e with
      | none => simp [hStep]
      | some next => simp [hStep, ih]

end Run

------------------------------------------------------------
-- Invariant Rules
------------------------------------------------------------

namespace Run

variable {σ ε : Type}
variable {step : σ → ε → Option σ}

/-
  A property that every step meeting the condition keeps
  holds in every state a run of such steps reaches.
-/
theorem invariant_of_meets
    {condition : σ → ε → Prop}
    {Inv : σ → Prop}
    (hStep :
      ∀ s e next, condition s e → Inv s →
        step s e = some next → Inv next)
    {s finish : σ}
    {es : List ε}
    (hInit : Inv s)
    (hMeets : Meets step condition s es)
    (hExec : exec step s es = some finish) :
    Inv finish := by
  induction es generalizing s with
  | nil =>
      cases hExec
      exact hInit
  | cons e es ih =>
      rcases Option.bind_eq_some_iff.mp hExec with
        ⟨next, hNext, hRest⟩
      exact ih
        (hStep s e next hMeets.1 hInit hNext)
        (hMeets.2 next hNext) hRest

/- A run that meets a condition meets every weaker one. -/
theorem Meets.mono
    {strong weak : σ → ε → Prop}
    (hWeaker : ∀ s e, strong s e → weak s e)
    {s : σ}
    {es : List ε}
    (hMeets : Meets step strong s es) :
    Meets step weak s es := by
  induction es generalizing s with
  | nil => trivial
  | cons e es ih =>
      exact
        ⟨hWeaker s e hMeets.1,
          fun next hNext => ih (hMeets.2 next hNext)⟩

/- An invariant holds in front of every step of a run. -/
theorem Meets.and_invariant
    {condition : σ → ε → Prop}
    {Inv : σ → Prop}
    (hStep :
      ∀ s e next, condition s e → Inv s →
        step s e = some next → Inv next)
    {s : σ}
    {es : List ε}
    (hInit : Inv s)
    (hMeets : Meets step condition s es) :
    Meets step (fun s e => condition s e ∧ Inv s) s es := by
  induction es generalizing s with
  | nil => trivial
  | cons e es ih =>
      refine ⟨⟨hMeets.1, hInit⟩, fun next hNext => ?_⟩
      exact ih (hStep s e next hMeets.1 hInit hNext)
        (hMeets.2 next hNext)

/-
  Two conditions on the steps of a run that agree wherever
  an invariant holds, which steps meeting the first one
  keep.
-/
theorem meets_congr
    {condition condition' : σ → ε → Prop}
    {Inv : σ → Prop}
    (hKeep :
      ∀ s e next, condition s e → Inv s →
        step s e = some next → Inv next)
    (hIff :
      ∀ s e next, Inv s → step s e = some next →
        (condition s e ↔ condition' s e))
    {s finish : σ}
    {es : List ε}
    (hInit : Inv s)
    (hExec : exec step s es = some finish) :
    Meets step condition s es ↔
      Meets step condition' s es := by
  induction es generalizing s with
  | nil => exact Iff.rfl
  | cons e es ih =>
      rcases Option.bind_eq_some_iff.mp hExec with
        ⟨next, hNext, hRest⟩
      have hFirst := hIff s e next hInit hNext
      constructor
      · rintro ⟨hHere, hLater⟩
        have hInv := hKeep s e next hHere hInit hNext
        refine ⟨hFirst.mp hHere, fun next' hNext' => ?_⟩
        cases hNext.symm.trans hNext'
        exact (ih hInv hRest).mp (hLater next hNext)
      · rintro ⟨hHere, hLater⟩
        have hHere := hFirst.mpr hHere
        have hInv := hKeep s e next hHere hInit hNext
        refine ⟨hHere, fun next' hNext' => ?_⟩
        cases hNext.symm.trans hNext'
        exact (ih hInv hRest).mpr (hLater next hNext)

/- The trivial condition is met by every run. -/
theorem meets_true
    (s : σ)
    (es : List ε) :
    Meets step (fun _ _ => True) s es := by
  induction es generalizing s with
  | nil => trivial
  | cons e es ih =>
      exact ⟨trivial, fun next _ => ih next⟩

/-
  A property that every step keeps holds in every state a
  run reaches.
-/
theorem invariant
    {Inv : σ → Prop}
    (hStep :
      ∀ s e next, Inv s →
        step s e = some next → Inv next)
    {s finish : σ}
    {es : List ε}
    (hInit : Inv s)
    (hExec : exec step s es = some finish) :
    Inv finish :=
  invariant_of_meets
    (fun s e next _ => hStep s e next)
    hInit (meets_true s es) hExec

/- A property of the state and the events taken so far. -/
theorem invariant_of_past
    {Inv : List ε → σ → Prop}
    (hStep :
      ∀ past s e next, Inv past s →
        step s e = some next → Inv (past ++ [e]) next)
    {s finish : σ}
    {es : List ε}
    (hInit : Inv [] s)
    (hExec : exec step s es = some finish) :
    Inv es finish := by
  suffices hFrom :
      ∀ past, Inv past s → Inv (past ++ es) finish from
    hFrom [] hInit
  clear hInit
  induction es generalizing s with
  | nil =>
      intro past hPast
      cases hExec
      rw [List.append_nil]
      exact hPast
  | cons e es ih =>
      intro past hPast
      rcases Option.bind_eq_some_iff.mp hExec with
        ⟨next, hNext, hRest⟩
      rw [List.append_cons]
      exact ih hRest (past ++ [e])
        (hStep past s e next hPast hNext)

/-
  A property holds in every state along a run exactly when
  it holds at its start and each of its steps leads to a
  state with the property.
-/
theorem forall_reached_iff
    {Good : σ → Prop}
    (s : σ)
    (es : List ε) :
    (∀ past next, past <+: es →
        exec step s past = some next → Good next) ↔
      Good s ∧
        Meets step
          (fun s e => ∀ next, step s e = some next →
            Good next)
          s es := by
  induction es generalizing s with
  | nil =>
      constructor
      · intro hReached
        exact ⟨hReached [] s (List.prefix_refl []) rfl,
          trivial⟩
      · rintro ⟨hGood, _⟩ past next hPast hExec
        rw [List.prefix_nil] at hPast
        subst hPast
        cases hExec
        exact hGood
  | cons e es ih =>
      constructor
      · intro hReached
        have hGood := hReached [] s List.nil_prefix rfl
        have hRest :
            ∀ next, step s e = some next →
              Good next ∧
                Meets step
                  (fun s e => ∀ next, step s e = some next →
                    Good next)
                  next es := by
          intro next hNext
          apply (ih next).mp
          intro past later hPast hExec
          apply hReached (e :: past) later
          · exact List.cons_prefix_cons.mpr ⟨rfl, hPast⟩
          · rw [exec_cons, hNext]
            exact hExec
        exact ⟨hGood, fun next hNext => (hRest next hNext).1,
          fun next hNext => (hRest next hNext).2⟩
      · rintro ⟨hGood, hFirst, hRest⟩ past next hPast hExec
        cases past with
        | nil =>
            cases hExec
            exact hGood
        | cons f past =>
            rcases List.cons_prefix_cons.mp hPast with
              ⟨rfl, hPrefix⟩
            rcases Option.bind_eq_some_iff.mp hExec with
              ⟨middle, hMiddle, hLater⟩
            exact (ih middle).mpr
              ⟨hFirst middle hMiddle, hRest middle hMiddle⟩
              past next hPrefix hLater

end Run

------------------------------------------------------------
-- Runs of Coarser Steps
------------------------------------------------------------

namespace Run

variable {σ ε : Type}
variable {step : σ → ε → Option σ}
variable {condition : σ → ε → Prop}

/- Events that satisfy the condition in every state. -/
theorem meets_of_forall
    {es : List ε}
    (hAlways : ∀ e ∈ es, ∀ s, condition s e)
    (s : σ) :
    Meets step condition s es := by
  induction es generalizing s with
  | nil => trivial
  | cons e es ih =>
      refine ⟨hAlways e (by simp) s, fun next _ => ?_⟩
      exact ih (fun e' hE => hAlways e' (by simp [hE])) next

theorem Meets.append
    {s next : σ}
    {es fs : List ε}
    (hFirst : Meets step condition s es)
    (hExec : exec step s es = some next)
    (hSecond : Meets step condition next fs) :
    Meets step condition s (es ++ fs) := by
  induction es generalizing s with
  | nil =>
      cases hExec
      exact hSecond
  | cons e es ih =>
      refine ⟨hFirst.1, ?_⟩
      intro middle hMiddle
      rw [exec_cons, hMiddle, Option.bind_some] at hExec
      exact ih (hFirst.2 middle hMiddle) hExec

/- A run that is cut meets the condition on both sides. -/
theorem Meets.of_append
    {s next : σ}
    {es fs : List ε}
    (hMeets : Meets step condition s (es ++ fs))
    (hExec : exec step s es = some next) :
    Meets step condition s es ∧
      Meets step condition next fs := by
  induction es generalizing s with
  | nil =>
      cases hExec
      exact ⟨trivial, hMeets⟩
  | cons e es ih =>
      rcases Option.bind_eq_some_iff.mp hExec with
        ⟨middle, hMiddle, hRest⟩
      have hBoth := ih (hMeets.2 middle hMiddle) hRest
      refine ⟨⟨hMeets.1, ?_⟩, hBoth.2⟩
      intro other hOther
      cases hMiddle.symm.trans hOther
      exact hBoth.1

/-
  Steps of a coarser system that are runs of a finer one:
  every run of the coarser system is one of the finer, and
  meets the finer condition where its steps do.
-/
theorem exists_exec_of_refines
    {ε' : Type}
    {coarse : σ → ε' → Option σ}
    {condition' : σ → ε' → Prop}
    {Inv : σ → Prop}
    (hRefines :
      ∀ s e next, condition' s e → Inv s →
        coarse s e = some next →
          Inv next ∧
            ∃ es,
              exec step s es = some next ∧
                Meets step condition s es)
    {s finish : σ}
    {es : List ε'}
    (hInit : Inv s)
    (hMeets : Meets coarse condition' s es)
    (hExec : exec coarse s es = some finish) :
    Inv finish ∧
      ∃ fs,
        exec step s fs = some finish ∧
          Meets step condition s fs := by
  induction es generalizing s with
  | nil =>
      cases hExec
      exact ⟨hInit, [], rfl, trivial⟩
  | cons e es ih =>
      rcases Option.bind_eq_some_iff.mp hExec with
        ⟨next, hNext, hRest⟩
      rcases hRefines s e next hMeets.1 hInit hNext with
        ⟨hInv, gs, hFirst, hFirstMeets⟩
      rcases ih hInv (hMeets.2 next hNext) hRest with
        ⟨hFinish, fs, hSecond, hSecondMeets⟩
      refine ⟨hFinish, gs ++ fs, ?_, ?_⟩
      · rw [exec_append, hFirst, Option.bind_some, hSecond]
      · exact hFirstMeets.append hFirst hSecondMeets

end Run

------------------------------------------------------------
-- Projections of Runs
------------------------------------------------------------

namespace Run

variable {σ τ ε δ : Type}
variable {step : σ → ε → Option σ}

/-
  Events that are projected to an event of another system
  take the image of the state along, and the other events
  leave it where it is, as long as an invariant holds.
-/
theorem exec_filterMap_of_invariant
    {step' : τ → δ → Option τ}
    {image : σ → τ}
    {project : ε → Option δ}
    {Inv : σ → Prop}
    (hKeep :
      ∀ s e next, Inv s → step s e = some next → Inv next)
    (hImage :
      ∀ s e next, Inv s → step s e = some next →
        exec step' (image s) (project e).toList =
          some (image next))
    {s finish : σ}
    {es : List ε}
    (hInit : Inv s)
    (hExec : exec step s es = some finish) :
    exec step' (image s) (es.filterMap project) =
      some (image finish) := by
  induction es generalizing s with
  | nil =>
      cases hExec
      rfl
  | cons e es ih =>
      rcases Option.bind_eq_some_iff.mp hExec with
        ⟨next, hNext, hRest⟩
      have hFirst := hImage s e next hInit hNext
      have hLater := ih (hKeep s e next hInit hNext) hRest
      cases hProject : project e with
      | none =>
          rw [hProject] at hFirst
          rw [List.filterMap_cons_none hProject,
            Option.some.inj hFirst]
          exact hLater
      | some d =>
          rw [hProject] at hFirst
          rw [List.filterMap_cons_some hProject,
            ← List.singleton_append, exec_append]
          rw [Option.toList_some] at hFirst
          rw [hFirst]
          exact hLater

/- The same without an invariant. -/
theorem exec_filterMap
    {step' : τ → δ → Option τ}
    {image : σ → τ}
    {project : ε → Option δ}
    (hSome :
      ∀ s e next d, project e = some d →
        step s e = some next →
          step' (image s) d = some (image next))
    (hNone :
      ∀ s e next, project e = none →
        step s e = some next → image next = image s)
    {s finish : σ}
    {es : List ε}
    (hExec : exec step s es = some finish) :
    exec step' (image s) (es.filterMap project) =
      some (image finish) := by
  have hImage :
      ∀ s e next, True → step s e = some next →
        exec step' (image s) (project e).toList =
          some (image next) := by
    intro s e next _ hNext
    cases hProject : project e with
    | none =>
        exact congrArg some (hNone s e next hProject hNext).symm
    | some d =>
        rw [Option.toList_some, exec_cons,
          hSome s e next d hProject hNext]
        rfl
  exact
    exec_filterMap_of_invariant (fun _ _ _ h _ => h) hImage
      trivial hExec

/-
  A condition on the projected events, met by the run, is
  met by its projection.
-/
theorem meets_filterMap
    {step' : τ → δ → Option τ}
    {condition : τ → δ → Prop}
    {image : σ → τ}
    {project : ε → Option δ}
    (hSome :
      ∀ s e next d, project e = some d →
        step s e = some next →
          step' (image s) d = some (image next))
    (hNone :
      ∀ s e next, project e = none →
        step s e = some next → image next = image s)
    {s finish : σ}
    {es : List ε}
    (hMeets :
      Meets step
        (fun s e =>
          ∀ d, project e = some d → condition (image s) d)
        s es)
    (hExec : exec step s es = some finish) :
    Meets step' condition (image s)
      (es.filterMap project) := by
  induction es generalizing s with
  | nil => trivial
  | cons e es ih =>
      rcases Option.bind_eq_some_iff.mp hExec with
        ⟨next, hNext, hRest⟩
      have hLater := ih (hMeets.2 next hNext) hRest
      cases hProject : project e with
      | none =>
          rw [List.filterMap_cons_none hProject,
            ← hNone s e next hProject hNext]
          exact hLater
      | some d =>
          rw [List.filterMap_cons_some hProject]
          refine ⟨hMeets.1 d hProject, ?_⟩
          intro later hStep
          rw [hSome s e next d hProject hNext] at hStep
          cases hStep
          exact hLater

/- Events without a trace in the image can be left out. -/
theorem exec_filter
    {erase : σ → σ}
    {visible : ε → Bool}
    (hVisible :
      ∀ s e next, visible e = true →
        step s e = some next →
          step (erase s) e = some (erase next))
    (hHidden :
      ∀ s e next, visible e = false →
        step s e = some next → erase next = erase s)
    {s finish : σ}
    {es : List ε}
    (hExec : exec step s es = some finish) :
    exec step (erase s) (es.filter visible) =
      some (erase finish) := by
  rw [← List.filterMap_eq_filter]
  apply exec_filterMap _ _ hExec
  · intro s e next d hProject
    rcases Option.guard_eq_some_iff.mp hProject with
      ⟨rfl, hSeen⟩
    exact hVisible s e next hSeen
  · intro s e next hProject
    apply hHidden s e next
    simpa [Option.guard] using hProject

end Run

------------------------------------------------------------
-- Traces
------------------------------------------------------------

namespace Run

variable {σ τ ε δ : Type}
variable {step : σ → ε → Option σ}

/- What an observer sees of the steps of a run. -/
def trace
    (step : σ → ε → Option σ)
    (observe : σ → ε → Option δ) :
    σ → List ε → List δ
  | _, [] => []
  | s, e :: es =>
      (observe s e).toList ++
        match step s e with
        | some next => trace step observe next es
        | none => []

variable {observe : σ → ε → Option δ}

theorem trace_cons
    {s next : σ}
    {e : ε}
    (hNext : step s e = some next)
    (es : List ε) :
    trace step observe s (e :: es) =
      (observe s e).toList ++ trace step observe next es := by
  rw [trace, hNext]

/-
  An image of the states on which every step acts as what is
  seen of it says follows the trace of a run.
-/
theorem image_eq_foldl_trace
    {image : σ → τ}
    {act : τ → δ → τ}
    (hStep :
      ∀ s e next, step s e = some next →
        image next =
          (observe s e).toList.foldl act (image s))
    {s finish : σ}
    {es : List ε}
    (hExec : exec step s es = some finish) :
    image finish =
      (trace step observe s es).foldl act (image s) := by
  induction es generalizing s with
  | nil =>
      cases hExec
      rfl
  | cons e es ih =>
      rcases Option.bind_eq_some_iff.mp hExec with
        ⟨next, hNext, hRest⟩
      rw [trace_cons hNext, List.foldl_append,
        ← hStep s e next hNext]
      exact ih hRest

end Run
