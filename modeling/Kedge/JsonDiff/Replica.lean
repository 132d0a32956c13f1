import Kedge.JsonDiff.Correctness

/-
  The operations of `json_diff` applied to a copy of the
  source.

  A client holds a value that equals the server's source but
  may list the members of its objects in another order. The
  operations act on it as on the source, and keep the keys
  of its objects unique because every value they carry comes
  from the target.

  Main declarations:
    * `Carries`
    * `carries_of_mem_jsonDiff`
    * `applyPatch_jsonDiff_copy`
    * `applyPatch_jsonDiff_null`
-/

------------------------------------------------------------
-- Values in the Operations
------------------------------------------------------------

namespace Kedge

open Json

/-
  A `remove` operation, or an operation whose value has the
  given property.
-/
def Carries (Q : Value → Prop) (operation : Value) : Prop :=
  (∃ path, operation = removeOp path) ∨
    ∃ path value, Q value ∧
      (operation = replaceOp path value ∨
        operation = addOp path value)

theorem carries_of_mem_replaceOp
    {Q : Value → Prop}
    {path : Str}
    {value : Value}
    (hValue : Q value)
    {operation : Value}
    (hMember : operation ∈ [replaceOp path value]) :
    Carries Q operation :=
  Or.inr
    ⟨path, value, hValue,
      Or.inl (List.mem_singleton.mp hMember)⟩

theorem carries_of_mem_removeLoop
    (Q : Value → Prop)
    {path : Str}
    {targetSize i : Nat}
    {operation : Value}
    (hMember : operation ∈ removeLoop path targetSize i) :
    Carries Q operation := by
  induction i with
  | zero => simp [removeLoop] at hMember
  | succ i ih =>
      unfold removeLoop at hMember
      split at hMember
      · rcases List.mem_cons.mp hMember with rfl | hRest
        · exact Or.inl ⟨_, rfl⟩
        · exact ih hRest
      · simp at hMember

theorem carries_of_mem_appendLoop
    {Q : Value → Prop}
    {path : Str}
    {rest : List Value}
    (hRest : ∀ y ∈ rest, Q y)
    {operation : Value}
    (hMember : operation ∈ appendLoop path rest) :
    Carries Q operation := by
  induction rest using appendLoop.induct with
  | case1 => simp [appendLoop] at hMember
  | case2 y =>
      rw [appendLoop, List.mem_singleton] at hMember
      exact Or.inr
        ⟨_, y, hRest y (by simp), Or.inr hMember⟩
  | case3 y skipped rest ih =>
      rw [appendLoop, List.mem_cons] at hMember
      rcases hMember with hFirst | hLater
      · exact Or.inr ⟨_, y, hRest y (by simp), Or.inr hFirst⟩
      · exact ih (fun z hZ => hRest z (by simp [hZ])) hLater

theorem carries_of_mem_addLoop
    {Q : Value → Prop}
    {path : Str}
    {source target : Members}
    (hTarget : ∀ m ∈ target, Q m.2)
    {operation : Value}
    (hMember : operation ∈ addLoop path source target) :
    Carries Q operation := by
  induction target with
  | nil => simp [addLoop] at hMember
  | cons member target ih =>
      rcases member with ⟨key, value⟩
      have hRest : ∀ m ∈ target, Q m.2 :=
        fun m hM => hTarget m (by simp [hM])
      unfold addLoop at hMember
      split at hMember
      · rcases List.mem_cons.mp hMember with hFirst | hLater
        · exact Or.inr
            ⟨_, value, hTarget (key, value) (by simp),
              Or.inr hFirst⟩
        · exact ih hRest hLater
      · exact ih hRest hMember

theorem carries_of_mem_diffElements
    {Q : Value → Prop}
    {src tgt : List Value}
    (hChildren :
      ∀ x ∈ src, ∀ y ∈ tgt, ∀ path,
        ∀ operation ∈ jsonDiff x y path, Carries Q operation)
    {path : Str}
    {i : Nat}
    {operation : Value}
    (hMember : operation ∈ diffElements src tgt path i) :
    Carries Q operation := by
  induction src generalizing tgt i with
  | nil => simp [diffElements] at hMember
  | cons x src ih =>
      cases tgt with
      | nil => simp [diffElements] at hMember
      | cons y tgt =>
          rw [diffElements, List.mem_append] at hMember
          rcases hMember with hHead | hTail
          · exact hChildren x (by simp) y (by simp) _
              operation hHead
          · apply ih _ hTail
            intro x' hX y' hY
            exact hChildren x' (by simp [hX]) y' (by simp [hY])

theorem carries_of_mem_diffMembers
    {Q : Value → Prop}
    {src tgt : Members}
    (hChildren :
      ∀ m ∈ src, ∀ found, Value.find tgt m.1 = some found →
        ∀ path, ∀ operation ∈ jsonDiff m.2 found path,
          Carries Q operation)
    {path : Str}
    {operation : Value}
    (hMember : operation ∈ diffMembers src tgt path) :
    Carries Q operation := by
  induction src with
  | nil => simp [diffMembers] at hMember
  | cons member src ih =>
      rcases member with ⟨key, value⟩
      rw [diffMembers, List.mem_append] at hMember
      rcases hMember with hHead | hTail
      · cases hFind : Value.find tgt key with
        | none =>
            rw [hFind, List.mem_singleton] at hHead
            exact Or.inl ⟨_, hHead⟩
        | some found =>
            rw [hFind] at hHead
            exact hChildren (key, value) (by simp) found
              hFind _ operation hHead
      · exact ih (fun m hM => hChildren m (by simp [hM])) hTail

/-
  Every value that the difference carries is a part of the
  target and inherits what holds of all its objects.
-/
theorem carries_of_mem_jsonDiff
    {P : List Str → Prop}
    (source target : Value)
    (hTarget : target.KeysSatisfy P)
    (path : Str) :
    ∀ operation ∈ jsonDiff source target path,
      Carries (Value.KeysSatisfy P) operation := by
  induction source, target using comparisonInduction
      generalizing path with
  | equal source target hEquals =>
      rw [jsonDiff_of_equals hEquals]
      exact nofun
  | replaced source target hReplaced =>
      rw [jsonDiff_of_replaced hReplaced]
      intro operation hMember
      exact carries_of_mem_replaceOp hTarget hMember
  | arrays src tgt hEquals hEach =>
      have hTgt := (Value.keysSatisfy_array_iff tgt).mp hTarget
      rw [jsonDiff_array hEquals]
      intro operation hMember
      simp only [List.mem_append] at hMember
      rcases hMember with (hCommon | hGone) | hNew
      · apply carries_of_mem_diffElements _ hCommon
        intro x hX y hY
        exact hEach x hX y hY (hTgt y hY)
      · exact carries_of_mem_removeLoop _ hGone
      · apply carries_of_mem_appendLoop _ hNew
        intro y hY
        exact hTgt y (List.mem_of_mem_drop hY)
  | objects src tgt hEquals hEach =>
      have hTgt :=
        (Value.keysSatisfy_object_iff tgt).mp hTarget
      rw [jsonDiff_object hEquals]
      intro operation hMember
      rcases List.mem_append.mp hMember with hCommon | hNew
      · apply carries_of_mem_diffMembers _ hCommon
        intro m hM found hFind
        have hFound := Value.mem_of_find hFind
        exact hEach m hM _ hFound (hTgt.2 _ hFound)
      · exact carries_of_mem_addLoop hTgt.2 hNew

end Kedge

------------------------------------------------------------
-- Patching a Copy
------------------------------------------------------------

namespace Kedge

open Json

/- The value of a decoded operation is the one it carries. -/
theorem value_of_carries
    {Q : Value → Prop}
    {operation : Value}
    {decoded : Operation}
    (hCarries : Carries Q operation)
    (hDecode : Operation.ofValue? operation = some decoded) :
    ∀ value ∈ decoded.value?, Q value := by
  rcases hCarries with
    ⟨path, rfl⟩ | ⟨path, value, hValue, rfl | rfl⟩
  · have hOf :
        Operation.ofValue? (removeOp path) =
          (Pointer.parse path).map .remove := by
      cases hParse : Pointer.parse path <;>
        simp [Operation.ofValue?, removeOp, Value.find, hParse]
    rw [hOf, Option.map_eq_some_iff] at hDecode
    rcases hDecode with ⟨tokens, _, rfl⟩
    simp [Operation.value?]
  · have hOf :
        Operation.ofValue? (replaceOp path value) =
          (Pointer.parse path).map (.replace · value) := by
      cases hParse : Pointer.parse path <;>
        simp [Operation.ofValue?, replaceOp, Value.find,
          hParse]
    rw [hOf, Option.map_eq_some_iff] at hDecode
    rcases hDecode with ⟨tokens, _, rfl⟩
    simpa [Operation.value?] using hValue
  · have hOf :
        Operation.ofValue? (addOp path value) =
          (Pointer.parse path).map (.add · value) := by
      cases hParse : Pointer.parse path <;>
        simp [Operation.ofValue?, addOp, Value.find, hParse]
    rw [hOf, Option.map_eq_some_iff] at hDecode
    rcases hDecode with ⟨tokens, _, rfl⟩
    simpa [Operation.value?] using hValue

/-
  A copy of the source is patched to a copy of the target
  when no array grows by more than one element.
-/
theorem applyPatch_jsonDiff_copy
    {source target current : Value}
    (hSource : source.UniqueKeys)
    (hTarget : target.UniqueKeys)
    (hSourceKeys : source.PlainKeys)
    (hTargetKeys : target.PlainKeys)
    (hGrows : growsByAtMostOne source target = true)
    (hCurrent : current.UniqueKeys)
    (hCopy : current.denote = source.denote) :
    ∃ result,
      applyPatch (jsonDiff source target []) current =
        some result ∧
      result.UniqueKeys ∧ result.denote = target.denote := by
  have hSourceResult :=
    applyPatch_jsonDiff source target hSource hTarget
      hSourceKeys hTargetKeys
  have hAlike :=
    applyPatch_alike (jsonDiff source target []) current
      source hCopy
  rw [hSourceResult, Option.map_some,
    Option.map_eq_some_iff] at hAlike
  rcases hAlike with ⟨result, hResult, hDenote⟩
  have hKeeps :
      Value.KeepsUniqueKeys
        (applyPatch (jsonDiff source target [])) := by
    apply applyPatch_keepsUniqueKeys
    intro operation hMember decoded hDecode
    exact value_of_carries
      (carries_of_mem_jsonDiff source target hTarget []
        operation hMember)
      hDecode
  refine
    ⟨result, hResult,
      hKeeps current result hCurrent hResult, ?_⟩
  rw [hDenote]
  exact
    (patched_denote_eq_iff source target hSource
      hTarget).mpr hGrows

/-
  Only if no array grows by more than one element can the
  patched copy equal the target.
-/
theorem growsByAtMostOne_of_applyPatch_copy
    {source target current result : Value}
    (hSource : source.UniqueKeys)
    (hTarget : target.UniqueKeys)
    (hSourceKeys : source.PlainKeys)
    (hTargetKeys : target.PlainKeys)
    (hCurrent : current.UniqueKeys)
    (hCopy : current.denote = source.denote)
    (hResult :
      applyPatch (jsonDiff source target []) current =
        some result)
    (hEquals : result.equals target = true) :
    growsByAtMostOne source target = true := by
  have hAlike :=
    applyPatch_alike (jsonDiff source target []) current
      source hCopy
  rw [hResult,
    applyPatch_jsonDiff source target hSource hTarget
      hSourceKeys hTargetKeys] at hAlike
  have hPatched :
      result.denote = (patched source target).denote :=
    Option.some.inj hAlike
  have hKeeps :
      Value.KeepsUniqueKeys
        (applyPatch (jsonDiff source target [])) := by
    apply applyPatch_keepsUniqueKeys
    intro operation hMember decoded hDecode
    exact value_of_carries
      (carries_of_mem_jsonDiff source target hTarget []
        operation hMember)
      hDecode
  have hUnique := hKeeps current result hCurrent hResult
  have hDenote :=
    (Value.equals_iff_denote_eq result target hUnique
      hTarget).mp hEquals
  exact
    (patched_denote_eq_iff source target hSource
      hTarget).mp (hPatched.symm.trans hDenote)

/- The difference from null replaces any document. -/
theorem applyPatch_jsonDiff_null
    {target : Value}
    (hTarget : target.kind ≠ .null)
    (current : Value) :
    applyPatch (jsonDiff .null target []) current =
      some target := by
  have hDiff :
      jsonDiff .null target [] = [replaceOp [] target] := by
    cases target with
    | null => exact absurd rfl hTarget
    | _ => rfl
  rw [hDiff]
  exact applyPatch_replaceOp Focus.root (by simp [PlainPath])
    target current []

end Kedge
