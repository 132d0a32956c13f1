import Kedge.Library.Json.Location
import Kedge.JsonDiff.Diff

/-
  The positions that the operations of `json_diff` are about.

  `positions` lists, operation by operation, the keys and
  indices that lead to the difference. The path of an
  operation is these steps written behind separators, with
  the keys as they are. The list is empty for equal values
  only, and no place but the end of an array is in it twice.

  Key definitions include:
    * `positions`
    * `Locates`
    * `Apart`

  Main theorems include:
    * `locates_jsonDiff`
    * `positions_eq_nil_iff`
    * `positionInduction`
    * `pairwise_positions`
-/

------------------------------------------------------------
-- The Positions of the Operations
------------------------------------------------------------

namespace Kedge

open Json

def removedPositions (targetSize : Nat) :
    Nat → List Position
  | 0 => []
  | i + 1 =>
      if i + 1 > targetSize then
        [.index i] :: removedPositions targetSize i
      else []

def appendedPositions : List Value → List Position
  | [] => []
  | [_] => [[.append]]
  | _ :: _ :: rest => [.append] :: appendedPositions rest

def addedPositions (source : Members) :
    Members → List Position
  | [] => []
  | (key, _) :: target =>
      if (Value.find source key).isNone then
        [.key key] :: addedPositions source target
      else addedPositions source target

mutual

/-
  The steps to the differences, in the order in which
  `jsonDiff` lists its operations.
-/
def positions (source target : Value) : List Position :=
  if source.equals target then []
  else if source.kind ≠ target.kind then [[]]
  else
    match source, target with
    | .array src, .array tgt =>
        elementPositions src tgt 0 ++
          removedPositions tgt.length src.length ++
          appendedPositions (tgt.drop src.length)
    | .object src, .object tgt =>
        memberPositions src tgt ++ addedPositions src tgt
    | _, _ => [[]]

def elementPositions (src tgt : List Value) (i : Nat) :
    List Position :=
  match src, tgt with
  | x :: src, y :: tgt =>
      (positions x y).map (Step.index i :: ·) ++
        elementPositions src tgt (i + 1)
  | _, _ => []

def memberPositions (src tgt : Members) : List Position :=
  match src with
  | [] => []
  | (key, value) :: src =>
      (match Value.find tgt key with
        | some found =>
            (positions value found).map (Step.key key :: ·)
        | none => [[.key key]]) ++
        memberPositions src tgt

end

end Kedge

------------------------------------------------------------
-- The Cases of the Comparison
------------------------------------------------------------

namespace Kedge

open Json

theorem positions_of_equals
    {source target : Value}
    (hEquals : source.equals target = true) :
    positions source target = [] := by
  unfold positions
  exact if_pos hEquals

theorem positions_of_replaced
    {source target : Value}
    (hReplaced : Replaced source target) :
    positions source target = [[]] := by
  unfold positions
  rw [hReplaced.differ, if_neg nofun]
  rcases hReplaced.kind_ne_or_isScalar with
    hKind | ⟨hArray, hObject⟩
  · exact if_pos hKind
  · cases source with
    | array src => exact absurd rfl hArray
    | object src => exact absurd rfl hObject
    | _ => simp

theorem positions_array
    {src tgt : List Value}
    (hEquals :
      Value.equals (.array src) (.array tgt) = false) :
    positions (.array src) (.array tgt) =
      elementPositions src tgt 0 ++
        removedPositions tgt.length src.length ++
        appendedPositions (tgt.drop src.length) := by
  simp [positions, hEquals, Value.kind]

theorem positions_object
    {src tgt : Members}
    (hEquals :
      Value.equals (.object src) (.object tgt) = false) :
    positions (.object src) (.object tgt) =
      memberPositions src tgt ++ addedPositions src tgt := by
  simp [positions, hEquals, Value.kind]

end Kedge

------------------------------------------------------------
-- Paths Spell the Positions
------------------------------------------------------------

namespace Kedge

open Json

/- The path that an operation object names. -/
def pathOf? : Value → Option Str
  | .object members =>
      match Value.find members "path".toList with
      | some (.string path) => some path
      | _ => none
  | _ => none

/-
  The operation is one on the steps of the position behind
  the path, and an append is an addition.
-/
def Locates
    (path : Str)
    (operation : Value)
    (position : Position) : Prop :=
  pathOf? operation =
      some (path ++ Pointer.spell (tokens position)) ∧
    (Step.append ∈ position →
      ∃ value,
        operation =
          addOp (path ++ Pointer.spell (tokens position))
            value)

theorem pathOf?_replaceOp
    (path : Str)
    (value : Value) :
    pathOf? (replaceOp path value) = some path := by
  rfl

theorem pathOf?_removeOp
    (path : Str) :
    pathOf? (removeOp path) = some path := by
  rfl

theorem pathOf?_addOp
    (path : Str)
    (value : Value) :
    pathOf? (addOp path value) = some path := by
  rfl

theorem childPath_eq_spell
    (path : Str)
    (step : Step) :
    childPath path step.token =
      path ++ Pointer.spell (tokens [step]) := by
  simp [childPath, Pointer.spell]

/- A path of a child continues the path of the container. -/
theorem Locates.cons
    {path : Str}
    {step : Step}
    {operation : Value}
    {position : Position}
    (hStep : step ≠ .append)
    (hLocates :
      Locates (childPath path step.token) operation
        position) :
    Locates path operation (step :: position) := by
  have hPath :
      childPath path step.token ++
          Pointer.spell (tokens position) =
        path ++ Pointer.spell (tokens (step :: position)) := by
    simp [childPath, Pointer.spell]
  rcases hLocates with ⟨hHere, hAppend⟩
  rw [hPath] at hHere
  refine ⟨hHere, ?_⟩
  intro hIn
  rcases List.mem_cons.mp hIn with hFirst | hRest
  · exact absurd hFirst.symm hStep
  · rw [← hPath]
    exact hAppend hRest

theorem locates_replaceOp
    (path : Str)
    (value : Value) :
    Locates path (replaceOp path value) [] := by
  refine ⟨?_, fun hIn => absurd hIn List.not_mem_nil⟩
  rw [pathOf?_replaceOp, tokens_nil, Pointer.spell_nil,
    List.append_nil]

theorem locates_removeOp
    (path : Str)
    (step : Step)
    (hStep : step ≠ .append) :
    Locates path (removeOp (childPath path step.token))
      [step] := by
  constructor
  · rw [pathOf?_removeOp, childPath_eq_spell]
  · intro hIn
    exact absurd (List.mem_singleton.mp hIn).symm hStep

theorem locates_addOp
    (path : Str)
    (step : Step)
    (value : Value) :
    Locates path (addOp (childPath path step.token) value)
      [step] := by
  rw [childPath_eq_spell]
  exact ⟨pathOf?_addOp _ _, fun _ => ⟨value, rfl⟩⟩

theorem locates_removeLoop
    (path : Str)
    (targetSize i : Nat) :
    List.Forall₂ (Locates path) (removeLoop path targetSize i)
      (removedPositions targetSize i) := by
  induction i with
  | zero => exact .nil
  | succ i hRest =>
      rw [removeLoop, removedPositions]
      split
      · exact .cons
          (locates_removeOp path (.index i) nofun)
          hRest
      · exact .nil

theorem locates_appendLoop
    (path : Str)
    (elements : List Value) :
    List.Forall₂ (Locates path) (appendLoop path elements)
      (appendedPositions elements) := by
  induction elements using appendLoop.induct with
  | case1 => exact .nil
  | case2 y => exact .cons (locates_addOp path .append y) .nil
  | case3 y z rest hRest =>
      exact .cons (locates_addOp path .append y) hRest

theorem locates_addLoop
    (path : Str)
    (source target : Members) :
    List.Forall₂ (Locates path) (addLoop path source target)
      (addedPositions source target) := by
  induction target with
  | nil => exact .nil
  | cons member target hRest =>
      rcases member with ⟨key, value⟩
      rw [addLoop, addedPositions]
      split
      · exact .cons (locates_addOp path (.key key) value)
          hRest
      · exact hRest

/- The operations of a child, seen from the container. -/
theorem Locates.map_cons
    {path : Str}
    (step : Step)
    {operations : List Value}
    {places : List Position}
    (hStep : step ≠ .append)
    (hLocates :
      List.Forall₂ (Locates (childPath path step.token))
        operations places) :
    List.Forall₂ (Locates path) operations
      (places.map (step :: ·)) := by
  rw [List.forall₂_map_right_iff]
  exact hLocates.imp fun _ _ hOne => hOne.cons hStep

theorem locates_diffElements
    {src tgt : List Value}
    (hEach :
      ∀ x ∈ src, ∀ y ∈ tgt, ∀ path,
        List.Forall₂ (Locates path) (jsonDiff x y path)
          (positions x y))
    (path : Str)
    (i : Nat) :
    List.Forall₂ (Locates path) (diffElements src tgt path i)
      (elementPositions src tgt i) := by
  induction src generalizing tgt i with
  | nil => exact .nil
  | cons x src hRest =>
      cases tgt with
      | nil => exact .nil
      | cons y tgt =>
          rw [diffElements, elementPositions]
          apply List.rel_append
          · exact Locates.map_cons (.index i) nofun
              (hEach x (by simp) y (by simp) _)
          · apply hRest
            intro z hZ w hW
            exact hEach z (by simp [hZ]) w (by simp [hW])

theorem locates_diffMembers
    {src tgt : Members}
    (hEach :
      ∀ m ∈ src, ∀ n ∈ tgt, ∀ path,
        List.Forall₂ (Locates path) (jsonDiff m.2 n.2 path)
          (positions m.2 n.2))
    (path : Str) :
    List.Forall₂ (Locates path) (diffMembers src tgt path)
      (memberPositions src tgt) := by
  induction src with
  | nil => exact .nil
  | cons member src hRest =>
      rcases member with ⟨key, value⟩
      rw [diffMembers, memberPositions]
      apply List.rel_append
      · cases hFind : Value.find tgt key with
        | none =>
            exact .cons
              (locates_removeOp path (.key key) nofun)
              .nil
        | some found =>
            exact Locates.map_cons (.key key) nofun
              (hEach (key, value) (by simp) (key, found)
                (Value.mem_of_find hFind) _)
      · apply hRest
        intro m hM
        exact hEach m (by simp [hM])

/-
  The paths of `json_diff` are the positions, written behind
  separators. This needs nothing of the keys.
-/
theorem locates_jsonDiff
    (source target : Value)
    (path : Str) :
    List.Forall₂ (Locates path) (jsonDiff source target path)
      (positions source target) := by
  induction source, target using comparisonInduction
      generalizing path with
  | equal source target hEquals =>
      rw [positions_of_equals hEquals,
        jsonDiff_of_equals hEquals]
      exact .nil
  | replaced source target hReplaced =>
      rw [positions_of_replaced hReplaced,
        jsonDiff_of_replaced hReplaced]
      exact .cons (locates_replaceOp path target) .nil
  | arrays src tgt hEquals hEach =>
      rw [positions_array hEquals, jsonDiff_array hEquals]
      exact List.rel_append
        (List.rel_append (locates_diffElements hEach path 0)
          (locates_removeLoop path _ _))
        (locates_appendLoop path _)
  | objects src tgt hEquals hEach =>
      rw [positions_object hEquals, jsonDiff_object hEquals]
      exact List.rel_append (locates_diffMembers hEach path)
        (locates_addLoop path src tgt)

end Kedge

------------------------------------------------------------
-- Which Positions Are Listed
------------------------------------------------------------

namespace Kedge

open Json

theorem mem_removedPositions
    {targetSize size : Nat}
    {place : Position} :
    place ∈ removedPositions targetSize size ↔
      ∃ i, targetSize ≤ i ∧ i < size ∧
        place = [.index i] := by
  induction size with
  | zero => simp [removedPositions]
  | succ size hRest =>
      rw [removedPositions]
      split
      · next hMore =>
        rw [List.mem_cons, hRest]
        constructor
        · rintro (rfl | ⟨i, hLe, hLt, rfl⟩)
          · exact ⟨size, by omega, by omega, rfl⟩
          · exact ⟨i, hLe, by omega, rfl⟩
        · rintro ⟨i, hLe, hLt, rfl⟩
          by_cases hLast : i = size
          · exact Or.inl (by rw [hLast])
          · exact Or.inr ⟨i, hLe, by omega, rfl⟩
      · next hDone =>
        constructor
        · intro hIn
          cases hIn
        · rintro ⟨i, hLe, hLt, rfl⟩
          omega

theorem mem_appendedPositions
    {elements : List Value}
    {place : Position} :
    place ∈ appendedPositions elements ↔
      elements ≠ [] ∧ place = [.append] := by
  induction elements using appendedPositions.induct with
  | case1 => simp [appendedPositions]
  | case2 y => simp [appendedPositions]
  | case3 y z rest hRest =>
      simp only [appendedPositions, List.mem_cons, hRest]
      constructor
      · rintro (hFirst | ⟨_, hLater⟩)
        · exact ⟨nofun, hFirst⟩
        · exact ⟨nofun, hLater⟩
      · rintro ⟨_, hPlace⟩
        exact Or.inl hPlace

theorem mem_addedPositions
    {source target : Members}
    {place : Position} :
    place ∈ addedPositions source target ↔
      ∃ key ∈ keys target,
        key ∉ keys source ∧ place = [.key key] := by
  induction target with
  | nil => simp [addedPositions]
  | cons member target hRest =>
      rcases member with ⟨key, value⟩
      rw [addedPositions]
      by_cases hOld : key ∈ keys source
      · simp [hOld, hRest]
      · simp [hOld, hRest]

theorem mem_elementPositions
    {src tgt : List Value}
    {i : Nat}
    {place : Position} :
    place ∈ elementPositions src tgt i ↔
      ∃ j x y rest,
        src[j]? = some x ∧ tgt[j]? = some y ∧
          rest ∈ positions x y ∧
          place = .index (i + j) :: rest := by
  induction src generalizing tgt i with
  | nil => simp [elementPositions]
  | cons x src hRest =>
      cases tgt with
      | nil => simp [elementPositions]
      | cons y tgt =>
          rw [elementPositions, List.mem_append,
            List.mem_map, hRest]
          constructor
          · rintro (⟨rest, hIn, rfl⟩ |
              ⟨j, v, w, rest, hV, hW, hIn, rfl⟩)
            · exact ⟨0, x, y, rest, rfl, rfl, hIn, rfl⟩
            · refine ⟨j + 1, v, w, rest, hV, hW, hIn, ?_⟩
              rw [Nat.add_right_comm, Nat.add_assoc]
          · rintro ⟨j, v, w, rest, hV, hW, hIn, rfl⟩
            cases j with
            | zero =>
                cases hV
                cases hW
                exact Or.inl ⟨rest, hIn, rfl⟩
            | succ j =>
                refine Or.inr
                  ⟨j, v, w, rest, hV, hW, hIn, ?_⟩
                rw [Nat.add_right_comm, Nat.add_assoc]

theorem mem_memberPositions
    {src tgt : Members}
    {place : Position} :
    place ∈ memberPositions src tgt ↔
      ∃ m ∈ src,
        (∃ found rest,
          Value.find tgt m.1 = some found ∧
            rest ∈ positions m.2 found ∧
            place = .key m.1 :: rest) ∨
        (m.1 ∉ keys tgt ∧ place = [.key m.1]) := by
  induction src with
  | nil => simp [memberPositions]
  | cons member src hRest =>
      rcases member with ⟨key, value⟩
      rw [memberPositions, List.mem_append, hRest]
      simp only [List.mem_cons, or_and_right, exists_or,
        exists_eq_left]
      apply or_congr_left
      cases hFind : Value.find tgt key with
      | none =>
          have hAbsent := (Value.find_eq_none_iff _ _).mp hFind
          simp [hAbsent]
      | some found =>
          have hPresent := Value.mem_keys_of_find hFind
          simp [hPresent, eq_comm]

theorem mem_positions_array
    {src tgt : List Value}
    {place : Position}
    (hEquals :
      Value.equals (.array src) (.array tgt) = false) :
    place ∈ positions (.array src) (.array tgt) ↔
      (∃ i x y rest,
        src[i]? = some x ∧ tgt[i]? = some y ∧
          rest ∈ positions x y ∧
          place = .index i :: rest) ∨
      (∃ i, tgt.length ≤ i ∧ i < src.length ∧
        place = [.index i]) ∨
      (src.length < tgt.length ∧ place = [.append]) := by
  rw [positions_array hEquals, List.mem_append,
    List.mem_append, mem_elementPositions,
    mem_removedPositions, mem_appendedPositions, or_assoc,
    ne_eq, List.drop_eq_nil_iff, Nat.not_le]
  simp only [Nat.zero_add]

theorem mem_positions_object
    {src tgt : Members}
    {place : Position}
    (hUnique : (keys src).Nodup)
    (hEquals :
      Value.equals (.object src) (.object tgt) = false) :
    place ∈ positions (.object src) (.object tgt) ↔
      (∃ key x y rest,
        Value.find src key = some x ∧
          Value.find tgt key = some y ∧
          rest ∈ positions x y ∧
          place = .key key :: rest) ∨
      (∃ key,
        (key ∈ keys src ∧ key ∉ keys tgt ∨
          key ∉ keys src ∧ key ∈ keys tgt) ∧
        place = [.key key]) := by
  rw [positions_object hEquals, List.mem_append,
    mem_memberPositions, mem_addedPositions]
  constructor
  · rintro (⟨⟨key, x⟩, hMember, hPlace⟩ |
      ⟨key, hNew, hOld, rfl⟩)
    · rcases hPlace with
        ⟨y, rest, hFind, hRest, rfl⟩ | ⟨hAbsent, rfl⟩
      · exact Or.inl ⟨key, x, y, rest,
          Value.find_of_mem hUnique hMember, hFind, hRest,
          rfl⟩
      · exact Or.inr ⟨key,
          Or.inl ⟨mem_keys_of_mem hMember, hAbsent⟩, rfl⟩
    · exact Or.inr ⟨key, Or.inr ⟨hOld, hNew⟩, rfl⟩
  · rintro (⟨key, x, y, rest, hX, hY, hRest, rfl⟩ |
      ⟨key, ⟨hIn, hOut⟩ | ⟨hOut, hIn⟩, rfl⟩)
    · exact Or.inl ⟨(key, x), Value.mem_of_find hX,
        Or.inl ⟨y, rest, hY, hRest, rfl⟩⟩
    · rcases List.mem_map.mp hIn with ⟨m, hMember, rfl⟩
      exact Or.inl ⟨m, hMember, Or.inr ⟨hOut, rfl⟩⟩
    · exact Or.inr ⟨key, hIn, hOut, rfl⟩

/- Two arrays without a place have equal elements. -/
theorem equals_array_of_positions
    {src tgt : List Value}
    (hEach :
      ∀ x ∈ src, ∀ y ∈ tgt,
        positions x y = [] → x.equals y = true)
    (hNone : positions (.array src) (.array tgt) = []) :
    Value.equals (.array src) (.array tgt) = true := by
  by_contra hDiffer
  have hEquals :
      Value.equals (.array src) (.array tgt) = false :=
    Bool.not_eq_true _ ▸ hDiffer
  have hOut :
      ∀ place,
        place ∉ positions (.array src) (.array tgt) := by
    intro place
    rw [hNone]
    exact List.not_mem_nil
  have hLe : ¬ src.length < tgt.length := by
    intro hLt
    exact hOut [.append]
      ((mem_positions_array hEquals).mpr
        (Or.inr (Or.inr ⟨hLt, rfl⟩)))
  have hGe : ¬ tgt.length < src.length := by
    intro hLt
    exact hOut [.index tgt.length]
      ((mem_positions_array hEquals).mpr
        (Or.inr (Or.inl ⟨_, le_rfl, hLt, rfl⟩)))
  apply hDiffer
  rw [Value.equals, Value.equalsElements_iff,
    List.forall₂_iff_get]
  refine ⟨by omega, ?_⟩
  intro i hX hY
  apply hEach _ (List.get_mem _ _) _ (List.get_mem _ _)
  rw [List.eq_nil_iff_forall_not_mem]
  intro rest hRest
  exact hOut (.index i :: rest)
    ((mem_positions_array hEquals).mpr
      (Or.inl ⟨i, _, _, rest, List.getElem?_eq_getElem hX,
        List.getElem?_eq_getElem hY, hRest, rfl⟩))

/- Two objects without a place have equal members. -/
theorem equals_object_of_positions
    {src tgt : Members}
    (hSrc : (keys src).Nodup)
    (hTgt : (keys tgt).Nodup)
    (hEach :
      ∀ m ∈ src, ∀ n ∈ tgt,
        positions m.2 n.2 = [] → m.2.equals n.2 = true)
    (hNone : positions (.object src) (.object tgt) = []) :
    Value.equals (.object src) (.object tgt) = true := by
  by_contra hDiffer
  have hEquals :
      Value.equals (.object src) (.object tgt) = false :=
    Bool.not_eq_true _ ▸ hDiffer
  have hOut :
      ∀ place,
        place ∉ positions (.object src) (.object tgt) := by
    intro place
    rw [hNone]
    exact List.not_mem_nil
  have hKeys :
      ∀ key, key ∈ keys src ↔ key ∈ keys tgt := by
    intro key
    by_contra hOther
    apply hOut [.key key]
    rw [mem_positions_object hSrc hEquals]
    exact Or.inr ⟨key, by tauto, rfl⟩
  have hPerm : (keys src).Perm (keys tgt) :=
    (List.perm_ext_iff_of_nodup hSrc hTgt).mpr hKeys
  apply hDiffer
  rw [Value.equals, Bool.and_eq_true, beq_iff_eq,
    Value.equalsMembers_iff]
  refine ⟨by simpa [keys] using hPerm.length_eq, ?_⟩
  rintro ⟨key, x⟩ hMember
  have hIn : key ∈ keys tgt :=
    (hKeys key).mp (mem_keys_of_mem hMember)
  rcases List.mem_map.mp hIn with ⟨⟨_, y⟩, hOther, rfl⟩
  have hFind := Value.find_of_mem hTgt hOther
  refine ⟨y, hFind, ?_⟩
  apply hEach _ hMember _ hOther
  rw [List.eq_nil_iff_forall_not_mem]
  intro rest hRest
  exact hOut (.key _ :: rest)
    ((mem_positions_object hSrc hEquals).mpr
      (Or.inl ⟨_, x, y, rest, Value.find_of_mem hSrc hMember,
        hFind, hRest, rfl⟩))

/- The lists are empty only for equal values. -/
theorem positions_eq_nil_iff
    (source target : Value)
    (hSource : source.UniqueKeys)
    (hTarget : target.UniqueKeys) :
    positions source target = [] ↔
      source.equals target = true := by
  refine ⟨?_, positions_of_equals⟩
  induction source, target using comparisonInduction with
  | equal source target hEquals =>
      intro _
      exact hEquals
  | replaced source target hReplaced =>
      intro hNone
      rw [positions_of_replaced hReplaced] at hNone
      cases hNone
  | arrays src tgt hEquals hEach =>
      have hSrc := (Value.keysSatisfy_array_iff src).mp hSource
      have hTgt := (Value.keysSatisfy_array_iff tgt).mp hTarget
      apply equals_array_of_positions
      intro x hX y hY
      exact hEach x hX y hY (hSrc x hX) (hTgt y hY)
  | objects src tgt hEquals hEach =>
      have hSrc :=
        (Value.keysSatisfy_object_iff src).mp hSource
      have hTgt :=
        (Value.keysSatisfy_object_iff tgt).mp hTarget
      apply equals_object_of_positions hSrc.1 hTgt.1
      intro m hM n hN
      exact hEach m hM n hN (hSrc.2 m hM) (hTgt.2 n hN)

/-
  A place in the list is the whole value, a place of a child
  behind the step to it, or one of the three single steps:
  an index that the target lacks, the end of an array, and a
  key of only one object.
-/
@[elab_as_elim]
theorem positionInduction
    {motive : Value → Value → Position → Prop}
    (whole :
      ∀ source target,
        source.equals target = false →
          motive source target [])
    (child :
      ∀ source target step x y rest,
        source.take? step = some x →
        target.take? step = some y →
        rest ∈ positions x y →
        motive x y rest →
          motive source target (step :: rest))
    (removed :
      ∀ src tgt i, tgt.length ≤ i → i < src.length →
        motive (.array src) (.array tgt) [.index i])
    (appended :
      ∀ src tgt, src.length < tgt.length →
        motive (.array src) (.array tgt) [.append])
    (single :
      ∀ (src tgt : Members) key,
        (key ∈ keys src ∧ key ∉ keys tgt ∨
          key ∉ keys src ∧ key ∈ keys tgt) →
        motive (.object src) (.object tgt) [.key key])
    (source target : Value)
    (hSource : source.UniqueKeys)
    (place : Position)
    (hPlace : place ∈ positions source target) :
    motive source target place := by
  induction source, target using comparisonInduction
      generalizing place with
  | equal source target hEquals =>
      rw [positions_of_equals hEquals] at hPlace
      cases hPlace
  | replaced source target hReplaced =>
      rw [positions_of_replaced hReplaced,
        List.mem_singleton] at hPlace
      rw [hPlace]
      exact whole source target hReplaced.differ
  | arrays src tgt hEquals hEach =>
      have hSrc := (Value.keysSatisfy_array_iff src).mp hSource
      rcases (mem_positions_array hEquals).mp hPlace with
        ⟨i, x, y, rest, hX, hY, hRest, rfl⟩ |
        ⟨i, hLe, hLt, rfl⟩ | ⟨hLt, rfl⟩
      · have hXIn := List.mem_of_getElem? hX
        exact child _ _ (.index i) x y rest hX hY hRest
          (hEach x hXIn y (List.mem_of_getElem? hY)
            (hSrc x hXIn) rest hRest)
      · exact removed src tgt i hLe hLt
      · exact appended src tgt hLt
  | objects src tgt hEquals hEach =>
      have hSrc :=
        (Value.keysSatisfy_object_iff src).mp hSource
      rcases (mem_positions_object hSrc.1 hEquals).mp hPlace
        with ⟨key, x, y, rest, hX, hY, hRest, rfl⟩ |
          ⟨key, hKey, rfl⟩
      · have hXIn := Value.mem_of_find hX
        exact child _ _ (.key key) x y rest hX hY hRest
          (hEach _ hXIn _ (Value.mem_of_find hY)
            (hSrc.2 _ hXIn) rest hRest)
      · exact single src tgt key hKey

/- The steps are those of the source, or one step beside. -/
theorem fits_of_mem_positions
    (source target : Value)
    (hSource : source.UniqueKeys)
    (place : Position)
    (hPlace : place ∈ positions source target) :
    Value.Fits place source := by
  refine positionInduction ?whole ?child ?removed ?appended
    ?single source target hSource place hPlace
  case whole =>
    intro source target hEquals
    trivial
  case child =>
    intro source target step x y rest hX hY hRest hFits
    refine ⟨Value.suits_of_take? hX, ?_⟩
    rw [hX]
    exact hFits
  case removed =>
    intro src tgt i hLe hLt
    exact Value.fits_singleton trivial
  case appended =>
    intro src tgt hLt
    exact Value.fits_singleton trivial
  case single =>
    intro src tgt key hKey
    exact Value.fits_singleton trivial

end Kedge

------------------------------------------------------------
-- No Place Is Listed Twice
------------------------------------------------------------

namespace Kedge

open Json

/- Only appends may name a place again. -/
def Apart (first second : Position) : Prop :=
  first = second → Step.append ∈ first

theorem Apart.of_head_ne
    {step other : Step}
    {first second : Position}
    (hStep : step ≠ other) :
    Apart (step :: first) (other :: second) := by
  intro hSame
  exact absurd (List.cons.inj hSame).1 hStep

theorem pairwise_map_cons
    {places : List Position}
    (step : Step)
    (hPlaces : places.Pairwise Apart) :
    (places.map (step :: ·)).Pairwise Apart := by
  rw [List.pairwise_map]
  apply hPlaces.imp
  intro first second hApart hSame
  exact List.mem_cons_of_mem _
    (hApart (List.cons.inj hSame).2)

theorem pairwise_removedPositions
    (targetSize size : Nat) :
    (removedPositions targetSize size).Pairwise Apart := by
  induction size with
  | zero => exact .nil
  | succ size hRest =>
      rw [removedPositions]
      split
      · refine .cons ?_ hRest
        intro place hPlace
        rcases mem_removedPositions.mp hPlace with
          ⟨i, _, hLt, rfl⟩
        apply Apart.of_head_ne
        intro hSame
        have hIndex := Step.index.inj hSame
        omega
      · exact .nil

theorem pairwise_appendedPositions
    (elements : List Value) :
    (appendedPositions elements).Pairwise Apart := by
  induction elements using appendedPositions.induct with
  | case1 => exact .nil
  | case2 y => exact List.pairwise_singleton _ _
  | case3 y z rest hRest =>
      refine .cons ?_ hRest
      intro place _ _
      exact List.mem_singleton_self _

theorem pairwise_addedPositions
    {source target : Members}
    (hUnique : (keys target).Nodup) :
    (addedPositions source target).Pairwise Apart := by
  induction target with
  | nil => exact .nil
  | cons member target hRest =>
      rcases member with ⟨key, value⟩
      rw [keys_cons, List.nodup_cons] at hUnique
      rw [addedPositions]
      split
      · refine .cons ?_ (hRest hUnique.2)
        intro place hPlace
        rcases mem_addedPositions.mp hPlace with
          ⟨other, hOther, _, rfl⟩
        apply Apart.of_head_ne
        intro hSame
        rw [Step.key.inj hSame] at hUnique
        exact hUnique.1 hOther
      · exact hRest hUnique.2

theorem pairwise_elementPositions
    {src tgt : List Value}
    (hEach :
      ∀ x ∈ src, ∀ y ∈ tgt,
        (positions x y).Pairwise Apart)
    (i : Nat) :
    (elementPositions src tgt i).Pairwise Apart := by
  induction src generalizing tgt i with
  | nil => exact .nil
  | cons x src hRest =>
      cases tgt with
      | nil => exact .nil
      | cons y tgt =>
          rw [elementPositions, List.pairwise_append]
          refine ⟨?_, ?_, ?_⟩
          · exact pairwise_map_cons _
              (hEach x (by simp) y (by simp))
          · apply hRest
            intro z hZ w hW
            exact hEach z (by simp [hZ]) w (by simp [hW])
          · intro first hFirst second hSecond
            rcases List.mem_map.mp hFirst with ⟨_, _, rfl⟩
            rcases mem_elementPositions.mp hSecond with
              ⟨j, _, _, _, _, _, _, rfl⟩
            apply Apart.of_head_ne
            intro hSame
            have hIndex := Step.index.inj hSame
            omega

/- The first step of a place of an object is a key of it. -/
theorem key_of_mem_memberPositions
    {src tgt : Members}
    {place : Position}
    (hPlace : place ∈ memberPositions src tgt) :
    ∃ key ∈ keys src, ∃ rest, place = .key key :: rest := by
  rcases mem_memberPositions.mp hPlace with
    ⟨m, hMember, ⟨_, rest, _, _, rfl⟩ | ⟨_, rfl⟩⟩
  · exact ⟨m.1, mem_keys_of_mem hMember, rest, rfl⟩
  · exact ⟨m.1, mem_keys_of_mem hMember, [], rfl⟩

theorem pairwise_memberPositions
    {src tgt : Members}
    (hUnique : (keys src).Nodup)
    (hEach :
      ∀ m ∈ src, ∀ n ∈ tgt,
        (positions m.2 n.2).Pairwise Apart) :
    (memberPositions src tgt).Pairwise Apart := by
  induction src with
  | nil => exact .nil
  | cons member src hRest =>
      rcases member with ⟨key, value⟩
      rw [keys_cons, List.nodup_cons] at hUnique
      rw [memberPositions, List.pairwise_append]
      refine ⟨?_, ?_, ?_⟩
      · cases hFind : Value.find tgt key with
        | none => exact List.pairwise_singleton _ _
        | some found =>
            exact pairwise_map_cons _
              (hEach (key, value) (by simp) (key, found)
                (Value.mem_of_find hFind))
      · apply hRest hUnique.2
        intro m hM
        exact hEach m (by simp [hM])
      · intro first hFirst second hSecond
        rcases key_of_mem_memberPositions hSecond with
          ⟨other, hOther, rest, rfl⟩
        have hHead : ∃ tail, first = .key key :: tail := by
          cases hFind : Value.find tgt key with
          | none =>
              rw [hFind] at hFirst
              exact ⟨[], List.mem_singleton.mp hFirst⟩
          | some found =>
              rw [hFind] at hFirst
              rcases List.mem_map.mp hFirst with
                ⟨tail, _, rfl⟩
              exact ⟨tail, rfl⟩
        rcases hHead with ⟨tail, rfl⟩
        apply Apart.of_head_ne
        intro hSame
        rw [Step.key.inj hSame] at hUnique
        exact hUnique.1 hOther

theorem pairwise_positions
    (source target : Value)
    (hSource : source.UniqueKeys)
    (hTarget : target.UniqueKeys) :
    (positions source target).Pairwise Apart := by
  induction source, target using comparisonInduction with
  | equal source target hEquals =>
      rw [positions_of_equals hEquals]
      exact .nil
  | replaced source target hReplaced =>
      rw [positions_of_replaced hReplaced]
      exact List.pairwise_singleton _ _
  | arrays src tgt hEquals hEach =>
      have hSrc := (Value.keysSatisfy_array_iff src).mp hSource
      have hTgt := (Value.keysSatisfy_array_iff tgt).mp hTarget
      rw [positions_array hEquals, List.pairwise_append,
        List.pairwise_append]
      refine ⟨⟨?_, pairwise_removedPositions _ _, ?_⟩,
        pairwise_appendedPositions _, ?_⟩
      · apply pairwise_elementPositions
        intro x hX y hY
        exact hEach x hX y hY (hSrc x hX) (hTgt y hY)
      · intro first hFirst second hSecond
        rcases mem_elementPositions.mp hFirst with
          ⟨j, x, y, rest, hX, hY, _, rfl⟩
        rcases mem_removedPositions.mp hSecond with
          ⟨i, hLe, _, rfl⟩
        have hJ := (List.getElem?_eq_some_iff.mp hY).1
        apply Apart.of_head_ne
        intro hSame
        have hIndex := Step.index.inj hSame
        omega
      · intro first hFirst second hSecond hSame
        rw [hSame, (mem_appendedPositions.mp hSecond).2]
        exact List.mem_singleton_self _
  | objects src tgt hEquals hEach =>
      have hSrc :=
        (Value.keysSatisfy_object_iff src).mp hSource
      have hTgt :=
        (Value.keysSatisfy_object_iff tgt).mp hTarget
      rw [positions_object hEquals, List.pairwise_append]
      refine ⟨?_, pairwise_addedPositions hTgt.1, ?_⟩
      · apply pairwise_memberPositions hSrc.1
        intro m hM n hN
        exact hEach m hM n hN (hSrc.2 m hM) (hTgt.2 n hN)
      · intro first hFirst second hSecond
        rcases key_of_mem_memberPositions hFirst with
          ⟨key, hKey, rest, rfl⟩
        rcases mem_addedPositions.mp hSecond with
          ⟨other, _, hNew, rfl⟩
        apply Apart.of_head_ne
        intro hSame
        rw [Step.key.inj hSame] at hKey
        exact hNew hKey

end Kedge
