import Kedge.Library.Json.Patch

/-
  `json_diff` of `include/json_diff.hpp`: the JSON patch that
  is sent to the connected clients.

  The function compares two values and lists the operations
  that are meant to turn the first into the second. `path`
  is the location of the compared values, with object keys
  written as they are. Loops of the source are recursions
  over what is left to visit.

  Key definitions include:
    * `jsonDiff`
    * `patched`
    * `growsByAtMostOne`

  Key theorems include:
    * `comparisonInduction`
-/

------------------------------------------------------------
-- Operation Objects
------------------------------------------------------------

namespace Kedge

open Json

def replaceOp (path : Str) (value : Value) : Value :=
  .object
    [("op".toList, .string "replace".toList),
      ("path".toList, .string path),
      ("value".toList, value)]

def removeOp (path : Str) : Value :=
  .object
    [("op".toList, .string "remove".toList),
      ("path".toList, .string path)]

def addOp (path : Str) (value : Value) : Value :=
  .object
    [("op".toList, .string "add".toList),
      ("path".toList, .string path),
      ("value".toList, value)]

/- The path of an array element or an object member. -/
def childPath (path token : Str) : Str :=
  path ++ '/' :: token

end Kedge

------------------------------------------------------------
-- The Difference of Two Values
------------------------------------------------------------

namespace Kedge

open Json

/-
  `for (i = _src.size(); i-- > _tgt.size();)`: the guard
  compares `i` before the decrement, the body uses it after.
-/
def removeLoop (path : Str) (targetSize : Nat) :
    Nat → List Value
  | 0 => []
  | i + 1 =>
      if i + 1 > targetSize then
        removeOp (childPath path (Text.decimal i)) ::
          removeLoop path targetSize i
      else []

/-
  `for (i = _src.size(); i < _tgt.size(); ++i)` over the
  target elements from index `i` on. The body ends with a
  `++i` of its own, so that every second element is skipped.
-/
def appendLoop (path : Str) : List Value → List Value
  | [] => []
  | [y] => [addOp (childPath path ['-']) y]
  | y :: _ :: rest =>
      addOp (childPath path ['-']) y :: appendLoop path rest

/- The second pass over an object: keys that are new. -/
def addLoop (path : Str) (source : Members) :
    Members → List Value
  | [] => []
  | (key, value) :: target =>
      if (Value.find source key).isNone then
        addOp (childPath path key) value ::
          addLoop path source target
      else addLoop path source target

mutual

def jsonDiff (source target : Value) (path : Str) :
    List Value :=
  if source.equals target then []
  else if source.kind ≠ target.kind then
    [replaceOp path target]
  else
    match source, target with
    | .array src, .array tgt =>
        diffElements src tgt path 0 ++
          removeLoop path tgt.length src.length ++
          appendLoop path (tgt.drop src.length)
    | .object src, .object tgt =>
        diffMembers src tgt path ++ addLoop path src tgt
    | _, _ => [replaceOp path target]

/- The `while` loop over the common indices from `i` on. -/
def diffElements (src tgt : List Value) (path : Str)
    (i : Nat) : List Value :=
  match src, tgt with
  | x :: src, y :: tgt =>
      jsonDiff x y (childPath path (Text.decimal i)) ++
        diffElements src tgt path (i + 1)
  | _, _ => []

/- The first pass over an object: keys of the source. -/
def diffMembers (src tgt : Members) (path : Str) :
    List Value :=
  match src with
  | [] => []
  | (key, value) :: src =>
      (match Value.find tgt key with
        | some found =>
            jsonDiff value found (childPath path key)
        | none => [removeOp (childPath path key)]) ++
        diffMembers src tgt path

end

end Kedge

------------------------------------------------------------
-- The Patched Value
------------------------------------------------------------

namespace Kedge

open Json

/- The elements that the append loop visits. -/
def everyOther : List Value → List Value
  | [] => []
  | [y] => [y]
  | y :: _ :: rest => y :: everyOther rest

mutual

/-
  The value that the operations of `jsonDiff source target`
  make out of `source`.
-/
def patched (source target : Value) : Value :=
  if source.equals target then source
  else
    match source, target with
    | .array src, .array tgt =>
        .array (patchedElements src tgt ++
          everyOther (tgt.drop src.length))
    | .object src, .object tgt =>
        .object (patchedMembers src tgt ++
          tgt.filter fun m => (Value.find src m.1).isNone)
    | _, _ => target

def patchedElements (src tgt : List Value) : List Value :=
  match src, tgt with
  | x :: src, y :: tgt =>
      patched x y :: patchedElements src tgt
  | _, _ => []

def patchedMembers (src tgt : Members) : Members :=
  match src with
  | [] => []
  | (key, value) :: src =>
      match Value.find tgt key with
      | some found =>
          (key, patched value found) ::
            patchedMembers src tgt
      | none => patchedMembers src tgt

end

mutual

/-
  Of any two arrays at the same position in both values, the
  target's is at most one element longer than the source's.
-/
def growsByAtMostOne (source target : Value) : Bool :=
  match source, target with
  | .array src, .array tgt =>
      decide (tgt.length ≤ src.length + 1) &&
        elementsGrowByAtMostOne src tgt
  | .object src, .object tgt =>
      membersGrowByAtMostOne src tgt
  | _, _ => true

def elementsGrowByAtMostOne
    (src tgt : List Value) : Bool :=
  match src, tgt with
  | x :: src, y :: tgt =>
      growsByAtMostOne x y && elementsGrowByAtMostOne src tgt
  | _, _ => true

def membersGrowByAtMostOne (src tgt : Members) : Bool :=
  match src with
  | [] => true
  | (key, value) :: src =>
      (match Value.find tgt key with
        | some found => growsByAtMostOne value found
        | none => true) &&
        membersGrowByAtMostOne src tgt

end

end Kedge

------------------------------------------------------------
-- The Cases of the Comparison
------------------------------------------------------------

namespace Kedge

open Json

/-
  Different values that are neither two arrays nor two
  objects: the target is given as a whole.
-/
structure Replaced (source target : Value) : Prop where
  differ : source.equals target = false
  arrays : source.kind = .array → target.kind ≠ .array
  objects : source.kind = .object → target.kind ≠ .object

theorem Replaced.kind_ne_or_isScalar
    {source target : Value}
    (hReplaced : Replaced source target) :
    source.kind ≠ target.kind ∨ source.IsScalar := by
  by_cases hKind : source.kind = target.kind
  · refine Or.inr ⟨?_, ?_⟩
    · intro hArray
      exact hReplaced.arrays hArray (hKind ▸ hArray)
    · intro hObject
      exact hReplaced.objects hObject (hKind ▸ hObject)
  · exact Or.inl hKind

theorem jsonDiff_of_equals
    {source target : Value}
    (hEquals : source.equals target = true)
    (path : Str) :
    jsonDiff source target path = [] := by
  unfold jsonDiff
  exact if_pos hEquals

theorem jsonDiff_of_replaced
    {source target : Value}
    (hReplaced : Replaced source target)
    (path : Str) :
    jsonDiff source target path =
      [replaceOp path target] := by
  unfold jsonDiff
  rw [hReplaced.differ, if_neg nofun]
  rcases hReplaced.kind_ne_or_isScalar with
    hKind | ⟨hArray, hObject⟩
  · exact if_pos hKind
  · cases source with
    | array src => exact absurd rfl hArray
    | object src => exact absurd rfl hObject
    | _ => simp

theorem patched_of_equals
    {source target : Value}
    (hEquals : source.equals target = true) :
    patched source target = source := by
  unfold patched
  exact if_pos hEquals

theorem patched_of_replaced
    {source target : Value}
    (hReplaced : Replaced source target) :
    patched source target = target := by
  unfold patched
  rw [hReplaced.differ, if_neg nofun]
  cases source with
  | array src =>
      cases target with
      | array tgt => exact absurd rfl (hReplaced.arrays rfl)
      | _ => rfl
  | object src =>
      cases target with
      | object tgt => exact absurd rfl (hReplaced.objects rfl)
      | _ => rfl
  | _ => rfl

theorem growsByAtMostOne_of_replaced
    {source target : Value}
    (hReplaced : Replaced source target) :
    growsByAtMostOne source target = true := by
  cases source with
  | array src =>
      cases target with
      | array tgt => exact absurd rfl (hReplaced.arrays rfl)
      | _ => simp [growsByAtMostOne]
  | object src =>
      cases target with
      | object tgt => exact absurd rfl (hReplaced.objects rfl)
      | _ => simp [growsByAtMostOne]
  | _ => simp [growsByAtMostOne]

section Containers

variable {src tgt : List Value} {old new : Members}

theorem jsonDiff_array
    (hEquals :
      Value.equals (.array src) (.array tgt) = false)
    (path : Str) :
    jsonDiff (.array src) (.array tgt) path =
      diffElements src tgt path 0 ++
        removeLoop path tgt.length src.length ++
        appendLoop path (tgt.drop src.length) := by
  simp [jsonDiff, hEquals, Value.kind]

theorem jsonDiff_object
    (hEquals :
      Value.equals (.object old) (.object new) = false)
    (path : Str) :
    jsonDiff (.object old) (.object new) path =
      diffMembers old new path ++ addLoop path old new := by
  simp [jsonDiff, hEquals, Value.kind]

theorem patched_array
    (hEquals :
      Value.equals (.array src) (.array tgt) = false) :
    patched (.array src) (.array tgt) =
      .array (patchedElements src tgt ++
        everyOther (tgt.drop src.length)) := by
  simp [patched, hEquals]

theorem patched_object
    (hEquals :
      Value.equals (.object old) (.object new) = false) :
    patched (.object old) (.object new) =
      .object (patchedMembers old new ++
        new.filter fun m => (Value.find old m.1).isNone) := by
  simp [patched, hEquals]

end Containers

/-
  Induction over two values that are compared: equal values,
  values that are replaced as a whole, two arrays and two
  objects.
-/
@[elab_as_elim]
theorem comparisonInduction
    {motive : Value → Value → Prop}
    (equal :
      ∀ source target,
        source.equals target = true → motive source target)
    (replaced :
      ∀ source target,
        Replaced source target → motive source target)
    (arrays :
      ∀ src tgt,
        Value.equals (.array src) (.array tgt) = false →
        (∀ x ∈ src, ∀ y ∈ tgt, motive x y) →
          motive (.array src) (.array tgt))
    (objects :
      ∀ src tgt : Members,
        Value.equals (.object src) (.object tgt) = false →
        (∀ m ∈ src, ∀ n ∈ tgt, motive m.2 n.2) →
          motive (.object src) (.object tgt))
    (source target : Value) :
    motive source target := by
  induction source using Value.structuralInduction
      generalizing target with
  | scalar source hScalar =>
      cases hEquals : source.equals target with
      | true => exact equal _ _ hEquals
      | false =>
          refine replaced _ _ ⟨hEquals, ?_, ?_⟩
          · intro hArray
            exact absurd hArray hScalar.1
          · intro hObject
            exact absurd hObject hScalar.2
  | array src hEach =>
      cases hEquals : Value.equals (.array src) target with
      | true => exact equal _ _ hEquals
      | false =>
          cases target with
          | array tgt =>
              apply arrays src tgt hEquals
              intro x hX y _
              exact hEach x hX y
          | _ => exact replaced _ _ ⟨hEquals, nofun, nofun⟩
  | object src hEach =>
      cases hEquals : Value.equals (.object src) target with
      | true => exact equal _ _ hEquals
      | false =>
          cases target with
          | object tgt =>
              apply objects src tgt hEquals
              intro m hM n _
              exact hEach m hM n.2
          | _ => exact replaced _ _ ⟨hEquals, nofun, nofun⟩

end Kedge
