import Mathlib.Data.List.Perm.Subperm
import Mathlib.Data.List.Perm.Basic
import Mathlib.Logic.Function.Basic
import Kedge.Library.Json.Value

/-
  Abstract JSON documents and the document a value denotes.

  In a document an integer is a number without a
  representation and an object is a function from keys to
  optional documents, so that two documents are equal
  exactly when they agree up to number representation and
  member order. For values with unique keys the library's
  `operator==` decides equality of the denoted documents.

  Key definitions include:
    * `Json.Document`
    * `Json.Value.denote`

  Key theorems include:
    * `Json.Value.equals_iff_denote_eq`
-/

------------------------------------------------------------
-- Documents
------------------------------------------------------------

namespace Json

inductive Document where
  | null
  | bool (flag : Bool)
  | integer (number : Int)
  | double (number : Rat)
  | string (text : Str)
  | array (elements : List Document)
  | object (lookup : Str → Option Document)

namespace Value

mutual

/- The document a value denotes. -/
def denote : Value → Document
  | .null => .null
  | .bool_ flag => .bool flag
  | .int64 number => .integer number.toInt
  | .uint64 number => .integer number.toNat
  | .double_ number => .double number
  | .string text => .string text
  | .array elements => .array (denoteElements elements)
  | .object members => .object (denoteMembers members)

def denoteElements : List Value → List Document
  | [] => []
  | x :: xs => denote x :: denoteElements xs

def denoteMembers : Members → Str → Option Document
  | [], _ => none
  | (name, value) :: members, key =>
      if name = key then some (denote value)
      else denoteMembers members key

end

@[simp] theorem denoteElements_eq_map
    (elements : List Value) :
    denoteElements elements = elements.map denote := by
  induction elements with
  | nil => rfl
  | cons x xs ih => simp [denoteElements, ih]

@[simp] theorem denoteMembers_eq_find
    (members : Members) :
    denoteMembers members =
      fun key => (find members key).map denote := by
  funext key
  induction members with
  | nil => rfl
  | cons member members ih =>
      rcases member with ⟨name, value⟩
      by_cases hName : name = key <;>
        simp [denoteMembers, find_cons, hName, ih]

theorem denote_array
    (elements : List Value) :
    denote (.array elements) =
      .array (elements.map denote) := by
  simp [denote]

theorem denote_object
    (members : Members) :
    denote (.object members) =
      .object fun key => (find members key).map denote := by
  simp [denote]

end Value

end Json

------------------------------------------------------------
-- Equality and Denotation
------------------------------------------------------------

namespace Json

namespace Value

/-
  The mixed comparison of the library agrees with the
  comparison of the two numbers.
-/
theorem signed_eq_unsigned_iff
    (signed : Int64)
    (unsigned : UInt64) :
    0 ≤ signed ∧ signed.toUInt64 = unsigned ↔
      signed.toInt = (unsigned.toNat : Int) := by
  have hSign : 0 ≤ signed ↔ 0 ≤ signed.toInt := by
    simp [Int64.le_iff_toInt_le]
  rw [hSign, ← UInt64.toNat_inj]
  constructor
  · rintro ⟨hValue, hNat⟩
    have hUnsigned :
        signed.toUInt64.toNat = signed.toInt.toNat :=
      Int64.toNat_toUInt64_of_le (hSign.mpr hValue)
    omega
  · intro hInt
    have hValue : 0 ≤ signed.toInt := by omega
    have hUnsigned :
        signed.toUInt64.toNat = signed.toInt.toNat :=
      Int64.toNat_toUInt64_of_le (hSign.mpr hValue)
    omega

theorem scalar_equals_iff
    (left right : Value)
    (hScalar : left.IsScalar) :
    equals left right = true ↔
      denote left = denote right := by
  rcases hScalar with ⟨hArray, hObject⟩
  cases left with
  | array xs => exact absurd rfl hArray
  | object xs => exact absurd rfl hObject
  | int64 a =>
      cases right with
      | uint64 b =>
          simp [equals, denote, signed_eq_unsigned_iff]
      | _ => simp [equals, denote, Int64.toInt_inj]
  | uint64 a =>
      cases right with
      | int64 b =>
          have hMixed := signed_eq_unsigned_iff b a
          have hSwap :
              (a.toNat : Int) = b.toInt ↔
                b.toInt = (a.toNat : Int) := eq_comm
          simp [equals, denote, hSwap, ← hMixed]
      | uint64 b =>
          simp only [equals, denote, beq_iff_eq,
            Document.integer.injEq, ← UInt64.toNat_inj]
          omega
      | _ => simp [equals, denote]
  | _ => cases right <;> simp [equals, denote]

theorem elements_equal_iff
    {xs ys : List Value}
    (hEach :
      ∀ x ∈ xs, ∀ y ∈ ys,
        (equals x y = true ↔ denote x = denote y)) :
    equalsElements xs ys = true ↔
      xs.map denote = ys.map denote := by
  induction xs generalizing ys with
  | nil => cases ys <;> simp [equalsElements]
  | cons x xs ih =>
      cases ys with
      | nil => simp [equalsElements]
      | cons y ys =>
          have hTail := @ih ys
            (fun x hX y hY =>
              hEach x (by simp [hX]) y (by simp [hY]))
          simp [equalsElements, hTail,
            hEach x (by simp) y (by simp)]

/-
  Unique keys found in another object of the same size are
  all of its keys.
-/
theorem keys_perm_of_equals
    {members others : Members}
    (hUnique : (keys members).Nodup)
    (hLength : members.length = others.length)
    (hFound : ∀ m ∈ members, m.1 ∈ keys others) :
    (keys members).Perm (keys others) := by
  have hSubset : keys members ⊆ keys others := by
    intro key hKey
    rcases List.mem_map.mp hKey with ⟨m, hMember, rfl⟩
    exact hFound m hMember
  apply (List.subperm_of_subset hUnique hSubset).perm_of_length_le
  simp [keys, hLength]

/-
  Two objects whose keys are unique agree as functions
  exactly when they have the same size and every member of
  the first is found in the second with the same document.
-/
theorem object_denote_eq_iff
    {members others : Members}
    (hMembers : (keys members).Nodup)
    (hOthers : (keys others).Nodup) :
    denote (.object members) = denote (.object others) ↔
      members.length = others.length ∧
        ∀ m ∈ members, ∃ other,
          find others m.1 = some other ∧
            denote m.2 = denote other := by
  rw [denote_object, denote_object, Document.object.injEq]
  constructor
  · intro hLookup
    have hKeys : ∀ key,
        key ∈ keys members ↔ key ∈ keys others := by
      intro key
      have hNone :
          find members key = none ↔
            find others key = none := by
        have hMap := congrFun hLookup key
        rw [← Option.map_eq_none_iff (f := denote), hMap,
          Option.map_eq_none_iff]
      rw [find_eq_none_iff, find_eq_none_iff] at hNone
      exact not_iff_not.mp hNone
    have hPerm : (keys members).Perm (keys others) :=
      (List.perm_ext_iff_of_nodup hMembers hOthers).mpr
        hKeys
    refine ⟨by simpa [keys] using hPerm.length_eq, ?_⟩
    rintro ⟨key, value⟩ hMember
    have hValue := find_of_mem hMembers hMember
    have hOther := congrFun hLookup key
    simp only [hValue, Option.map_some] at hOther
    rcases Option.map_eq_some_iff.mp hOther.symm with
      ⟨other, hFind, hDenote⟩
    exact ⟨other, hFind, hDenote.symm⟩
  · rintro ⟨hLength, hFound⟩
    have hPerm := keys_perm_of_equals hMembers hLength
      (fun m hMember => by
        rcases hFound m hMember with ⟨other, hFind, _⟩
        exact mem_keys_of_find hFind)
    funext key
    cases hFind : find members key with
    | none =>
        have hAbsent : find others key = none := by
          rw [find_eq_none_iff] at hFind ⊢
          rwa [← hPerm.mem_iff]
        simp [hAbsent]
    | some value =>
        rcases hFound _ (mem_of_find hFind) with
          ⟨other, hOther, hDenote⟩
        simp [hOther, hDenote]

/-
  For values with unique keys the library's equality decides
  whether the values denote the same document.
-/
theorem equals_iff_denote_eq
    (left right : Value)
    (hLeft : left.UniqueKeys)
    (hRight : right.UniqueKeys) :
    equals left right = true ↔
      denote left = denote right := by
  induction left using structuralInduction
      generalizing right with
  | scalar left hScalar =>
      exact scalar_equals_iff left right hScalar
  | array xs ih =>
      cases right with
      | array ys =>
          have hXs := (keysSatisfy_array_iff xs).mp hLeft
          have hYs := (keysSatisfy_array_iff ys).mp hRight
          rw [equals, denote_array, denote_array,
            Document.array.injEq]
          exact elements_equal_iff fun x hX y hY =>
            ih x hX y (hXs x hX) (hYs y hY)
      | _ => simp [equals, denote]
  | object xs ih =>
      cases right with
      | object ys =>
          have hXs := (keysSatisfy_object_iff xs).mp hLeft
          have hYs := (keysSatisfy_object_iff ys).mp hRight
          rw [object_denote_eq_iff hXs.1 hYs.1, equals,
            Bool.and_eq_true, beq_iff_eq,
            equalsMembers_iff]
          refine and_congr_right fun _ => ?_
          refine forall₂_congr fun m hMember => ?_
          refine exists_congr fun other => ?_
          refine and_congr_right fun hFind => ?_
          exact ih m hMember other (hXs.2 m hMember)
            (hYs.2 _ (mem_of_find hFind))
      | _ => simp [equals, denote]

end Value

end Json
