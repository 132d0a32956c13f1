import Kedge.JsonDiff.Correctness
import Kedge.JsonDiff.Positions

/-
  Where the operations of `json_diff` point to.

  Without `/` and `~` in the keys the operations name the
  places where the values differ, each of them once, and can
  be applied in order. With such a key the path of an
  operation is read back as other steps.

  Key definitions include:
    * `DiffersAt`
    * `Appends`
    * `PlainDifferences`
    * `PathsDecode`

  Main theorems include:
    * `jsonDiff_applicable`
    * `jsonDiff_exact_and_local`
    * `paths_decode_iff`
-/

------------------------------------------------------------
-- Every Operation Points to a Difference
------------------------------------------------------------

namespace Kedge

open Json

/-
  Unequal values stand at the location, or one value has it
  and the other has not.
-/
def DiffersAt
    (source target : Value)
    (path : List Str) : Prop :=
  ¬ Option.Rel (fun x y => Value.equals x y = true)
    (source.resolve path) (target.resolve path)

/- Two arrays, and the target's is longer. -/
def LongerAt
    (source target : Value)
    (path : List Str) : Prop :=
  ∃ src tgt,
    source.resolve path = some (.array src) ∧
      target.resolve path = some (.array tgt) ∧
      src.length < tgt.length

section Children

variable {source target x y : Value} {token : Str}

theorem differsAt_cons_iff
    (hX : source.child? token = some x)
    (hY : target.child? token = some y)
    (path : List Str) :
    DiffersAt source target (token :: path) ↔
      DiffersAt x y path := by
  rw [DiffersAt, DiffersAt, Value.resolve_cons,
    Value.resolve_cons, hX, hY]
  rfl

theorem longerAt_cons_iff
    (hX : source.child? token = some x)
    (hY : target.child? token = some y)
    (path : List Str) :
    LongerAt source target (token :: path) ↔
      LongerAt x y path := by
  rw [LongerAt, LongerAt, Value.resolve_cons,
    Value.resolve_cons, hX, hY]
  rfl

end Children

/- Keys that are found alike are keys of both objects. -/
theorem mem_keys_iff_of_rel
    {R : Value → Value → Prop}
    {src tgt : Members}
    {key : Str}
    (hRel :
      Option.Rel R (Value.find src key)
        (Value.find tgt key)) :
    key ∈ keys src ↔ key ∈ keys tgt := by
  have hNone :
      Value.find src key = none ↔
        Value.find tgt key = none := by
    generalize Value.find src key = first at hRel
    generalize Value.find tgt key = second at hRel
    cases hRel with
    | some hSame => simp
    | none => simp
  rw [Value.find_eq_none_iff, Value.find_eq_none_iff] at hNone
  exact not_iff_not.mp hNone

theorem child?_decimal
    (elements : List Value)
    (i : Nat) :
    Value.child? (Text.decimal i) (.array elements) =
      elements[i]? := by
  simp [Value.child?]

/- The place is a difference, or the end of a longer array. -/
def Marks
    (source target : Value)
    (place : Position) : Prop :=
  Step.append ∉ place ∧
      DiffersAt source target (tokens place) ∨
    ∃ parent,
      place = parent ++ [.append] ∧
        LongerAt source target (tokens parent)

theorem Marks.cons
    {source target x y : Value}
    {step : Step}
    {place : Position}
    (hX : source.take? step = some x)
    (hY : target.take? step = some y)
    (hMarks : Marks x y place) :
    Marks source target (step :: place) := by
  have hChild := Value.child?_of_take? hX
  have hOther := Value.child?_of_take? hY
  rcases hMarks with ⟨hNone, hDiffers⟩ |
    ⟨parent, rfl, hLonger⟩
  · refine Or.inl ⟨?_, ?_⟩
    · intro hIn
      rcases List.mem_cons.mp hIn with hFirst | hRest
      · rw [← hFirst] at hX
        cases source <;> cases hX
      · exact hNone hRest
    · exact (differsAt_cons_iff hChild hOther _).mpr hDiffers
  · refine Or.inr ⟨step :: parent, rfl, ?_⟩
    exact (longerAt_cons_iff hChild hOther _).mpr hLonger

theorem marks_of_mem_positions
    (source target : Value)
    (hSource : source.UniqueKeys)
    (place : Position)
    (hPlace : place ∈ positions source target) :
    Marks source target place := by
  refine positionInduction ?whole ?child ?removed ?appended
    ?single source target hSource place hPlace
  case whole =>
    intro source target hEquals
    refine Or.inl ⟨List.not_mem_nil, ?_⟩
    intro hRel
    cases hRel with
    | some hSame =>
        rw [hEquals] at hSame
        cases hSame
  case child =>
    intro source target step x y rest hX hY hRest hMarks
    exact Marks.cons hX hY hMarks
  case removed =>
    intro src tgt i hLe hLt
    refine Or.inl ⟨by simp, ?_⟩
    rw [DiffersAt, tokens_cons, tokens_nil, Step.token,
      Value.resolve_singleton, Value.resolve_singleton,
      child?_decimal, child?_decimal,
      List.getElem?_eq_getElem hLt,
      List.getElem?_eq_none hLe]
    intro hRel
    cases hRel
  case appended =>
    intro src tgt hLt
    exact Or.inr ⟨[], rfl, src, tgt, rfl, rfl, hLt⟩
  case single =>
    intro src tgt key hKey
    refine Or.inl ⟨by simp, ?_⟩
    intro hRel
    rw [tokens_cons, tokens_nil, Step.token,
      Value.resolve_singleton, Value.resolve_singleton]
      at hRel
    have hKeys := mem_keys_iff_of_rel hRel
    tauto

end Kedge

------------------------------------------------------------
-- Keys That Lead to a Difference
------------------------------------------------------------

namespace Kedge

open Json

/-
  Two objects at the same position differ only under keys
  that a pointer spells without escapes.
-/
def PlainDifferences (source target : Value) : Prop :=
  ∀ place src tgt key,
    source.at? place = some (.object src) →
    target.at? place = some (.object tgt) →
    ¬ Option.Rel (fun x y => Value.equals x y = true)
      (Value.find src key) (Value.find tgt key) →
    Value.PlainKey key

theorem PlainDifferences.child
    {source target x y : Value}
    (hPlain : PlainDifferences source target)
    (step : Step)
    (hX : source.take? step = some x)
    (hY : target.take? step = some y) :
    PlainDifferences x y := by
  intro place src tgt key hSrc hTgt
  apply hPlain (step :: place)
  · exact Value.at?_cons_eq_some_iff.mpr ⟨x, hX, hSrc⟩
  · exact Value.at?_cons_eq_some_iff.mpr ⟨y, hY, hTgt⟩

theorem keysSatisfy_take?
    {P : List Str → Prop}
    {value child : Value}
    {step : Step}
    (hKeys : value.KeysSatisfy P)
    (hTake : value.take? step = some child) :
    child.KeysSatisfy P := by
  rcases Value.take?_eq_some_iff.mp hTake with
    ⟨name, members, rfl, rfl, hFind⟩ |
    ⟨i, elements, rfl, rfl, hElement⟩
  · exact ((Value.keysSatisfy_object_iff _).mp hKeys).2 _
      (Value.mem_of_find hFind)
  · exact (Value.keysSatisfy_array_iff _).mp hKeys _
      (List.mem_of_getElem? hElement)

/- What holds of all keys of a value holds at a position. -/
theorem keysSatisfy_at?
    {P : List Str → Prop}
    {value found : Value}
    {place : Position}
    (hKeys : value.KeysSatisfy P)
    (hAt : value.at? place = some found) :
    found.KeysSatisfy P := by
  induction place generalizing value with
  | nil =>
      cases hAt
      exact hKeys
  | cons step place hRest =>
      rcases Value.at?_cons_eq_some_iff.mp hAt with
        ⟨child, hTake, hChild⟩
      exact hRest (keysSatisfy_take? hKeys hTake) hChild

theorem plainDifferences_of_plainKeys
    {source target : Value}
    (hSource : source.PlainKeys)
    (hTarget : target.PlainKeys) :
    PlainDifferences source target := by
  intro place src tgt key hSrc hTgt hDiffer
  have hSrcKeys :=
    ((Value.keysSatisfy_object_iff src).mp
      (keysSatisfy_at? hSource hSrc)).1
  have hTgtKeys :=
    ((Value.keysSatisfy_object_iff tgt).mp
      (keysSatisfy_at? hTarget hTgt)).1
  cases hFind : Value.find src key with
  | some x => exact hSrcKeys key (Value.mem_keys_of_find hFind)
  | none =>
      cases hOther : Value.find tgt key with
      | some y =>
          exact hTgtKeys key (Value.mem_keys_of_find hOther)
      | none =>
          rw [hFind, hOther] at hDiffer
          exact absurd .none hDiffer

/- Where there is a place, the values are not equal. -/
theorem equals_of_mem_positions
    {source target : Value}
    {place : Position}
    (hPlace : place ∈ positions source target) :
    source.equals target = false := by
  rw [← Bool.not_eq_true]
  intro hEquals
  rw [positions_of_equals hEquals] at hPlace
  cases hPlace

/- A step into a difference needs no escape. -/
theorem PlainDifferences.token
    {source target x y : Value}
    {step : Step}
    (hPlain : PlainDifferences source target)
    (hX : source.take? step = some x)
    (hY : target.take? step = some y)
    (hDiffer : x.equals y = false) :
    Value.PlainKey step.token := by
  rcases Value.take?_eq_some_iff.mp hX with
    ⟨name, src, rfl, rfl, hFind⟩ | ⟨i, src, rfl, rfl, _⟩
  · cases target with
    | object tgt =>
        have hOther : Value.find tgt name = some y := hY
        apply hPlain [] src tgt name rfl rfl
        rw [hFind, hOther]
        intro hRel
        cases hRel with
        | some hSame =>
            rw [hDiffer] at hSame
            cases hSame
    | _ => cases hY
  · exact plainKey_decimal i

/- The tokens of the places need no escapes. -/
theorem plainPath_of_mem_positions
    (source target : Value)
    (hSource : source.UniqueKeys)
    (hPlain : PlainDifferences source target)
    (place : Position)
    (hPlace : place ∈ positions source target) :
    PlainPath (tokens place) := by
  revert hPlain
  refine positionInduction ?whole ?child ?removed ?appended
    ?single source target hSource place hPlace
  case whole =>
    intro source target hEquals _
    exact nofun
  case child =>
    intro source target step x y rest hX hY hRest hTail hPlain
    exact List.forall_mem_cons.mpr
      ⟨hPlain.token hX hY (equals_of_mem_positions hRest),
        hTail (hPlain.child step hX hY)⟩
  case removed =>
    intro src tgt i hLe hLt _
    exact List.forall_mem_singleton.mpr (plainKey_decimal i)
  case appended =>
    intro src tgt hLt _
    exact List.forall_mem_singleton.mpr plainKey_dash
  case single =>
    intro src tgt key hKey hPlain
    refine List.forall_mem_singleton.mpr ?_
    apply hPlain [] src tgt key rfl rfl
    intro hRel
    have hKeys := mem_keys_iff_of_rel hRel
    tauto

/- Equal objects have equal values under every key. -/
theorem rel_find_of_equals
    {src tgt : Members}
    (hUnique : (keys src).Nodup)
    (hEquals :
      Value.equals (.object src) (.object tgt) = true)
    (key : Str) :
    Option.Rel (fun x y => Value.equals x y = true)
      (Value.find src key) (Value.find tgt key) := by
  rw [Value.equals, Bool.and_eq_true, beq_iff_eq,
    Value.equalsMembers_iff] at hEquals
  rcases hEquals with ⟨hLength, hFound⟩
  have hPerm := Value.keys_perm_of_equals hUnique hLength
    (fun m hMember => by
      rcases hFound m hMember with ⟨other, hFind, _⟩
      exact Value.mem_keys_of_find hFind)
  cases hFind : Value.find src key with
  | none =>
      rw [Value.find_eq_none_iff, hPerm.mem_iff,
        ← Value.find_eq_none_iff] at hFind
      rw [hFind]
      exact .none
  | some x =>
      rcases hFound _ (Value.mem_of_find hFind) with
        ⟨y, hOther, hSame⟩
      rw [hOther]
      exact .some hSame

/- Children of equal values are equal. -/
theorem equals_of_take?
    {source target x y : Value}
    {step : Step}
    (hSource : source.UniqueKeys)
    (hX : source.take? step = some x)
    (hY : target.take? step = some y)
    (hEquals : source.equals target = true) :
    x.equals y = true := by
  rcases Value.take?_eq_some_iff.mp hX with
    ⟨name, src, rfl, rfl, hFind⟩ | ⟨i, src, rfl, rfl, hElement⟩
  · cases target with
    | object tgt =>
        have hOther : Value.find tgt name = some y := hY
        have hRel := rel_find_of_equals
          ((Value.keysSatisfy_object_iff src).mp hSource).1
          hEquals name
        rw [hFind, hOther] at hRel
        cases hRel with
        | some hSame => exact hSame
    | _ => cases hY
  · cases target with
    | array tgt =>
        have hOther : tgt[i]? = some y := hY
        rw [Value.equals, Value.equalsElements_iff,
          List.forall₂_iff_get] at hEquals
        rcases List.getElem?_eq_some_iff.mp hElement with
          ⟨hI, rfl⟩
        rcases List.getElem?_eq_some_iff.mp hOther with
          ⟨hJ, rfl⟩
        exact hEquals.2 i hI hJ
    | _ => cases hY

/- The places of a child continue the step to it. -/
theorem cons_mem_positions
    {source target x y : Value}
    {step : Step}
    {rest : Position}
    (hSource : source.UniqueKeys)
    (hX : source.take? step = some x)
    (hY : target.take? step = some y)
    (hRest : rest ∈ positions x y) :
    step :: rest ∈ positions source target := by
  have hEquals : source.equals target = false := by
    rw [← Bool.not_eq_true]
    intro hSame
    have hChild := equals_of_take? hSource hX hY hSame
    rw [equals_of_mem_positions hRest] at hChild
    cases hChild
  rcases Value.take?_eq_some_iff.mp hX with
    ⟨name, src, rfl, rfl, hFind⟩ | ⟨i, src, rfl, rfl, hElement⟩
  · cases target with
    | object tgt =>
        have hUnique :=
          ((Value.keysSatisfy_object_iff src).mp hSource).1
        rw [mem_positions_object hUnique hEquals]
        exact Or.inl ⟨name, x, y, rest, hFind, hY, hRest, rfl⟩
    | _ => cases hY
  · cases target with
    | array tgt =>
        rw [mem_positions_array hEquals]
        exact Or.inl ⟨i, x, y, rest, hElement, hY, hRest, rfl⟩
    | _ => cases hY

/- Two objects have a place under a key that differs. -/
theorem exists_position_of_key
    {src tgt : Members}
    {key : Str}
    (hSource : Value.UniqueKeys (.object src))
    (hTarget : Value.UniqueKeys (.object tgt))
    (hDiffer :
      ¬ Option.Rel (fun x y => Value.equals x y = true)
        (Value.find src key) (Value.find tgt key)) :
    ∃ rest,
      .key key :: rest ∈
        positions (.object src) (.object tgt) := by
  have hSrc := (Value.keysSatisfy_object_iff src).mp hSource
  have hTgt := (Value.keysSatisfy_object_iff tgt).mp hTarget
  have hEquals :
      Value.equals (.object src) (.object tgt) = false := by
    rw [← Bool.not_eq_true]
    intro hSame
    exact hDiffer (rel_find_of_equals hSrc.1 hSame key)
  simp only [mem_positions_object hSrc.1 hEquals]
  cases hFind : Value.find src key with
  | none =>
      have hOut := (Value.find_eq_none_iff _ _).mp hFind
      cases hOther : Value.find tgt key with
      | none =>
          rw [hFind, hOther] at hDiffer
          exact absurd .none hDiffer
      | some y =>
          have hIn := Value.mem_keys_of_find hOther
          exact ⟨[], Or.inr ⟨key, Or.inr ⟨hOut, hIn⟩, rfl⟩⟩
  | some x =>
      have hIn := Value.mem_keys_of_find hFind
      cases hOther : Value.find tgt key with
      | none =>
          have hOut := (Value.find_eq_none_iff _ _).mp hOther
          exact ⟨[], Or.inr ⟨key, Or.inl ⟨hIn, hOut⟩, rfl⟩⟩
      | some y =>
          have hSome : positions x y ≠ [] := by
            rw [ne_eq, positions_eq_nil_iff x y
              (hSrc.2 _ (Value.mem_of_find hFind))
              (hTgt.2 _ (Value.mem_of_find hOther))]
            intro hSame
            rw [hFind, hOther] at hDiffer
            exact hDiffer (.some hSame)
          rcases List.exists_mem_of_ne_nil _ hSome with
            ⟨rest, hRest⟩
          exact ⟨rest, Or.inl
            ⟨key, x, y, rest, hFind, hOther, hRest, rfl⟩⟩

/- A key under which two objects differ is on a path. -/
theorem exists_position_of_differ
    (source target : Value)
    (hSource : source.UniqueKeys)
    (hTarget : target.UniqueKeys)
    {place : Position}
    {src tgt : Members}
    {key : Str}
    (hSrc : source.at? place = some (.object src))
    (hTgt : target.at? place = some (.object tgt))
    (hDiffer :
      ¬ Option.Rel (fun x y => Value.equals x y = true)
        (Value.find src key) (Value.find tgt key)) :
    ∃ rest,
      place ++ .key key :: rest ∈
        positions source target := by
  induction place generalizing source target with
  | nil =>
      cases hSrc
      cases hTgt
      exact exists_position_of_key hSource hTarget hDiffer
  | cons step place hRest =>
      rcases Value.at?_cons_eq_some_iff.mp hSrc with
        ⟨x, hX, hSrcX⟩
      rcases Value.at?_cons_eq_some_iff.mp hTgt with
        ⟨y, hY, hTgtY⟩
      rcases hRest x y (keysSatisfy_take? hSource hX)
          (keysSatisfy_take? hTarget hY) hSrcX hTgtY with
        ⟨rest, hPlace⟩
      exact ⟨rest, cons_mem_positions hSource hX hY hPlace⟩

end Kedge

------------------------------------------------------------
-- The Operations Can Be Applied in Order
------------------------------------------------------------

namespace Kedge

open Json

/-
  Every operation meets a document in which it can be
  applied, whatever the lengths of the arrays are. The last
  document is equal to the target when no array grows by
  more than one element.
-/
theorem jsonDiff_applicable
    (source target : Value)
    (hSource : source.UniqueKeys)
    (hTarget : target.UniqueKeys)
    (hSourceKeys : source.PlainKeys)
    (hTargetKeys : target.PlainKeys) :
    (∀ earlier operation later,
        jsonDiff source target [] =
            earlier ++ operation :: later →
        ∃ document decoded,
          applyPatch earlier source = some document ∧
            Operation.ofValue? operation = some decoded ∧
            decoded.Applicable document) ∧
      ∃ result,
        applyPatch (jsonDiff source target []) source =
            some result ∧
          (growsByAtMostOne source target = true →
            result.equals target = true) := by
  have hPatch := applyPatch_jsonDiff source target hSource
    hTarget hSourceKeys hTargetKeys
  constructor
  · intro earlier operation later hSplit
    rw [hSplit] at hPatch
    exact applicable_of_applyPatch hPatch
  · refine ⟨patched source target, hPatch, ?_⟩
    intro hGrows
    have hUnique :=
      uniqueKeys_patched source target hSource hTarget
    rw [Value.equals_iff_denote_eq _ target hUnique hTarget,
      patched_denote_eq_iff source target hSource hTarget]
    exact hGrows

/- An object with one array. -/
def listing (elements : List Value) : Value :=
  .object [("a".toList, .array elements)]

theorem keysSatisfy_listing
    {P : List Str → Prop}
    {elements : List Value}
    (hKey : P ["a".toList])
    (hElements : ∀ x ∈ elements, x.KeysSatisfy P) :
    (listing elements).KeysSatisfy P := by
  rw [listing, Value.keysSatisfy_object_iff]
  refine ⟨hKey, List.forall_mem_singleton.mpr ?_⟩
  exact (Value.keysSatisfy_array_iff elements).mpr hElements

theorem uniqueKeys_listing
    (numbers : List Int64) :
    (listing (numbers.map .int64)).UniqueKeys := by
  apply keysSatisfy_listing (List.nodup_singleton _)
  intro x hX
  rcases List.mem_map.mp hX with ⟨number, _, rfl⟩
  trivial

theorem plainKeys_listing
    (numbers : List Int64) :
    (listing (numbers.map .int64)).PlainKeys := by
  apply keysSatisfy_listing
  · exact List.forall_mem_singleton.mpr
      ⟨by decide, by decide⟩
  · intro x hX
    rcases List.mem_map.mp hX with ⟨number, _, rfl⟩
    trivial

/- The second of two elements is removed. -/
theorem jsonDiff_applicable_shrinking :
    ∃ result,
      applyPatch
          (jsonDiff (listing [.int64 1, .int64 2])
            (listing [.int64 3]) [])
          (listing [.int64 1, .int64 2]) =
        some result ∧
      result.equals (listing [.int64 3]) = true := by
  rcases (jsonDiff_applicable _ _
      (uniqueKeys_listing [1, 2]) (uniqueKeys_listing [3])
      (plainKeys_listing [1, 2])
      (plainKeys_listing [3])).2 with
    ⟨result, hResult, hEquals⟩
  exact ⟨result, hResult, hEquals (by decide)⟩

end Kedge

------------------------------------------------------------
-- Exactness and Locality
------------------------------------------------------------

namespace Kedge

open Json

/- An addition behind the elements of a shorter array. -/
def Appends
    (source target operation : Value) : Prop :=
  ∃ path value parent,
    operation = addOp path value ∧
      Pointer.parse path = some (parent ++ [['-']]) ∧
      LongerAt source target parent

theorem jsonDiff_eq_nil_iff
    (source target : Value)
    (hSource : source.UniqueKeys)
    (hTarget : target.UniqueKeys) :
    jsonDiff source target [] = [] ↔
      source.equals target = true := by
  have hLength :=
    (locates_jsonDiff source target []).length_eq
  rw [← positions_eq_nil_iff source target hSource hTarget,
    ← List.length_eq_zero_iff, hLength,
    List.length_eq_zero_iff]

/- What an operation is about, from where it points to. -/
theorem differs_or_appends
    {source target operation : Value}
    {place : Position}
    (hLocates : Locates [] operation place)
    (hPlain : PlainPath (tokens place))
    (hMarks : Marks source target place) :
    (Step.append ∉ place ∧
        ∃ path location,
          pathOf? operation = some path ∧
            Pointer.parse path = some location ∧
            DiffersAt source target location) ∨
      Appends source target operation := by
  rcases hLocates with ⟨hPath, hAppend⟩
  have hParse := Pointer.parse_spell _ hPlain
  rcases hMarks with ⟨hNone, hDiffers⟩ |
    ⟨parent, rfl, hLonger⟩
  · exact Or.inl ⟨hNone, _, _, hPath, hParse, hDiffers⟩
  · rcases hAppend (by simp) with ⟨value, hOperation⟩
    refine Or.inr ⟨_, value, tokens parent, hOperation, ?_,
      hLonger⟩
    rw [List.nil_append, hParse]
    simp [tokens, Step.token]

theorem appends_of_mem_append
    {source target operation : Value}
    {place : Position}
    (hLocates : Locates [] operation place)
    (hPlain : PlainPath (tokens place))
    (hMarks : Marks source target place)
    (hAppend : Step.append ∈ place) :
    Appends source target operation := by
  rcases differs_or_appends hLocates hPlain hMarks with
    ⟨hNone, _⟩ | hAppends
  · exact absurd hAppend hNone
  · exact hAppends

/- Paths that can be read back tell the places apart. -/
theorem place_eq_of_path_eq
    {source first second : Value}
    {place other : Position}
    (hFirst : Locates [] first place)
    (hSecond : Locates [] second other)
    (hPlain : PlainPath (tokens place))
    (hOthers : PlainPath (tokens other))
    (hFits : Value.Fits place source)
    (hOtherFits : Value.Fits other source)
    (hPath : pathOf? first = pathOf? second) :
    place = other := by
  rw [hFirst.1, hSecond.1, Option.some.injEq,
    List.nil_append, List.nil_append] at hPath
  have hParse := Pointer.parse_spell _ hPlain
  rw [hPath, Pointer.parse_spell _ hOthers] at hParse
  exact hFits.eq_of_tokens_eq hOtherFits
    (Option.some.inj hParse).symm

theorem jsonDiff_exact_and_local
    (source target : Value)
    (hSource : source.UniqueKeys)
    (hTarget : target.UniqueKeys)
    (hSourceKeys : source.PlainKeys)
    (hTargetKeys : target.PlainKeys) :
    (jsonDiff source target [] = [] ↔
        source.equals target = true) ∧
      (∀ operation ∈ jsonDiff source target [],
        (∃ path location,
          pathOf? operation = some path ∧
            Pointer.parse path = some location ∧
            DiffersAt source target location) ∨
          Appends source target operation) ∧
      (jsonDiff source target []).Pairwise
        fun first second =>
          pathOf? first = pathOf? second →
            Appends source target first ∧
              Appends source target second := by
  have hLocates := locates_jsonDiff source target []
  have hPlain := plainPath_of_mem_positions source target
    hSource (plainDifferences_of_plainKeys hSourceKeys
      hTargetKeys)
  have hMarks := marks_of_mem_positions source target hSource
  refine ⟨jsonDiff_eq_nil_iff source target hSource hTarget,
    ?_, ?_⟩
  · intro operation hOperation
    rcases List.getElem_of_mem hOperation with ⟨i, hI, rfl⟩
    have hJ : i < (positions source target).length :=
      hLocates.length_eq ▸ hI
    have hPlace := List.getElem_mem hJ
    rcases differs_or_appends (hLocates.get hI hJ)
        (hPlain _ hPlace) (hMarks _ hPlace) with
      ⟨_, hDiffers⟩ | hAppends
    · exact Or.inl hDiffers
    · exact Or.inr hAppends
  · rw [List.pairwise_iff_getElem]
    intro i j hI hJ hLt hPath
    have hI' : i < (positions source target).length :=
      hLocates.length_eq ▸ hI
    have hJ' : j < (positions source target).length :=
      hLocates.length_eq ▸ hJ
    have hFirst := List.getElem_mem hI'
    have hSecond := List.getElem_mem hJ'
    have hSame := place_eq_of_path_eq (hLocates.get hI hI')
      (hLocates.get hJ hJ') (hPlain _ hFirst)
      (hPlain _ hSecond)
      (fits_of_mem_positions source target hSource _ hFirst)
      (fits_of_mem_positions source target hSource _ hSecond)
      hPath
    have hAppend :=
      (List.pairwise_iff_getElem.mp
        (pairwise_positions source target hSource hTarget))
        i j hI' hJ' hLt hSame
    constructor
    · exact appends_of_mem_append (hLocates.get hI hI')
        (hPlain _ hFirst) (hMarks _ hFirst) hAppend
    · exact appends_of_mem_append (hLocates.get hJ hJ')
        (hPlain _ hSecond) (hMarks _ hSecond)
        (hSame ▸ hAppend)

theorem jsonDiff_exact_and_local_shrinking :
    jsonDiff (listing [.int64 1, .int64 2])
        (listing [.int64 3]) [] ≠ [] ∧
      ∀ operation ∈
          jsonDiff (listing [.int64 1, .int64 2])
            (listing [.int64 3]) [],
        (∃ path location,
          pathOf? operation = some path ∧
            Pointer.parse path = some location ∧
            DiffersAt (listing [.int64 1, .int64 2])
              (listing [.int64 3]) location) ∨
          Appends (listing [.int64 1, .int64 2])
            (listing [.int64 3]) operation := by
  have hLocal := jsonDiff_exact_and_local _ _
    (uniqueKeys_listing [1, 2]) (uniqueKeys_listing [3])
    (plainKeys_listing [1, 2]) (plainKeys_listing [3])
  refine ⟨?_, hLocal.2.1⟩
  intro hNone
  exact absurd (hLocal.1.mp hNone) (by decide)

end Kedge

------------------------------------------------------------
-- Decoding the Paths
------------------------------------------------------------

namespace Kedge

open Json

/-
  Every path is read back as the steps to its difference,
  and operations with one path have one position.
-/
def PathsDecode (source target : Value) : Prop :=
  List.Forall₂
      (fun operation place =>
        (pathOf? operation).bind Pointer.parse =
          some (tokens place))
      (jsonDiff source target [])
      (positions source target) ∧
    ∀ first ∈
        (jsonDiff source target []).zip
          (positions source target),
      ∀ second ∈
          (jsonDiff source target []).zip
            (positions source target),
        pathOf? first.1 = pathOf? second.1 →
          first.2 = second.2

theorem pathsDecode_iff_plainPath
    (source target : Value)
    (hSource : source.UniqueKeys) :
    PathsDecode source target ↔
      ∀ place ∈ positions source target,
        PlainPath (tokens place) := by
  have hLocates := locates_jsonDiff source target []
  constructor
  · rintro ⟨hDecode, _⟩ place hPlace
    rcases List.getElem_of_mem hPlace with ⟨i, hI, rfl⟩
    have hJ : i < (jsonDiff source target []).length :=
      hLocates.length_eq ▸ hI
    have hPath := (hLocates.get hJ hI).1
    have hParse := hDecode.get hJ hI
    rw [hPath] at hParse
    exact (Pointer.parse_spell_iff _).mp hParse
  · intro hPlain
    constructor
    · rw [List.forall₂_iff_get]
      refine ⟨hLocates.length_eq, ?_⟩
      intro i hI hJ
      have hPath := (hLocates.get hI hJ).1
      rw [hPath]
      exact Pointer.parse_spell _
        (hPlain _ (List.getElem_mem hJ))
    · intro first hFirst second hSecond hPath
      have hPlace := (List.of_mem_zip hFirst).2
      have hOther := (List.of_mem_zip hSecond).2
      exact place_eq_of_path_eq
        (List.forall₂_zip hLocates hFirst)
        (List.forall₂_zip hLocates hSecond)
        (hPlain _ hPlace) (hPlain _ hOther)
        (fits_of_mem_positions source target hSource _ hPlace)
        (fits_of_mem_positions source target hSource _ hOther)
        hPath

/-
  The keys are not escaped. So the paths are right exactly
  when no difference lies under a key with `/` or `~`.
-/
theorem paths_decode_iff
    (source target : Value)
    (hSource : source.UniqueKeys)
    (hTarget : target.UniqueKeys) :
    PathsDecode source target ↔
      PlainDifferences source target := by
  rw [pathsDecode_iff_plainPath source target hSource]
  constructor
  · intro hPlain place src tgt key hSrc hTgt hDiffer
    rcases exists_position_of_differ source target hSource
        hTarget hSrc hTgt hDiffer with
      ⟨rest, hPlace⟩
    apply hPlain _ hPlace
    simp [tokens, Step.token]
  · intro hPlain
    exact plainPath_of_mem_positions source target hSource
      hPlain

theorem paths_decode_iff_shrinking :
    PathsDecode (listing [.int64 1, .int64 2])
      (listing [.int64 3]) :=
  (paths_decode_iff _ _ (uniqueKeys_listing [1, 2])
    (uniqueKeys_listing [3])).mpr
    (plainDifferences_of_plainKeys (plainKeys_listing [1, 2])
      (plainKeys_listing [3]))

/- One value under the keys `a` and `b`, another under `a/b`. -/
def nestedAndFlat (number : Int64) : Value :=
  .object
    [("a".toList, .object [("b".toList, .int64 number)]),
      ("a/b".toList, .int64 number)]

theorem uniqueKeys_nestedAndFlat
    (number : Int64) :
    (nestedAndFlat number).UniqueKeys := by
  rw [nestedAndFlat, Value.UniqueKeys,
    Value.keysSatisfy_object_iff]
  have hNames : ["a".toList, "a/b".toList].Nodup := by
    decide
  refine ⟨hNames, ?_⟩
  intro m hMember
  simp only [List.mem_cons, List.not_mem_nil, or_false]
    at hMember
  rcases hMember with rfl | rfl
  · exact ⟨List.nodup_singleton _, trivial, trivial⟩
  · trivial

/- Two different positions get the path `/a/b`. -/
theorem two_positions_one_path :
    (nestedAndFlat 1).UniqueKeys ∧
      (nestedAndFlat 2).UniqueKeys ∧
      positions (nestedAndFlat 1) (nestedAndFlat 2) =
        [[.key "a".toList, .key "b".toList],
          [.key "a/b".toList]] ∧
      (jsonDiff (nestedAndFlat 1) (nestedAndFlat 2) []).map
          pathOf? =
        [some "/a/b".toList, some "/a/b".toList] ∧
      ¬ PathsDecode (nestedAndFlat 1) (nestedAndFlat 2) := by
  have hPositions :
      positions (nestedAndFlat 1) (nestedAndFlat 2) =
        [[.key "a".toList, .key "b".toList],
          [.key "a/b".toList]] := by
    decide
  refine ⟨uniqueKeys_nestedAndFlat 1,
    uniqueKeys_nestedAndFlat 2, hPositions, by decide, ?_⟩
  rw [pathsDecode_iff_plainPath _ _
    (uniqueKeys_nestedAndFlat 1), hPositions]
  intro hPlain
  have hKey :=
    hPlain [.key "a/b".toList] (by simp) "a/b".toList
      (by simp [tokens, Step.token])
  exact hKey.1 (by decide)

end Kedge
