import Kedge.JsonDiff.Diff

/-
  What applying the operations of `json_diff` does.

  The operations never fail on the source and turn it into
  `patched source target`, whatever surrounds it in the
  document. The patched value equals the target exactly when
  no array grows by more than one element.

  Main declarations:
    * `applyPatch_jsonDiff`
    * `patched_denote_eq_iff`
    * `jsonDiff_correct_iff`
-/

------------------------------------------------------------
-- Single Operations at a Focus
------------------------------------------------------------

namespace Kedge

open Json

/- Every token of the path is spelled without escapes. -/
def PlainPath (tokens : List Str) : Prop :=
  ∀ token ∈ tokens, Value.PlainKey token

theorem PlainPath.append_singleton
    {tokens : List Str}
    {token : Str}
    (hPlain : PlainPath tokens)
    (hToken : Value.PlainKey token) :
    PlainPath (tokens ++ [token]) := by
  intro t hT
  rcases List.mem_append.mp hT with hOld | hNew
  · exact hPlain t hOld
  · rw [List.mem_singleton.mp hNew]
    exact hToken

/- Digits are neither separators nor escapes. -/
theorem plainKey_decimal
    (n : Nat) :
    Value.PlainKey (Text.decimal n) := by
  constructor <;>
    intro hChar <;>
    simpa using
      Nat.isDigit_of_mem_toDigits (by decide) (by decide)
        hChar

theorem plainKey_dash : Value.PlainKey ['-'] := by
  simp [Value.PlainKey]

theorem parse_childPath
    {tokens : List Str}
    {token : Str}
    (hPlain : PlainPath tokens)
    (hToken : Value.PlainKey token) :
    Pointer.parse
        (childPath (Pointer.spell tokens) token) =
      some (tokens ++ [token]) := by
  rw [childPath, ← Pointer.spell_append_singleton]
  exact Pointer.parse_spell _
    (hPlain.append_singleton hToken)

variable {tokens : List Str}
variable {plug : Value → Value}

theorem applyPatch_replaceOp
    (hFocus : Focus tokens plug)
    (hPlain : PlainPath tokens)
    (new old : Value)
    (ops : List Value) :
    applyPatch
        (replaceOp (Pointer.spell tokens) new :: ops)
        (plug old) =
      applyPatch ops (plug new) := by
  have hDecode :
      Operation.ofValue?
          (replaceOp (Pointer.spell tokens) new) =
        some (.replace tokens new) := by
    simp [Operation.ofValue?, replaceOp, Value.find_cons,
      Pointer.parse_spell tokens hPlain]
  rw [applyPatch_cons, hDecode, Option.bind_some,
    Operation.apply, hFocus]
  rfl

theorem applyPatch_removeOp
    (hFocus : Focus tokens plug)
    (hPlain : PlainPath tokens)
    {token : Str}
    (hToken : Value.PlainKey token)
    {old new : Value}
    (hRemove : Value.removeChild token old = some new)
    (ops : List Value) :
    applyPatch
        (removeOp (childPath (Pointer.spell tokens) token)
          :: ops)
        (plug old) =
      applyPatch ops (plug new) := by
  have hDecode :
      Operation.ofValue?
          (removeOp
            (childPath (Pointer.spell tokens) token)) =
        some (.remove (tokens ++ [token])) := by
    simp [Operation.ofValue?, removeOp, Value.find_cons,
      parse_childPath hPlain hToken]
  rw [applyPatch_cons, hDecode, Option.bind_some,
    Operation.apply, hFocus.modifyParent, hRemove]
  rfl

theorem applyPatch_addOp
    (hFocus : Focus tokens plug)
    (hPlain : PlainPath tokens)
    {token : Str}
    (hToken : Value.PlainKey token)
    {value old new : Value}
    (hAdd : Value.addChild value token old = some new)
    (ops : List Value) :
    applyPatch
        (addOp (childPath (Pointer.spell tokens) token) value
          :: ops)
        (plug old) =
      applyPatch ops (plug new) := by
  have hDecode :
      Operation.ofValue?
          (addOp (childPath (Pointer.spell tokens) token)
            value) =
        some (.add (tokens ++ [token]) value) := by
    simp [Operation.ofValue?, addOp, Value.find_cons,
      parse_childPath hPlain hToken]
  rw [applyPatch_cons, hDecode, Option.bind_some,
    Operation.apply, hFocus.modifyParent, hAdd]
  · rfl
  · simp

end Kedge

------------------------------------------------------------
-- Loops over Arrays
------------------------------------------------------------

namespace Kedge

open Json

variable {tokens : List Str}
variable {plug : Value → Value}

/- The removal loop cuts the array down to the target size. -/
theorem applyPatch_removeLoop
    (hFocus : Focus tokens plug)
    (hPlain : PlainPath tokens)
    (targetSize : Nat)
    (elements : List Value) :
    applyPatch
        (removeLoop (Pointer.spell tokens) targetSize
          elements.length)
        (plug (.array elements)) =
      some (plug (.array (elements.take targetSize))) := by
  induction elements using List.reverseRecOn with
  | nil => simp [removeLoop]
  | append_singleton elements last ih =>
      rw [List.length_append, List.length_singleton,
        removeLoop]
      by_cases hSize : elements.length + 1 > targetSize
      · have hRemove :
            Value.removeChild
                (Text.decimal elements.length)
                (.array (elements ++ [last])) =
              some (.array elements) := by
          simp [Value.removeChild,
            List.eraseIdx_append_of_length_le]
        have hTake :
            (elements ++ [last]).take targetSize =
              elements.take targetSize :=
          List.take_append_of_le_length (by omega)
        rw [if_pos hSize, applyPatch_removeOp hFocus hPlain
          (plainKey_decimal _) hRemove, ih, hTake]
      · have hTake :
            (elements ++ [last]).take targetSize =
              elements ++ [last] :=
          List.take_of_length_le (by simp; omega)
        rw [if_neg hSize, hTake, applyPatch_nil]

/- The append loop adds the elements it visits. -/
theorem applyPatch_appendLoop
    (hFocus : Focus tokens plug)
    (hPlain : PlainPath tokens)
    (elements rest : List Value) :
    applyPatch (appendLoop (Pointer.spell tokens) rest)
        (plug (.array elements)) =
      some (plug (.array (elements ++ everyOther rest))) := by
  induction rest using everyOther.induct
      generalizing elements with
  | case1 => simp [appendLoop, everyOther]
  | case2 y =>
      have hAdd :
          Value.addChild y ['-'] (.array elements) =
            some (.array (elements ++ [y])) := by
        simp [Value.addChild]
      rw [appendLoop, applyPatch_addOp hFocus hPlain
        plainKey_dash hAdd, applyPatch_nil, everyOther]
  | case3 y skipped rest ih =>
      have hAdd :
          Value.addChild y ['-'] (.array elements) =
            some (.array (elements ++ [y])) := by
        simp [Value.addChild]
      rw [appendLoop, applyPatch_addOp hFocus hPlain
        plainKey_dash hAdd, ih, everyOther]
      simp

/-
  Wherever `source` stands in a document, the operations of
  `jsonDiff` for that location put the patched value there.
-/
def Patches (source target : Value) : Prop :=
  ∀ tokens plug, Focus tokens plug → PlainPath tokens →
    applyPatch
        (jsonDiff source target (Pointer.spell tokens))
        (plug source) =
      some (plug (patched source target))

theorem length_patchedElements
    (src tgt : List Value) :
    (patchedElements src tgt).length =
      min src.length tgt.length := by
  induction src generalizing tgt with
  | nil => simp [patchedElements]
  | cons x src ih =>
      cases tgt with
      | nil => simp [patchedElements]
      | cons y tgt => simp [patchedElements, ih]

/-
  The loop over the common indices patches these elements.
  `done` holds the elements in front of the loop index.
-/
theorem applyPatch_diffElements
    (hFocus : Focus tokens plug)
    (hPlain : PlainPath tokens)
    (done src tgt : List Value)
    (hEach : ∀ x ∈ src, ∀ y ∈ tgt, Patches x y) :
    applyPatch
        (diffElements src tgt (Pointer.spell tokens)
          done.length)
        (plug (.array (done ++ src))) =
      some (plug (.array
        (done ++ (patchedElements src tgt ++
          src.drop tgt.length)))) := by
  induction src generalizing done tgt with
  | nil => simp [diffElements, patchedElements]
  | cons x src ih =>
      cases tgt with
      | nil => simp [diffElements, patchedElements]
      | cons y tgt =>
          have hHead :=
            hEach x (by simp) y (by simp) _ _
              (hFocus.element done src)
              (hPlain.append_singleton
                (plainKey_decimal done.length))
          have hTail := ih (done ++ [patched x y]) tgt
            (fun x hX y hY =>
              hEach x (by simp [hX]) y (by simp [hY]))
          rw [Pointer.spell_append_singleton] at hHead
          rw [diffElements, applyPatch_append, childPath,
            hHead, Option.bind_some]
          simpa [patchedElements] using hTail

theorem patches_array
    {src tgt : List Value}
    (hEach : ∀ x ∈ src, ∀ y ∈ tgt, Patches x y)
    (hDiffer :
      Value.equals (.array src) (.array tgt) = false) :
    Patches (.array src) (.array tgt) := by
  intro tokens plug hFocus hPlain
  have hElements :=
    applyPatch_diffElements hFocus hPlain [] src tgt hEach
  have hLength :
      src.length =
        (patchedElements src tgt ++
          src.drop tgt.length).length := by
    rw [List.length_append, length_patchedElements,
      List.length_drop]
    omega
  have hTake :
      (patchedElements src tgt ++
          src.drop tgt.length).take tgt.length =
        patchedElements src tgt := by
    have hShort := length_patchedElements src tgt
    by_cases hSize : tgt.length ≤ src.length
    · rw [List.take_left' (by omega)]
    · rw [List.drop_eq_nil_of_le (by omega),
        List.append_nil, List.take_of_length_le (by omega)]
  rw [jsonDiff_array hDiffer, patched_array hDiffer,
    applyPatch_append, applyPatch_append]
  simp only [List.length_nil, List.nil_append] at hElements
  rw [hElements, Option.bind_some, hLength,
    applyPatch_removeLoop hFocus hPlain, Option.bind_some,
    ← hLength, hTake, applyPatch_appendLoop hFocus hPlain]

end Kedge

------------------------------------------------------------
-- Loops over Objects
------------------------------------------------------------

namespace Kedge

open Json

variable {tokens : List Str}
variable {plug : Value → Value}

/- Patching keeps or drops source keys. -/
theorem keys_patchedMembers_sublist
    (src tgt : Members) :
    (keys (patchedMembers src tgt)).Sublist (keys src) := by
  induction src with
  | nil => simp [patchedMembers]
  | cons member src ih =>
      rcases member with ⟨key, value⟩
      cases hFind : Value.find tgt key with
      | none =>
          simpa [patchedMembers, hFind] using ih.cons key
      | some found =>
          simpa [patchedMembers, hFind] using ih.cons_cons key

/-
  The first pass patches members found in the target and
  removes the others. `done` holds the members visited.
-/
theorem applyPatch_diffMembers
    (hFocus : Focus tokens plug)
    (hPlain : PlainPath tokens)
    (done src tgt : Members)
    (hUnique : (keys (done ++ src)).Nodup)
    (hKeys : ∀ key ∈ keys src, Value.PlainKey key)
    (hEach :
      ∀ m ∈ src, ∀ found,
        Value.find tgt m.1 = some found →
          Patches m.2 found) :
    applyPatch
        (diffMembers src tgt (Pointer.spell tokens))
        (plug (.object (done ++ src))) =
      some (plug (.object
        (done ++ patchedMembers src tgt))) := by
  induction src generalizing done with
  | nil => simp [diffMembers, patchedMembers]
  | cons member src ih =>
      rcases member with ⟨key, value⟩
      have hKey : Value.PlainKey key := hKeys key (by simp)
      have hRest : ∀ k ∈ keys src, Value.PlainKey k :=
        fun k hK => hKeys k (by simp [hK])
      have hTailEach :
          ∀ m ∈ src, ∀ found,
            Value.find tgt m.1 = some found →
              Patches m.2 found :=
        fun m hM => hEach m (by simp [hM])
      have hParts := hUnique
      rw [keys_append, keys_cons, List.nodup_middle,
        List.nodup_cons, List.mem_append, not_or] at hParts
      rcases hParts with ⟨⟨hDone, hSrc⟩, hOthers⟩
      cases hFind : Value.find tgt key with
      | none =>
          have hRemove :
              Value.removeChild key
                  (.object (done ++ (key, value) :: src)) =
                some (.object (done ++ src)) := by
            simp [Value.removeChild,
              eraseMember_append_cons hDone hSrc]
          have hTail := ih done
            (by simpa using hOthers) hRest hTailEach
          simp only [diffMembers, patchedMembers, hFind,
            List.singleton_append]
          rw [applyPatch_removeOp hFocus hPlain hKey hRemove,
            hTail]
      | some found =>
          have hHead :=
            hEach (key, value) (by simp) found hFind _ _
              (hFocus.member done src key hDone)
              (hPlain.append_singleton hKey)
          have hTail :=
            ih (done ++ [(key, patched value found)])
              (by simpa using hUnique) hRest hTailEach
          rw [Pointer.spell_append_singleton] at hHead
          simp only [diffMembers, patchedMembers, hFind,
            childPath]
          rw [applyPatch_append, hHead, Option.bind_some]
          simpa using hTail

/- The second pass appends the members that are new. -/
theorem applyPatch_addLoop
    (hFocus : Focus tokens plug)
    (hPlain : PlainPath tokens)
    (source current tgt : Members)
    (hUnique : (keys tgt).Nodup)
    (hKeys : ∀ key ∈ keys tgt, Value.PlainKey key)
    (hFresh :
      ∀ key ∈ keys tgt, Value.find source key = none →
        key ∉ keys current) :
    applyPatch
        (addLoop (Pointer.spell tokens) source tgt)
        (plug (.object current)) =
      some (plug (.object
        (current ++ tgt.filter fun m =>
          (Value.find source m.1).isNone))) := by
  induction tgt generalizing current with
  | nil => simp [addLoop]
  | cons member tgt ih =>
      rcases member with ⟨key, value⟩
      have hKey : Value.PlainKey key := hKeys key (by simp)
      have hRest : ∀ k ∈ keys tgt, Value.PlainKey k :=
        fun k hK => hKeys k (by simp [hK])
      rw [keys_cons, List.nodup_cons] at hUnique
      cases hFind : Value.find source key with
      | none =>
          have hAbsent := hFresh key (by simp) hFind
          have hAdd :
              Value.addChild value key (.object current) =
                some (.object
                  (current ++ [(key, value)])) := by
            simp [Value.addChild,
              setMember_of_not_mem hAbsent]
          have hTail := ih (current ++ [(key, value)])
            hUnique.2 hRest (by
              intro k hK hNone
              have hOld := hFresh k (by simp [hK]) hNone
              have hNe : k ≠ key := by
                rintro rfl
                exact hUnique.1 hK
              simp [hOld, hNe])
          simp only [addLoop, hFind, Option.isNone_none,
            if_true]
          rw [applyPatch_addOp hFocus hPlain hKey hAdd,
            hTail]
          simp [hFind]
      | some found =>
          have hTail := ih current hUnique.2 hRest
            (fun k hK => hFresh k (by simp [hK]))
          simpa [addLoop, hFind] using hTail

theorem patches_object
    {src tgt : Members}
    (hSrc : (keys src).Nodup)
    (hTgt : (keys tgt).Nodup)
    (hSrcKeys : ∀ key ∈ keys src, Value.PlainKey key)
    (hTgtKeys : ∀ key ∈ keys tgt, Value.PlainKey key)
    (hEach :
      ∀ m ∈ src, ∀ found,
        Value.find tgt m.1 = some found →
          Patches m.2 found)
    (hDiffer :
      Value.equals (.object src) (.object tgt) = false) :
    Patches (.object src) (.object tgt) := by
  intro tokens plug hFocus hPlain
  have hMembers :=
    applyPatch_diffMembers hFocus hPlain [] src tgt
      (by simpa using hSrc) hSrcKeys hEach
  have hFresh :
      ∀ key ∈ keys tgt, Value.find src key = none →
        key ∉ keys (patchedMembers src tgt) := by
    intro key _ hNone hKept
    rw [Value.find_eq_none_iff] at hNone
    exact hNone
      ((keys_patchedMembers_sublist src tgt).subset hKept)
  simp only [List.nil_append] at hMembers
  rw [jsonDiff_object hDiffer, patched_object hDiffer,
    applyPatch_append, hMembers, Option.bind_some,
    applyPatch_addLoop hFocus hPlain src _ tgt hTgt hTgtKeys
      hFresh]

end Kedge

------------------------------------------------------------
-- Applying the Difference
------------------------------------------------------------

namespace Kedge

open Json

/-
  The induction over the two values: each container case
  hands the statement for its children to the loops.
-/
theorem patches_jsonDiff
    (source target : Value)
    (hSource : source.UniqueKeys)
    (hTarget : target.UniqueKeys)
    (hSourceKeys : source.PlainKeys)
    (hTargetKeys : target.PlainKeys) :
    Patches source target := by
  induction source, target using comparisonInduction with
  | equal source target hEquals =>
      intro tokens plug _ _
      rw [jsonDiff_of_equals hEquals, applyPatch_nil,
        patched_of_equals hEquals]
  | replaced source target hReplaced =>
      intro tokens plug hFocus hPlain
      rw [jsonDiff_of_replaced hReplaced,
        applyPatch_replaceOp hFocus hPlain, applyPatch_nil,
        patched_of_replaced hReplaced]
  | arrays src tgt hEquals hEach =>
      have hSrc := (Value.keysSatisfy_array_iff src).mp hSource
      have hTgt := (Value.keysSatisfy_array_iff tgt).mp hTarget
      have hSrcKeys :=
        (Value.keysSatisfy_array_iff src).mp hSourceKeys
      have hTgtKeys :=
        (Value.keysSatisfy_array_iff tgt).mp hTargetKeys
      apply patches_array _ hEquals
      intro x hX y hY
      exact hEach x hX y hY (hSrc x hX) (hTgt y hY)
        (hSrcKeys x hX) (hTgtKeys y hY)
  | objects src tgt hEquals hEach =>
      have hSrc :=
        (Value.keysSatisfy_object_iff src).mp hSource
      have hTgt :=
        (Value.keysSatisfy_object_iff tgt).mp hTarget
      have hSrcKeys :=
        (Value.keysSatisfy_object_iff src).mp hSourceKeys
      have hTgtKeys :=
        (Value.keysSatisfy_object_iff tgt).mp hTargetKeys
      apply patches_object hSrc.1 hTgt.1 hSrcKeys.1
        hTgtKeys.1 _ hEquals
      intro m hM found hFind
      have hFound := Value.mem_of_find hFind
      exact hEach m hM _ hFound (hSrc.2 m hM)
        (hTgt.2 _ hFound) (hSrcKeys.2 m hM)
        (hTgtKeys.2 _ hFound)

/-
  Applied to the source, the operations of `json_diff` never
  fail and yield the patched value.
-/
theorem applyPatch_jsonDiff
    (source target : Value)
    (hSource : source.UniqueKeys)
    (hTarget : target.UniqueKeys)
    (hSourceKeys : source.PlainKeys)
    (hTargetKeys : target.PlainKeys) :
    applyPatch (jsonDiff source target []) source =
      some (patched source target) :=
  patches_jsonDiff source target hSource hTarget hSourceKeys
    hTargetKeys [] id Focus.root (by simp [PlainPath])

end Kedge

------------------------------------------------------------
-- Keys of the Patched Value
------------------------------------------------------------

namespace Kedge

open Json

theorem mem_of_mem_everyOther
    {y : Value}
    {rest : List Value}
    (hMember : y ∈ everyOther rest) :
    y ∈ rest := by
  induction rest using everyOther.induct with
  | case1 => simp [everyOther] at hMember
  | case2 z => simpa [everyOther] using hMember
  | case3 z skipped rest ih =>
      rw [everyOther, List.mem_cons] at hMember
      rcases hMember with rfl | hRest
      · simp
      · simp [ih hRest]

theorem exists_of_mem_patchedElements
    {z : Value}
    {src tgt : List Value}
    (hMember : z ∈ patchedElements src tgt) :
    ∃ x ∈ src, ∃ y ∈ tgt, z = patched x y := by
  induction src generalizing tgt with
  | nil => simp [patchedElements] at hMember
  | cons x src ih =>
      cases tgt with
      | nil => simp [patchedElements] at hMember
      | cons y tgt =>
          rw [patchedElements, List.mem_cons] at hMember
          rcases hMember with rfl | hRest
          · exact ⟨x, by simp, y, by simp, rfl⟩
          · rcases ih hRest with ⟨x', hX, y', hY, hZ⟩
            exact ⟨x', by simp [hX], y', by simp [hY], hZ⟩

theorem exists_of_mem_patchedMembers
    {m : Str × Value}
    {src tgt : Members}
    (hMember : m ∈ patchedMembers src tgt) :
    ∃ value found,
      (m.1, value) ∈ src ∧
        Value.find tgt m.1 = some found ∧
          m.2 = patched value found := by
  induction src with
  | nil => simp [patchedMembers] at hMember
  | cons member src ih =>
      rcases member with ⟨key, value⟩
      cases hFind : Value.find tgt key with
      | none =>
          simp only [patchedMembers, hFind] at hMember
          rcases ih hMember with ⟨v, found, hIn, hRest⟩
          exact ⟨v, found, by simp [hIn], hRest⟩
      | some found =>
          simp only [patchedMembers, hFind, List.mem_cons]
            at hMember
          rcases hMember with rfl | hRest
          · exact ⟨value, found, by simp, hFind, rfl⟩
          · rcases ih hRest with ⟨v, w, hIn, hRest⟩
            exact ⟨v, w, by simp [hIn], hRest⟩

/- The keys of a patched object are unique. -/
theorem nodup_keys_patched
    {src tgt : Members}
    (hSrc : (keys src).Nodup)
    (hTgt : (keys tgt).Nodup) :
    (keys (patchedMembers src tgt ++
      tgt.filter fun m =>
        (Value.find src m.1).isNone)).Nodup := by
  rw [keys_append, List.nodup_append']
  refine ⟨?_, ?_, ?_⟩
  · exact hSrc.sublist (keys_patchedMembers_sublist src tgt)
  · exact hTgt.sublist (List.filter_sublist.map Prod.fst)
  · intro key hOld hNew
    have hIn :=
      (keys_patchedMembers_sublist src tgt).subset hOld
    rcases List.mem_map.mp hNew with ⟨m, hM, rfl⟩
    have hNone := (List.mem_filter.mp hM).2
    simp only [Option.isNone_iff_eq_none,
      Value.find_eq_none_iff] at hNone
    exact hNone hIn

/- Patching keeps the keys of every object unique. -/
theorem uniqueKeys_patched
    (source target : Value)
    (hSource : source.UniqueKeys)
    (hTarget : target.UniqueKeys) :
    (patched source target).UniqueKeys := by
  induction source, target using comparisonInduction with
  | equal source target hEquals =>
      rw [patched_of_equals hEquals]
      exact hSource
  | replaced source target hReplaced =>
      rw [patched_of_replaced hReplaced]
      exact hTarget
  | arrays src tgt hEquals hEach =>
      have hSrc := (Value.keysSatisfy_array_iff src).mp hSource
      have hTgt := (Value.keysSatisfy_array_iff tgt).mp hTarget
      rw [patched_array hEquals]
      apply (Value.keysSatisfy_array_iff _).mpr
      intro z hZ
      rcases List.mem_append.mp hZ with hOld | hNew
      · rcases exists_of_mem_patchedElements hOld with
          ⟨x, hX, y, hY, rfl⟩
        exact hEach x hX y hY (hSrc x hX) (hTgt y hY)
      · exact hTgt z (List.mem_of_mem_drop
          (mem_of_mem_everyOther hNew))
  | objects src tgt hEquals hEach =>
      have hSrc :=
        (Value.keysSatisfy_object_iff src).mp hSource
      have hTgt :=
        (Value.keysSatisfy_object_iff tgt).mp hTarget
      rw [patched_object hEquals]
      apply (Value.keysSatisfy_object_iff _).mpr
      refine ⟨nodup_keys_patched hSrc.1 hTgt.1, ?_⟩
      intro m hM
      rcases List.mem_append.mp hM with hOld | hNew
      · rcases exists_of_mem_patchedMembers hOld with
          ⟨value, found, hIn, hFind, hValue⟩
        have hFound := Value.mem_of_find hFind
        rw [hValue]
        exact hEach _ hIn _ hFound (hSrc.2 _ hIn)
          (hTgt.2 _ hFound)
      · exact hTgt.2 m (List.mem_of_mem_filter hNew)

end Kedge

------------------------------------------------------------
-- When the Patched Value Is the Target
------------------------------------------------------------

namespace Kedge

open Json

theorem length_everyOther
    (rest : List Value) :
    (everyOther rest).length = (rest.length + 1) / 2 := by
  induction rest using everyOther.induct with
  | case1 => rfl
  | case2 y => simp [everyOther]
  | case3 y skipped rest ih =>
      simp only [everyOther, List.length_cons, ih]
      omega

/-
  Skipping elements is only harmless when there is at most
  one of them.
-/
theorem map_everyOther_eq_iff
    (rest : List Value) :
    (everyOther rest).map Value.denote =
        rest.map Value.denote ↔
      rest.length ≤ 1 := by
  constructor
  · intro hMap
    have hSame := congrArg List.length hMap
    simp only [List.length_map, length_everyOther] at hSame
    omega
  · intro hShort
    match rest, hShort with
    | [], _ => rfl
    | [y], _ => rfl

theorem elements_denote_eq_iff
    (src tgt : List Value)
    (hEach :
      ∀ x ∈ src, ∀ y ∈ tgt,
        ((patched x y).denote = y.denote ↔
          growsByAtMostOne x y = true)) :
    (patchedElements src tgt ++
        everyOther (tgt.drop src.length)).map Value.denote =
        tgt.map Value.denote ↔
      tgt.length ≤ src.length + 1 ∧
        elementsGrowByAtMostOne src tgt = true := by
  induction src generalizing tgt with
  | nil =>
      simpa [patchedElements, elementsGrowByAtMostOne]
        using map_everyOther_eq_iff tgt
  | cons x src ih =>
      cases tgt with
      | nil =>
          simp [patchedElements, elementsGrowByAtMostOne,
            everyOther]
      | cons y tgt =>
          have hHead := hEach x (by simp) y (by simp)
          have hTail := ih tgt fun x hX y hY =>
            hEach x (by simp [hX]) y (by simp [hY])
          simp only [patchedElements, List.length_cons,
            List.drop_succ_cons, List.cons_append,
            List.map_cons, List.cons.injEq, hHead, hTail,
            elementsGrowByAtMostOne, Bool.and_eq_true,
            Nat.add_le_add_iff_right]
          tauto

theorem membersGrowByAtMostOne_iff
    (src tgt : Members) :
    membersGrowByAtMostOne src tgt = true ↔
      ∀ m ∈ src, ∀ found,
        Value.find tgt m.1 = some found →
          growsByAtMostOne m.2 found = true := by
  induction src with
  | nil => simp [membersGrowByAtMostOne]
  | cons member src ih =>
      rcases member with ⟨key, value⟩
      cases hFind : Value.find tgt key <;>
        simp [membersGrowByAtMostOne, hFind, ih]

theorem find_patchedMembers
    (src tgt : Members)
    (key : Str) :
    Value.find (patchedMembers src tgt) key =
      (Value.find src key).bind fun value =>
        (Value.find tgt key).map fun found =>
          patched value found := by
  induction src with
  | nil => rfl
  | cons member src ih =>
      rcases member with ⟨name, value⟩
      by_cases hName : name = key
      · subst hName
        cases hFind : Value.find tgt name with
        | none => simp [patchedMembers, hFind, ih]
        | some found =>
            simp [patchedMembers, hFind, Value.find_cons]
      · cases hFind : Value.find tgt name <;>
          simp [patchedMembers, hFind, Value.find_cons,
            hName, ih]

theorem find_filter_new
    (src tgt : Members)
    (key : Str) :
    Value.find
        (tgt.filter fun m => (Value.find src m.1).isNone)
        key =
      if (Value.find src key).isNone then
        Value.find tgt key
      else none := by
  induction tgt with
  | nil => simp
  | cons member tgt ih =>
      rcases member with ⟨name, value⟩
      by_cases hName : name = key
      · subst hName
        cases hFind : Value.find src name with
        | none => simp [hFind, Value.find_cons]
        | some old => simpa [hFind] using ih
      · cases hFind : Value.find src name <;>
          simpa [hFind, Value.find_cons, hName] using ih

/-
  Looking up a key in the patched object: common keys have
  patched values, new keys have their target value.
-/
theorem members_denote_eq_iff
    (src tgt : Members)
    (hSrc : (keys src).Nodup)
    (hEach :
      ∀ m ∈ src, ∀ found,
        Value.find tgt m.1 = some found →
          ((patched m.2 found).denote = found.denote ↔
            growsByAtMostOne m.2 found = true)) :
    Value.denote (.object (patchedMembers src tgt ++
        tgt.filter fun m => (Value.find src m.1).isNone)) =
        Value.denote (.object tgt) ↔
      membersGrowByAtMostOne src tgt = true := by
  rw [Value.denote_object, Value.denote_object,
    Document.object.injEq, membersGrowByAtMostOne_iff]
  constructor
  · intro hLookup m hM found hFind
    apply (hEach m hM found hFind).mp
    have hValue := Value.find_of_mem hSrc hM
    have hKey := congrFun hLookup m.1
    simpa [Value.find_append, find_patchedMembers, hValue,
      hFind] using hKey
  · intro hGrows
    funext key
    rw [Value.find_append, find_patchedMembers,
      find_filter_new]
    cases hValue : Value.find src key with
    | none => simp
    | some value =>
        cases hFind : Value.find tgt key with
        | none => simp
        | some found =>
            have hM := Value.mem_of_find hValue
            have hSame := (hEach _ hM found hFind).mpr
              (hGrows _ hM found hFind)
            simpa using hSame

theorem elementsGrow_of_equals
    {src tgt : List Value}
    (hEach :
      ∀ x ∈ src, ∀ y, x.equals y = true →
        growsByAtMostOne x y = true)
    (hEquals : Value.equalsElements src tgt = true) :
    tgt.length = src.length ∧
      elementsGrowByAtMostOne src tgt = true := by
  rw [Value.equalsElements_iff] at hEquals
  refine ⟨hEquals.length_eq.symm, ?_⟩
  induction hEquals with
  | nil => rfl
  | cons hHead hTail ih =>
      simp only [elementsGrowByAtMostOne, Bool.and_eq_true]
      exact ⟨hEach _ (by simp) _ hHead,
        ih fun x hX => hEach x (by simp [hX])⟩

/- Equal values have no growing arrays. -/
theorem growsByAtMostOne_of_equals
    (source target : Value)
    (hEquals : source.equals target = true) :
    growsByAtMostOne source target = true := by
  induction source using Value.structuralInduction
      generalizing target with
  | scalar source hScalar =>
      rcases hScalar with ⟨hArray, hObject⟩
      cases source with
      | array src => exact absurd rfl hArray
      | object src => exact absurd rfl hObject
      | _ => simp [growsByAtMostOne]
  | array src ih =>
      cases target with
      | array tgt =>
          rw [Value.equals] at hEquals
          rcases elementsGrow_of_equals ih hEquals with
            ⟨hLength, hElements⟩
          simp [growsByAtMostOne, hElements, hLength]
      | _ => simp [growsByAtMostOne]
  | object src ih =>
      cases target with
      | object tgt =>
          rw [Value.equals, Bool.and_eq_true,
            Value.equalsMembers_iff] at hEquals
          rw [growsByAtMostOne, membersGrowByAtMostOne_iff]
          intro m hM found hFind
          rcases hEquals.2 m hM with ⟨other, hOther, hSame⟩
          have hFound : other = found :=
            Option.some.inj (hOther.symm.trans hFind)
          exact ih m hM found (hFound ▸ hSame)
      | _ => simp [growsByAtMostOne]

theorem patched_denote_eq_iff_of_equals
    {source target : Value}
    (hSource : source.UniqueKeys)
    (hTarget : target.UniqueKeys)
    (hEquals : source.equals target = true) :
    (patched source target).denote = target.denote ↔
      growsByAtMostOne source target = true := by
  have hPatched := patched_of_equals hEquals
  have hDenote :=
    (Value.equals_iff_denote_eq source target hSource
      hTarget).mp hEquals
  have hGrows :=
    growsByAtMostOne_of_equals source target hEquals
  simp [hPatched, hDenote, hGrows]

/-
  The patched value denotes the target's document exactly
  when no array grows by more than one element.
-/
theorem patched_denote_eq_iff
    (source target : Value)
    (hSource : source.UniqueKeys)
    (hTarget : target.UniqueKeys) :
    (patched source target).denote = target.denote ↔
      growsByAtMostOne source target = true := by
  induction source, target using comparisonInduction with
  | equal source target hEquals =>
      exact patched_denote_eq_iff_of_equals hSource hTarget
        hEquals
  | replaced source target hReplaced =>
      rw [patched_of_replaced hReplaced,
        growsByAtMostOne_of_replaced hReplaced]
      simp
  | arrays src tgt hEquals hEach =>
      have hSrc := (Value.keysSatisfy_array_iff src).mp hSource
      have hTgt := (Value.keysSatisfy_array_iff tgt).mp hTarget
      have hElements :=
        elements_denote_eq_iff src tgt fun x hX y hY =>
          hEach x hX y hY (hSrc x hX) (hTgt y hY)
      rw [patched_array hEquals, growsByAtMostOne,
        Value.denote_array, Value.denote_array,
        Document.array.injEq, hElements, Bool.and_eq_true,
        decide_eq_true_eq]
  | objects src tgt hEquals hEach =>
      have hSrc :=
        (Value.keysSatisfy_object_iff src).mp hSource
      have hTgt :=
        (Value.keysSatisfy_object_iff tgt).mp hTarget
      rw [patched_object hEquals, growsByAtMostOne]
      apply members_denote_eq_iff src tgt hSrc.1
      intro m hM found hFind
      have hFound := Value.mem_of_find hFind
      exact hEach m hM _ hFound (hSrc.2 m hM)
        (hTgt.2 _ hFound)

end Kedge

------------------------------------------------------------
-- Correctness of the Difference
------------------------------------------------------------

namespace Kedge

open Json

/-
  Applying the operations of `json_diff` to the source in
  order succeeds and yields a value equal to the target
  exactly when, of any two arrays at the same position, the
  target's is at most one element longer.
-/
theorem jsonDiff_correct_iff
    (source target : Value)
    (hSource : source.UniqueKeys)
    (hTarget : target.UniqueKeys)
    (hSourceKeys : source.PlainKeys)
    (hTargetKeys : target.PlainKeys) :
    (∃ result,
        applyPatch (jsonDiff source target []) source =
          some result ∧
        result.equals target = true) ↔
      growsByAtMostOne source target = true := by
  have hResult := applyPatch_jsonDiff source target hSource
    hTarget hSourceKeys hTargetKeys
  have hUnique :=
    uniqueKeys_patched source target hSource hTarget
  have hEquals :=
    Value.equals_iff_denote_eq _ target hUnique hTarget
  rw [← patched_denote_eq_iff source target hSource hTarget,
    ← hEquals, hResult]
  simp

/-
  An object is removed and one is added, and the arrays at
  two depths grow by one element each.
-/
def beforeGrowth : Value :=
  .object
    [("a".toList, .array [.array [.int64 1], .null]),
      ("b".toList, .object [("d".toList, .bool_ true)])]

def afterGrowth : Value :=
  .object
    [("c".toList, .object [("d".toList, .null)]),
      ("a".toList,
        .array
          [.array [.int64 1, .int64 2], .bool_ false,
            .array []])]

theorem jsonDiff_correct_append_one :
    growsByAtMostOne beforeGrowth afterGrowth = true ∧
      ∃ result,
        applyPatch (jsonDiff beforeGrowth afterGrowth [])
            beforeGrowth =
          some result ∧
        result.equals afterGrowth = true := by
  have hBefore : beforeGrowth.UniqueKeys := by
    simp [beforeGrowth, Value.UniqueKeys, Value.KeysSatisfy,
      Value.ElementsSatisfy, Value.MembersSatisfy, keys]
  have hAfter : afterGrowth.UniqueKeys := by
    simp [afterGrowth, Value.UniqueKeys, Value.KeysSatisfy,
      Value.ElementsSatisfy, Value.MembersSatisfy, keys]
  have hBeforeKeys : beforeGrowth.PlainKeys := by
    simp [beforeGrowth, Value.PlainKeys, Value.PlainKey,
      Value.KeysSatisfy, Value.ElementsSatisfy,
      Value.MembersSatisfy, keys]
  have hAfterKeys : afterGrowth.PlainKeys := by
    simp [afterGrowth, Value.PlainKeys, Value.PlainKey,
      Value.KeysSatisfy, Value.ElementsSatisfy,
      Value.MembersSatisfy, keys]
  have hGrows :
      growsByAtMostOne beforeGrowth afterGrowth = true := by
    decide
  refine ⟨hGrows, ?_⟩
  exact
    (jsonDiff_correct_iff beforeGrowth afterGrowth hBefore
      hAfter hBeforeKeys hAfterKeys).mpr hGrows

/-
  Of two appended elements only the first is transmitted:
  the patch yields `[1]` where the target is `[1, 2]`.
-/
theorem jsonDiff_skips_second_element :
    Value.UniqueKeys (.array [.int64 1, .int64 2]) ∧
      Value.PlainKeys (.array [.int64 1, .int64 2]) ∧
      ¬ ∃ result,
          applyPatch
              (jsonDiff (.array [])
                (.array [.int64 1, .int64 2]) [])
              (.array []) =
            some result ∧
          result.equals
            (.array [.int64 1, .int64 2]) = true := by
  refine ⟨?_, ?_, by decide⟩
  · simp [Value.UniqueKeys, Value.KeysSatisfy,
      Value.ElementsSatisfy]
  · simp [Value.PlainKeys, Value.KeysSatisfy,
      Value.ElementsSatisfy]

end Kedge
