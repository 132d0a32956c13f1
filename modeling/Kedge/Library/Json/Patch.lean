import Mathlib.Data.List.InsertIdx
import Kedge.Library.Json.Document

/-
  JSON pointers (RFC 6901) and JSON patches (RFC 6902) with
  the operations `add`, `remove` and `replace`.

  A pointer is parsed into its reference tokens. `modifyAt`
  changes the value a pointer addresses and fails when there
  is none. A patch is a list of JSON objects that are
  decoded and applied in order; the first failure fails the
  whole patch.

  Key definitions include:
    * `Json.Pointer.parse`
    * `Json.Pointer.spell`
    * `Json.Value.modifyAt`
    * `Json.Operation.ofValue?`
    * `Json.Operation.apply`
    * `Json.applyPatch`
    * `Json.Focus`

  Key theorems include:
    * `Json.Pointer.parse_spell`
    * `Json.applyPatch_append`
    * `Json.Focus.element`
    * `Json.Focus.member`
-/

------------------------------------------------------------
-- Pointers
------------------------------------------------------------

namespace Json

namespace Pointer

/- Decode the escapes `~0` and `~1` of a reference token. -/
def unescape : Str → Option Str
  | [] => some []
  | '~' :: '0' :: s => (unescape s).map ('~' :: ·)
  | '~' :: '1' :: s => (unescape s).map ('/' :: ·)
  | '~' :: _ => none
  | c :: s => (unescape s).map (c :: ·)

/-
  The reference tokens of a pointer. The empty pointer
  addresses the whole document; any other pointer starts
  with a separator.
-/
def parse : Str → Option (List Str)
  | [] => some []
  | '/' :: rest => (rest.splitOn '/').mapM unescape
  | _ => none

/- Reference tokens written behind separators as they are. -/
def spell (tokens : List Str) : Str :=
  tokens.flatMap fun token => '/' :: token

/-
  The array index a token stands for: a decimal numeral
  without leading zeros.
-/
def arrayIndex? (token : Str) : Option Nat :=
  let index := Nat.ofDigitChars 10 token 0
  if Text.decimal index = token then some index else none

@[simp] theorem spell_nil : spell [] = [] := rfl

theorem spell_append_singleton
    (tokens : List Str)
    (token : Str) :
    spell (tokens ++ [token]) =
      spell tokens ++ '/' :: token := by
  simp [spell]

@[simp] theorem arrayIndex?_decimal
    (index : Nat) :
    arrayIndex? (Text.decimal index) = some index := by
  simp [arrayIndex?, Text.decimal]

/- A token without `~` has no escapes. -/
theorem unescape_of_plain
    (token : Str)
    (hPlain : '~' ∉ token) :
    unescape token = some token := by
  induction token with
  | nil => rfl
  | cons c token ih =>
      simp only [List.mem_cons, not_or] at hPlain
      rw [unescape]
      · simp [ih hPlain.2]
      all_goals
        intros
        simp_all

theorem splitOn_spell
    (token : Str)
    (tokens : List Str)
    (hToken : '/' ∉ token)
    (hTokens : ∀ t ∈ tokens, '/' ∉ t) :
    (token ++ spell tokens).splitOn '/' =
      token :: tokens := by
  induction tokens generalizing token with
  | nil => simp [List.splitOn_eq_singleton hToken]
  | cons next tokens ih =>
      have hSpell :
          token ++ spell (next :: tokens) =
            token ++ '/' :: (next ++ spell tokens) := by
        simp [spell]
      rw [hSpell,
        List.splitOn_append_cons_self_of_not_mem hToken,
        ih next (hTokens next (by simp))
          (fun t hT => hTokens t (by simp [hT]))]

theorem mapM_unescape
    (tokens : List Str)
    (hPlain : ∀ t ∈ tokens, '~' ∉ t) :
    tokens.mapM unescape = some tokens := by
  induction tokens with
  | nil => rfl
  | cons token tokens ih =>
      rw [List.mapM_cons,
        unescape_of_plain token (hPlain token (by simp)),
        ih (fun t hT => hPlain t (by simp [hT]))]
      rfl

/- Parsing recovers tokens that need no escapes. -/
theorem parse_spell
    (tokens : List Str)
    (hPlain : ∀ t ∈ tokens, Value.PlainKey t) :
    parse (spell tokens) = some tokens := by
  cases tokens with
  | nil => rfl
  | cons token tokens =>
      have hSpell :
          spell (token :: tokens) =
            '/' :: (token ++ spell tokens) := by
        simp [spell]
      rw [hSpell, parse, splitOn_spell token tokens
        (hPlain token (by simp)).1
        (fun t hT => (hPlain t (by simp [hT])).1)]
      exact mapM_unescape _ fun t hT => (hPlain t hT).2

end Pointer

end Json

------------------------------------------------------------
-- Modifying Addressed Values
------------------------------------------------------------

namespace Json

/-
  Give a member a new value: in place when the key exists,
  behind the other members otherwise.
-/
def setMember (key : Str) (value : Value) :
    Members → Members
  | [] => [(key, value)]
  | (name, old) :: members =>
      if name = key then (name, value) :: members
      else (name, old) :: setMember key value members

/- Drop the member with the given key. -/
def eraseMember (key : Str) (members : Members) : Members :=
  members.filter fun member => member.1 ≠ key

namespace Value

/- Change the child of a container that a token addresses. -/
def descend
    (token : Str)
    (change : Value → Option Value) :
    Value → Option Value
  | .array elements => do
      let index ← Pointer.arrayIndex? token
      let old ← elements[index]?
      let new ← change old
      some (.array (elements.set index new))
  | .object members => do
      let old ← find members token
      let new ← change old
      some (.object (setMember token new members))
  | _ => none

/- Change the value that a list of tokens addresses. -/
def modifyAt :
    List Str → (Value → Option Value) → Value → Option Value
  | [], change, value => change value
  | token :: tokens, change, value =>
      descend token (modifyAt tokens change) value

/-
  Change the container that holds the addressed location,
  which need not exist yet. The root has no container.
-/
def modifyParent :
    List Str → (Str → Value → Option Value) →
      Value → Option Value
  | [], _, _ => none
  | [token], change, value => change token value
  | token :: tokens, change, value =>
      descend token (modifyParent tokens change) value

/- Insert a child: `-` addresses the end of an array. -/
def addChild (new : Value) (token : Str) :
    Value → Option Value
  | .array elements =>
      if token = ['-'] then some (.array (elements ++ [new]))
      else do
        let index ← Pointer.arrayIndex? token
        if index ≤ elements.length then
          some (.array (elements.insertIdx index new))
        else none
  | .object members =>
      some (.object (setMember token new members))
  | _ => none

/- Remove a child, which has to exist. -/
def removeChild (token : Str) : Value → Option Value
  | .array elements => do
      let index ← Pointer.arrayIndex? token
      if index < elements.length then
        some (.array (elements.eraseIdx index))
      else none
  | .object members =>
      if token ∈ keys members then
        some (.object (eraseMember token members))
      else none
  | _ => none

end Value

end Json

------------------------------------------------------------
-- Patches
------------------------------------------------------------

namespace Json

/- A decoded patch operation. -/
inductive Operation where
  | add (path : List Str) (value : Value)
  | remove (path : List Str)
  | replace (path : List Str) (value : Value)

namespace Operation

/-
  Decode an operation object. The member `value` is required
  where the operation uses it, and further members are
  ignored.
-/
def ofValue? : Value → Option Operation
  | .object members =>
      match Value.find members "op".toList,
          Value.find members "path".toList with
      | some (.string op), some (.string path) => do
          let tokens ← Pointer.parse path
          if op = "add".toList then
            (Value.find members "value".toList).map
              (add tokens)
          else if op = "remove".toList then
            some (remove tokens)
          else if op = "replace".toList then
            (Value.find members "value".toList).map
              (replace tokens)
          else none
      | _, _ => none
  | _ => none

/- Apply a decoded operation to a document. -/
def apply : Operation → Value → Option Value
  | add [] value, _ => some value
  | add path value, document =>
      document.modifyParent path (Value.addChild value)
  | remove path, document =>
      document.modifyParent path Value.removeChild
  | replace path value, document =>
      document.modifyAt path fun _ => some value

end Operation

/- Apply the operations of a patch in order. -/
def applyPatch : List Value → Value → Option Value
  | [], document => some document
  | operation :: operations, document => do
      let decoded ← Operation.ofValue? operation
      let next ← decoded.apply document
      applyPatch operations next

end Json

------------------------------------------------------------
-- Members after an Update
------------------------------------------------------------

namespace Json

/- Setting an existing member keeps its place. -/
theorem setMember_append_cons
    {pre post : Members}
    {key : Str}
    {old new : Value}
    (hFresh : key ∉ keys pre) :
    setMember key new (pre ++ (key, old) :: post) =
      pre ++ (key, new) :: post := by
  induction pre with
  | nil => simp [setMember]
  | cons member pre ih =>
      rcases member with ⟨name, value⟩
      simp only [keys_cons, List.mem_cons, not_or] at hFresh
      simp [setMember, Ne.symm hFresh.1, ih hFresh.2]

/- Setting an absent member appends it. -/
theorem setMember_of_not_mem
    {members : Members}
    {key : Str}
    {new : Value}
    (hFresh : key ∉ keys members) :
    setMember key new members = members ++ [(key, new)] := by
  induction members with
  | nil => rfl
  | cons member members ih =>
      rcases member with ⟨name, value⟩
      simp only [keys_cons, List.mem_cons, not_or] at hFresh
      simp [setMember, Ne.symm hFresh.1, ih hFresh.2]

theorem eraseMember_of_not_mem
    {members : Members}
    {key : Str}
    (hFresh : key ∉ keys members) :
    eraseMember key members = members := by
  apply List.filter_eq_self.mpr
  intro member hMember
  have hKey : member.1 ≠ key := by
    rintro rfl
    exact hFresh (mem_keys_of_mem hMember)
  simpa using hKey

/- Erasing a member with a unique key drops only that one. -/
theorem eraseMember_append_cons
    {pre post : Members}
    {key : Str}
    {old : Value}
    (hPre : key ∉ keys pre)
    (hPost : key ∉ keys post) :
    eraseMember key (pre ++ (key, old) :: post) =
      pre ++ post := by
  have hSplit :
      eraseMember key (pre ++ (key, old) :: post) =
        eraseMember key pre ++ eraseMember key post := by
    simp [eraseMember]
  rw [hSplit, eraseMember_of_not_mem hPre,
    eraseMember_of_not_mem hPost]

end Json

------------------------------------------------------------
-- Composition of Patches
------------------------------------------------------------

namespace Json

@[simp] theorem applyPatch_nil
    (document : Value) :
    applyPatch [] document = some document := rfl

theorem applyPatch_cons
    (operation : Value)
    (operations : List Value)
    (document : Value) :
    applyPatch (operation :: operations) document =
      ((Operation.ofValue? operation).bind fun decoded =>
        decoded.apply document).bind fun next =>
          applyPatch operations next := by
  cases hDecode : Operation.ofValue? operation <;>
    simp [applyPatch, hDecode]

/- A patch can be cut into two patches anywhere. -/
theorem applyPatch_append
    (left right : List Value)
    (document : Value) :
    applyPatch (left ++ right) document =
      (applyPatch left document).bind fun next =>
        applyPatch right next := by
  induction left generalizing document with
  | nil => rfl
  | cons operation left ih =>
      rw [List.cons_append, applyPatch_cons, applyPatch_cons]
      cases hHead :
          (Operation.ofValue? operation).bind fun decoded =>
            decoded.apply document with
      | none => rfl
      | some next => exact ih next

namespace Value

/- Tokens in front of a path lead into the document. -/
theorem modifyParent_append_singleton
    (tokens : List Str)
    (token : Str)
    (change : Str → Value → Option Value)
    (value : Value) :
    modifyParent (tokens ++ [token]) change value =
      modifyAt tokens (change token) value := by
  induction tokens generalizing value with
  | nil => rfl
  | cons head tokens ih =>
      have hDescend :
          modifyParent (tokens ++ [token]) change =
            modifyAt tokens (change token) := by
        funext value
        exact ih value
      cases tokens <;>
        simp_all [modifyParent, modifyAt]

theorem modifyAt_append
    (left right : List Str)
    (change : Value → Option Value)
    (value : Value) :
    modifyAt (left ++ right) change value =
      modifyAt left (modifyAt right change) value := by
  induction left generalizing value with
  | nil => rfl
  | cons token left ih =>
      have hDescend :
          modifyAt (left ++ right) change =
            modifyAt left (modifyAt right change) := by
        funext value
        exact ih value
      simp [modifyAt, hDescend]

end Value

end Json

------------------------------------------------------------
-- Focused Documents
------------------------------------------------------------

namespace Json

/-
  `plug` puts a value at the location the tokens address and
  leaves the rest of a fixed document around it: changing
  the addressed value of a plugged document is plugging the
  changed value.
-/
def Focus
    (tokens : List Str)
    (plug : Value → Value) : Prop :=
  ∀ change value,
    Value.modifyAt tokens change (plug value) =
      (change value).map plug

namespace Focus

variable {tokens : List Str}
variable {plug : Value → Value}

/- The empty path addresses the whole document. -/
theorem root : Focus [] id := by
  intro change value
  simp [Value.modifyAt]

/- Focus an element of the focused array. -/
theorem element
    (hFocus : Focus tokens plug)
    (pre post : List Value) :
    Focus (tokens ++ [Text.decimal pre.length])
      fun value => plug (.array (pre ++ value :: post)) := by
  intro change value
  rw [Value.modifyAt_append, hFocus]
  cases hChange : change value <;>
    simp [Value.modifyAt, Value.descend, hChange]

/- Focus a member of the focused object. -/
theorem member
    (hFocus : Focus tokens plug)
    (pre post : Members)
    (key : Str)
    (hFresh : key ∉ keys pre) :
    Focus (tokens ++ [key])
      fun value =>
        plug (.object (pre ++ (key, value) :: post)) := by
  intro change value
  have hFind :
      Value.find (pre ++ (key, value) :: post) key =
        some value := by
    have hPre := (Value.find_eq_none_iff pre key).mpr hFresh
    simp [Value.find_append, hPre, Value.find_cons]
  rw [Value.modifyAt_append, hFocus]
  cases hChange : change value <;>
    simp [Value.modifyAt, Value.descend, hFind, hChange,
      setMember_append_cons hFresh]

/- Changing the container at the focus. -/
theorem modifyParent
    (hFocus : Focus tokens plug)
    (token : Str)
    (change : Str → Value → Option Value)
    (value : Value) :
    Value.modifyParent (tokens ++ [token]) change
        (plug value) =
      (change token value).map plug := by
  rw [Value.modifyParent_append_singleton, hFocus]

end Focus

end Json

------------------------------------------------------------
-- Patches Respect Denotation
------------------------------------------------------------

namespace Json

theorem find_setMember
    (key name : Str)
    (new : Value)
    (members : Members) :
    Value.find (setMember key new members) name =
      if name = key then some new
      else Value.find members name := by
  induction members with
  | nil => simp [setMember, Value.find_cons, eq_comm]
  | cons member members ih =>
      rcases member with ⟨other, value⟩
      by_cases hOther : other = key
      · by_cases hName : name = key <;>
          simp_all [setMember, Value.find_cons, eq_comm]
      · by_cases hName : other = name
        · subst hName
          simp [setMember, Value.find_cons, hOther]
        · simp [setMember, Value.find_cons, hOther, hName,
            ih]

theorem find_eraseMember
    (key name : Str)
    (members : Members) :
    Value.find (eraseMember key members) name =
      if name = key then none
      else Value.find members name := by
  induction members with
  | nil => simp [eraseMember]
  | cons member members ih =>
      rcases member with ⟨other, value⟩
      by_cases hOther : other = key
      · have hErase :
            eraseMember key ((other, value) :: members) =
              eraseMember key members := by
          simp [eraseMember, hOther]
        by_cases hName : name = key <;>
          simp_all [Value.find_cons, eq_comm]
      · have hErase :
            eraseMember key ((other, value) :: members) =
              (other, value) :: eraseMember key members := by
          simp [eraseMember, hOther]
        by_cases hName : other = name
        · subst hName
          simp [hErase, Value.find_cons, hOther]
        · simp [hErase, Value.find_cons, hName, ih]

namespace Value

/- Two changes that act alike on equal documents. -/
def Alike (change change' : Value → Option Value) : Prop :=
  ∀ value value', denote value = denote value' →
    (change value).map denote = (change' value').map denote

/-
  Values of equal documents are both arrays, both objects or
  neither.
-/
theorem denote_eq_cases
    {value value' : Value}
    (hDenote : denote value = denote value') :
    (∃ xs ys, value = .array xs ∧ value' = .array ys ∧
        xs.map denote = ys.map denote) ∨
      (∃ xs ys, value = .object xs ∧ value' = .object ys ∧
        ∀ key, (find xs key).map denote =
          (find ys key).map denote) ∨
      (value.IsScalar ∧ value'.IsScalar) := by
  cases value with
  | array xs =>
      cases value' with
      | array ys =>
          left
          simpa [denote_array] using hDenote
      | _ => simp [denote] at hDenote
  | object xs =>
      cases value' with
      | object ys =>
          right
          left
          rw [denote_object, denote_object,
            Document.object.injEq] at hDenote
          exact ⟨xs, ys, rfl, rfl, congrFun hDenote⟩
      | _ => simp [denote] at hDenote
  | _ =>
      cases value' <;>
        simp_all [denote, IsScalar, kind]

theorem map_denote_eq_cases
    {first second : Option Value}
    (hMap : first.map denote = second.map denote) :
    (first = none ∧ second = none) ∨
      ∃ value value',
        first = some value ∧ second = some value' ∧
          denote value = denote value' := by
  cases first <;> cases second <;> simp_all

theorem descend_of_isScalar
    (token : Str)
    (change : Value → Option Value)
    {value : Value}
    (hScalar : value.IsScalar) :
    descend token change value = none := by
  cases value with
  | array xs => exact absurd rfl hScalar.1
  | object xs => exact absurd rfl hScalar.2
  | _ => rfl

theorem descend_alike
    (token : Str)
    {change change' : Value → Option Value}
    (hChange : Alike change change') :
    Alike (descend token change) (descend token change') := by
  intro value value' hDenote
  rcases denote_eq_cases hDenote with
    ⟨xs, ys, rfl, rfl, hMap⟩ |
      ⟨xs, ys, rfl, rfl, hLookup⟩ | ⟨hScalar, hScalar'⟩
  · cases hIndex : Pointer.arrayIndex? token with
    | none => simp [descend, hIndex]
    | some index =>
        have hGet :
            (xs[index]?).map denote =
              (ys[index]?).map denote := by
          simpa using congrArg (·[index]?) hMap
        rcases map_denote_eq_cases hGet with
          ⟨hX, hY⟩ | ⟨x, y, hX, hY, hSame⟩
        · simp [descend, hIndex, hX, hY]
        · rcases map_denote_eq_cases (hChange x y hSame) with
            ⟨hX', hY'⟩ | ⟨x', y', hX', hY', hSame'⟩
          · simp [descend, hIndex, hX, hY, hX', hY']
          · simp [descend, hIndex, hX, hY, hX', hY',
              denote_array, List.map_set, hMap, hSame']
  · rcases map_denote_eq_cases (hLookup token) with
      ⟨hX, hY⟩ | ⟨x, y, hX, hY, hSame⟩
    · simp [descend, hX, hY]
    · rcases map_denote_eq_cases (hChange x y hSame) with
        ⟨hX', hY'⟩ | ⟨x', y', hX', hY', hSame'⟩
      · simp [descend, hX, hY, hX', hY']
      · simp only [descend, hX, hY, hX', hY', denote_object,
          find_setMember, Option.bind_eq_bind,
          Option.bind_some, Option.map_some,
          Option.some.injEq, Document.object.injEq]
        funext key
        by_cases hKey : key = token <;>
          simp [hKey, hSame', hLookup]
  · rw [descend_of_isScalar token change hScalar,
      descend_of_isScalar token change' hScalar']

theorem modifyAt_alike
    (tokens : List Str)
    {change change' : Value → Option Value}
    (hChange : Alike change change') :
    Alike (modifyAt tokens change)
      (modifyAt tokens change') := by
  induction tokens with
  | nil => exact hChange
  | cons token tokens ih => exact descend_alike token ih

theorem addChild_alike
    (new : Value)
    (token : Str) :
    Alike (addChild new token) (addChild new token) := by
  intro value value' hDenote
  rcases denote_eq_cases hDenote with
    ⟨xs, ys, rfl, rfl, hMap⟩ |
      ⟨xs, ys, rfl, rfl, hLookup⟩ | ⟨hScalar, hScalar'⟩
  · have hLength : xs.length = ys.length := by
      simpa using congrArg List.length hMap
    by_cases hDash : token = ['-']
    · simp [addChild, hDash, denote_array, hMap]
    · cases hIndex : Pointer.arrayIndex? token with
      | none => simp [addChild, hDash, hIndex]
      | some index =>
          by_cases hBound : index ≤ ys.length <;>
            simp [addChild, hDash, hIndex, hLength, hBound,
              denote_array, List.map_insertIdx, hMap]
  · simp only [addChild, Option.map_some, denote_object,
      find_setMember, Option.some.injEq,
      Document.object.injEq]
    funext key
    by_cases hKey : key = token <;> simp [hKey, hLookup]
  · cases value <;> cases value' <;>
      simp_all [addChild, IsScalar, kind]

theorem removeChild_alike
    (token : Str) :
    Alike (removeChild token) (removeChild token) := by
  intro value value' hDenote
  rcases denote_eq_cases hDenote with
    ⟨xs, ys, rfl, rfl, hMap⟩ |
      ⟨xs, ys, rfl, rfl, hLookup⟩ | ⟨hScalar, hScalar'⟩
  · have hLength : xs.length = ys.length := by
      simpa using congrArg List.length hMap
    cases hIndex : Pointer.arrayIndex? token with
    | none => simp [removeChild, hIndex]
    | some index =>
        by_cases hBound : index < ys.length <;>
          simp [removeChild, hIndex, hLength, hBound,
            denote_array, ← List.eraseIdx_map, hMap]
  · have hKeys : token ∈ keys xs ↔ token ∈ keys ys := by
      have hNone :
          find xs token = none ↔ find ys token = none := by
        rw [← Option.map_eq_none_iff (f := denote),
          hLookup, Option.map_eq_none_iff]
      simpa [not_iff_not] using hNone
    by_cases hKey : token ∈ keys ys
    · simp only [removeChild, hKeys, hKey, if_true,
        Option.map_some, denote_object, find_eraseMember,
        Option.some.injEq, Document.object.injEq]
      funext key
      by_cases hSame : key = token <;>
        simp [hSame, hLookup]
    · simp [removeChild, hKeys, hKey]
  · cases value <;> cases value' <;>
      simp_all [removeChild, IsScalar, kind]

/- Changes below a parent act alike on equal documents. -/
theorem modifyParent_alike
    (tokens : List Str)
    {change : Str → Value → Option Value}
    (hChange :
      ∀ token, Alike (change token) (change token)) :
    Alike (modifyParent tokens change)
      (modifyParent tokens change) := by
  rcases List.eq_nil_or_concat tokens with
    rfl | ⟨init, last, rfl⟩
  · intro value value' _
    rfl
  · have hParent :
        modifyParent (init ++ [last]) change =
          modifyAt init (change last) := by
      funext value
      exact modifyParent_append_singleton init last change
        value
    rw [List.concat_eq_append, hParent]
    exact modifyAt_alike init (hChange last)

end Value

/- One operation acts alike on equal documents. -/
theorem Operation.apply_alike
    (operation : Operation) :
    Value.Alike operation.apply operation.apply := by
  cases operation with
  | add path value =>
      cases path with
      | nil =>
          intro _ _ _
          rfl
      | cons token path =>
          exact Value.modifyParent_alike (token :: path)
            (Value.addChild_alike value)
  | remove path =>
      exact Value.modifyParent_alike path
        Value.removeChild_alike
  | replace path value =>
      exact Value.modifyAt_alike path fun _ _ _ => rfl

/-
  Applying a patch to two values of one document fails for
  both or yields two values of one document.
-/
theorem applyPatch_alike
    (operations : List Value) :
    Value.Alike (applyPatch operations)
      (applyPatch operations) := by
  induction operations with
  | nil =>
      intro value value' hDenote
      simpa using hDenote
  | cons operation operations ih =>
      intro value value' hDenote
      rw [applyPatch_cons, applyPatch_cons]
      cases hDecode : Operation.ofValue? operation with
      | none => rfl
      | some decoded =>
          rcases Value.map_denote_eq_cases
              (decoded.apply_alike value value' hDenote) with
            ⟨hNone, hNone'⟩ | ⟨next, next', hNext, hNext',
              hSame⟩
          · simp [hNone, hNone']
          · simpa [hNext, hNext'] using
              ih next next' hSame

end Json

------------------------------------------------------------
-- Patches Keep Keys Unique
------------------------------------------------------------

namespace Json

theorem keys_setMember
    (key : Str)
    (new : Value)
    (members : Members) :
    keys (setMember key new members) =
      if key ∈ keys members then keys members
      else keys members ++ [key] := by
  induction members with
  | nil => simp [setMember]
  | cons member members ih =>
      rcases member with ⟨name, value⟩
      by_cases hName : name = key
      · simp [setMember, hName]
      · by_cases hKey : key ∈ keys members <;>
          simp [setMember, hName, Ne.symm hName, ih, hKey]

theorem mem_of_mem_setMember
    {key : Str}
    {new : Value}
    {members : Members}
    {m : Str × Value}
    (hMember : m ∈ setMember key new members) :
    m.2 = new ∨ m ∈ members := by
  induction members with
  | nil =>
      simp only [setMember, List.mem_singleton] at hMember
      simp [hMember]
  | cons member members ih =>
      rcases member with ⟨name, value⟩
      by_cases hName : name = key
      · simp only [setMember, hName, if_true,
          List.mem_cons] at hMember
        rcases hMember with rfl | hRest
        · simp
        · simp [hRest]
      · simp only [setMember, hName, if_false,
          List.mem_cons] at hMember
        rcases hMember with rfl | hRest
        · simp
        · rcases ih hRest with hNew | hOld
          · simp [hNew]
          · simp [hOld]

namespace Value

/- A change that keeps the keys of every object unique. -/
def KeepsUniqueKeys
    (change : Value → Option Value) : Prop :=
  ∀ value new, value.UniqueKeys →
    change value = some new → new.UniqueKeys

theorem uniqueKeys_setMember
    {members : Members}
    {key : Str}
    {new : Value}
    (hMembers : UniqueKeys (.object members))
    (hNew : new.UniqueKeys) :
    UniqueKeys (.object (setMember key new members)) := by
  rcases (keysSatisfy_object_iff members).mp hMembers with
    ⟨hNodup, hValues⟩
  apply (keysSatisfy_object_iff _).mpr
  constructor
  · rw [keys_setMember]
    split
    · exact hNodup
    · next hKey =>
      rw [List.nodup_append']
      simp [hNodup, hKey]
  · intro m hM
    rcases mem_of_mem_setMember hM with hValue | hOld
    · rw [hValue]
      exact hNew
    · exact hValues m hOld

theorem descend_keepsUniqueKeys
    (token : Str)
    {change : Value → Option Value}
    (hChange : KeepsUniqueKeys change) :
    KeepsUniqueKeys (descend token change) := by
  intro value new hValue hDescend
  cases value with
  | array xs =>
      simp only [descend, Option.bind_eq_bind,
        Option.bind_eq_some_iff] at hDescend
      rcases hDescend with
        ⟨index, _, old, hOld, child, hChild, hNew⟩
      cases hNew
      have hXs := (keysSatisfy_array_iff xs).mp hValue
      apply (keysSatisfy_array_iff _).mpr
      intro x hX
      rcases List.mem_or_eq_of_mem_set hX with hIn | rfl
      · exact hXs x hIn
      · exact hChange old x
          (hXs old (List.mem_of_getElem? hOld)) hChild
  | object xs =>
      simp only [descend, Option.bind_eq_bind,
        Option.bind_eq_some_iff] at hDescend
      rcases hDescend with ⟨old, hOld, child, hChild, hNew⟩
      cases hNew
      have hXs := (keysSatisfy_object_iff xs).mp hValue
      exact uniqueKeys_setMember hValue
        (hChange old child (hXs.2 _ (mem_of_find hOld))
          hChild)
  | _ => simp [descend] at hDescend

theorem modifyAt_keepsUniqueKeys
    (tokens : List Str)
    {change : Value → Option Value}
    (hChange : KeepsUniqueKeys change) :
    KeepsUniqueKeys (modifyAt tokens change) := by
  induction tokens with
  | nil => exact hChange
  | cons token tokens ih =>
      exact descend_keepsUniqueKeys token ih

theorem addChild_keepsUniqueKeys
    {new : Value}
    (hNew : new.UniqueKeys)
    (token : Str) :
    KeepsUniqueKeys (addChild new token) := by
  intro value result hValue hAdd
  cases value with
  | array xs =>
      have hXs := (keysSatisfy_array_iff xs).mp hValue
      by_cases hDash : token = ['-']
      · simp only [addChild, hDash, if_true,
          Option.some.injEq] at hAdd
        subst hAdd
        apply (keysSatisfy_array_iff _).mpr
        intro x hX
        rcases List.mem_append.mp hX with hOld | hLast
        · exact hXs x hOld
        · rw [List.mem_singleton.mp hLast]
          exact hNew
      · simp only [addChild, hDash, if_false,
          Option.bind_eq_bind, Option.bind_eq_some_iff]
          at hAdd
        rcases hAdd with ⟨index, _, hInsert⟩
        split at hInsert
        · next hBound =>
          cases hInsert
          apply (keysSatisfy_array_iff _).mpr
          intro x hX
          rcases (List.mem_insertIdx hBound).mp hX with
            rfl | hOld
          · exact hNew
          · exact hXs x hOld
        · simp at hInsert
  | object xs =>
      simp only [addChild, Option.some.injEq] at hAdd
      subst hAdd
      exact uniqueKeys_setMember hValue hNew
  | _ => simp [addChild] at hAdd

theorem removeChild_keepsUniqueKeys
    (token : Str) :
    KeepsUniqueKeys (removeChild token) := by
  intro value result hValue hRemove
  cases value with
  | array xs =>
      simp only [removeChild, Option.bind_eq_bind,
        Option.bind_eq_some_iff] at hRemove
      rcases hRemove with ⟨index, _, hErase⟩
      split at hErase
      · cases hErase
        have hXs := (keysSatisfy_array_iff xs).mp hValue
        apply (keysSatisfy_array_iff _).mpr
        intro x hX
        exact hXs x (List.mem_of_mem_eraseIdx hX)
      · simp at hErase
  | object xs =>
      simp only [removeChild] at hRemove
      split at hRemove
      · cases hRemove
        have hXs := (keysSatisfy_object_iff xs).mp hValue
        apply (keysSatisfy_object_iff _).mpr
        constructor
        · exact hXs.1.sublist
            (List.filter_sublist.map Prod.fst)
        · intro m hM
          exact hXs.2 m (List.mem_of_mem_filter hM)
      · simp at hRemove
  | _ => simp [removeChild] at hRemove

theorem modifyParent_keepsUniqueKeys
    (tokens : List Str)
    {change : Str → Value → Option Value}
    (hChange : ∀ token, KeepsUniqueKeys (change token)) :
    KeepsUniqueKeys (modifyParent tokens change) := by
  rcases List.eq_nil_or_concat tokens with
    rfl | ⟨init, last, rfl⟩
  · intro value new _ hNone
    simp [modifyParent] at hNone
  · intro value new hValue hModify
    rw [List.concat_eq_append,
      modifyParent_append_singleton] at hModify
    exact modifyAt_keepsUniqueKeys init (hChange last)
      value new hValue hModify

end Value

/- The value that an operation brings along, if any. -/
def Operation.value? : Operation → Option Value
  | .add _ value => some value
  | .remove _ => none
  | .replace _ value => some value

theorem Operation.apply_keepsUniqueKeys
    (operation : Operation)
    (hOperation :
      ∀ value ∈ operation.value?, value.UniqueKeys) :
    Value.KeepsUniqueKeys operation.apply := by
  cases operation with
  | add path value =>
      have hNew := hOperation value rfl
      cases path with
      | nil =>
          intro _ new _ hAdd
          cases hAdd
          exact hNew
      | cons token path =>
          exact Value.modifyParent_keepsUniqueKeys
            (token :: path)
            (Value.addChild_keepsUniqueKeys hNew)
  | remove path =>
      exact Value.modifyParent_keepsUniqueKeys path
        Value.removeChild_keepsUniqueKeys
  | replace path value =>
      apply Value.modifyAt_keepsUniqueKeys path
      intro _ new _ hReplace
      cases hReplace
      exact hOperation value rfl

/- Patches of operations with unique keys keep them unique. -/
theorem applyPatch_keepsUniqueKeys
    (operations : List Value)
    (hOperations :
      ∀ operation ∈ operations, ∀ decoded,
        Operation.ofValue? operation = some decoded →
          ∀ value ∈ decoded.value?, value.UniqueKeys) :
    Value.KeepsUniqueKeys (applyPatch operations) := by
  induction operations with
  | nil =>
      intro value new hValue hNil
      cases hNil
      exact hValue
  | cons operation operations ih =>
      intro value new hValue hPatch
      rw [applyPatch_cons] at hPatch
      rcases Option.bind_eq_some_iff.mp hPatch with
        ⟨next, hHead, hTail⟩
      rcases Option.bind_eq_some_iff.mp hHead with
        ⟨decoded, hDecode, hApply⟩
      have hNext :=
        decoded.apply_keepsUniqueKeys
          (hOperations operation (by simp) decoded hDecode)
          value next hValue hApply
      exact ih
        (fun op hOp => hOperations op (by simp [hOp]))
        next new hNext hTail

end Json
