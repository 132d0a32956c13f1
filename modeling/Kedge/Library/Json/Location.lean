import Kedge.Library.Json.Patch

/-
  Locations in a JSON value.

  `resolve` evaluates the reference tokens of a pointer as
  RFC 6901 does, where a token is a key or an index by the
  container it is applied to. A position says which of the
  two every step is. An operation that is applied without a
  failure names a location that the document has.

  Key definitions include:
    * `Json.Value.resolve`
    * `Json.Operation.Applicable`
    * `Json.Step`
    * `Json.Value.at?`
    * `Json.Value.Fits`

  Key theorems include:
    * `Json.Operation.applicable_of_apply`
    * `Json.Value.Fits.eq_of_tokens_eq`
    * `Json.Pointer.parse_spell_iff`
-/

------------------------------------------------------------
-- Evaluating Pointers
------------------------------------------------------------

namespace Json

namespace Value

/- The child of a container that a token addresses. -/
def child? (token : Str) : Value → Option Value
  | .array elements => do
      let index ← Pointer.arrayIndex? token
      elements[index]?
  | .object members => find members token
  | _ => none

/- The value that a list of tokens addresses. -/
def resolve : List Str → Value → Option Value
  | [], value => some value
  | token :: tokens, value => do
      let child ← value.child? token
      resolve tokens child

theorem resolve_cons
    (token : Str)
    (tokens : List Str)
    (value : Value) :
    value.resolve (token :: tokens) =
      (value.child? token).bind (resolve tokens) := rfl

theorem resolve_singleton
    (token : Str)
    (value : Value) :
    value.resolve [token] = value.child? token :=
  Option.bind_fun_some _

theorem resolve_append_singleton
    (tokens : List Str)
    (token : Str)
    (value : Value) :
    value.resolve (tokens ++ [token]) =
      (value.resolve tokens).bind (child? token) := by
  induction tokens generalizing value with
  | nil => exact resolve_singleton token value
  | cons first tokens hRest =>
      rw [List.cons_append, resolve_cons, resolve_cons,
        Option.bind_assoc]
      exact congrArg _ (funext hRest)

end Value

end Json

------------------------------------------------------------
-- Applicable Operations
------------------------------------------------------------

namespace Json

namespace Value

/- The containers with room for a child under the token. -/
def Accepts (token : Str) : Value → Prop
  | .array elements =>
      token = ['-'] ∨
        ∃ index,
          Pointer.arrayIndex? token = some index ∧
            index ≤ elements.length
  | .object _ => True
  | _ => False

end Value

/-
  What RFC 6902 asks of the document: the location that is
  removed or replaced exists, and what is added to exists
  and is a container of the right kind.
-/
def Operation.Applicable :
    Operation → Value → Prop
  | .replace path _, document =>
      (document.resolve path).isSome
  | .remove path, document =>
      (document.resolve path).isSome
  | .add path _, document =>
      path = [] ∨
        ∃ parent token container,
          path = parent ++ [token] ∧
            document.resolve parent = some container ∧
            container.Accepts token

namespace Value

theorem child?_of_descend
    {token : Str}
    {change : Value → Option Value}
    {value result : Value}
    (hDescend : descend token change value = some result) :
    ∃ old new,
      value.child? token = some old ∧
        change old = some new := by
  cases value with
  | array elements =>
      rcases Option.bind_eq_some_iff.mp hDescend with
        ⟨index, hIndex, hElement⟩
      rcases Option.bind_eq_some_iff.mp hElement with
        ⟨old, hOld, hChange⟩
      rcases Option.bind_eq_some_iff.mp hChange with
        ⟨new, hNew, _⟩
      refine ⟨old, new, ?_, hNew⟩
      exact Option.bind_eq_some_iff.mpr ⟨index, hIndex, hOld⟩
  | object members =>
      rcases Option.bind_eq_some_iff.mp hDescend with
        ⟨old, hOld, hChange⟩
      rcases Option.bind_eq_some_iff.mp hChange with
        ⟨new, hNew, _⟩
      exact ⟨old, new, hOld, hNew⟩
  | _ => cases hDescend

theorem resolve_of_modifyAt
    {tokens : List Str}
    {change : Value → Option Value}
    {value result : Value}
    (hModify : modifyAt tokens change value = some result) :
    (value.resolve tokens).isSome := by
  induction tokens generalizing value result with
  | nil => rfl
  | cons token tokens hRest =>
      rcases child?_of_descend hModify with
        ⟨old, new, hChild, hNew⟩
      rw [resolve_cons, hChild]
      exact hRest hNew

theorem resolve_of_modifyParent
    {tokens : List Str}
    {change : Str → Value → Option Value}
    {value result : Value}
    (hModify :
      modifyParent tokens change value = some result) :
    ∃ parent token container new,
      tokens = parent ++ [token] ∧
        value.resolve parent = some container ∧
        change token container = some new := by
  induction tokens generalizing value result with
  | nil => cases hModify
  | cons token tokens hRest =>
      cases tokens with
      | nil => exact ⟨[], token, value, result, rfl, rfl, hModify⟩
      | cons next tokens =>
          rcases child?_of_descend hModify with
            ⟨old, new, hChild, hNew⟩
          rcases hRest hNew with
            ⟨parent, last, container, made, hTokens, hParent,
              hMade⟩
          refine ⟨token :: parent, last, container, made,
            ?_, ?_, hMade⟩
          · rw [hTokens, List.cons_append]
          · rw [resolve_cons, hChild]
            exact hParent

theorem accepts_of_addChild
    {new container result : Value}
    {token : Str}
    (hAdd : addChild new token container = some result) :
    container.Accepts token := by
  cases container with
  | array elements =>
      by_cases hDash : token = ['-']
      · exact Or.inl hDash
      · simp only [addChild, if_neg hDash] at hAdd
        rcases Option.bind_eq_some_iff.mp hAdd with
          ⟨index, hIndex, hInsert⟩
        have hLe :=
          (Option.ite_none_right_eq_some.mp hInsert).1
        exact Or.inr ⟨index, hIndex, hLe⟩
  | object members => trivial
  | _ => cases hAdd

theorem child?_of_removeChild
    {container result : Value}
    {token : Str}
    (hRemove : removeChild token container = some result) :
    (container.child? token).isSome := by
  cases container with
  | array elements =>
      rcases Option.bind_eq_some_iff.mp hRemove with
        ⟨index, hIndex, hErase⟩
      have hLt := (Option.ite_none_right_eq_some.mp hErase).1
      have hChild :
          child? token (.array elements) =
            elements[index]? := by
        simp [child?, hIndex]
      rw [hChild, List.getElem?_eq_getElem hLt]
      rfl
  | object members =>
      have hKey := (Option.ite_none_right_eq_some.mp hRemove).1
      rw [child?, Option.isSome_iff_ne_none, ne_eq,
        find_eq_none_iff, not_not]
      exact hKey
  | _ => cases hRemove

end Value

/- An operation that succeeds was applicable. -/
theorem Operation.applicable_of_apply
    {operation : Operation}
    {document result : Value}
    (hApply : operation.apply document = some result) :
    operation.Applicable document := by
  cases operation with
  | add path value =>
      cases path with
      | nil => exact Or.inl rfl
      | cons token tokens =>
          rcases Value.resolve_of_modifyParent hApply with
            ⟨parent, last, container, new, hPath, hParent,
              hNew⟩
          exact Or.inr ⟨parent, last, container, hPath,
            hParent, Value.accepts_of_addChild hNew⟩
  | remove path =>
      rcases Value.resolve_of_modifyParent hApply with
        ⟨parent, last, container, new, rfl, hParent, hNew⟩
      rw [Applicable, Value.resolve_append_singleton, hParent]
      exact Value.child?_of_removeChild hNew
  | replace path value =>
      exact Value.resolve_of_modifyAt hApply

/-
  When a patch succeeds, every operation of it meets the
  document that the operations before it have made, and is
  applicable there.
-/
theorem applicable_of_applyPatch
    {earlier later : List Value}
    {operation document result : Value}
    (hPatch :
      applyPatch (earlier ++ operation :: later) document =
        some result) :
    ∃ current decoded,
      applyPatch earlier document = some current ∧
        Operation.ofValue? operation = some decoded ∧
        decoded.Applicable current := by
  rw [applyPatch_append] at hPatch
  rcases Option.bind_eq_some_iff.mp hPatch with
    ⟨current, hCurrent, hRest⟩
  rcases Option.bind_eq_some_iff.mp hRest with
    ⟨decoded, hDecoded, hApply⟩
  rcases Option.bind_eq_some_iff.mp hApply with
    ⟨next, hNext, _⟩
  exact ⟨current, decoded, hCurrent, hDecoded,
    Operation.applicable_of_apply hNext⟩

end Json

------------------------------------------------------------
-- Positions
------------------------------------------------------------

namespace Json

/- From a container to a child, or behind its elements. -/
inductive Step where
  | key (name : Str)
  | index (i : Nat)
  | append
  deriving DecidableEq, Repr

/- The keys and indices that lead to a place. -/
abbrev Position :=
  List Step

namespace Step

def token : Step → Str
  | .key name => name
  | .index i => Text.decimal i
  | .append => ['-']

end Step

/- The reference tokens of a position. -/
def tokens (position : Position) : List Str :=
  position.map Step.token

@[simp] theorem tokens_nil : tokens [] = [] := rfl

@[simp] theorem tokens_cons
    (step : Step)
    (position : Position) :
    tokens (step :: position) =
      step.token :: tokens position := rfl

namespace Value

/- A step is taken only from a container of its kind. -/
def take? : Step → Value → Option Value
  | .key name, .object members => find members name
  | .index i, .array elements => elements[i]?
  | _, _ => none

/- The value at a position. -/
def at? : Position → Value → Option Value
  | [], value => some value
  | step :: position, value => do
      let child ← value.take? step
      at? position child

theorem at?_cons_eq_some_iff
    {step : Step}
    {position : Position}
    {value found : Value} :
    value.at? (step :: position) = some found ↔
      ∃ child,
        value.take? step = some child ∧
          child.at? position = some found :=
  Option.bind_eq_some_iff

/- A key leads out of an object and an index of an array. -/
theorem take?_eq_some_iff
    {step : Step}
    {value child : Value} :
    value.take? step = some child ↔
      (∃ name members,
        step = .key name ∧ value = .object members ∧
          find members name = some child) ∨
      ∃ i elements,
        step = .index i ∧ value = .array elements ∧
          elements[i]? = some child := by
  constructor
  · intro hTake
    cases step with
    | key name =>
        cases value with
        | object members =>
            exact Or.inl ⟨name, members, rfl, rfl, hTake⟩
        | _ => cases hTake
    | index i =>
        cases value with
        | array elements =>
            exact Or.inr ⟨i, elements, rfl, rfl, hTake⟩
        | _ => cases hTake
    | append => cases value <;> cases hTake
  · rintro (⟨name, members, rfl, rfl, hFind⟩ |
      ⟨i, elements, rfl, rfl, hElement⟩)
    · exact hFind
    · exact hElement

/- The token of a step leads where the step leads. -/
theorem child?_of_take?
    {step : Step}
    {value child : Value}
    (hTake : value.take? step = some child) :
    value.child? step.token = some child := by
  rcases take?_eq_some_iff.mp hTake with
    ⟨name, members, rfl, rfl, hFind⟩ |
    ⟨i, elements, rfl, rfl, hElement⟩
  · exact hFind
  · rw [Step.token, child?, Pointer.arrayIndex?_decimal]
    exact hElement

end Value

end Json

------------------------------------------------------------
-- Positions with the Same Tokens
------------------------------------------------------------

namespace Json

namespace Value

/- The steps of a container of this kind. -/
def Suits : Step → Value → Prop
  | .key _, .object _ => True
  | .index _, .array _ => True
  | .append, .array _ => True
  | _, _ => False

/-
  The steps are of the kinds of the containers they leave,
  and at most the last one leads to nothing.
-/
def Fits : Position → Value → Prop
  | [], _ => True
  | step :: rest, value =>
      Suits step value ∧
        match value.take? step with
        | some child => Fits rest child
        | none => rest = []

theorem suits_of_take?
    {value child : Value}
    {step : Step}
    (hTake : value.take? step = some child) :
    Suits step value := by
  rcases take?_eq_some_iff.mp hTake with
    ⟨name, members, rfl, rfl, _⟩ | ⟨i, elements, rfl, rfl, _⟩
  · trivial
  · trivial

theorem fits_singleton
    {value : Value}
    {step : Step}
    (hSuits : Suits step value) :
    Fits [step] value := by
  refine ⟨hSuits, ?_⟩
  cases value.take? step with
  | none => rfl
  | some child => trivial

theorem decimal_injective : Function.Injective Text.decimal := by
  intro i j hEq
  have hIndex := Pointer.arrayIndex?_decimal i
  rw [hEq, Pointer.arrayIndex?_decimal] at hIndex
  exact (Option.some.inj hIndex).symm

theorem decimal_ne_dash
    (i : Nat) :
    Text.decimal i ≠ ['-'] := by
  intro hEq
  have hIn : '-' ∈ Text.decimal i := by
    rw [hEq]
    exact List.mem_singleton_self _
  exact Text.not_mem_decimal (by decide) i hIn

/- A container has one kind of steps, and `-` is no index. -/
theorem Suits.eq_of_token_eq
    {value : Value}
    {step other : Step}
    (hStep : Suits step value)
    (hOther : Suits other value)
    (hToken : step.token = other.token) :
    step = other := by
  cases value with
  | array elements =>
      cases step with
      | key name => exact hStep.elim
      | index i =>
          cases other with
          | key name => exact hOther.elim
          | index j => rw [decimal_injective hToken]
          | append => exact absurd hToken (decimal_ne_dash i)
      | append =>
          cases other with
          | key name => exact hOther.elim
          | index j =>
              exact absurd hToken.symm (decimal_ne_dash j)
          | append => rfl
  | object members =>
      cases step with
      | key name =>
          cases other with
          | key other => exact congrArg _ hToken
          | _ => exact hOther.elim
      | _ => exact hStep.elim
  | _ => cases step <;> exact hStep.elim

/- In one value the tokens tell which steps they are. -/
theorem Fits.eq_of_tokens_eq
    {value : Value}
    {first second : Position}
    (hFirst : Fits first value)
    (hSecond : Fits second value)
    (hTokens : tokens first = tokens second) :
    first = second := by
  induction first generalizing second value with
  | nil =>
      cases second with
      | nil => rfl
      | cons step second => cases hTokens
  | cons step first hRest =>
      cases second with
      | nil => cases hTokens
      | cons other second =>
          rw [tokens_cons, tokens_cons, List.cons.injEq]
            at hTokens
          rcases hTokens with ⟨hToken, hTail⟩
          rcases hFirst with ⟨hStep, hFirst⟩
          rcases hSecond with ⟨hOther, hSecond⟩
          have hSame := hStep.eq_of_token_eq hOther hToken
          subst hSame
          cases hTake : value.take? step with
          | none =>
              rw [hTake] at hFirst hSecond
              rw [hFirst, hSecond]
          | some child =>
              rw [hTake] at hFirst hSecond
              rw [hRest hFirst hSecond hTail]

end Value

end Json

------------------------------------------------------------
-- Tokens That Need Escapes
------------------------------------------------------------

namespace Json

namespace Pointer

/- Every `~` that is decoded costs a character. -/
theorem length_of_unescape
    {token decoded : Str}
    (hDecode : unescape token = some decoded) :
    decoded.length + token.count '~' = token.length := by
  induction token using unescape.induct
      generalizing decoded with
  | case1 =>
      cases hDecode
      rfl
  | case2 rest hRest =>
      rcases Option.map_eq_some_iff.mp hDecode with
        ⟨tail, hTail, rfl⟩
      have hLength := hRest hTail
      simp
      omega
  | case3 rest hRest =>
      rcases Option.map_eq_some_iff.mp hDecode with
        ⟨tail, hTail, rfl⟩
      have hLength := hRest hTail
      simp
      omega
  | case4 rest hZero hOne =>
      rw [unescape] at hDecode
      · cases hDecode
      · exact hZero
      · exact hOne
  | case5 c rest hZero hOne hTilde hRest =>
      rw [unescape.eq_5 c rest hZero hOne hTilde] at hDecode
      rcases Option.map_eq_some_iff.mp hDecode with
        ⟨tail, hTail, rfl⟩
      have hLength := hRest hTail
      rw [List.count_cons_of_ne hTilde, List.length_cons,
        List.length_cons]
      omega

/- A token that decodes to itself has no escapes. -/
theorem no_tilde_of_unescape
    {token : Str}
    (hDecode : unescape token = some token) :
    '~' ∉ token := by
  have hLength := length_of_unescape hDecode
  rw [← List.count_eq_zero]
  omega

theorem forall₂_of_mapM
    {pieces decoded : List Str}
    (hDecode : pieces.mapM unescape = some decoded) :
    List.Forall₂ (fun piece token =>
      unescape piece = some token) pieces decoded := by
  induction pieces generalizing decoded with
  | nil =>
      cases hDecode
      exact .nil
  | cons piece pieces hRest =>
      rw [List.mapM_cons] at hDecode
      rcases Option.bind_eq_some_iff.mp hDecode with
        ⟨token, hToken, hOthers⟩
      rcases Option.bind_eq_some_iff.mp hOthers with
        ⟨others, hMap, hCons⟩
      cases hCons
      exact .cons hToken (hRest hMap)

theorem length_splitOn
    (s : Str) :
    (s.splitOn '/').length = s.count '/' + 1 := by
  induction s with
  | nil => rfl
  | cons c s hRest =>
      rw [List.splitOn_cons_eq_if_modifyHead]
      by_cases hSlash : c = '/'
      · simp [hSlash, hRest]
      · simp [hSlash, hRest]

theorem count_spell
    (tokens : List Str) :
    (spell tokens).count '/' =
      tokens.length + tokens.flatten.count '/' := by
  induction tokens with
  | nil => rfl
  | cons token tokens hRest =>
      have hSpell :
          spell (token :: tokens) =
            '/' :: (token ++ spell tokens) := by
        simp [spell]
      rw [hSpell, List.count_cons_self, List.count_append,
        hRest, List.flatten_cons, List.count_append,
        List.length_cons]
      omega

/-
  Tokens that are written as they are can be read back
  exactly when none of them needs an escape.
-/
theorem parse_spell_iff
    (tokens : List Str) :
    parse (spell tokens) = some tokens ↔
      ∀ t ∈ tokens, Value.PlainKey t := by
  constructor
  · intro hParse
    cases tokens with
    | nil => simp
    | cons token rest =>
        have hSpell :
            spell (token :: rest) =
              '/' :: (token ++ spell rest) := by
          simp [spell]
        rw [hSpell, parse] at hParse
        have hPieces := forall₂_of_mapM hParse
        -- As many pieces as tokens leave no other separator.
        have hSlash :
            (token :: rest).flatten.count '/' = 0 := by
          have hLength := hPieces.length_eq
          rw [length_splitOn, List.count_append,
            count_spell, List.length_cons] at hLength
          rw [List.flatten_cons, List.count_append]
          omega
        have hNone :
            ∀ t ∈ token :: rest, '/' ∉ t := by
          intro t hT hIn
          exact List.count_eq_zero.mp hSlash
            (List.mem_flatten.mpr ⟨t, hT, hIn⟩)
        rw [splitOn_spell token rest
          (hNone token List.mem_cons_self)
          (fun t hT => hNone t (List.mem_cons_of_mem _ hT))]
          at hPieces
        intro t hT
        refine ⟨hNone t hT, ?_⟩
        rcases List.getElem_of_mem hT with ⟨i, hI, rfl⟩
        exact no_tilde_of_unescape (hPieces.get hI hI)
  · exact parse_spell tokens

end Pointer

end Json
