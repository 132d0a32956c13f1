import Mathlib.Data.List.Infix
import Kedge.Library.Text

/-
  POSIX path names without symbolic links.

  A path is split at its separators. Empty and `.` names are
  dropped, and `..` cancels the name before it; at the root
  it is dropped and at the start of a relative path it is
  kept. What is left locates a file, from the root or from
  the working directory.

  Key definitions include:
    * `Posix.components`
    * `Posix.resolve`
    * `Posix.normalize`
    * `Posix.Location`

  Key theorems include:
    * `Posix.normalize_append_separator`
    * `Posix.prefix_resolveAll`
    * `Posix.getLast?_normalize`
-/

------------------------------------------------------------
-- Normalization
------------------------------------------------------------

namespace Posix

def separator : Char := '/'

def dot : Str := ['.']

def dotdot : Str := ['.', '.']

def isAbsolute (path : Str) : Bool :=
  path.head? = some separator

def components (path : Str) : List Str :=
  path.splitOn separator

/- One more component after the names found so far. -/
def resolve
    (absolute : Bool)
    (names : List Str)
    (component : Str) : List Str :=
  if component = [] ∨ component = dot then names
  else if component = dotdot then
    match names.getLast? with
    | none => if absolute then [] else [dotdot]
    | some last =>
        if last = dotdot then names ++ [dotdot]
        else names.dropLast
  else names ++ [component]

def resolveAll
    (absolute : Bool)
    (names : List Str)
    (rest : List Str) : List Str :=
  rest.foldl (resolve absolute) names

def normalize (path : Str) : List Str :=
  resolveAll (isAbsolute path) [] (components path)

/- The file that a path name stands for. -/
structure Location where
  absolute : Bool
  names : List Str
  deriving DecidableEq, Repr

def locate (path : Str) : Location where
  absolute := isAbsolute path
  names := normalize path

end Posix

------------------------------------------------------------
-- Appending to a Path
------------------------------------------------------------

namespace Posix

theorem components_append_separator
    (path rest : Str) :
    components (path ++ separator :: rest) =
      components path ++ components rest := by
  unfold components
  rw [List.splitOn_append_cons_self]

theorem components_of_not_mem
    {name : Str}
    (hName : separator ∉ name) :
    components name = [name] := by
  unfold components
  exact List.splitOn_eq_singleton hName

theorem isAbsolute_append
    {path : Str}
    (hPath : path ≠ [])
    (rest : Str) :
    isAbsolute (path ++ rest) = isAbsolute path := by
  cases path with
  | nil => exact absurd rfl hPath
  | cons c path => rfl

theorem resolveAll_append
    (absolute : Bool)
    (names first second : List Str) :
    resolveAll absolute names (first ++ second) =
      resolveAll absolute (resolveAll absolute names first)
        second := by
  unfold resolveAll
  exact List.foldl_append

/- What stands behind a separator is resolved in its place. -/
theorem normalize_append_separator
    {path : Str}
    (hPath : path ≠ [])
    (rest : Str) :
    normalize (path ++ separator :: rest) =
      resolveAll (isAbsolute path) (normalize path)
        (components rest) := by
  unfold normalize
  rw [isAbsolute_append hPath, components_append_separator,
    resolveAll_append]

/- Without `..` no name is taken back. -/
theorem prefix_resolveAll
    {rest : List Str}
    (hRest : dotdot ∉ rest)
    (absolute : Bool)
    (names : List Str) :
    names <+: resolveAll absolute names rest := by
  induction rest generalizing names with
  | nil => exact List.prefix_rfl
  | cons component rest ih =>
      have hNext : dotdot ∉ rest :=
        List.not_mem_of_not_mem_cons hRest
      have hHead : component ≠ dotdot :=
        (List.ne_of_not_mem_cons hRest).symm
      have hStep :
          names <+: resolve absolute names component := by
        unfold resolve
        rw [if_neg hHead]
        split
        · exact List.prefix_rfl
        · exact List.prefix_append names [component]
      exact hStep.trans (ih hNext _)

/- The first component starts the path. -/
theorem exists_components_eq_cons
    (path : Str) :
    ∃ first rest,
      components path = first :: rest ∧
        first <+: path ∧
        ∀ component ∈ rest, component <:+: path := by
  induction path with
  | nil => exact ⟨[], [], rfl, List.prefix_rfl, by simp⟩
  | cons c path ih =>
      rcases ih with ⟨first, rest, hSplit, hFirst, hRest⟩
      unfold components at hSplit ⊢
      rw [List.splitOn_cons_eq_if_modifyHead, hSplit]
      split
      · refine ⟨[], first :: rest, rfl, List.nil_prefix, ?_⟩
        intro component hMember
        apply List.infix_cons
        rcases List.mem_cons.mp hMember with rfl | hLater
        · exact hFirst.isInfix
        · exact hRest component hLater
      · refine ⟨c :: first, rest, rfl, ?_, ?_⟩
        · rw [List.cons_prefix_cons]
          exact ⟨rfl, hFirst⟩
        · intro component hMember
          exact List.infix_cons (hRest component hMember)

/- Every component is a part of the path. -/
theorem infix_of_mem_components
    {component path : Str}
    (hMember : component ∈ components path) :
    component <:+: path := by
  rcases exists_components_eq_cons path with
    ⟨first, rest, hSplit, hFirst, hRest⟩
  rw [hSplit, List.mem_cons] at hMember
  rcases hMember with rfl | hLater
  · exact hFirst.isInfix
  · exact hRest component hLater

end Posix

------------------------------------------------------------
-- The Last Name of a Path
------------------------------------------------------------

namespace Posix

/- A name that normalization keeps as it is. -/
def IsName (name : Str) : Prop :=
  name ≠ [] ∧ name ≠ dot ∧ name ≠ dotdot ∧
    separator ∉ name

instance (name : Str) : Decidable (IsName name) :=
  inferInstanceAs
    (Decidable
      (name ≠ [] ∧ name ≠ dot ∧ name ≠ dotdot ∧
        separator ∉ name))

/- Long enough not to be empty, `.` or `..`. -/
theorem isName_of_length
    {name : Str}
    (hLength : 2 < name.length)
    (hSeparator : separator ∉ name) :
    IsName name := by
  refine ⟨?_, ?_, ?_, hSeparator⟩ <;>
    rintro rfl <;>
      exact absurd hLength (by decide)

theorem resolve_of_isName
    {name : Str}
    (hName : IsName name)
    (absolute : Bool)
    (names : List Str) :
    resolve absolute names name = names ++ [name] := by
  rcases hName with ⟨hNil, hDot, hDotdot, _⟩
  unfold resolve
  rw [if_neg (by simp [hNil, hDot]), if_neg hDotdot]

/- Every path ends in a component without separators. -/
theorem exists_last_component
    (path : Str) :
    ∃ last,
      separator ∉ last ∧
        (path = last ∨
          ∃ directory,
            path = directory ++ separator :: last) := by
  induction path with
  | nil => exact ⟨[], by simp, Or.inl rfl⟩
  | cons c path ih =>
      rcases ih with ⟨last, hLast, rfl | ⟨directory, rfl⟩⟩
      · by_cases hC : c = separator
        · exact ⟨path, hLast, Or.inr ⟨[], by simp [hC]⟩⟩
        · refine ⟨c :: path, ?_, Or.inl rfl⟩
          rw [List.mem_cons]
          rintro (hEq | hMember)
          · exact hC hEq.symm
          · exact hLast hMember
      · exact ⟨last, hLast, Or.inr ⟨c :: directory, rfl⟩⟩

/- A path that ends in a name locates a file of that name. -/
theorem getLast?_normalize
    {name : Str}
    (hName : IsName name)
    {path : Str}
    (hPath :
      path = name ∨
        ∃ directory, path = directory ++ separator :: name) :
    (normalize path).getLast? = some name := by
  have hSplit :
      ∃ before, components path = before ++ [name] := by
    rcases hPath with rfl | ⟨directory, rfl⟩
    · exact ⟨[], components_of_not_mem hName.2.2.2⟩
    · refine ⟨components directory, ?_⟩
      rw [components_append_separator,
        components_of_not_mem hName.2.2.2]
  rcases hSplit with ⟨before, hComponents⟩
  unfold normalize
  rw [hComponents, resolveAll_append]
  have hLast :
      ∀ names,
        resolveAll (isAbsolute path) names [name] =
          names ++ [name] :=
    resolve_of_isName hName (isAbsolute path)
  rw [hLast]
  exact List.getLast?_concat

end Posix
