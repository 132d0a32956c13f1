import Kedge.Files.Util
import Kedge.Http.Dispatch

/-
  Static files: the part of `handle_request`
  (`src/http_session.cpp`) up to the opening of a file.

  A target is refused unless it starts with `/` and does not
  contain `..`. The path is the target behind the web UI
  root, with `index.html` for a directory. Because the
  target starts with a separator its components follow those
  of the root, and none of them is `..`.

  Key definitions include:
    * `legalTarget`
    * `openedPath`
    * `handleRequest`

  Correctness is proven by:
    * `opened_path_confined`
-/

------------------------------------------------------------
-- Requests for Files
------------------------------------------------------------

namespace Kedge

namespace Http

/-
  How a request ends: refused with a text, answered by an
  API handler, or with the file to open.
-/
inductive Reply where
  | badRequest (why : Str)
  | handled (handler : Handler)
  | opened (path : Str)
  deriving DecidableEq, Repr

/- The target is absolute and does not contain `..`. -/
def legalTarget (target : Str) : Bool :=
  target.head? = some '/' ∧
    Text.find Posix.dotdot target = none

def indexFile : Str := "index.html".toList

/- The path of the requested file. -/
def openedPath (uiRoot target : Str) : Str :=
  let path := pathCat uiRoot target
  if target.getLast? = some '/' then path ++ indexFile
  else path

/- `handle_request`. -/
def handleRequest
    (uiRoot : Str)
    (req : Request) : Except Error Reply :=
  if legalTarget req.target = false then
    .ok (.badRequest "Illegal request-target".toList)
  else
    match sbCall req with
    | .error error => .error error
    | .ok (some handler) => .ok (.handled handler)
    | .ok none => .ok (.opened (openedPath uiRoot req.target))

end Http

end Kedge

------------------------------------------------------------
-- Confinement
------------------------------------------------------------

namespace Kedge

namespace Http

/- A legal target is a separator and a rest without `..`. -/
theorem exists_rest_of_legalTarget
    {target : Str}
    (hLegal : legalTarget target = true) :
    ∃ rest,
      target = Posix.separator :: rest ∧
        ¬ Posix.dotdot <:+: rest := by
  unfold legalTarget at hLegal
  rw [decide_eq_true_eq] at hLegal
  rcases hLegal with ⟨hHead, hFind⟩
  rw [Text.find_eq_none_iff] at hFind
  cases target with
  | nil => cases hHead
  | cons c rest =>
      cases hHead
      exact ⟨rest, rfl, fun hIn => hFind (List.infix_cons hIn)⟩

/- The components behind the root, with the index file. -/
theorem exists_openedPath_eq
    {target : Str}
    (hLegal : legalTarget target = true)
    (uiRoot : Str) :
    ∃ rest,
      openedPath uiRoot target =
          uiRoot ++ Posix.separator :: rest ∧
        Posix.dotdot ∉ Posix.components rest := by
  rcases exists_rest_of_legalTarget hLegal with
    ⟨rest, rfl, hSafe⟩
  have hNone : Posix.dotdot ∉ Posix.components rest :=
    fun hIn => hSafe (Posix.infix_of_mem_components hIn)
  unfold openedPath
  split
  · next hDirectory =>
    refine ⟨rest ++ indexFile, by simp [pathCat], ?_⟩
    rcases List.eq_nil_or_concat' rest with
      rfl | ⟨directory, last, rfl⟩
    · decide
    · rw [← List.cons_append, List.getLast?_concat,
        Option.some.injEq] at hDirectory
      have hLast : last = Posix.separator := hDirectory
      subst hLast
      rw [Posix.components_append_separator,
        List.mem_append, not_or] at hNone
      rw [List.append_assoc, List.singleton_append,
        Posix.components_append_separator, List.mem_append,
        not_or]
      exact ⟨hNone.1, by decide⟩
  · exact ⟨rest, rfl, hNone⟩

/-
  Whatever the target, the file that is opened lies below
  the root: the normalized names of the root start those of
  the path.
-/
theorem opened_path_confined
    (uiRoot : Str)
    (hRoot : uiRoot ≠ [])
    (target : Str)
    (hLegal : legalTarget target = true) :
    (Posix.locate (openedPath uiRoot target)).absolute =
        (Posix.locate uiRoot).absolute ∧
      (Posix.locate uiRoot).names <+:
        (Posix.locate (openedPath uiRoot target)).names := by
  rcases exists_openedPath_eq hLegal uiRoot with
    ⟨rest, hPath, hSafe⟩
  rw [hPath]
  refine ⟨Posix.isAbsolute_append hRoot _, ?_⟩
  change
    Posix.normalize uiRoot <+:
      Posix.normalize (uiRoot ++ Posix.separator :: rest)
  rw [Posix.normalize_append_separator hRoot]
  exact Posix.prefix_resolveAll hSafe _ _

theorem opened_path_confined_index :
    legalTarget "/docs/".toList = true ∧
      Posix.normalize "/srv/../www/./ui/".toList <+:
        Posix.normalize
          (openedPath "/srv/../www/./ui/".toList
            "/docs/".toList) := by
  refine ⟨by decide, ?_⟩
  exact
    (opened_path_confined "/srv/../www/./ui/".toList
      (by decide) "/docs/".toList (by decide)).2

end Http

end Kedge
