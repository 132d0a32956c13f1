import Mathlib.Data.List.Nodup
import Kedge.Library.Run
import Kedge.Library.Text

/-
  Options of a program, from several sources.

  Options are described by a name, a validation, perhaps a
  default and perhaps a variable that they are bound to.
  `Library` is the interface of a library for them in the
  manner of `boost::program_options`: parsed sources are
  stored one after the other, and notifying writes the
  stored values into the bound variables. What its
  documentation promises is `Library.Documented`; `plain` is
  a small library that keeps these promises.

  The value an option should have is `effective`. It is the
  value found in the member that the option is bound to; a
  member that no option writes is left as it was.

  Key definitions include:
    * `Description`
    * `Library`
    * `Library.Documented`
    * `effective`
    * `plain`

  Main theorems include:
    * `effective_notify`
    * `notify_of_leaves`
    * `plain_documented`
-/

------------------------------------------------------------
-- The Interface
------------------------------------------------------------

namespace ProgramOptions

variable {ν τ : Type}

/-
  An option with values in `ν`, bound to a variable that is
  a part of `τ`. The validation fails where the library
  throws; its argument are the tokens that belong to one
  occurrence of the option.
-/
structure Description (ν τ : Type) where
  name : Str
  short : Option Char
  validate : List Str → Option ν
  defaultValue : Option ν
  bound : Option (ν → τ → τ)

/- `options_description`. -/
structure Configuration (ν τ : Type) where
  options : List (Description ν τ)
  distinct : (options.map (·.name)).Nodup

/- `parsed_options`: names and tokens. -/
abbrev Parsed := List (Str × List Str)

/- `variable_value`. -/
structure VariableValue (ν : Type) where
  value : ν
  defaulted : Bool
  deriving DecidableEq

/-
  The functions of the library. Parsing the command line and
  storing fail where they throw.
-/
structure Library (ν τ : Type) where
  VariablesMap : Type
  empty : VariablesMap
  find : VariablesMap → Str → Option (VariableValue ν)
  parseCommandLine :
    Configuration ν τ → List Str → Option Parsed
  parseEnvironment :
    (Str → Str) → List (Str × Str) → Parsed
  store :
    Configuration ν τ → VariablesMap → Parsed →
      Option VariablesMap
  notify : VariablesMap → τ → τ

/-
  The variables of an environment under the names they are
  mapped to. A variable without a name is skipped.
-/
def fromEnvironment
    (mapper : Str → Str)
    (environ : List (Str × Str)) : Parsed :=
  (environ.map fun entry =>
    (mapper entry.1, [entry.2])).filter (·.1 ≠ [])

/- Write the value of one option into its variable. -/
def write
    (find : Str → Option (VariableValue ν))
    (target : τ)
    (d : Description ν τ) : τ :=
  match d.bound, find d.name with
  | some bound, some stored => bound stored.value target
  | _, _ => target

/-
  The documentation of the library. An option that has been
  stored explicitly keeps its value; one that is given gets
  the value its tokens are validated to; for the others the
  default is stored. Notifying writes the variables that are
  bound, in some order, and nothing else.
-/
structure Library.Documented
    (P : Library ν τ) : Prop where
  empty : ∀ name, P.find P.empty name = none
  environment :
    ∀ mapper environ,
      P.parseEnvironment mapper environ =
        fromEnvironment mapper environ
  kept :
    ∀ config vm parsed next,
      P.store config vm parsed = some next →
      ∀ d ∈ config.options, ∀ v,
        P.find vm d.name = some ⟨v, false⟩ →
          P.find next d.name = some ⟨v, false⟩
  stored :
    ∀ config vm parsed next,
      P.store config vm parsed = some next →
      ∀ d ∈ config.options,
        (∀ v, P.find vm d.name ≠ some ⟨v, false⟩) →
        ∀ tokens, (d.name, tokens) ∈ parsed →
          ∃ v, d.validate tokens = some v ∧
            P.find next d.name = some ⟨v, false⟩
  defaults :
    ∀ config vm parsed next,
      P.store config vm parsed = some next →
      ∀ d ∈ config.options,
        (∀ v, P.find vm d.name ≠ some ⟨v, false⟩) →
        (∀ tokens, (d.name, tokens) ∉ parsed) →
          P.find next d.name =
            (P.find vm d.name).or
              (d.defaultValue.map (⟨·, true⟩))
  notified :
    ∀ config sources vm,
      Run.exec (P.store config) P.empty sources = some vm →
      ∀ target, ∃ order : List (Description ν τ),
        order.Perm config.options ∧
          P.notify vm target =
            order.foldl (write (P.find vm)) target

/-
  The value an option should have: that of the first source
  that gives the option, or else its default, or else the
  one its variable had before.
-/
def effective
    (d : Description ν τ)
    (initial : ν) : List Parsed → Option ν
  | [] => some (d.defaultValue.getD initial)
  | parsed :: others =>
      match parsed.lookup d.name with
      | some tokens => d.validate tokens
      | none => effective d initial others

/- The values that an option can get. -/
def Admits (d : Description ν τ) (v : ν) : Prop :=
  (∃ tokens, d.validate tokens = some v) ∨
    d.defaultValue = some v

/- The option does not write the member. -/
def Leaves
    (get : τ → ν)
    (d : Description ν τ) : Prop :=
  ∀ bound, d.bound = some bound →
    ∀ v target, get (bound v target) = get target

/- The option is bound to the member. -/
def Writes
    (get : τ → ν)
    (d : Description ν τ) : Prop :=
  ∃ bound, d.bound = some bound ∧
    ∀ v target, Admits d v → get (bound v target) = v

end ProgramOptions

------------------------------------------------------------
-- Storing
------------------------------------------------------------

namespace ProgramOptions

variable {ν τ : Type}
variable {P : Library ν τ}
variable {config : Configuration ν τ}
variable {d : Description ν τ}
variable {vm next : P.VariablesMap}

/- What storing one source can do to an option. -/
theorem store_cases
    (hP : P.Documented)
    (hD : d ∈ config.options)
    {parsed : Parsed}
    (hStore : P.store config vm parsed = some next) :
    (∃ v, P.find vm d.name = some ⟨v, false⟩ ∧
        P.find next d.name = some ⟨v, false⟩) ∨
      (∃ tokens v,
        parsed.lookup d.name = some tokens ∧
          d.validate tokens = some v ∧
          P.find next d.name = some ⟨v, false⟩) ∨
      (parsed.lookup d.name = none ∧
        P.find next d.name =
          (P.find vm d.name).or
            (d.defaultValue.map (⟨·, true⟩))) := by
  by_cases hExplicit :
      ∃ v, P.find vm d.name = some ⟨v, false⟩
  · rcases hExplicit with ⟨v, hFind⟩
    exact Or.inl ⟨v, hFind,
      hP.kept config vm parsed next hStore d hD v hFind⟩
  · refine Or.inr ?_
    have hOpen := not_exists.mp hExplicit
    cases hLookup : parsed.lookup d.name with
    | some tokens =>
        rcases List.lookup_eq_some_iff.mp hLookup with
          ⟨before, after, rfl, _⟩
        rcases hP.stored config vm _ next hStore d hD hOpen
            tokens
            (List.mem_append_right _ List.mem_cons_self) with
          ⟨v, hValid, hFind⟩
        exact Or.inl ⟨tokens, v, rfl, hValid, hFind⟩
    | none =>
        have hAbsent :
            ∀ tokens, (d.name, tokens) ∉ parsed := by
          intro tokens hIn
          have hOther :=
            List.lookup_eq_none_iff.mp hLookup _ hIn
          simp at hOther
        exact Or.inr ⟨rfl,
          hP.defaults config vm parsed next hStore d hD
            hOpen hAbsent⟩

/- A value stored explicitly survives later sources. -/
theorem find_exec_of_explicit
    (hP : P.Documented)
    (hD : d ∈ config.options)
    {sources : List Parsed}
    (hExec :
      Run.exec (P.store config) vm sources = some next)
    {v : ν}
    (hFind : P.find vm d.name = some ⟨v, false⟩) :
    P.find next d.name = some ⟨v, false⟩ := by
  have hStep :
      ∀ vm parsed next,
        P.find vm d.name = some ⟨v, false⟩ →
        P.store config vm parsed = some next →
          P.find next d.name = some ⟨v, false⟩ := by
    intro vm parsed next hFind hStore
    exact hP.kept config vm parsed next hStore d hD v hFind
  exact Run.invariant hStep hFind hExec

/- Only values that the option admits are stored. -/
theorem admits_of_find
    (hP : P.Documented)
    (hD : d ∈ config.options)
    {sources : List Parsed}
    (hExec :
      Run.exec (P.store config) P.empty sources = some vm)
    {stored : VariableValue ν}
    (hFind : P.find vm d.name = some stored) :
    Admits d stored.value := by
  have hStep :
      ∀ vm parsed next,
        (∀ stored, P.find vm d.name = some stored →
          Admits d stored.value) →
        P.store config vm parsed = some next →
        ∀ stored, P.find next d.name = some stored →
          Admits d stored.value := by
    intro vm parsed next hBefore hStore stored hFind
    rcases store_cases hP hD hStore with
      ⟨v, hOld, hNew⟩ | ⟨tokens, v, _, hValid, hNew⟩ |
        ⟨_, hNew⟩
    · rw [hNew, ← hOld] at hFind
      exact hBefore stored hFind
    · rw [hNew] at hFind
      cases hFind
      exact Or.inl ⟨tokens, hValid⟩
    · rw [hNew, Option.or_eq_some_iff] at hFind
      rcases hFind with hOld | ⟨_, hDefault⟩
      · exact hBefore stored hOld
      · rcases Option.map_eq_some_iff.mp hDefault with
          ⟨v, hDefaultValue, rfl⟩
        exact Or.inr hDefaultValue
  have hEmpty :
      ∀ stored, P.find P.empty d.name = some stored →
        Admits d stored.value := by
    intro stored hFind
    rw [hP.empty] at hFind
    cases hFind
  exact Run.invariant hStep hEmpty hExec stored hFind

/- An option with a default is stored by every source. -/
theorem exists_find_of_exec
    (hP : P.Documented)
    (hD : d ∈ config.options)
    {value : ν}
    (hDefault : d.defaultValue = some value)
    {sources : List Parsed}
    (hSources : sources ≠ [])
    (hExec :
      Run.exec (P.store config) vm sources = some next) :
    ∃ stored, P.find next d.name = some stored := by
  have hStep :
      ∀ vm parsed next,
        P.store config vm parsed = some next →
        ∃ stored, P.find next d.name = some stored := by
    intro vm parsed next hStore
    rcases store_cases hP hD hStore with
      ⟨v, _, hNew⟩ | ⟨_, v, _, _, hNew⟩ | ⟨_, hNew⟩
    · exact ⟨_, hNew⟩
    · exact ⟨_, hNew⟩
    · rw [hNew, hDefault]
      cases P.find vm d.name with
      | none => exact ⟨_, rfl⟩
      | some stored => exact ⟨_, rfl⟩
  cases sources with
  | nil => exact absurd rfl hSources
  | cons parsed others =>
      rcases Option.bind_eq_some_iff.mp hExec with
        ⟨middle, hStore, hRest⟩
      exact Run.invariant
        (fun vm parsed next _ => hStep vm parsed next)
        (hStep vm parsed middle hStore) hRest

/- The value held for an option, or else the initial one. -/
def held
    (P : Library ν τ)
    (vm : P.VariablesMap)
    (d : Description ν τ)
    (initial : ν) : ν :=
  ((P.find vm d.name).map (·.value)).getD initial

/-
  Where an option has no explicit value yet, the sources
  that are stored decide it. The default is there as soon as
  one of them has been stored.
-/
theorem effective_of_exec
    (hP : P.Documented)
    (hD : d ∈ config.options)
    (initial : ν)
    {sources : List Parsed}
    (hUnset :
      P.find vm d.name = none ∧ sources ≠ [] ∨
        P.find vm d.name =
          d.defaultValue.map (⟨·, true⟩))
    (hExec :
      Run.exec (P.store config) vm sources = some next) :
    effective d initial sources =
      some (held P next d initial) := by
  induction sources generalizing vm with
  | nil =>
      cases hExec
      rcases hUnset with ⟨_, hNil⟩ | hDefault
      · exact absurd rfl hNil
      · simp [effective, held, hDefault, Function.comp_def]
  | cons parsed others ih =>
      rcases Option.bind_eq_some_iff.mp hExec with
        ⟨middle, hStore, hRest⟩
      rcases store_cases hP hD hStore with
        ⟨v, hOld, _⟩ |
          ⟨tokens, v, hLookup, hValid, hNew⟩ |
          ⟨hLookup, hNew⟩
      · rw [hOld] at hUnset
        rcases hUnset with ⟨hNone, _⟩ | hDefault
        · cases hNone
        · cases hValue : d.defaultValue with
          | none => simp [hValue] at hDefault
          | some value => simp [hValue] at hDefault
      · have hKept := find_exec_of_explicit hP hD hRest hNew
        simp [effective, hLookup, hValid, held, hKept]
      · have hDefault :
            P.find middle d.name =
              d.defaultValue.map (⟨·, true⟩) := by
          rw [hNew]
          rcases hUnset with ⟨hNone, _⟩ | hDefault
          · rw [hNone, Option.none_or]
          · rw [hDefault, Option.or_self]
        rw [effective, hLookup]
        exact ih (Or.inr hDefault) hRest

end ProgramOptions

------------------------------------------------------------
-- Notifying
------------------------------------------------------------

namespace ProgramOptions

variable {ν τ : Type}
variable {P : Library ν τ}
variable {config : Configuration ν τ}
variable {d : Description ν τ}
variable {get : τ → ν}
variable {find : Str → Option (VariableValue ν)}

/- Options that leave a member alone do not change it. -/
theorem foldl_write_of_leaves
    {order : List (Description ν τ)}
    (hLeaves : ∀ e ∈ order, Leaves get e)
    (target : τ) :
    get (order.foldl (write find) target) = get target := by
  induction order generalizing target with
  | nil => rfl
  | cons e order ih =>
      have hStep : get (write find target e) = get target := by
        unfold write
        split
        · next bound stored hBound _ =>
            exact hLeaves e List.mem_cons_self bound hBound
              stored.value target
        · rfl
      rw [List.foldl_cons,
        ih fun e hE => hLeaves e (List.mem_cons_of_mem _ hE),
        hStep]

/- A member that no option writes is left as it was. -/
theorem notify_of_leaves
    (hP : P.Documented)
    (hLeaves : ∀ e ∈ config.options, Leaves get e)
    {sources : List Parsed}
    {vm : P.VariablesMap}
    (hExec :
      Run.exec (P.store config) P.empty sources = some vm)
    (target : τ) :
    get (P.notify vm target) = get target := by
  rcases hP.notified config sources vm hExec target with
    ⟨order, hPerm, hNotify⟩
  rw [hNotify]
  exact foldl_write_of_leaves
    (fun e hE => hLeaves e (hPerm.mem_iff.mp hE)) target

/- A bound member gets the value held for its option. -/
theorem notify_of_writes
    (hP : P.Documented)
    (hD : d ∈ config.options)
    (hWrites : Writes get d)
    (hLeaves :
      ∀ e ∈ config.options, e.name ≠ d.name → Leaves get e)
    {sources : List Parsed}
    {vm : P.VariablesMap}
    (hExec :
      Run.exec (P.store config) P.empty sources = some vm)
    (target : τ) :
    get (P.notify vm target) = held P vm d (get target) := by
  rcases hP.notified config sources vm hExec target with
    ⟨order, hPerm, hNotify⟩
  rcases List.append_of_mem (hPerm.mem_iff.mpr hD) with
    ⟨before, after, rfl⟩
  have hMiddle := List.perm_middle.symm.trans hPerm
  have hDistinct :
      ((d :: (before ++ after)).map (·.name)).Nodup :=
    (hMiddle.map (·.name)).nodup_iff.mpr config.distinct
  have hOthers :
      ∀ e ∈ before ++ after, Leaves get e := by
    intro e hE
    refine hLeaves e
      (hMiddle.mem_iff.mp (List.mem_cons_of_mem d hE)) ?_
    intro hName
    refine (List.nodup_cons.mp hDistinct).1 ?_
    exact List.mem_map.mpr ⟨e, hE, hName⟩
  have hStep :
      ∀ target, get (write (P.find vm) target d) =
        held P vm d (get target) := by
    intro target
    rcases hWrites with ⟨bound, hBound, hBind⟩
    cases hFind : P.find vm d.name with
    | none => simp [write, held, hBound, hFind]
    | some stored =>
        have hAdmits := admits_of_find hP hD hExec hFind
        simp [write, held, hBound, hFind,
          hBind stored.value target hAdmits]
  rw [hNotify, List.foldl_append, List.foldl_cons,
    foldl_write_of_leaves fun e hE =>
      hOthers e (List.mem_append_right _ hE),
    hStep,
    foldl_write_of_leaves fun e hE =>
      hOthers e (List.mem_append_left _ hE)]

/-
  After the sources have been stored and the library has
  notified, a bound member has its effective value.
-/
theorem effective_notify
    (hP : P.Documented)
    (hD : d ∈ config.options)
    (hWrites : Writes get d)
    (hLeaves :
      ∀ e ∈ config.options, e.name ≠ d.name → Leaves get e)
    {sources : List Parsed}
    (hSources : sources ≠ [])
    {vm : P.VariablesMap}
    (hExec :
      Run.exec (P.store config) P.empty sources = some vm)
    (target : τ) :
    effective d (get target) sources =
      some (get (P.notify vm target)) := by
  rw [notify_of_writes hP hD hWrites hLeaves hExec,
    effective_of_exec hP hD (get target)
      (Or.inl ⟨hP.empty d.name, hSources⟩) hExec]

end ProgramOptions

------------------------------------------------------------
-- A Plain Library
------------------------------------------------------------

namespace ProgramOptions

variable {ν τ : Type}

/- Values by name, and the descriptions they belong to. -/
structure PlainMap (ν τ : Type) where
  find : Str → Option (VariableValue ν)
  semantics : List (Description ν τ)

/-
  The entry of an option after a source. It fails when the
  option is given twice or its tokens are not valid.
-/
def plainEntry
    (previous : Option (VariableValue ν))
    (parsed : Parsed)
    (d : Description ν τ) :
    Option (Option (VariableValue ν)) :=
  match previous with
  | some ⟨v, false⟩ => some (some ⟨v, false⟩)
  | _ =>
      match parsed.filter (·.1 = d.name) with
      | [] =>
          some (previous.or
            (d.defaultValue.map (⟨·, true⟩)))
      | [given] =>
          (d.validate given.2).map fun v => some ⟨v, false⟩
      | _ => none

/- An unknown option fails, as does one without an entry. -/
def plainStore
    (config : Configuration ν τ)
    (vm : PlainMap ν τ)
    (parsed : Parsed) : Option (PlainMap ν τ) :=
  if (parsed.all fun given =>
        config.options.any (·.name = given.1)) &&
      (config.options.all fun d =>
        (plainEntry (vm.find d.name) parsed d).isSome) then
    some
      { find := fun name =>
          match config.options.find? (·.name = name) with
          | some d =>
              (plainEntry (vm.find name) parsed d).getD none
          | none => vm.find name
        semantics := config.options }
  else none

/- Long names, each of them with a token behind it. -/
def plainArguments : List Str → Option Parsed
  | [] => some []
  | ('-' :: '-' :: name) :: token :: rest =>
      (plainArguments rest).map ((name, [token]) :: ·)
  | _ => none

def plain : Library ν τ where
  VariablesMap := PlainMap ν τ
  empty := ⟨fun _ => none, []⟩
  find := PlainMap.find
  parseCommandLine := fun _ argv =>
    plainArguments (argv.drop 1)
  parseEnvironment := fromEnvironment
  store := plainStore
  notify := fun vm target =>
    vm.semantics.foldl (write vm.find) target

/- The description found under the name of an option. -/
theorem find?_name
    {config : Configuration ν τ}
    {d : Description ν τ}
    (hD : d ∈ config.options) :
    config.options.find? (·.name = d.name) = some d := by
  cases hFind : config.options.find? (·.name = d.name) with
  | none =>
      have hAbsent := List.find?_eq_none.mp hFind d hD
      simp at hAbsent
  | some e =>
      have hName : e.name = d.name := by
        simpa using List.find?_some hFind
      rw [List.inj_on_of_nodup_map config.distinct
        (List.mem_of_find?_eq_some hFind) hD hName]

theorem plainEntry_of_store
    {config : Configuration ν τ}
    {vm next : PlainMap ν τ}
    {parsed : Parsed}
    (hStore : plainStore config vm parsed = some next)
    {d : Description ν τ}
    (hD : d ∈ config.options) :
    plainEntry (vm.find d.name) parsed d =
      some (next.find d.name) := by
  unfold plainStore at hStore
  split at hStore
  · next hAccepted =>
      cases hStore
      rw [Bool.and_eq_true, List.all_eq_true,
        List.all_eq_true] at hAccepted
      rcases Option.isSome_iff_exists.mp
          (hAccepted.2 d hD) with
        ⟨entry, hEntry⟩
      simp [find?_name hD, hEntry]
  · cases hStore

theorem semantics_of_store
    {config : Configuration ν τ}
    {vm next : PlainMap ν τ}
    {parsed : Parsed}
    (hStore : plainStore config vm parsed = some next) :
    next.semantics = config.options := by
  unfold plainStore at hStore
  split at hStore
  · cases hStore
    rfl
  · cases hStore

theorem plainEntry_of_open
    {previous : Option (VariableValue ν)}
    (hOpen : ∀ v, previous ≠ some ⟨v, false⟩)
    (parsed : Parsed)
    (d : Description ν τ) :
    plainEntry previous parsed d =
      match parsed.filter (·.1 = d.name) with
      | [] =>
          some (previous.or
            (d.defaultValue.map (⟨·, true⟩)))
      | [given] =>
          (d.validate given.2).map fun v => some ⟨v, false⟩
      | _ => none := by
  unfold plainEntry
  split
  · next v => exact absurd rfl (hOpen v)
  · rfl

/- The plain library keeps what the documentation says. -/
theorem plain_documented :
    (plain (ν := ν) (τ := τ)).Documented where
  empty := fun _ => rfl
  environment := fun _ _ => rfl
  kept := by
    intro config vm parsed next hStore d hD v hFind
    have hEntry := plainEntry_of_store hStore hD
    change vm.find d.name = _ at hFind
    rw [hFind] at hEntry
    exact (Option.some.inj hEntry).symm
  stored := by
    intro config vm parsed next hStore d hD hOpen tokens hIn
    have hEntry := plainEntry_of_store hStore hD
    have hGiven :
        (d.name, tokens) ∈ parsed.filter (·.1 = d.name) :=
      List.mem_filter.mpr ⟨hIn, by simp⟩
    replace hEntry :=
      (plainEntry_of_open hOpen parsed d).symm.trans hEntry
    split at hEntry
    · next hNil =>
        rw [hNil] at hGiven
        cases hGiven
    · next given hOne =>
        rw [hOne, List.mem_singleton] at hGiven
        subst hGiven
        rcases Option.map_eq_some_iff.mp hEntry with
          ⟨v, hValid, hFind⟩
        exact ⟨v, hValid, hFind.symm⟩
    · cases hEntry
  defaults := by
    intro config vm parsed next hStore d hD hOpen hAbsent
    have hEntry := plainEntry_of_store hStore hD
    have hNil : parsed.filter (·.1 = d.name) = [] := by
      rw [List.filter_eq_nil_iff]
      rintro ⟨name, tokens⟩ hIn hName
      rw [decide_eq_true_eq] at hName
      subst hName
      exact hAbsent tokens hIn
    replace hEntry :=
      (plainEntry_of_open hOpen parsed d).symm.trans hEntry
    rw [hNil] at hEntry
    exact (Option.some.inj hEntry).symm
  notified := by
    intro config sources vm hExec target
    have hStep :
        ∀ (vm : PlainMap ν τ) parsed next,
          (plain.empty = vm ∨
            vm.semantics = config.options) →
          plainStore config vm parsed = some next →
            plain.empty = next ∨
              next.semantics = config.options := by
      intro vm parsed next _ hStore
      exact Or.inr (semantics_of_store hStore)
    have hSemantics := Run.invariant hStep (Or.inl rfl) hExec
    refine ⟨config.options, List.Perm.refl _, ?_⟩
    rcases hSemantics with rfl | hSemantics
    · refine (List.foldl_fixed' (fun d => ?_) _).symm
      unfold write
      cases d.bound <;> rfl
    · change vm.semantics.foldl _ target = _
      rw [hSemantics]
      rfl

end ProgramOptions
