import Mathlib.Data.List.AList

/-
  Association lists as hash tables.

  `AList` holds entries with distinct keys, as an unordered
  map does. Overwriting the value of an entry in place is
  `AList.replace`; these lemmas say what is looked up
  afterwards, as the ones of the library do for `insert`
  and `erase`.

  Key theorems include:
    * `AList.lookup_replace_self`
    * `AList.lookup_replace_ne`
-/

------------------------------------------------------------
-- Overwritten Entries
------------------------------------------------------------

namespace AList

universe u v

variable {α : Type u} {β : α → Type v}
variable [DecidableEq α]

theorem kreplace_cons_self
    (key : α)
    (old value : β key)
    (entries : List (Sigma β)) :
    List.kreplace key value (⟨key, old⟩ :: entries) =
      ⟨key, value⟩ :: entries := by
  rw [List.kreplace]
  exact List.lookmap_cons_some _ _ (dif_pos rfl)

theorem kreplace_cons_ne
    {key name : α}
    (hName : key ≠ name)
    (old : β name)
    (value : β key)
    (entries : List (Sigma β)) :
    List.kreplace key value (⟨name, old⟩ :: entries) =
      ⟨name, old⟩ :: entries.kreplace key value := by
  rw [List.kreplace]
  exact List.lookmap_cons_none _ _ (dif_neg hName)

/- The overwritten entry has the new value. -/
theorem lookup_replace_self
    {key : α}
    {value : β key}
    {table : AList β}
    (hKey : key ∈ table) :
    (table.replace key value).lookup key = some value := by
  change key ∈ table.entries.keys at hKey
  change (table.entries.kreplace key value).dlookup key = _
  generalize table.entries = all at hKey ⊢
  induction all with
  | nil => cases hKey
  | cons entry entries ih =>
      rcases entry with ⟨name, old⟩
      by_cases hName : key = name
      · subst hName
        rw [kreplace_cons_self, List.dlookup_cons_eq]
      · have hRest : key ∈ List.keys entries := by
          simpa [hName] using hKey
        rw [kreplace_cons_ne hName,
          List.dlookup_cons_ne _ _ hName, ih hRest]

/- The other entries keep theirs. -/
theorem lookup_replace_ne
    {key other : α}
    {value : β key}
    {table : AList β}
    (hOther : other ≠ key) :
    (table.replace key value).lookup other =
      table.lookup other := by
  change (table.entries.kreplace key value).dlookup other = _
  change _ = table.entries.dlookup other
  generalize table.entries = all
  induction all with
  | nil => rfl
  | cons entry entries ih =>
      rcases entry with ⟨name, old⟩
      by_cases hName : key = name
      · subst hName
        rw [kreplace_cons_self,
          List.dlookup_cons_ne _ _ hOther,
          List.dlookup_cons_ne _ _ hOther]
      · rw [kreplace_cons_ne hName]
        by_cases hHead : other = name
        · subst hHead
          rw [List.dlookup_cons_eq, List.dlookup_cons_eq]
        · rw [List.dlookup_cons_ne _ _ hHead,
            List.dlookup_cons_ne _ _ hHead, ih]

end AList
