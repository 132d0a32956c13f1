import Kedge.Library.Json.Value

/-
  Building JSON objects member by member.

  `emplace` adds a member unless the key is taken, as
  `boost::json::object::emplace` does, so that the keys of
  an object stay distinct. `emplaceIf` is its guarded form,
  and `emplaceAll` takes guarded members in order.

  Key definitions include:
    * `Json.emplace`
    * `Json.emplaceAll`
    * `Json.Guarded.Same`

  Key theorems include:
    * `Json.keys_emplaceAll_nodup`
    * `Json.forall_keys_emplaceAll`
    * `Json.emplaceAll_inj_iff`
-/

------------------------------------------------------------
-- Adding Members
------------------------------------------------------------

namespace Json

/- Add a member behind the others unless the key exists. -/
def emplace
    (members : Members)
    (key : Str)
    (value : Value) : Members :=
  match Value.find members key with
  | some _ => members
  | none => members ++ [(key, value)]

/- A member and the condition under which it is added. -/
structure Guarded where
  guard : Bool
  key : Str
  value : Value

def emplaceIf
    (members : Members)
    (new : Guarded) : Members :=
  if new.guard then emplace members new.key new.value
  else members

/- Add guarded members one after the other. -/
def emplaceAll
    (members : Members)
    (news : List Guarded) : Members :=
  news.foldl emplaceIf members

end Json

------------------------------------------------------------
-- Keys of the Built Object
------------------------------------------------------------

namespace Json

theorem keys_emplaceIf
    (members : Members)
    (new : Guarded) :
    keys (emplaceIf members new) = keys members ∨
      new.key ∉ keys members ∧
        keys (emplaceIf members new) =
          keys members ++ [new.key] := by
  unfold emplaceIf emplace
  split
  · split
    · exact Or.inl rfl
    · next hNone =>
      have hFresh := (Value.find_eq_none_iff _ _).mp hNone
      exact Or.inr ⟨hFresh, by simp⟩
  · exact Or.inl rfl

/- Adding members keeps the keys distinct. -/
theorem keys_emplaceAll_nodup
    {members : Members}
    (hNodup : (keys members).Nodup)
    (news : List Guarded) :
    (keys (emplaceAll members news)).Nodup := by
  induction news generalizing members with
  | nil => exact hNodup
  | cons new news ih =>
      apply ih
      rcases keys_emplaceIf members new with
        hSame | ⟨hFresh, hMore⟩
      · rw [hSame]
        exact hNodup
      · rw [hMore, List.nodup_append']
        simp [hNodup, hFresh]

/- The keys are those given and some of those added. -/
theorem forall_keys_emplaceAll
    {Q : Str → Prop}
    {members : Members}
    {news : List Guarded}
    (hMembers : ∀ key ∈ keys members, Q key)
    (hNews : ∀ new ∈ news, Q new.key) :
    ∀ key ∈ keys (emplaceAll members news), Q key := by
  induction news generalizing members with
  | nil => exact hMembers
  | cons new news ih =>
      apply ih
      · intro key hKey
        rcases keys_emplaceIf members new with
          hSame | ⟨_, hMore⟩
        · rw [hSame] at hKey
          exact hMembers key hKey
        · rw [hMore, List.mem_append,
            List.mem_singleton] at hKey
          rcases hKey with hOld | rfl
          · exact hMembers key hOld
          · exact hNews new List.mem_cons_self
      · intro other hOther
        exact hNews other (List.mem_cons_of_mem new hOther)

/- The values are those given and some of those added. -/
theorem forall_values_emplaceAll
    {Q : Value → Prop}
    {members : Members}
    {news : List Guarded}
    (hMembers : ∀ m ∈ members, Q m.2)
    (hNews : ∀ new ∈ news, Q new.value) :
    ∀ m ∈ emplaceAll members news, Q m.2 := by
  induction news generalizing members with
  | nil => exact hMembers
  | cons new news ih =>
      apply ih
      · intro m hM
        unfold emplaceIf emplace at hM
        split at hM
        · split at hM
          · exact hMembers m hM
          · rw [List.mem_append, List.mem_singleton] at hM
            rcases hM with hOld | rfl
            · exact hMembers m hOld
            · exact hNews new List.mem_cons_self
        · exact hMembers m hM
      · intro other hOther
        exact hNews other (List.mem_cons_of_mem new hOther)

end Json

------------------------------------------------------------
-- Objects with the Same Members
------------------------------------------------------------

namespace Json

/- The members that are added, when their keys are new. -/
def added (news : List Guarded) : Members :=
  (news.filter Guarded.guard).map fun new =>
    (new.key, new.value)

/- Two members are both left out, or added and equal. -/
structure Guarded.Same (a b : Guarded) : Prop where
  guard : a.guard = b.guard
  value : a.guard = true → a.value = b.value

theorem added_cons
    (new : Guarded)
    (news : List Guarded) :
    added (new :: news) =
      if new.guard then (new.key, new.value) :: added news
      else added news := by
  cases hGuard : new.guard with
  | true => simp [added, hGuard]
  | false => simp [added, hGuard]

/- Members without a key do not start with that key. -/
theorem added_ne_cons
    {news : List Guarded}
    {key : Str}
    (hFresh : key ∉ news.map Guarded.key)
    (value : Value)
    (rest : Members) :
    added news ≠ (key, value) :: rest := by
  intro hSame
  have hMember : (key, value) ∈ added news := by
    rw [hSame]
    exact List.mem_cons_self
  rcases List.mem_map.mp hMember with ⟨new, hNew, hPair⟩
  cases hPair
  exact hFresh
    (List.mem_map_of_mem (List.mem_filter.mp hNew).1)

theorem emplaceAll_eq_append
    {members : Members}
    {news : List Guarded}
    (hNodup :
      (keys members ++ news.map Guarded.key).Nodup) :
    emplaceAll members news = members ++ added news := by
  induction news generalizing members with
  | nil => exact (List.append_nil members).symm
  | cons new news ih =>
      rw [List.map_cons] at hNodup
      have hFresh : new.key ∉ keys members := by
        intro hIn
        have hApart := List.disjoint_of_nodup_append hNodup
        exact hApart hIn List.mem_cons_self
      have hRest :
          (keys members ++ news.map Guarded.key).Nodup :=
        hNodup.sublist
          ((List.sublist_cons_self _ _).append_left _)
      cases hGuard : new.guard with
      | false =>
          have hSame : emplaceIf members new = members := by
            simp [emplaceIf, hGuard]
          change emplaceAll (emplaceIf members new) news = _
          rw [hSame, ih hRest]
          simp [added, hGuard]
      | true =>
          have hFind :
              Value.find members new.key = none :=
            (Value.find_eq_none_iff _ _).mpr hFresh
          have hMore :
              emplaceIf members new =
                members ++ [(new.key, new.value)] := by
            simp [emplaceIf, emplace, hGuard, hFind]
          have hKeys :
              (keys (members ++ [(new.key, new.value)]) ++
                news.map Guarded.key).Nodup := by
            simpa [keys] using hNodup
          change emplaceAll (emplaceIf members new) news = _
          rw [hMore, ih hKeys]
          simp [added, hGuard]

/- Members with distinct keys are told apart one by one. -/
theorem added_inj_iff
    {news others : List Guarded}
    (hKeys : news.map Guarded.key = others.map Guarded.key)
    (hNodup : (news.map Guarded.key).Nodup) :
    added news = added others ↔
      List.Forall₂ Guarded.Same news others := by
  induction news generalizing others with
  | nil =>
      cases others with
      | nil => simp
      | cons other others => cases hKeys
  | cons new news ih =>
      cases others with
      | nil => cases hKeys
      | cons other others =>
          rw [List.map_cons, List.map_cons,
            List.cons.injEq] at hKeys
          rcases hKeys with ⟨hKey, hKeys⟩
          rw [List.map_cons, List.nodup_cons] at hNodup
          rcases hNodup with ⟨hFresh, hNodup⟩
          rw [List.forall₂_cons, ← ih hKeys hNodup,
            added_cons, added_cons]
          have hNotSame :
              new.guard ≠ other.guard →
                ¬ Guarded.Same new other :=
            fun hGuards hSame => hGuards hSame.guard
          cases hNew : new.guard with
          | false =>
              cases hOther : other.guard with
              | false =>
                  have hSame : Guarded.Same new other :=
                    ⟨hNew.trans hOther.symm, by simp [hNew]⟩
                  simp [hSame]
              | true =>
                  rw [hKey] at hFresh
                  apply iff_of_false
                  · exact added_ne_cons hFresh _ _
                  · exact fun hBoth =>
                      hNotSame (by simp [hNew, hOther])
                        hBoth.1
          | true =>
              cases hOther : other.guard with
              | false =>
                  rw [hKeys] at hFresh
                  apply iff_of_false
                  · exact (added_ne_cons hFresh _ _).symm
                  · exact fun hBoth =>
                      hNotSame (by simp [hNew, hOther])
                        hBoth.1
              | true =>
                  rw [if_pos rfl, if_pos rfl,
                    List.cons.injEq, hKey, Prod.mk.injEq]
                  constructor
                  · rintro ⟨⟨_, hValue⟩, hRest⟩
                    exact ⟨⟨hNew.trans hOther.symm,
                      fun _ => hValue⟩, hRest⟩
                  · rintro ⟨hSame, hRest⟩
                    exact ⟨⟨rfl, hSame.value hNew⟩, hRest⟩

/-
  Two objects that are built from as many members, and then
  from the same keys, are equal exactly when they agree in
  each member.
-/
theorem emplaceAll_inj_iff
    {members others : Members}
    {news otherNews : List Guarded}
    (hLength : members.length = others.length)
    (hKeys :
      news.map Guarded.key = otherNews.map Guarded.key)
    (hNodup :
      (keys members ++ news.map Guarded.key).Nodup)
    (hOther :
      (keys others ++ otherNews.map Guarded.key).Nodup) :
    emplaceAll members news = emplaceAll others otherNews ↔
      members = others ∧
        List.Forall₂ Guarded.Same news otherNews := by
  rw [emplaceAll_eq_append hNodup,
    emplaceAll_eq_append hOther,
    ← added_inj_iff hKeys
      (hNodup.sublist (List.sublist_append_right _ _))]
  constructor
  · intro hSame
    exact List.append_inj hSame hLength
  · rintro ⟨rfl, hRest⟩
    rw [hRest]

end Json
