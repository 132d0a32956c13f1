import Mathlib.Data.List.Infix
import Mathlib.Data.List.TakeWhile

/-
  Character strings with the search operations of
  `std::string_view`.

  A string is the list of its characters, one for each
  `char` of the byte string it stands for. `find` returns
  the position of the first occurrence and `none` where the
  standard library returns `npos`; `substr` fails where the
  standard library throws `std::out_of_range`.

  Key definitions include:
    * `Str`
    * `Text.find`
    * `Text.rfind`
    * `Text.substr`
    * `Text.decimal`
    * `Text.hexDigits`
-/

------------------------------------------------------------
-- Strings
------------------------------------------------------------

/- A byte string. -/
abbrev Str := List Char

namespace Text

/- The first position at which `needle` occurs. -/
def find (needle : Str) : Str → Option Nat
  | [] => if needle = [] then some 0 else none
  | c :: s =>
      if needle.isPrefixOf (c :: s) then some 0
      else (find needle s).map (· + 1)

/- The first position from `start` on. -/
def findFrom
    (needle s : Str)
    (start : Nat) : Option Nat :=
  if start ≤ s.length then
    (find needle (s.drop start)).map (· + start)
  else none

/- The last position of a character. -/
def rfind (c : Char) : Str → Option Nat
  | [] => none
  | d :: s =>
      match rfind c s with
      | some pos => some (pos + 1)
      | none => if d = c then some 0 else none

/-
  At most `count` characters from position `start` on. A
  start behind the end is the out-of-range error.
-/
def substr (s : Str) (start count : Nat) : Option Str :=
  if start ≤ s.length then some ((s.drop start).take count)
  else none

/- The decimal numeral of a number (`std::to_string`). -/
def decimal (n : Nat) : Str :=
  Nat.toDigits 10 n

/-
  The lower-case hexadecimal numeral of a number, filled up
  with zeros on the left to the given width.
-/
def hexDigits (width n : Nat) : Str :=
  List.leftpad width '0' (Nat.toDigits 16 n)

theorem isDigit_of_mem_decimal
    {n : Nat}
    {c : Char}
    (hC : c ∈ decimal n) :
    c.isDigit = true :=
  Nat.isDigit_of_mem_toDigits (by decide) (by decide) hC

/- A separator is not part of a decimal numeral. -/
theorem not_mem_decimal
    {c : Char}
    (hC : c.isDigit = false)
    (n : Nat) :
    c ∉ decimal n := by
  intro hIn
  rw [isDigit_of_mem_decimal hIn] at hC
  cases hC

end Text

------------------------------------------------------------
-- Searching
------------------------------------------------------------

namespace Text

/- A search succeeds exactly on strings with an occurrence. -/
theorem isSome_find_iff
    (needle s : Str) :
    (find needle s).isSome ↔ needle <:+: s := by
  induction s with
  | nil =>
      by_cases hNeedle : needle = [] <;>
        simp [find, hNeedle]
  | cons c s ih =>
      rw [List.infix_cons_iff, ← ih]
      by_cases hHead : needle <+: c :: s
      · simp [find, hHead]
      · simp [find, hHead]

theorem find_eq_none_iff
    (needle s : Str) :
    find needle s = none ↔ ¬ needle <:+: s := by
  rw [← isSome_find_iff]
  simp

/- An occurrence at position zero is an initial segment. -/
theorem find_eq_zero_iff
    (needle s : Str) :
    find needle s = some 0 ↔ needle <+: s := by
  cases s with
  | nil =>
      by_cases hNeedle : needle = [] <;>
        simp [find, hNeedle]
  | cons c s =>
      by_cases hHead : needle <+: c :: s <;>
        simp [find, hHead]

theorem find_singleton_of_not_mem
    {c : Char}
    {s : Str}
    (hC : c ∉ s) :
    find [c] s = none := by
  rw [find_eq_none_iff, List.singleton_infix_iff]
  exact hC

theorem find_singleton_append
    {c : Char}
    {s : Str}
    (hC : c ∉ s)
    (rest : Str) :
    find [c] (s ++ c :: rest) = some s.length := by
  induction s with
  | nil => simp [find]
  | cons d s ih =>
      rw [List.mem_cons, not_or] at hC
      simp [find, hC.1, ih hC.2]

theorem rfind_of_not_mem
    {c : Char}
    {s : Str}
    (hC : c ∉ s) :
    rfind c s = none := by
  induction s with
  | nil => rfl
  | cons d s ih =>
      rw [List.mem_cons, not_or] at hC
      rw [rfind, ih hC.2]
      exact if_neg (Ne.symm hC.1)

theorem rfind_append_of_not_mem
    {c : Char}
    {rest : Str}
    (hC : c ∉ rest)
    (s : Str) :
    rfind c (s ++ c :: rest) = some s.length := by
  induction s with
  | nil =>
      rw [List.nil_append, rfind, rfind_of_not_mem hC]
      exact if_pos rfl
  | cons d s ih =>
      rw [List.cons_append, rfind, ih]
      rfl

/-
  Cutting a string at the first occurrence of a character
  keeps the characters before it.
-/
theorem take_find_singleton
    (c : Char)
    (s : Str)
    (pos : Nat)
    (hFind : find [c] s = some pos) :
    s.take pos = s.takeWhile (· ≠ c) := by
  induction s generalizing pos with
  | nil => simp [find] at hFind
  | cons d s ih =>
      by_cases hHead : d = c
      · subst hHead
        have hPos : pos = 0 := by
          simpa [find, eq_comm] using hFind
        simp [hPos]
      · have hTail : ¬ [c] <+: d :: s := by
          simpa [List.cons_prefix_cons, eq_comm] using hHead
        simp only [find, List.isPrefixOf_iff_prefix, hTail,
          if_false, Option.map_eq_some_iff] at hFind
        rcases hFind with ⟨rest, hRest, rfl⟩
        simp [hHead, ih rest hRest]

/- A string without the character is before it as a whole. -/
theorem takeWhile_append_of_not_mem
    {c : Char}
    {s : Str}
    (hC : c ∉ s)
    (rest : Str) :
    (s ++ rest).takeWhile (· ≠ c) =
      s ++ rest.takeWhile (· ≠ c) := by
  apply List.takeWhile_append_of_pos
  intro d hD
  have hOther : d ≠ c := by
    rintro rfl
    exact hC hD
  exact decide_eq_true hOther

theorem takeWhile_append_of_mem
    {c : Char}
    {s : Str}
    (hC : c ∈ s)
    (rest : Str) :
    (s ++ rest).takeWhile (· ≠ c) = s.takeWhile (· ≠ c) := by
  rcases List.append_of_mem hC with ⟨left, right, rfl⟩
  induction left with
  | nil => simp
  | cons d left ih =>
      have hIn : c ∈ left ++ c :: right := by
        simp
      rw [List.cons_append, List.cons_append,
        List.takeWhile_cons, List.takeWhile_cons, ih hIn]

theorem takeWhile_of_not_mem
    {c : Char}
    {s : Str}
    (hC : c ∉ s) :
    s.takeWhile (· ≠ c) = s := by
  have hAll := takeWhile_append_of_not_mem hC []
  rwa [List.append_nil, List.takeWhile_nil,
    List.append_nil] at hAll

/- A needle does not reach over a character it lacks. -/
theorem prefix_of_prefix_append_cons
    {needle left right : Str}
    {c : Char}
    (hC : c ∉ needle)
    (hPrefix : needle <+: left ++ c :: right) :
    needle <+: left := by
  have hMark : left ++ [c] <+: left ++ c :: right :=
    ⟨right, by simp⟩
  rcases List.prefix_or_prefix_of_prefix hPrefix hMark with
    hShort | hLong
  · rcases List.prefix_concat_iff.mp hShort with hAll | hLeft
    · exact absurd (by simp [hAll]) hC
    · exact hLeft
  · exact absurd (hLong.subset (by simp)) hC

theorem infix_append_cons
    {needle left right : Str}
    {c : Char}
    (hC : c ∉ needle)
    (hInfix : needle <:+: left ++ c :: right) :
    needle <:+: left ∨ needle <:+: right := by
  induction left with
  | nil =>
      rcases List.infix_cons_iff.mp hInfix with
        hHead | hRight
      · have hNil : needle <+: [] :=
          prefix_of_prefix_append_cons hC hHead
        exact Or.inl hNil.isInfix
      · exact Or.inr hRight
  | cons d left ih =>
      rcases List.infix_cons_iff.mp hInfix with
        hHead | hTail
      · exact Or.inl
          (prefix_of_prefix_append_cons hC hHead).isInfix
      · rcases ih hTail with hLeft | hRight
        · exact Or.inl (List.infix_cons hLeft)
        · exact Or.inr hRight

end Text
