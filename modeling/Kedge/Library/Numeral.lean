import Mathlib.Algebra.Group.Int.Defs
import Mathlib.Algebra.Group.Nat.Defs
import Kedge.Library.Text

/-
  Numbers that the C library reads from text.

  `strtol` skips white space, takes a sign and, in base 16,
  the prefix `0x`, and reads digits up to the first
  character that is none. What follows is not looked at, and
  a text without digits reads as zero. A number that does
  not fit is replaced by the nearest one that does.

  Key definitions include:
    * `Numeral.digitValue?`
    * `Numeral.strtol`
    * `Numeral.atoi`

  Main theorems include:
    * `Numeral.toInt_strtol_of_digits`
    * `Numeral.toInt_strtol_decimal`
    * `Numeral.toInt_atoi_decimal`
-/

------------------------------------------------------------
-- Reading
------------------------------------------------------------

namespace Numeral

def spaces : Str :=
  [' ', '\t', '\n', Char.ofNat 11, Char.ofNat 12, '\r']

/- `isspace`. -/
def isSpace (c : Char) : Bool :=
  decide (c ∈ spaces)

/- The value of a digit or a letter, in either case. -/
def digit? (c : Char) : Option Nat :=
  if c.toLower.isDigit then
    some (c.toLower.toNat - '0'.toNat)
  else if c.toLower.isLower then
    some (c.toLower.toNat - 'a'.toNat + 10)
  else none

def digitValue? (base : Nat) (c : Char) : Option Nat :=
  (digit? c).filter (· < base)

/- The digits that follow the number read so far. -/
def readDigits (base : Nat) : Nat → Str → Nat
  | number, [] => number
  | number, c :: s =>
      match digitValue? base c with
      | some value => readDigits base (base * number + value) s
      | none => number

/- The prefix counts only in front of a digit. -/
def skipPrefix (base : Nat) : Str → Str
  | '0' :: x :: c :: s =>
      if base = 16 ∧ x.toLower = 'x' ∧
          (digitValue? 16 c).isSome then c :: s
      else '0' :: x :: c :: s
  | s => s

/- The sign, and what follows it. -/
def readSign : Str → Bool × Str
  | '-' :: s => (true, s)
  | '+' :: s => (false, s)
  | s => (false, s)

/- `strtol` for a base from 2 to 36. -/
def strtol (base : Nat) (s : Str) : Int64 :=
  let signed := readSign (s.dropWhile isSpace)
  let number := readDigits base 0 (skipPrefix base signed.2)
  Int64.ofIntClamp (if signed.1 then -number else number)

/- `atoi`, which is `strtol` in base 10 cut to an `int`. -/
def atoi (s : Str) : Int32 :=
  (strtol 10 s).toInt32

end Numeral

------------------------------------------------------------
-- Digits
------------------------------------------------------------

namespace Numeral

theorem digitValue?_eq_some_iff
    {base : Nat}
    {c : Char}
    {value : Nat} :
    digitValue? base c = some value ↔
      digit? c = some value ∧ value < base := by
  unfold digitValue?
  rw [Option.filter_eq_some_iff, decide_eq_true_eq]

/- A digit is neither white space nor a sign. -/
theorem not_isSpace_of_digit?
    {c : Char}
    {value : Nat}
    (hDigit : digit? c = some value) :
    isSpace c = false ∧ c ≠ '-' ∧ c ≠ '+' := by
  refine ⟨?_, ?_, ?_⟩
  · apply decide_eq_false
    intro hSpace
    simp only [spaces, List.mem_cons, List.not_mem_nil,
      or_false] at hSpace
    rcases hSpace with
      rfl | rfl | rfl | rfl | rfl | rfl <;> cases hDigit
  · rintro rfl
    cases hDigit
  · rintro rfl
    cases hDigit

theorem toLower_of_isDigit
    {c : Char}
    (hDigit : c.isDigit = true) :
    c.toLower = c := by
  unfold Char.toLower
  rw [dif_neg]
  intro hUpper
  simp only [Char.isDigit, ge_iff_le, Bool.and_eq_true,
    decide_eq_true_eq] at hDigit
  have hHigh := UInt32.le_iff_toNat_le.mp hDigit.2
  have hLow := UInt32.le_iff_toNat_le.mp hUpper.1
  exact absurd (Nat.le_trans hLow hHigh) (by decide)

/- A decimal digit has its value in every base above it. -/
theorem digitValue?_of_isDigit
    {c : Char}
    (hDigit : c.isDigit = true) :
    digitValue? 10 c = some (c.toNat - '0'.toNat) := by
  rw [digitValue?_eq_some_iff, digit?,
    toLower_of_isDigit hDigit, if_pos hDigit]
  refine ⟨rfl, ?_⟩
  simp only [Char.isDigit, ge_iff_le, Bool.and_eq_true,
    decide_eq_true_eq] at hDigit
  have hHigh : c.toNat ≤ 57 :=
    UInt32.le_iff_toNat_le.mp hDigit.2
  have hZero : '0'.toNat = 48 := rfl
  omega

/- A hexadecimal digit, in either case. -/
theorem digitValue?_of_toLower
    {c : Char}
    {value : Nat}
    (hValue : value < 16)
    (hDigit : c.toLower = Nat.digitChar value) :
    digitValue? 16 c = some value := by
  have hLower :
      ∀ n : Fin 16,
        (if (Nat.digitChar n).isDigit then
            some ((Nat.digitChar n).toNat - '0'.toNat)
          else if (Nat.digitChar n).isLower then
            some ((Nat.digitChar n).toNat - 'a'.toNat + 10)
          else none) = some n.val := by
    decide
  rw [digitValue?_eq_some_iff, digit?, hDigit]
  exact ⟨hLower ⟨value, hValue⟩, hValue⟩

end Numeral

------------------------------------------------------------
-- Numbers
------------------------------------------------------------

namespace Numeral

/- The digits of a decimal numeral are read to its end. -/
theorem readDigits_of_isDigit
    {s : Str}
    (hDigits : ∀ c ∈ s, c.isDigit = true)
    (number : Nat) :
    readDigits 10 number s = Nat.ofDigitChars 10 s number := by
  induction s generalizing number with
  | nil => rfl
  | cons c s ih =>
      rw [List.forall_mem_cons] at hDigits
      rw [readDigits, digitValue?_of_isDigit hDigits.1,
        Nat.ofDigitChars_cons]
      exact ih hDigits.2 _

theorem skipPrefix_of_ne
    {base : Nat}
    (hBase : base ≠ 16)
    (s : Str) :
    skipPrefix base s = s := by
  unfold skipPrefix
  split
  · rw [if_neg (fun hPrefix => hBase hPrefix.1)]
  · rfl

theorem skipPrefix_of_short
    {s : Str}
    (hShort : s.length < 3)
    (base : Nat) :
    skipPrefix base s = s := by
  unfold skipPrefix
  split
  · simp only [List.length_cons] at hShort
    omega
  · rfl

theorem readSign_of_ne
    {c : Char}
    (hMinus : c ≠ '-')
    (hPlus : c ≠ '+')
    (s : Str) :
    readSign (c :: s) = (false, c :: s) := by
  unfold readSign
  split
  · next hHead =>
    cases hHead
    exact absurd rfl hMinus
  · next hHead =>
    cases hHead
    exact absurd rfl hPlus
  · rfl

/- A text that starts with a digit is read from there. -/
theorem toInt_strtol_of_digits
    {base value : Nat}
    {c : Char}
    {s : Str}
    (hDigit : digit? c = some value)
    (hPrefix : skipPrefix base (c :: s) = c :: s)
    (hFits : readDigits base 0 (c :: s) < 2 ^ 63) :
    (strtol base (c :: s)).toInt =
      readDigits base 0 (c :: s) := by
  rcases not_isSpace_of_digit? hDigit with
    ⟨hSpace, hMinus, hPlus⟩
  have hText : (c :: s).dropWhile isSpace = c :: s :=
    List.dropWhile_cons_of_neg (by simp [hSpace])
  unfold strtol
  rw [hText, readSign_of_ne hMinus hPlus]
  dsimp only
  rw [hPrefix, if_neg Bool.false_ne_true]
  have hLow : Int64.minValue.toInt ≤ 0 := by
    decide
  have hHigh : Int64.maxValue.toInt = 2 ^ 63 - 1 := by
    decide
  exact Int64.toInt_ofIntClamp (by omega) (by omega)

theorem toInt_strtol_pair
    {base x y : Nat}
    {a b : Char}
    (hBase : base ≤ 36)
    (hA : digitValue? base a = some x)
    (hB : digitValue? base b = some y) :
    (strtol base [a, b]).toInt = (base * x + y : Nat) := by
  have hX := (digitValue?_eq_some_iff.mp hA).2
  have hY := (digitValue?_eq_some_iff.mp hB).2
  have hNumber :
      readDigits base 0 [a, b] = base * x + y := by
    simp only [readDigits, hA, hB, Nat.mul_zero,
      Nat.zero_add]
  have hProduct : base * x ≤ 36 * 36 :=
    Nat.mul_le_mul hBase (by omega)
  rw [toInt_strtol_of_digits
    (digitValue?_eq_some_iff.mp hA).1
    (skipPrefix_of_short (by simp) base) (by omega), hNumber]

theorem strtol_of_not_digit
    {base : Nat}
    {c : Char}
    {s : Str}
    (hDigit : digitValue? base c = none)
    (hSpace : isSpace c = false)
    (hMinus : c ≠ '-')
    (hPlus : c ≠ '+')
    (hPrefix : skipPrefix base (c :: s) = c :: s) :
    strtol base (c :: s) = 0 := by
  have hText : (c :: s).dropWhile isSpace = c :: s :=
    List.dropWhile_cons_of_neg (by simp [hSpace])
  unfold strtol
  rw [hText, readSign_of_ne hMinus hPlus]
  dsimp only
  rw [hPrefix, readDigits, hDigit]
  rfl

/- Only the first of the two characters can be a digit. -/
theorem exists_strtol_pair_eq
    {base : Nat}
    {b : Char}
    (hBase : 0 < base)
    (hDigit : digitValue? base b = none)
    (hSpace : isSpace b = false)
    (hMinus : b ≠ '-')
    (hPlus : b ≠ '+')
    (a : Char) :
    ∃ n : Nat,
      n < base ∧ strtol base [a, b] = Int64.ofIntClamp n := by
  have hAlone : readDigits base 0 (skipPrefix base [b]) = 0 := by
    rw [skipPrefix_of_short (by simp) base, readDigits,
      hDigit]
  by_cases hA : isSpace a = true
  · have hRest : [a, b].dropWhile isSpace = [b] := by
      simp [hA, hSpace]
    refine ⟨0, hBase, ?_⟩
    simp [strtol, hRest, readSign_of_ne hMinus hPlus, hAlone]
  · have hRest : [a, b].dropWhile isSpace = [a, b] :=
      List.dropWhile_cons_of_neg hA
    by_cases hANeg : a = '-'
    · subst hANeg
      refine ⟨0, hBase, ?_⟩
      simp [strtol, hRest, readSign, hAlone]
    · by_cases hAPos : a = '+'
      · subst hAPos
        refine ⟨0, hBase, ?_⟩
        simp [strtol, hRest, readSign, hAlone]
      · have hBoth :
            skipPrefix base [a, b] = [a, b] :=
          skipPrefix_of_short (by simp) base
        cases hValue : digitValue? base a with
        | none =>
            refine ⟨0, hBase, ?_⟩
            simp [strtol, hRest, readSign_of_ne hANeg hAPos,
              hBoth, readDigits, hValue]
        | some x =>
            have hX := (digitValue?_eq_some_iff.mp hValue).2
            refine ⟨x, hX, ?_⟩
            simp [strtol, hRest, readSign_of_ne hANeg hAPos,
              hBoth, readDigits, hValue, hDigit]

/- `strtol` reads what `std::to_string` writes. -/
theorem toInt_strtol_decimal
    {n : Nat}
    (hFits : n < 2 ^ 63) :
    (strtol 10 (Text.decimal n)).toInt = n := by
  have hDigits :
      ∀ c ∈ Text.decimal n, c.isDigit = true :=
    fun _ => Text.isDigit_of_mem_decimal
  have hNumber : readDigits 10 0 (Text.decimal n) = n :=
    (readDigits_of_isDigit hDigits 0).trans
      Nat.ofDigitChars_ten_toDigits
  cases hText : Text.decimal n with
  | nil => exact absurd hText Nat.toDigits_ne_nil
  | cons c s =>
      rw [hText] at hNumber hDigits
      have hHead :=
        digitValue?_eq_some_iff.mp
          (digitValue?_of_isDigit (hDigits c List.mem_cons_self))
      rw [toInt_strtol_of_digits hHead.1
        (skipPrefix_of_ne (by decide) _)
        (hNumber.symm ▸ hFits), hNumber]

theorem toInt_atoi_decimal
    {n : Nat}
    (hFits : n < 2 ^ 31) :
    (atoi (Text.decimal n)).toInt = n := by
  have hNumber : (strtol 10 (Text.decimal n)).toInt = n :=
    toInt_strtol_decimal (by omega)
  rw [atoi, Int64.toInt_toInt32, hNumber]
  exact Int.bmod_eq_of_le_mul_two (by omega) (by omega)

end Numeral
