import Kedge.Files.ResumeFile

/-
  The text of an info-hash: `to_hex`, `from_hex` and
  `is_resume_file` of `src/util.cpp`.

  Info-hashes are written with lower-case digits and read in
  either case. The names that `load_resumes` takes for
  resume files are those that `resume_file` gives them. How
  `libtorrent` reads a hash is a parameter.

  Key definitions include:
    * `fromHex`
    * `ReadsHash`
    * `isResumeFile`

  Main theorems include:
    * `fromHex_eq_some_iff`
    * `isResumeFile_iff`
    * `hex_names_biject`
-/

------------------------------------------------------------
-- Reading an Info-Hash
------------------------------------------------------------

namespace Kedge

/- The characters of `c_str()`: those before a NUL. -/
def cString (s : Str) : Str :=
  s.takeWhile (· ≠ Char.ofNat 0)

/- `from_hex`, with `operator>>` of `lt::sha1_hash`. -/
def fromHex
    (readHash : Str → Option InfoHash)
    (s : Str) : Option InfoHash :=
  if s.length ≠ 40 then none else readHash (cString s)

/- The digits of an info-hash, in either case. -/
def Spells (digits : Str) (ih : InfoHash) : Prop :=
  digits.map Char.toLower = toHex ih

/- `operator>>` reads 40 hexadecimal digits. -/
def ReadsHash (readHash : Str → Option InfoHash) : Prop :=
  ∀ text ih,
    readHash text = some ih ↔
      ∃ digits rest, text = digits ++ rest ∧ Spells digits ih

theorem length_toHex
    (ih : InfoHash) :
    (toHex ih).length = 40 := by
  have hTwo :
      ∀ bytes : List UInt8,
        (bytes.flatMap hexByte).length =
          2 * bytes.length := by
    intro bytes
    induction bytes with
    | nil => rfl
    | cons byte bytes hRest =>
        rw [List.flatMap_cons, List.length_append, hRest,
          List.length_cons]
        simp only [hexByte, List.length_cons,
          List.length_nil]
        omega
  rw [toHex, hTwo, ih.length_bytes]

theorem Spells.length_eq
    {digits : Str}
    {ih : InfoHash}
    (hSpells : Spells digits ih) :
    digits.length = 40 := by
  have hLength := congrArg List.length hSpells
  rwa [List.length_map, length_toHex] at hLength

/- A digit is not the character that ends a C string. -/
theorem Spells.no_nul
    {digits : Str}
    {ih : InfoHash}
    (hSpells : Spells digits ih) :
    Char.ofNat 0 ∉ digits := by
  intro hIn
  have hLower :
      (Char.ofNat 0).toLower ∈ digits.map Char.toLower :=
    List.mem_map_of_mem hIn
  have hFin :
      ∀ a : Fin 16, Nat.digitChar a ≠ Char.ofNat 0 := by
    decide
  rw [hSpells] at hLower
  rcases List.mem_flatMap.mp hLower with ⟨byte, _, hDigit⟩
  have hByte := byte.toNat_lt
  simp only [hexByte, List.mem_cons, List.not_mem_nil,
    or_false] at hDigit
  rcases hDigit with hHigh | hLow
  · exact hFin ⟨byte.toNat / 16, by omega⟩ hHigh.symm
  · exact hFin ⟨byte.toNat % 16, by omega⟩ hLow.symm

/- `from_hex` accepts exactly the forty digits of a hash. -/
theorem fromHex_eq_some_iff
    {readHash : Str → Option InfoHash}
    (hReads : ReadsHash readHash)
    (s : Str)
    (ih : InfoHash) :
    fromHex readHash s = some ih ↔ Spells s ih := by
  unfold fromHex
  constructor
  · intro hRead
    rcases Option.ite_none_left_eq_some.mp hRead with
      ⟨hLength, hText⟩
    rcases (hReads _ ih).mp hText with
      ⟨digits, rest, hSplit, hSpells⟩
    -- Nothing is left of the forty characters.
    have hPrefix : digits <+: s :=
      (List.prefix_append digits rest).trans
        (hSplit ▸ List.takeWhile_prefix _)
    have hSame : digits = s :=
      hPrefix.eq_of_length
        (hSpells.length_eq.trans (not_not.mp hLength).symm)
    rw [← hSame]
    exact hSpells
  · intro hSpells
    have hText : cString s = s :=
      Text.takeWhile_of_not_mem hSpells.no_nul
    rw [if_neg (not_not.mpr hSpells.length_eq), hText]
    exact (hReads s ih).mpr
      ⟨s, [], (List.append_nil s).symm, hSpells⟩

end Kedge

------------------------------------------------------------
-- A Reader of Hashes
------------------------------------------------------------

namespace Kedge

def hexValue? (c : Char) : Option Nat :=
  (List.range 16).find? fun d => Nat.digitChar d = c

/- Two lower-case digits for every byte. -/
def decodeHex : Str → Option (List UInt8)
  | [] => some []
  | [_] => none
  | high :: low :: rest =>
      match hexValue? high, hexValue? low, decodeHex rest with
      | some x, some y, some bytes =>
          some (UInt8.ofNat (16 * x + y) :: bytes)
      | _, _, _ => none

/- Forty digits are read, and what follows is left. -/
def readSha1 (text : Str) : Option InfoHash :=
  match decodeHex ((text.take 40).map Char.toLower) with
  | some bytes =>
      if hLength : bytes.length = 20 then
        some ⟨bytes, hLength⟩
      else none
  | none => none

theorem hexValue?_digitChar
    {d : Nat}
    (hD : d < 16) :
    hexValue? (Nat.digitChar d) = some d := by
  have hFin :
      ∀ a : Fin 16,
        hexValue? (Nat.digitChar a) = some a.val := by
    decide
  exact hFin ⟨d, hD⟩

theorem hexValue?_eq_some
    {c : Char}
    {d : Nat}
    (hValue : hexValue? c = some d) :
    d < 16 ∧ c = Nat.digitChar d := by
  constructor
  · exact List.mem_range.mp (List.mem_of_find?_eq_some hValue)
  · have hDigit := List.find?_some hValue
    exact (of_decide_eq_true hDigit).symm

theorem hexByte_ofNat
    {x y : Nat}
    (hX : x < 16)
    (hY : y < 16) :
    hexByte (UInt8.ofNat (16 * x + y)) =
      [Nat.digitChar x, Nat.digitChar y] := by
  have hByte : (UInt8.ofNat (16 * x + y)).toNat = 16 * x + y :=
    UInt8.toNat_ofNat_of_lt (by unfold UInt8.size; omega)
  have hHigh : (16 * x + y) / 16 = x := by omega
  have hLow : (16 * x + y) % 16 = y := by omega
  rw [hexByte, hByte, hHigh, hLow]

theorem decodeHex_eq_some_iff
    (s : Str)
    (bytes : List UInt8) :
    decodeHex s = some bytes ↔ s = bytes.flatMap hexByte := by
  constructor
  · intro hDecode
    induction s using decodeHex.induct generalizing bytes with
    | case1 =>
        cases hDecode
        rfl
    | case2 => cases hDecode
    | case3 high low rest x y others hOthers hY hX hRest =>
        simp only [decodeHex, hX, hY, hOthers,
          Option.some.injEq] at hDecode
        rcases hexValue?_eq_some hX with ⟨hXLt, rfl⟩
        rcases hexValue?_eq_some hY with ⟨hYLt, rfl⟩
        rw [← hDecode, List.flatMap_cons,
          hexByte_ofNat hXLt hYLt, ← hRest others hOthers]
        rfl
    | case4 high low rest hNone hRest =>
        unfold decodeHex at hDecode
        split at hDecode
        · next x y others hX hY hOthers =>
          exact (hNone x y others hX hY hOthers).elim
        · cases hDecode
  · rintro rfl
    induction bytes with
    | nil => rfl
    | cons byte bytes hRest =>
        have hByte := byte.toNat_lt
        have hWhole :
            16 * (byte.toNat / 16) + byte.toNat % 16 =
              byte.toNat := by
          omega
        rw [List.flatMap_cons, hexByte]
        simp only [List.cons_append, List.nil_append,
          decodeHex, hRest,
          hexValue?_digitChar
            (show byte.toNat / 16 < 16 by omega),
          hexValue?_digitChar
            (show byte.toNat % 16 < 16 by omega),
          hWhole, UInt8.ofNat_toNat]

/- The reader reads what the digits spell. -/
theorem readsHash_readSha1 : ReadsHash readSha1 := by
  intro text ih
  unfold readSha1
  constructor
  · intro hRead
    split at hRead
    · next bytes hDecode =>
      rcases Option.dite_none_right_eq_some.mp hRead with
        ⟨hLength, hHash⟩
      cases hHash
      refine ⟨text.take 40, text.drop 40, ?_, ?_⟩
      · exact (List.take_append_drop 40 text).symm
      · exact (decodeHex_eq_some_iff _ bytes).mp hDecode
    · cases hRead
  · rintro ⟨digits, rest, rfl, hSpells⟩
    have hTake : (digits ++ rest).take 40 = digits :=
      List.take_left' hSpells.length_eq
    have hDecode :
        decodeHex (digits.map Char.toLower) =
          some ih.bytes :=
      (decodeHex_eq_some_iff _ ih.bytes).mpr hSpells
    rw [hTake, hDecode]
    exact dif_pos ih.length_bytes

end Kedge

------------------------------------------------------------
-- Names of Resume Files
------------------------------------------------------------

namespace Kedge

/- The digits `is_resume_file` accepts. -/
def hexDigit : Str := "0123456789abcdef".toList

/-
  `is_resume_file`. The test of the length keeps both calls
  of `substr` in range.
-/
def isResumeFile (s : Str) : Bool :=
  if s.length ≠ 40 + 7 then false
  else if s.drop 40 ≠ ".resume".toList then false
  else
    (s.take 40).all fun c => (Text.find [c] hexDigit).isSome

theorem isSome_find_hexDigit_iff
    (c : Char) :
    (Text.find [c] hexDigit).isSome ↔ c ∈ hexDigit := by
  rw [Text.isSome_find_iff, List.singleton_infix_iff]

theorem digitChar_mem_hexDigit
    {n : Nat}
    (hN : n < 16) :
    Nat.digitChar n ∈ hexDigit := by
  have hFin :
      ∀ a : Fin 16, Nat.digitChar a ∈ hexDigit := by
    decide
  exact hFin ⟨n, hN⟩

theorem exists_digitChar_of_mem
    {c : Char}
    (hC : c ∈ hexDigit) :
    ∃ n, n < 16 ∧ c = Nat.digitChar n := by
  have hAll :
      hexDigit.all (fun c => (hexValue? c).isSome) = true := by
    decide
  have hSome := List.all_eq_true.mp hAll c hC
  rcases Option.isSome_iff_exists.mp hSome with ⟨n, hValue⟩
  exact ⟨n, hexValue?_eq_some hValue⟩

theorem mem_hexDigit_of_mem_toHex
    {c : Char}
    {ih : InfoHash}
    (hC : c ∈ toHex ih) :
    c ∈ hexDigit := by
  rcases List.mem_flatMap.mp hC with ⟨byte, _, hDigit⟩
  have hByte := byte.toNat_lt
  simp only [hexByte, List.mem_cons, List.not_mem_nil,
    or_false] at hDigit
  rcases hDigit with rfl | rfl
  · exact digitChar_mem_hexDigit (by omega)
  · exact digitChar_mem_hexDigit (by omega)

/- An even number of digits is the text of some bytes. -/
theorem exists_bytes_of_digits
    (n : Nat)
    {digits : Str}
    (hLength : digits.length = 2 * n)
    (hDigits : ∀ c ∈ digits, c ∈ hexDigit) :
    ∃ bytes : List UInt8,
      bytes.length = n ∧ digits = bytes.flatMap hexByte := by
  induction n generalizing digits with
  | zero =>
      exact ⟨[], rfl, List.eq_nil_of_length_eq_zero hLength⟩
  | succ n ih =>
      match digits with
      | [] => simp at hLength
      | [_] =>
          rw [List.length_singleton] at hLength
          omega
      | high :: low :: rest =>
          rw [List.forall_mem_cons, List.forall_mem_cons]
            at hDigits
          rcases hDigits with ⟨hHigh, hLow, hRest⟩
          have hCount : rest.length = 2 * n := by
            simp only [List.length_cons] at hLength
            omega
          rcases ih hCount hRest with ⟨bytes, hBytes, rfl⟩
          rcases exists_digitChar_of_mem hHigh with
            ⟨x, hX, rfl⟩
          rcases exists_digitChar_of_mem hLow with
            ⟨y, hY, rfl⟩
          refine ⟨UInt8.ofNat (16 * x + y) :: bytes, ?_, ?_⟩
          · rw [List.length_cons, hBytes]
          · rw [List.flatMap_cons, hexByte_ofNat hX hY]
            rfl

/- The accepted names are those of `resume_file`. -/
theorem isResumeFile_iff
    (s : Str) :
    isResumeFile s = true ↔
      ∃ ih, s = toHex ih ++ resumeExt := by
  unfold isResumeFile
  constructor
  · intro hAccepted
    split at hAccepted
    · cases hAccepted
    · next hLength =>
      split at hAccepted
      · cases hAccepted
      · next hSuffix =>
        rw [List.all_eq_true] at hAccepted
        have hCount : (s.take 40).length = 2 * 20 := by
          rw [List.length_take]
          omega
        have hDigits :
            ∀ c ∈ s.take 40, c ∈ hexDigit :=
          fun c hC =>
            (isSome_find_hexDigit_iff c).mp
              (hAccepted c hC)
        rcases exists_bytes_of_digits 20 hCount hDigits with
          ⟨bytes, hBytes, hText⟩
        refine ⟨⟨bytes, hBytes⟩, ?_⟩
        calc
          s = s.take 40 ++ s.drop 40 :=
            (List.take_append_drop 40 s).symm
          _ = bytes.flatMap hexByte ++ resumeExt := by
            rw [hText, not_not.mp hSuffix]
            rfl
  · rintro ⟨ih, rfl⟩
    have hLength :
        (toHex ih ++ resumeExt).length = 40 + 7 := by
      rw [List.length_append, length_toHex]
      rfl
    have hTake :
        (toHex ih ++ resumeExt).take 40 = toHex ih :=
      List.take_left' (length_toHex ih)
    have hDrop :
        (toHex ih ++ resumeExt).drop 40 = resumeExt :=
      List.drop_left' (length_toHex ih)
    have hSuffix : resumeExt = ".resume".toList := rfl
    rw [if_neg (not_not.mpr hLength), hDrop, hTake,
      if_neg (not_not.mpr hSuffix), List.all_eq_true]
    intro c hC
    exact (isSome_find_hexDigit_iff c).mpr
      (mem_hexDigit_of_mem_toHex hC)

end Kedge

------------------------------------------------------------
-- Hashes and Their Names
------------------------------------------------------------

namespace Kedge

/- The digits of a hash are read in either case. -/
theorem map_toLower_toHex
    (ih : InfoHash) :
    (toHex ih).map Char.toLower = toHex ih := by
  have hLower :
      hexDigit.all (fun c => c.toLower == c) = true := by
    decide
  have hSame :
      ∀ c ∈ toHex ih, c.toLower = id c := by
    intro c hC
    have hDigit :=
      List.all_eq_true.mp hLower c
        (mem_hexDigit_of_mem_toHex hC)
    exact eq_of_beq hDigit
  rw [List.map_congr_left hSame, List.map_id]

/- A readable text consists of digits in either case. -/
theorem Spells.mem_hexDigit
    {digits : Str}
    {ih : InfoHash}
    {c : Char}
    (hSpells : Spells digits ih)
    (hC : c ∈ digits) :
    c.toLower ∈ hexDigit := by
  apply mem_hexDigit_of_mem_toHex
  rw [← hSpells]
  exact List.mem_map_of_mem hC

/-
  Hashes, their digits and the names of their resume files
  determine each other, and nothing else is read as a hash.
-/
theorem hex_names_biject
    {readHash : Str → Option InfoHash}
    (hReads : ReadsHash readHash) :
    (∀ ih,
      fromHex readHash (toHex ih) = some ih ∧
        isResumeFile (toHex ih ++ ".resume".toList) =
          true) ∧
    (∀ s, isResumeFile s = true →
      ∃! ih, s = toHex ih ++ ".resume".toList) ∧
    (∀ s ih, fromHex readHash s = some ih →
      toHex ih = s.map Char.toLower) ∧
    ∀ s,
      s.length ≠ 40 ∨ Char.ofNat 0 ∈ s ∨
          (∃ c ∈ s, c.toLower ∉ hexDigit) →
        fromHex readHash s = none := by
  refine ⟨?_, ?_, ?_, ?_⟩
  · intro ih
    constructor
    · exact (fromHex_eq_some_iff hReads _ ih).mpr
        (map_toLower_toHex ih)
    · exact (isResumeFile_iff _).mpr ⟨ih, rfl⟩
  · intro s hAccepted
    rcases (isResumeFile_iff s).mp hAccepted with ⟨ih, hName⟩
    refine ⟨ih, hName, ?_⟩
    intro other hOther
    apply toHex_injective
    exact List.append_cancel_right (hOther.symm.trans hName)
  · intro s ih hRead
    have hSpells := (fromHex_eq_some_iff hReads s ih).mp hRead
    exact hSpells.symm
  · intro s hForeign
    rw [Option.eq_none_iff_forall_ne_some]
    intro ih hRead
    have hSpells := (fromHex_eq_some_iff hReads s ih).mp hRead
    rcases hForeign with hLength | hNul | ⟨c, hC, hOther⟩
    · exact hLength hSpells.length_eq
    · exact hSpells.no_nul hNul
    · exact hOther (hSpells.mem_hexDigit hC)

theorem hex_names_biject_capitals :
    ∃ ih,
      fromHex readSha1 (List.replicate 40 'A') = some ih ∧
        toHex ih = List.replicate 40 'a' := by
  have hBiject := hex_names_biject readsHash_readSha1
  have hRead :
      (fromHex readSha1 (List.replicate 40 'A')).isSome =
        true := by
    decide
  rcases Option.isSome_iff_exists.mp hRead with ⟨ih, hHash⟩
  exact ⟨ih, hHash, hBiject.2.2.1 _ ih hHash⟩

end Kedge
