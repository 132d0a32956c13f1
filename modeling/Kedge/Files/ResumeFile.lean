import Kedge.Files.Util

/-
  The resume file of a torrent.

  `sheath::resume_file` names it after the info-hash, in the
  directory of resume files. Different info-hashes have
  different files.

  Key definitions include:
    * `InfoHash`
    * `toHex`
    * `resumeFile`

  Main theorems include:
    * `toHex_injective`
    * `locate_resumeFile_inj`
-/

------------------------------------------------------------
-- Info-Hashes
------------------------------------------------------------

namespace Kedge

/- `lt::sha1_hash`: twenty bytes. -/
structure InfoHash where
  bytes : List UInt8
  length_bytes : bytes.length = 20
  deriving DecidableEq

/- The two lower-case hexadecimal digits of a byte. -/
def hexByte (byte : UInt8) : Str :=
  [Nat.digitChar (byte.toNat / 16),
    Nat.digitChar (byte.toNat % 16)]

/- `to_hex`: the info-hash as 40 hexadecimal digits. -/
def toHex (ih : InfoHash) : Str :=
  ih.bytes.flatMap hexByte

/- `sheath::dir_resumes`. -/
def dirResumes (dirConf : Str) : Str :=
  pathAppend dirConf resumeDir

/- `sheath::resume_file`. -/
def resumeFile (dirConf : Str) (ih : InfoHash) : Str :=
  pathAppend (dirResumes dirConf) (toHex ih ++ resumeExt)

end Kedge

------------------------------------------------------------
-- Different Hashes Have Different Files
------------------------------------------------------------

namespace Kedge

theorem digitChar_inj
    {m n : Nat}
    (hM : m < 16)
    (hN : n < 16)
    (hEq : Nat.digitChar m = Nat.digitChar n) :
    m = n := by
  have hFin :
      ∀ a b : Fin 16,
        Nat.digitChar a = Nat.digitChar b → a = b := by
    decide
  exact Fin.mk.inj (hFin ⟨m, hM⟩ ⟨n, hN⟩ hEq)

theorem digitChar_ne_separator
    {n : Nat}
    (hN : n < 16) :
    Nat.digitChar n ≠ Posix.separator := by
  have hFin :
      ∀ a : Fin 16,
        Nat.digitChar a ≠ Posix.separator := by
    decide
  exact hFin ⟨n, hN⟩

theorem hexByte_inj
    {a b : UInt8}
    (hEq : hexByte a = hexByte b) :
    a = b := by
  have hA := a.toNat_lt
  have hB := b.toNat_lt
  simp only [hexByte, List.cons.injEq, and_true] at hEq
  have hHigh := digitChar_inj (by omega) (by omega) hEq.1
  have hLow := digitChar_inj (by omega) (by omega) hEq.2
  apply UInt8.toNat_inj.mp
  omega

theorem flatMap_hexByte_inj
    {xs ys : List UInt8}
    (hEq : xs.flatMap hexByte = ys.flatMap hexByte) :
    xs = ys := by
  induction xs generalizing ys with
  | nil =>
      cases ys with
      | nil => rfl
      | cons y ys => simp [hexByte] at hEq
  | cons x xs ih =>
      cases ys with
      | nil => simp [hexByte] at hEq
      | cons y ys =>
          rw [List.flatMap_cons, List.flatMap_cons] at hEq
          rcases List.append_inj hEq rfl with ⟨hHead, hTail⟩
          rw [hexByte_inj hHead, ih hTail]

theorem toHex_injective : Function.Injective toHex := by
  intro a b hEq
  rcases a with ⟨xs, hXs⟩
  rcases b with ⟨ys, hYs⟩
  have hBytes : xs = ys := flatMap_hexByte_inj hEq
  subst hBytes
  rfl

theorem separator_not_mem_toHex
    (ih : InfoHash) :
    Posix.separator ∉ toHex ih := by
  intro hMember
  rcases List.mem_flatMap.mp hMember with
    ⟨byte, _, hDigit⟩
  have hByte := byte.toNat_lt
  simp only [hexByte, List.mem_cons, List.not_mem_nil,
    or_false] at hDigit
  rcases hDigit with hHigh | hLow
  · exact digitChar_ne_separator (by omega) hHigh.symm
  · exact digitChar_ne_separator (by omega) hLow.symm

theorem isName_resumeName
    (ih : InfoHash) :
    Posix.IsName (toHex ih ++ resumeExt) := by
  apply Posix.isName_of_length
  · rw [List.length_append]
    exact Nat.lt_add_left (toHex ih).length (by decide)
  · rw [List.mem_append]
    rintro (hIn | hIn)
    · exact separator_not_mem_toHex ih hIn
    · exact absurd hIn (by decide)

/- The last name of the file is the hash with its suffix. -/
theorem getLast?_normalize_resumeFile
    (dirConf : Str)
    (ih : InfoHash) :
    (Posix.normalize (resumeFile dirConf ih)).getLast? =
      some (toHex ih ++ resumeExt) := by
  have hName := isName_resumeName ih
  exact Posix.getLast?_normalize hName
    (pathAppend_of_isName hName (dirResumes dirConf))

theorem locate_resumeFile_inj
    {dirConf : Str}
    {a b : InfoHash}
    (hEq :
      Posix.locate (resumeFile dirConf a) =
        Posix.locate (resumeFile dirConf b)) :
    a = b := by
  have hNames := congrArg Posix.Location.names hEq
  change
    Posix.normalize (resumeFile dirConf a) =
      Posix.normalize (resumeFile dirConf b) at hNames
  have hLast := getLast?_normalize_resumeFile dirConf a
  rw [hNames, getLast?_normalize_resumeFile,
    Option.some.injEq] at hLast
  exact
    (toHex_injective (List.append_cancel_right hLast)).symm

end Kedge
