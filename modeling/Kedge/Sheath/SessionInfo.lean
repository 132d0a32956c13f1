import Kedge.Files.HexHash
import Kedge.Library.Numeral
import Kedge.Sheath.SessionStats

/-
  The session information: `sheath::getSessionInfo` and
  `parse_port` of `src/util.cpp`.

  The port is read behind the last colon of the listen
  interfaces. It is converted to an unsigned number of 16
  bits and returned as a signed one, so the upper half of
  the ports is reported as negative numbers.

  Key definitions include:
    * `parsePort`
    * `getSessionInfo`

  Main theorems include:
    * `parse_port_iff`
-/

------------------------------------------------------------
-- The Port and the Information
------------------------------------------------------------

namespace Kedge

namespace Sheath

/-
  `parse_port`. The search and `atoi` work on the C string,
  which ends before a NUL.
-/
def parsePort (addr : Str) : Int16 :=
  if addr = [] then 0
  else
    match Text.rfind ':' (cString addr) with
    | some pos =>
        (Numeral.atoi
          ((cString addr).drop
            (pos + 1))).toUInt32.toUInt16.toInt16
    | none => 0

/- The settings of the session that are shown. -/
structure SessionSettings where
  peerFingerprint : Str
  listenInterfaces : Str

/- `sheath::getSessionInfo`. -/
def getSessionInfo
    (settings : SessionSettings)
    (clock : Clock)
    (dirStore version : Str) : Json.Members :=
  [("peerID".toList, .string settings.peerFingerprint),
    ("peerPort".toList,
      .int64 (parsePort settings.listenInterfaces).toInt64),
    ("listenInterfaces".toList,
      .string settings.listenInterfaces),
    ("uptime".toList, .int64 clock.uptime),
    ("uptimeMs".toList, .int64 clock.uptimeMs),
    ("stored".toList, .string dirStore),
    ("version".toList, .string version)]

end Sheath

end Kedge

------------------------------------------------------------
-- Where the Port Is Read
------------------------------------------------------------

namespace Kedge

namespace Sheath

/- What stands behind the last colon of the C string. -/
def portText (addr : Str) : Str :=
  match Text.rfind ':' (cString addr) with
  | some pos => (cString addr).drop (pos + 1)
  | none => []

/- The number in that text, modulo 2^16. -/
def portNumber (addr : Str) : UInt16 :=
  (Numeral.atoi (portText addr)).toUInt32.toUInt16

theorem parsePort_eq
    (addr : Str) :
    parsePort addr = (portNumber addr).toInt16 := by
  unfold parsePort portNumber portText
  by_cases hEmpty : addr = []
  · subst hEmpty
    rfl
  · rw [if_neg hEmpty]
    cases Text.rfind ':' (cString addr) with
    | none => rfl
    | some pos => rfl

/- A number of 16 bits is positive in its lower half. -/
theorem toInt_toInt16_eq_iff
    (u : UInt16)
    (n : Nat) :
    u.toInt16.toInt = n ↔ n < 2 ^ 15 ∧ u.toNat = n := by
  have hBound := u.toNat_lt
  have hSigned :
      u.toInt16.toInt = (u.toNat : ℤ).bmod (2 ^ 16) :=
    BitVec.toInt_eq_toNat_bmod _
  rw [hSigned]
  by_cases hLow : u.toNat < 2 ^ 15
  · rw [Int.bmod_eq_of_le_mul_two (by omega) (by omega)]
    omega
  · have hNegative :
        (u.toNat : ℤ).bmod (2 ^ 16) = u.toNat - 65536 := by
      rw [← Int.sub_bmod_right]
      exact Int.bmod_eq_of_le_mul_two (by omega) (by omega)
    rw [hNegative]
    omega

/- Behind a host without NUL the port is read. -/
theorem portNumber_of_port
    {host : Str}
    (hPlain : Char.ofNat 0 ∉ host)
    {n : Nat}
    (hPort : n < 2 ^ 16) :
    (portNumber (host ++ ':' :: Text.decimal n)).toNat =
      n := by
  have hNul :
      Char.ofNat 0 ∉ host ++ ':' :: Text.decimal n := by
    rw [List.mem_append, List.mem_cons, not_or, not_or]
    exact ⟨hPlain, by decide,
      Text.not_mem_decimal (by decide) n⟩
  have hText :
      portText (host ++ ':' :: Text.decimal n) =
        Text.decimal n := by
    unfold portText cString
    rw [Text.takeWhile_of_not_mem hNul,
      Text.rfind_append_of_not_mem
        (Text.not_mem_decimal (by decide) n)]
    dsimp only
    rw [List.append_cons]
    exact List.drop_left' (by simp)
  have hAtoi : (Numeral.atoi (Text.decimal n)).toInt = n :=
    Numeral.toInt_atoi_decimal (by omega)
  have hNonneg : 0 ≤ Numeral.atoi (Text.decimal n) := by
    rw [Int32.le_iff_toInt_le, hAtoi]
    exact Int.natCast_nonneg n
  have hUnsigned :
      (Numeral.atoi (Text.decimal n)).toUInt32.toNat = n := by
    rw [Int32.toNat_toUInt32_of_le hNonneg,
      Int32.toNatClampNeg, hAtoi, Int.toNat_natCast]
  rw [portNumber, hText, UInt32.toNat_toUInt16, hUnsigned]
  exact Nat.mod_eq_of_lt hPort

/- Behind a NUL nothing is read. -/
theorem portNumber_of_nul
    {host : Str}
    (hNul : Char.ofNat 0 ∈ host)
    (rest : Str) :
    portNumber (host ++ rest) = portNumber host := by
  unfold portNumber portText cString
  rw [Text.takeWhile_append_of_mem hNul]

end Sheath

end Kedge

------------------------------------------------------------
-- The Reported Port
------------------------------------------------------------

namespace Kedge

namespace Sheath

/-
  The port behind a host is returned and reported exactly
  when it lies in the lower half, and a NUL in the host does
  not hide another port.
-/
theorem parse_port_iff
    (host : Str)
    {n : Nat}
    (hPort : n ≤ 65535)
    {settings : SessionSettings}
    (hInterfaces :
      settings.listenInterfaces =
        host ++ ':' :: Text.decimal n)
    (clock : Clock)
    (dirStore version : Str) :
    ((parsePort (host ++ ':' :: Text.decimal n)).toInt = n ∧
        ∃ port : Int64,
          Json.Value.find
              (getSessionInfo settings clock dirStore version)
              "peerPort".toList =
            some (.int64 port) ∧
          port.toInt = n) ↔
      n < 2 ^ 15 ∧
        (Char.ofNat 0 ∈ host →
          (portNumber host).toNat = n) := by
  have hReported :
      Json.Value.find
          (getSessionInfo settings clock dirStore version)
          "peerPort".toList =
        some (.int64
          (parsePort settings.listenInterfaces).toInt64) :=
    rfl
  have hPortNumber :
      (portNumber (host ++ ':' :: Text.decimal n)).toNat = n ↔
        (Char.ofNat 0 ∈ host →
          (portNumber host).toNat = n) := by
    by_cases hNul : Char.ofNat 0 ∈ host
    · rw [portNumber_of_nul hNul]
      exact ⟨fun hNumber _ => hNumber, fun hAll => hAll hNul⟩
    · have hNumber := portNumber_of_port hNul
        (show n < 2 ^ 16 by omega)
      exact iff_of_true hNumber fun hIn => absurd hIn hNul
  have hParsed :
      (parsePort (host ++ ':' :: Text.decimal n)).toInt = n ↔
        n < 2 ^ 15 ∧
          (Char.ofNat 0 ∈ host →
            (portNumber host).toNat = n) := by
    rw [parsePort_eq, toInt_toInt16_eq_iff, hPortNumber]
  rw [hReported, hInterfaces, ← hParsed]
  constructor
  · rintro ⟨hReturned, _⟩
    exact hReturned
  · intro hReturned
    refine ⟨hReturned, _, rfl, ?_⟩
    rw [Int16.toInt_toInt64, hReturned]

theorem parse_port_iff_default :
    (parsePort ("0.0.0.0".toList ++ ':' ::
        Text.decimal 16188)).toInt = 16188 ∧
      ∃ port : Int64,
        Json.Value.find
            (getSessionInfo
              ⟨"-LT-".toList, "0.0.0.0:16188".toList⟩
              ⟨7, 7000⟩ [] [])
            "peerPort".toList =
          some (.int64 port) ∧
        port.toInt = 16188 :=
  (parse_port_iff "0.0.0.0".toList (by decide) rfl
    ⟨7, 7000⟩ [] []).mpr
    ⟨by decide, fun hNul => absurd hNul (by decide)⟩

/- A port of the upper half is reported as negative. -/
theorem parse_port_negative :
    "0.0.0.0:40000".toList =
        "0.0.0.0".toList ++ ':' :: Text.decimal 40000 ∧
      (parsePort "0.0.0.0:40000".toList).toInt = -25536 ∧
      Json.Value.find
          (getSessionInfo
            ⟨"-LT-".toList, "0.0.0.0:40000".toList⟩
            ⟨7, 7000⟩ [] [])
          "peerPort".toList =
        some (.int64 (-25536)) :=
  ⟨rfl, by decide, rfl⟩

end Sheath

end Kedge
