import Kedge.Files.HexHash
import Kedge.Library.Numeral
import Kedge.Sync.Caller

/-
  The id of a websocket client: `query_arg_one` and
  `url_decode` of `http_util.hpp`, as `run` calls them.

  The id is taken from the target of the upgrade request and
  sent back by `join`. The value of a query argument is cut
  out with the position of the next `&` as its length, and
  the cut reaches behind the value when there is such a
  character. The decoder undoes every way of encoding a
  form.

  Key definitions include:
    * `urlDecode`
    * `FormEncodes`
    * `queryArgOne`
    * `clientId`

  Main theorems include:
    * `url_decode_encoded`
    * `query_arg_exact_iff`
-/

------------------------------------------------------------
-- Decoding
------------------------------------------------------------

namespace Kedge

namespace WebSocket

/- `static_cast<char>` of a `long`. -/
def toChar (number : Int64) : Char :=
  Char.ofNat number.toUInt64.toUInt8.toNat

/- The byte that two characters behind a `%` stand for. -/
def escaped (high low : Char) : Char :=
  toChar (Numeral.strtol 16 (cString [high, low]))

/-
  `url_decode` from a position of the loop on. An escape
  needs two more characters.
-/
def urlDecode : Str → Str
  | [] => []
  | '%' :: high :: low :: s =>
      escaped high low :: urlDecode s
  | '+' :: s => ' ' :: urlDecode s
  | c :: s => c :: urlDecode s

/-
  The encodings of a byte string: each byte is escaped with
  two digits in any case, or is itself unless it has a
  meaning, and a space may be a `+`.
-/
inductive FormEncodes : Str → Str → Prop where
  | nil : FormEncodes [] []
  | escape
      {byte : UInt8}
      {high low : Char}
      {s e : Str}
      (hDigits :
        [high, low].map Char.toLower = hexByte byte)
      (hRest : FormEncodes s e) :
      FormEncodes (Char.ofNat byte.toNat :: s)
        ('%' :: high :: low :: e)
  | plus
      {s e : Str}
      (hRest : FormEncodes s e) :
      FormEncodes (' ' :: s) ('+' :: e)
  | literal
      {c : Char}
      {s e : Str}
      (hPercent : c ≠ '%')
      (hPlus : c ≠ '+')
      (hRest : FormEncodes s e) :
      FormEncodes (c :: s) (c :: e)

theorem urlDecode_escape
    (high low : Char)
    (s : Str) :
    urlDecode ('%' :: high :: low :: s) =
      escaped high low :: urlDecode s := by
  rfl

theorem urlDecode_plus
    (s : Str) :
    urlDecode ('+' :: s) = ' ' :: urlDecode s := by
  rw [urlDecode]

theorem urlDecode_literal
    {c : Char}
    (hPercent : c ≠ '%')
    (hPlus : c ≠ '+')
    (s : Str) :
    urlDecode (c :: s) = c :: urlDecode s := by
  rw [urlDecode]
  · rintro high low rest hC
    exact absurd hC hPercent
  · exact hPlus

/- A number below 2^63 is cut to its last byte. -/
theorem toChar_of_toInt
    {number : Int64}
    {n : Nat}
    (hNumber : number.toInt = n) :
    toChar number = Char.ofNat (n % 256) := by
  have hNonneg : 0 ≤ number := by
    rw [Int64.le_iff_toInt_le, hNumber]
    exact Int.natCast_nonneg n
  have hUnsigned : number.toUInt64.toNat = n := by
    rw [Int64.toNat_toUInt64_of_le hNonneg,
      Int64.toNatClampNeg, hNumber, Int.toNat_natCast]
  rw [toChar, UInt64.toNat_toUInt8, hUnsigned]

/- A hexadecimal digit is not the end of a C string. -/
theorem ne_nul_of_digitValue?
    {base value : Nat}
    {c : Char}
    (hDigit : Numeral.digitValue? base c = some value) :
    Char.ofNat 0 ≠ c := by
  rintro rfl
  cases (Numeral.digitValue?_eq_some_iff.mp hDigit).1

/- Two digits stand for the byte they spell. -/
theorem escaped_of_digits
    {byte : UInt8}
    {high low : Char}
    (hDigits :
      [high, low].map Char.toLower = hexByte byte) :
    escaped high low = Char.ofNat byte.toNat := by
  have hByte := byte.toNat_lt
  simp only [List.map_cons, List.map_nil, hexByte,
    List.cons.injEq, and_true] at hDigits
  have hHigh :=
    Numeral.digitValue?_of_toLower
      (show byte.toNat / 16 < 16 by omega) hDigits.1
  have hLow :=
    Numeral.digitValue?_of_toLower
      (show byte.toNat % 16 < 16 by omega) hDigits.2
  have hPlain : Char.ofNat 0 ∉ [high, low] := by
    intro hIn
    rcases List.mem_pair.mp hIn with hNul | hNul
    · exact ne_nul_of_digitValue? hHigh hNul
    · exact ne_nul_of_digitValue? hLow hNul
  have hText : cString [high, low] = [high, low] :=
    Text.takeWhile_of_not_mem hPlain
  have hNumber :
      (Numeral.strtol 16 [high, low]).toInt =
        (16 * (byte.toNat / 16) + byte.toNat % 16 : Nat) :=
    Numeral.toInt_strtol_pair (by decide) hHigh hLow
  rw [escaped, hText, toChar_of_toInt hNumber]
  congr 1
  omega

/-
  Every encoding of a byte string is decoded to it. The
  induction is over the pieces of the encoding.
-/
theorem url_decode_encoded
    {s e : Str}
    (hEncodes : FormEncodes s e) :
    urlDecode e = s := by
  induction hEncodes with
  | nil => rfl
  | escape hDigits _ ih =>
      rw [urlDecode_escape, escaped_of_digits hDigits, ih]
  | plus _ ih => rw [urlDecode_plus, ih]
  | literal hPercent hPlus _ ih =>
      rw [urlDecode_literal hPercent hPlus, ih]

/- The bytes 0x00 and 0xFF, a space, and an escape behind. -/
theorem url_decode_encoded_bytes :
    urlDecode "%00%fF+a%2F".toList =
      [Char.ofNat 0, Char.ofNat 255, ' ', 'a', '/'] := by
  apply url_decode_encoded
  apply @FormEncodes.escape 0 '0' '0' _ _ rfl
  apply @FormEncodes.escape 255 'f' 'F' _ _ rfl
  apply FormEncodes.plus
  apply FormEncodes.literal (by decide) (by decide)
  exact @FormEncodes.escape 47 '2' 'F' _ _ rfl .nil

end WebSocket

end Kedge

------------------------------------------------------------
-- Query Arguments
------------------------------------------------------------

namespace Kedge

namespace WebSocket

/-
  `query_arg_one`. The second argument of `substr` is a
  length, and a length of `npos` reaches to the end.
-/
def queryArgOne (uri keypre : Str) : Option Str :=
  match Text.find keypre uri with
  | none => some []
  | some pos =>
      Text.substr uri (pos + keypre.length)
        ((Text.findFrom ['&'] uri pos).getD uri.length)

def idKey : Str := "id=".toList

/- `qid_` after `websocket_session::run`. -/
def clientId (target : Str) : Option Str :=
  (queryArgOne target idKey).map urlDecode

theorem length_idKey : idKey.length = 3 := by
  decide

/- The cut starts at the value and is that long. -/
theorem queryArgOne_of_find
    {pre rest : Str}
    {next : Option Nat}
    (hFirst :
      Text.find idKey (pre ++ (idKey ++ rest)) =
        some pre.length)
    (hNext : Text.find ['&'] (idKey ++ rest) = next) :
    queryArgOne (pre ++ (idKey ++ rest)) idKey =
      some
        (rest.take
          ((next.map (· + pre.length)).getD
            (pre.length + (3 + rest.length)))) := by
  have hStart :
      pre.length ≤ (pre ++ (idKey ++ rest)).length := by
    rw [List.length_append]
    omega
  have hValue :
      pre.length + idKey.length ≤
        (pre ++ (idKey ++ rest)).length := by
    rw [List.length_append, List.length_append]
    omega
  have hRest :
      (pre ++ (idKey ++ rest)).drop
          (pre.length + idKey.length) = rest := by
    rw [← List.append_assoc]
    exact List.drop_left' List.length_append
  unfold queryArgOne Text.findFrom Text.substr
  rw [hFirst]
  dsimp only
  rw [if_pos hStart, if_pos hValue, hRest,
    List.drop_left' rfl, hNext, List.length_append,
    List.length_append, length_idKey]

section

variable {pre v : Str}

/- Behind the last argument the cut ends with the target. -/
theorem queryArgOne_of_last
    (hFirst :
      Text.find idKey (pre ++ (idKey ++ v)) =
        some pre.length)
    (hValue : '&' ∉ v) :
    queryArgOne (pre ++ (idKey ++ v)) idKey = some v := by
  have hPlain : '&' ∉ idKey ++ v := by
    rw [List.mem_append, not_or]
    exact ⟨by decide, hValue⟩
  rw [queryArgOne_of_find hFirst
    (Text.find_singleton_of_not_mem hPlain)]
  congr 1
  exact List.take_of_length_le (by simp; omega)

/- Otherwise it is too long by the position of the value. -/
theorem queryArgOne_of_more
    {tail : Str}
    (hFirst :
      Text.find idKey
          (pre ++ (idKey ++ (v ++ '&' :: tail))) =
        some pre.length)
    (hValue : '&' ∉ v) :
    queryArgOne (pre ++ (idKey ++ (v ++ '&' :: tail)))
        idKey =
      some (v ++ '&' :: tail.take (pre.length + 2)) := by
  have hPlain : '&' ∉ idKey ++ v := by
    rw [List.mem_append, not_or]
    exact ⟨by decide, hValue⟩
  have hNext :
      Text.find ['&'] (idKey ++ (v ++ '&' :: tail)) =
        some (3 + v.length) := by
    rw [← List.append_assoc,
      Text.find_singleton_append hPlain,
      List.length_append, length_idKey]
  have hCount :
      3 + v.length + pre.length =
        v.length + (pre.length + 2 + 1) := by
    omega
  rw [queryArgOne_of_find hFirst hNext, Option.map_some,
    Option.getD_some, hCount, List.take_length_add_append,
    List.take_succ_cons]

end

end WebSocket

end Kedge

------------------------------------------------------------
-- The Id That Is Sent Back
------------------------------------------------------------

namespace Kedge

namespace WebSocket

theorem urlDecode_ne_nil
    (c : Char)
    (s : Str) :
    urlDecode (c :: s) ≠ [] := by
  unfold urlDecode
  split
  · next hText => cases hText
  · simp
  · simp
  · simp

/- A `&` behind the `%` is no digit. -/
theorem escaped_separator_left
    (c : Char) :
    escaped '&' c ≠ '%' := by
  have hText : cString ['&', c] = '&' :: cString [c] :=
    List.takeWhile_cons_of_pos (by decide)
  have hShort : (cString [c]).length ≤ 1 :=
    (List.takeWhile_sublist _).length_le
  have hPrefix :
      Numeral.skipPrefix 16 ('&' :: cString [c]) =
        '&' :: cString [c] :=
    Numeral.skipPrefix_of_short
      (by rw [List.length_cons]; omega) 16
  rw [escaped, hText,
    Numeral.strtol_of_not_digit (by rfl) (by decide)
      (by decide) (by decide) hPrefix]
  decide

/- One digit before a `&` stands for less than 16. -/
theorem escaped_separator_right
    (c : Char) :
    escaped c '&' ≠ '%' := by
  by_cases hNul : c = Char.ofNat 0
  · subst hNul
    decide
  · have hPlain : Char.ofNat 0 ∉ [c, '&'] := by
      intro hIn
      rcases List.mem_pair.mp hIn with hC | hSeparator
      · exact hNul hC.symm
      · exact absurd hSeparator (by decide)
    have hText : cString [c, '&'] = [c, '&'] :=
      Text.takeWhile_of_not_mem hPlain
    rcases @Numeral.exists_strtol_pair_eq 16 '&' (by decide)
        (by rfl) (by decide) (by decide) (by decide) c with
      ⟨n, hN, hNumber⟩
    have hFits : (Int64.ofIntClamp n).toInt = n := by
      have hLow : Int64.minValue.toInt ≤ 0 := by
        decide
      have hHigh : 16 ≤ Int64.maxValue.toInt := by
        decide
      exact Int64.toInt_ofIntClamp (by omega) (by omega)
    have hSmall :
        ∀ k : Fin 16, Char.ofNat (k.val % 256) ≠ '%' := by
      decide
    rw [escaped, hText, hNumber, toChar_of_toInt hFits]
    exact hSmall ⟨n, hN⟩

/- More of the target shows in what is decoded. -/
theorem urlDecode_separator_ne
    (v tail : Str) :
    urlDecode (v ++ '&' :: tail) ≠ urlDecode v := by
  induction v using urlDecode.induct with
  | case1 => exact urlDecode_ne_nil '&' tail
  | case2 high low s ih =>
      intro hSame
      exact ih (List.cons.inj hSame).2
  | case3 s ih =>
      rw [List.cons_append, urlDecode_plus, urlDecode_plus]
      intro hSame
      exact ih (List.cons.inj hSame).2
  | case4 c s hEscape hPlus ih =>
      by_cases hPercent : c = '%'
      · -- An escape is cut off by the end of the value.
        subst hPercent
        match s with
        | [] =>
            cases tail with
            | nil => decide
            | cons d tail =>
                intro hSame
                exact escaped_separator_left d
                  (List.cons.inj hSame).1
        | [d] =>
            intro hSame
            exact escaped_separator_right d
              (List.cons.inj hSame).1
        | high :: low :: rest =>
            exact absurd rfl (hEscape high low rest rfl)
      · rw [List.cons_append,
          urlDecode_literal hPercent hPlus,
          urlDecode_literal hPercent hPlus]
        intro hSame
        exact ih (List.cons.inj hSame).2

/-
  A value that is followed by nothing or by `&` is cut out
  exactly when nothing follows. Then its decoding is the id
  of the client, and `join` sends back an id that is not
  empty; otherwise neither is the case.
-/
theorem query_arg_exact_iff
    (pre v rest : Str)
    (hFirst :
      Text.find idKey (pre ++ (idKey ++ (v ++ rest))) =
        some pre.length)
    (hValue : '&' ∉ v)
    (hRest : rest = [] ∨ rest.head? = some '&') :
    let uri := pre ++ (idKey ++ (v ++ rest))
    (queryArgOne uri idKey = some v ↔ rest = []) ∧
      (clientId uri = some (urlDecode v) ↔ rest = []) ∧
      ∀ {D P : Type} (f : Sync.Format D P)
        (s : Sync.Caller D P) (random : Nat) (stats : D),
        urlDecode v ≠ [] →
          ((∃ qid,
            clientId uri = some qid ∧
              s.joinMessage f qid random stats =
                .snapshot (s.syncVer + 1) (urlDecode v)
                  (s.statsForJoin f stats)) ↔
            rest = []) := by
  intro uri
  rcases hRest with rfl | hHead
  · have hUri : uri = pre ++ (idKey ++ v) := by
      simp only [uri, List.append_nil]
    rw [List.append_nil] at hFirst
    have hArg : queryArgOne uri idKey = some v := by
      rw [hUri]
      exact queryArgOne_of_last hFirst hValue
    have hId : clientId uri = some (urlDecode v) := by
      rw [clientId, hArg, Option.map_some]
    refine ⟨iff_of_true hArg rfl, iff_of_true hId rfl, ?_⟩
    intro D P f s random stats hShown
    apply iff_of_true _ rfl
    refine ⟨urlDecode v, hId, ?_⟩
    rw [Sync.Caller.joinMessage, if_neg hShown]
  · rcases List.head?_eq_some_iff.mp hHead with ⟨tail, rfl⟩
    let more := tail.take (pre.length + 2)
    have hArg :
        queryArgOne uri idKey = some (v ++ '&' :: more) :=
      queryArgOne_of_more hFirst hValue
    have hId :
        clientId uri =
          some (urlDecode (v ++ '&' :: more)) := by
      rw [clientId, hArg, Option.map_some]
    have hOther := urlDecode_separator_ne v more
    refine ⟨?_, ?_, ?_⟩
    · rw [hArg]
      simp
    · rw [hId]
      simp [hOther]
    · intro D P f s random stats hShown
      apply iff_of_false _ (by simp)
      rintro ⟨qid, hQid, hMessage⟩
      rw [hId] at hQid
      cases hQid
      have hNonempty :
          urlDecode (v ++ '&' :: more) ≠ [] := by
        cases v with
        | nil => exact urlDecode_ne_nil '&' more
        | cons c v => exact urlDecode_ne_nil c _
      rw [Sync.Caller.joinMessage,
        if_neg hNonempty] at hMessage
      exact hOther (Sync.Message.snapshot.inj hMessage).2.1

/- The id is the last argument. -/
theorem query_arg_exact_iff_last :
    queryArgOne "/api/sync?v=1&id=ab".toList idKey =
      some "ab".toList := by
  have hFirst :
      Text.find idKey "/api/sync?v=1&id=ab".toList =
        some 14 := by
    decide
  exact (query_arg_exact_iff "/api/sync?v=1&".toList
    "ab".toList [] hFirst (by decide) (Or.inl rfl)).1.mpr rfl

/- Another argument follows, and is taken for the id. -/
theorem query_arg_too_long :
    Text.find idKey "/api/sync?id=ab&v=1".toList =
        some "/api/sync?".toList.length ∧
      queryArgOne "/api/sync?id=ab&v=1".toList idKey =
        some "ab&v=1".toList ∧
      clientId "/api/sync?id=ab&v=1".toList =
        some "ab&v=1".toList := by
  decide

end WebSocket

end Kedge
