import LuaAsset.Decoder
import LuaAsset.Proofs.Text.Utf8

/-! # Scripts held as sixteen-bit units

The first pass accepts exactly the encodings of characters (`paired_encode`,
`exists_chars_of_paired`) and stops at an unpaired surrogate otherwise (`paired_eq_false_iff`); the
second one decodes without checks and reads no unit after the end (`codePoints_encode`).  Together
they give `scriptBytes_units`. -/

set_option autoImplicit false

namespace LuaAsset

namespace Utf16

open String (utf8EncodeChar)

/-! ## The encoding in units -/

def encodeChar (c : Char) : List UInt16 :=
  if c.toNat < 0x10000 then [UInt16.ofNat c.toNat]
  else
    [UInt16.ofNat (0xd800 + (c.toNat - 0x10000) / 1024),
      UInt16.ofNat (0xdc00 + (c.toNat - 0x10000) % 1024)]

/-- A surrogate without its partner at a place. -/
def Unpaired (units : List UInt16) (i : Nat) : Prop :=
  ∃ u, units[i]? = some u ∧
    ((isHigh u = true ∧ ∀ v, units[i + 1]? = some v → isLow v = false) ∨
      (isLow u = true ∧ ∀ k, k + 1 = i → ∀ v, units[k]? = some v → isHigh v = false))

theorem isHigh_iff (u : UInt16) : isHigh u = true ↔ 0xd800 ≤ u.toNat ∧ u.toNat ≤ 0xdbff := by
  rw [isHigh, Bool.and_eq_true, decide_eq_true_eq, decide_eq_true_eq, UInt16.le_iff_toNat_le,
    UInt16.le_iff_toNat_le]
  rfl

theorem isLow_iff (u : UInt16) : isLow u = true ↔ 0xdc00 ≤ u.toNat ∧ u.toNat ≤ 0xdfff := by
  rw [isLow, Bool.and_eq_true, decide_eq_true_eq, decide_eq_true_eq, UInt16.le_iff_toNat_le,
    UInt16.le_iff_toNat_le]
  rfl

theorem toNat_unit {n : Nat} (fits : n < 65536) : (UInt16.ofNat n).toNat = n := by
  rw [UInt16.toNat_ofNat', Nat.mod_eq_of_lt fits]

theorem isLow_of_isHigh {u : UInt16} (high : isHigh u = true) : isLow u = false := by
  rw [isHigh_iff] at high
  rw [← Bool.not_eq_true, isLow_iff]
  omega

theorem toNat_ofPair {u v : UInt16} (high : isHigh u = true) (low : isLow v = true) :
    (ofPair u v).toNat = 0x10000 + (u.toNat - 0xd800) * 1024 + (v.toNat - 0xdc00) := by
  rw [isHigh_iff] at high
  rw [isLow_iff] at low
  have first : (u.toUInt32 - 0xd800).toNat = u.toNat - 0xd800 :=
    UInt32.toNat_sub_of_le _ _ (UInt32.le_iff_toNat_le.mpr high.1)
  have second : (v.toUInt32 - 0xdc00).toNat = v.toNat - 0xdc00 :=
    UInt32.toNat_sub_of_le _ _ (UInt32.le_iff_toNat_le.mpr low.1)
  have shifted : ((u.toUInt32 - 0xd800) <<< (10 : UInt32)).toNat = (u.toNat - 0xd800) * 1024 := by
    rw [UInt32.toNat_shiftLeft, first, Nat.shiftLeft_eq]
    exact Nat.mod_eq_of_lt (by show (u.toNat - 0xd800) * 1024 < 4294967296; omega)
  rw [ofPair, UInt32.toNat_add, UInt32.toNat_add, shifted, second]
  show ((0x10000 + (u.toNat - 0xd800) * 1024) % 4294967296 + (v.toNat - 0xdc00)) % 4294967296 = _
  omega

theorem encodeChar_cases (c : Char) :
    (∃ u, encodeChar c = [u] ∧ isHigh u = false ∧ isLow u = false ∧ u.toUInt32 = c.val) ∨
    (∃ u v, encodeChar c = [u, v] ∧ isHigh u = true ∧ isLow v = true ∧ ofPair u v = c.val) := by
  have scalar : c.toNat < 0xd800 ∨ 0xdfff < c.toNat ∧ c.toNat < 0x110000 := c.valid
  by_cases single : c.toNat < 0x10000
  · have value := toNat_unit single
    refine .inl ⟨_, if_pos single, ?_, ?_, UInt32.toNat_inj.mp ?_⟩
    · rw [← Bool.not_eq_true, isHigh_iff, value]
      omega
    · rw [← Bool.not_eq_true, isLow_iff, value]
      omega
    · rw [UInt16.toNat_toUInt32, value]
      rfl
  · have first : (UInt16.ofNat (0xd800 + (c.toNat - 0x10000) / 1024)).toNat =
        0xd800 + (c.toNat - 0x10000) / 1024 := toNat_unit (by omega)
    have second : (UInt16.ofNat (0xdc00 + (c.toNat - 0x10000) % 1024)).toNat =
        0xdc00 + (c.toNat - 0x10000) % 1024 := toNat_unit (by omega)
    have high : isHigh (UInt16.ofNat (0xd800 + (c.toNat - 0x10000) / 1024)) = true := by
      rw [isHigh_iff, first]
      omega
    have low : isLow (UInt16.ofNat (0xdc00 + (c.toNat - 0x10000) % 1024)) = true := by
      rw [isLow_iff, second]
      omega
    refine .inr ⟨_, _, if_neg single, high, low, UInt32.toNat_inj.mp ?_⟩
    rw [toNat_ofPair high low, first, second]
    show _ = c.toNat
    omega

/-! ## The two passes -/

section Passes

variable {u v : UInt16} {rest : List UInt16}

theorem paired_single (notHigh : isHigh u = false) (notLow : isLow u = false) :
    paired (u :: rest) = paired rest := by
  cases rest <;> simp [paired, notHigh, notLow]

theorem paired_pair (high : isHigh u = true) (low : isLow v = true) :
    paired (u :: v :: rest) = paired rest := by
  simp [paired, high, low]

theorem codePoints_single (beyond : UInt16) (notHigh : isHigh u = false) :
    codePoints beyond (u :: rest) = u.toUInt32 :: codePoints beyond rest := by
  cases rest <;> simp [codePoints, notHigh]

theorem codePoints_pair (beyond : UInt16) (high : isHigh u = true) :
    codePoints beyond (u :: v :: rest) = ofPair u v :: codePoints beyond rest := by
  simp [codePoints, high]

end Passes

theorem paired_encodeChar (c : Char) (rest : List UInt16) :
    paired (encodeChar c ++ rest) = paired rest := by
  obtain ⟨u, units, notHigh, notLow, _⟩ | ⟨u, v, units, high, low, _⟩ := encodeChar_cases c
  · rw [units]
    exact paired_single notHigh notLow
  · rw [units]
    exact paired_pair high low

theorem codePoints_encodeChar (beyond : UInt16) (c : Char) (rest : List UInt16) :
    codePoints beyond (encodeChar c ++ rest) = c.val :: codePoints beyond rest := by
  obtain ⟨u, units, notHigh, _, value⟩ | ⟨u, v, units, high, _, value⟩ := encodeChar_cases c
  · rw [units, ← value]
    exact codePoints_single beyond notHigh
  · rw [units, ← value]
    exact codePoints_pair beyond high

theorem paired_encode (cs : List Char) : paired (cs.flatMap encodeChar) = true := by
  induction cs with
  | nil => rfl
  | cons c cs ih => rw [List.flatMap_cons, paired_encodeChar, ih]

/-- Decoding inverts encoding and reads nothing after the last unit. -/
theorem codePoints_encode (beyond : UInt16) (cs : List Char) :
    codePoints beyond (cs.flatMap encodeChar) = cs.map Char.val := by
  induction cs with
  | nil => rfl
  | cons c cs ih => rw [List.flatMap_cons, codePoints_encodeChar, ih, List.map_cons]

theorem exists_single {u : UInt16} (notHigh : isHigh u = false) (notLow : isLow u = false) :
    ∃ c, encodeChar c = [u] := by
  rw [← Bool.not_eq_true, isHigh_iff] at notHigh
  rw [← Bool.not_eq_true, isLow_iff] at notLow
  have bound := u.toNat_lt
  obtain ⟨c, value⟩ := Utf8.exists_char (n := u.toNat) (by unfold Nat.isValidChar; omega)
  refine ⟨c, ?_⟩
  rw [encodeChar, if_pos (by omega), value, UInt16.ofNat_toNat]

theorem exists_pair {u v : UInt16} (high : isHigh u = true) (low : isLow v = true) :
    ∃ c, encodeChar c = [u, v] := by
  rw [isHigh_iff] at high
  rw [isLow_iff] at low
  obtain ⟨c, value⟩ := Utf8.exists_char
    (n := 0x10000 + (u.toNat - 0xd800) * 1024 + (v.toNat - 0xdc00))
    (by unfold Nat.isValidChar; omega)
  refine ⟨c, ?_⟩
  rw [encodeChar, if_neg (by omega), show 0xd800 + (c.toNat - 0x10000) / 1024 = u.toNat by omega,
    show 0xdc00 + (c.toNat - 0x10000) % 1024 = v.toNat by omega, UInt16.ofNat_toNat,
    UInt16.ofNat_toNat]

/-- Units that pass the first check encode characters. -/
theorem exists_chars_of_paired {units : List UInt16} (whole : paired units = true) :
    ∃ cs : List Char, units = cs.flatMap encodeChar := by
  fun_induction paired units with
  | case1 => exact ⟨[], rfl⟩
  | case2 u =>
      simp only [Bool.not_eq_true', Bool.or_eq_false_iff] at whole
      obtain ⟨c, unit⟩ := exists_single whole.1 whole.2
      exact ⟨[c], by rw [List.flatMap_singleton, unit]⟩
  | case3 u v rest pair ih =>
      rw [Bool.and_eq_true] at pair
      obtain ⟨cs, rfl⟩ := ih whole
      obtain ⟨c, units⟩ := exists_pair pair.1 pair.2
      exact ⟨c :: cs, by rw [List.flatMap_cons, units]; rfl⟩
  | case4 u v rest apart surrogate => cases whole
  | case5 u v rest apart plain ih =>
      simp only [Bool.or_eq_true, not_or, Bool.not_eq_true] at plain
      obtain ⟨cs, same⟩ := ih whole
      obtain ⟨c, unit⟩ := exists_single plain.1 plain.2
      exact ⟨c :: cs, by rw [List.flatMap_cons, unit, same]; rfl⟩

/-! ## Unpaired surrogates -/

section Unpaired

variable {u v : UInt16} {rest : List UInt16}

theorem unpaired_zero : Unpaired (u :: rest) 0 ↔
    (isHigh u = true ∧ ∀ v, rest[0]? = some v → isLow v = false) ∨ isLow u = true := by
  simp [Unpaired]

theorem unpaired_add_two (i : Nat) : Unpaired (u :: rest) (i + 2) ↔ Unpaired rest (i + 1) := by
  simp [Unpaired]

theorem unpaired_succ (notHigh : isHigh u = false) (i : Nat) :
    Unpaired (u :: rest) (i + 1) ↔ Unpaired rest i := by
  cases i with
  | zero => simp [Unpaired, notHigh]
  | succ i => exact unpaired_add_two i

theorem exists_unpaired_single (notHigh : isHigh u = false) (notLow : isLow u = false) :
    (∃ i, Unpaired (u :: rest) i) ↔ ∃ i, Unpaired rest i := by
  constructor
  · rintro ⟨i, unpaired⟩
    cases i with
    | zero => simp [unpaired_zero, notHigh, notLow] at unpaired
    | succ i => exact ⟨i, (unpaired_succ notHigh i).mp unpaired⟩
  · rintro ⟨i, unpaired⟩
    exact ⟨i + 1, (unpaired_succ notHigh i).mpr unpaired⟩

theorem exists_unpaired_pair (high : isHigh u = true) (low : isLow v = true) :
    (∃ i, Unpaired (u :: v :: rest) i) ↔ ∃ i, Unpaired rest i := by
  have notLow : isLow u = false := isLow_of_isHigh high
  have notHigh : isHigh v = false := by
    rw [isLow_iff] at low
    rw [← Bool.not_eq_true, isHigh_iff]
    omega
  constructor
  · rintro ⟨i, unpaired⟩
    match i with
    | 0 => simp [unpaired_zero, high, low, notLow] at unpaired
    | 1 => simp [Unpaired, high, notHigh] at unpaired
    | i + 2 =>
        rw [unpaired_add_two, unpaired_succ notHigh] at unpaired
        exact ⟨i, unpaired⟩
  · rintro ⟨i, unpaired⟩
    refine ⟨i + 2, ?_⟩
    rwa [unpaired_add_two, unpaired_succ notHigh]

end Unpaired

theorem paired_eq_false_iff (units : List UInt16) :
    paired units = false ↔ ∃ i, Unpaired units i := by
  fun_induction paired units with
  | case1 => simp [Unpaired]
  | case2 u =>
      by_cases surrogate : isHigh u = true ∨ isLow u = true
      · have stops : (!(isHigh u || isLow u)) = false := by
          rw [Bool.not_eq_false', Bool.or_eq_true]
          exact surrogate
        refine iff_of_true stops ⟨0, unpaired_zero.mpr ?_⟩
        exact surrogate.imp_left fun high => ⟨high, by simp⟩
      · simp only [not_or, Bool.not_eq_true] at surrogate
        rw [exists_unpaired_single surrogate.1 surrogate.2]
        simp [Unpaired, surrogate]
  | case3 u v rest pair ih =>
      rw [Bool.and_eq_true] at pair
      rw [exists_unpaired_pair pair.1 pair.2, ih]
  | case4 u v rest apart surrogate =>
      rw [Bool.or_eq_true] at surrogate
      refine iff_of_true rfl ⟨0, unpaired_zero.mpr ?_⟩
      refine surrogate.imp_left fun high => ⟨high, ?_⟩
      simpa [high] using apart
  | case5 u v rest apart plain ih =>
      simp only [Bool.or_eq_true, not_or, Bool.not_eq_true] at plain
      rw [exists_unpaired_single plain.1 plain.2, ih]

/-! ## The bytes of a script -/

theorem littleEndian_eq (u : UInt16) : littleEndian u = [u.toUInt8, (u >>> 8).toUInt8] := by
  have high : (u >>> 8).toNat = u.toNat / 256 := by
    rw [UInt16.toNat_shiftRight, Nat.shiftRight_eq_div_pow]
    rfl
  have bound := u.toNat_lt
  rw [littleEndian, List.cons.injEq, List.cons.injEq, ← UInt8.toNat_inj, ← UInt8.toNat_inj,
    UInt16.toNat_toUInt8, UInt16.toNat_toUInt8, high, UInt8.toNat_ofNat', UInt8.toNat_ofNat']
  exact ⟨by omega, by omega, rfl⟩

/-- Units that encode characters become the UTF-8 bytes of these, whatever follows in memory. -/
theorem scriptBytesBefore_encode (beyond : UInt16) (cs : List Char) :
    scriptBytesBefore beyond (cs.flatMap encodeChar) = cs.flatMap utf8EncodeChar := by
  have bytes : (fun c : Char => Utf8.encodeScalar c.val.toNat) = utf8EncodeChar :=
    funext Utf8.encodeScalar_toNat
  rw [scriptBytesBefore, if_pos (paired_encode cs), codePoints_encode, List.flatMap_map, bytes]

theorem scriptBytesBefore_unpaired (beyond : UInt16) {units : List UInt16}
    (unpaired : ∃ i, Unpaired units i) :
    scriptBytesBefore beyond units =
      units.flatMap fun u : UInt16 => [u.toUInt8, (u >>> 8).toUInt8] := by
  have stops : ¬paired units = true := by
    rw [Bool.not_eq_true]
    exact (paired_eq_false_iff units).mpr unpaired
  have bytes : littleEndian = fun u : UInt16 => [u.toUInt8, (u >>> 8).toUInt8] :=
    funext littleEndian_eq
  rw [scriptBytesBefore, if_neg stops, bytes]

theorem hasMarker_text (cs : List Char) (unmarked : cs.head? ≠ some '*') :
    Chunk.hasMarker (cs.flatMap utf8EncodeChar) = false := by
  have asterisk : utf8EncodeChar '*' = [Chunk.marker] := by decide
  rw [← Bool.not_eq_true]
  intro marked
  obtain ⟨rest, front⟩ := List.head?_eq_some_iff.mp (beq_iff_eq.mp marked)
  cases cs with
  | nil => cases front
  | cons c cs =>
      have here : utf8EncodeChar '*' <+: (c :: cs).flatMap utf8EncodeChar := by
        rw [front, asterisk]
        exact List.prefix_append [Chunk.marker] rest
      rw [List.flatMap_cons] at here
      have same := Utf8.char_unique (List.prefix_append _ _) here
      exact unmarked (congrArg some same)

theorem not_encoded_iff (units : List UInt16) :
    (¬∃ cs : List Char, units = cs.flatMap encodeChar) ↔ ∃ i, Unpaired units i := by
  rw [← paired_eq_false_iff, ← Bool.not_eq_true]
  refine not_congr ⟨?_, exists_chars_of_paired⟩
  rintro ⟨cs, rfl⟩
  exact paired_encode cs

theorem scriptBytesBefore_eq (beyond : UInt16) (units : List UInt16) :
    scriptBytesBefore beyond units = scriptBytes units := by
  -- the second pass runs over encoded characters only, and there every high surrogate has a partner
  by_cases encoded : ∃ cs : List Char, units = cs.flatMap encodeChar
  · obtain ⟨cs, rfl⟩ := encoded
    rw [scriptBytes, scriptBytesBefore_encode, scriptBytesBefore_encode]
  · have unpaired := (not_encoded_iff units).mp encoded
    rw [scriptBytes, scriptBytesBefore_unpaired beyond unpaired,
      scriptBytesBefore_unpaired 0 unpaired]

/-- If the units encode characters, the bytes are those characters in UTF-8, all of them are kept,
and an unmarked asset has them as its text.  Otherwise some surrogate has no partner, and each unit
becomes two bytes, the low one first.  No unit after the end is read. -/
theorem scriptBytes_units (units : List UInt16) :
    (∀ cs : List Char, units = cs.flatMap encodeChar →
      scriptBytes units = cs.flatMap utf8EncodeChar ∧
      Utf8.decodeLossy (scriptBytes units) = scriptBytes units ∧
      (cs.head? ≠ some '*' → ∀ {σ : Type} (c : Collaborators σ) (debug : Bool) (companion : Bytes)
        (s : Decoder.Session σ),
        Decoder.textFromAsset c debug (scriptBytes units) companion s =
          (.ok (cs.flatMap utf8EncodeChar), s))) ∧
    ((¬∃ cs : List Char, units = cs.flatMap encodeChar) ↔ ∃ i, Unpaired units i) ∧
    ((∃ i, Unpaired units i) →
      scriptBytes units = units.flatMap fun u : UInt16 => [u.toUInt8, (u >>> 8).toUInt8]) ∧
    ∀ beyond, scriptBytesBefore beyond units = scriptBytes units := by
  refine ⟨?_, not_encoded_iff units, fun unpaired => scriptBytesBefore_unpaired 0 unpaired,
    fun beyond => scriptBytesBefore_eq beyond units⟩
  rintro cs rfl
  have bytes : scriptBytes (cs.flatMap encodeChar) = cs.flatMap utf8EncodeChar :=
    scriptBytesBefore_encode 0 cs
  rw [bytes]
  refine ⟨rfl, Utf8.decodeLossy_text cs, fun unmarked σ c debug companion s => ?_⟩
  rw [Decoder.textFromAsset, hasMarker_text cs unmarked, Utf8.decodeLossy_text]
  rfl

end Utf16

end LuaAsset
