import LuaAsset.Proofs.Literal.Readings
import LuaAsset.Proofs.Literal.RoundTrip
import LuaAsset.Proofs.Number.Hexadecimal
import Mathlib.Data.Int.ModEq

/-! # Integers in any spelling

Decimal digits give the signed integer in range, and the nearest float out of range; hexadecimal
digits are reduced modulo `2 ^ 64`.  The sign is applied before the range check
(`decodeLiteral_numeral`). -/

set_option autoImplicit false

namespace LuaAsset

namespace Literal

/-! ## Hexadecimal digits -/

/-- Truncating to 64 bits and then negating equals reducing the signed number. -/
theorem hexadecimalInteger_eq (negative : Bool) (n : Nat) :
    hexadecimalInteger negative n = Int64.ofInt (signed negative n) := by
  cases negative with
  | false =>
      rw [hexadecimalInteger, if_neg Bool.false_ne_true, UInt64.toInt64_ofNat', signed,
        if_neg Bool.false_ne_true, Int64.ofInt_eq_ofNat]
  | true =>
      rw [hexadecimalInteger, if_pos rfl, UInt64.zero_sub, UInt64.toInt64_neg,
        UInt64.toInt64_ofNat', signed, if_pos rfl, Int64.ofInt_neg, Int64.ofInt_eq_ofNat]

theorem eq_ofInt_iff_modEq (m : Int64) (k : Int) :
    m = Int64.ofInt k ↔ m.toInt ≡ k [ZMOD 2 ^ 64] := by
  rw [eq_comm, Int64.ofInt_eq_iff_bmod_eq_toInt, Int.ModEq]
  constructor
  · intro reduced
    rw [← reduced]
    exact Int.bmod_emod
  · intro congruent
    have reduced : (m.toInt % ((2 ^ 64 : Nat) : Int)).bmod (2 ^ 64) =
        (k % ((2 ^ 64 : Nat) : Int)).bmod (2 ^ 64) := by
      rw [show ((2 ^ 64 : Nat) : Int) = 2 ^ 64 from rfl, congruent]
    rw [Int.emod_bmod, Int.emod_bmod] at reduced
    rw [← reduced]
    exact Int64.toInt_bmod m

theorem spanNumeral_hexDigits {digits : Bytes} (all : ∀ c ∈ digits, Ascii.isHexDigit c = true) :
    spanNumeral Ascii.isHexDigit isHexadecimalMark digits = (digits, []) := by
  induction digits with
  | nil => rfl
  | cons c digits ih =>
      obtain ⟨digit, more⟩ := List.forall_mem_cons.mp all
      rw [spanNumeral_digit digit, ih more]

theorem readUnsigned_hexadecimal (negative : Bool) {x : UInt8} (letter : x = 0x78 ∨ x = 0x58)
    {digits : Bytes} (nonempty : digits ≠ []) (all : ∀ c ∈ digits, Ascii.isHexDigit c = true) :
    readUnsigned negative (Ascii.zero :: x :: digits) =
      .ok (.integer (hexadecimalInteger negative (hexadecimalValue digits)), []) := by
  have marked : isHexadecimal (Ascii.zero :: x :: digits) = true := by
    obtain rfl | rfl := letter <;> rfl
  rw [readUnsigned, if_pos marked, show (Ascii.zero :: x :: digits).drop 2 = digits from rfl,
    spanNumeral_hexDigits all]
  dsimp only
  rw [if_neg (by simp [nonempty]), if_pos (List.all_eq_true.mpr all)]

/-! ## Whole texts -/

theorem decodeLiteral_signed (sign : Sign) {c : UInt8} {more : Bytes} {v : Value}
    (digit : Ascii.isDigit c = true)
    (read : readNumber (sign.text ++ c :: more) = .ok (v, [])) :
    decodeLiteral (sign.text ++ c :: more) = .ok v := by
  obtain ⟨solid, code, _⟩ := isDigit_apart c digit
  have value : readValue nestingLimit (sign.text ++ c :: more) = .ok (v, []) := by
    rw [show nestingLimit = 199 + 1 from rfl, readValue]
    cases sign with
    | none =>
        exact (readWith_number _ (skipBlanks_of_ne solid code more) (.inl digit)).trans read
    | plus =>
        exact (readWith_number _ (skipBlanks_of_ne (by decide) (by decide) _)
          (.inr (.inr rfl))).trans read
    | minus =>
        have apart : Ascii.minus = Ascii.minus → (c :: more).head? ≠ some Ascii.minus :=
          fun _ same => code (Option.some.inj same)
        exact (readWith_number _ (skipBlanks_cons (by decide) apart) (.inr (.inl rfl))).trans read
  rw [decodeLiteral_eq_ok, readDocument_eq_ok]
  exact ⟨[], value, rfl⟩

theorem decodeLiteral_digits (sign : Sign) {digits : Bytes} (nonempty : digits ≠ [])
    (all : ∀ c ∈ digits, Ascii.isDigit c = true) :
    decodeLiteral (sign.text ++ digits) =
      .ok (integerValue (signed sign.negative (decimalValue digits))) := by
  have read := readNumber_signed sign nonempty all closed_nil.detached
  rw [List.append_nil, readDigits_value sign.negative all] at read
  obtain ⟨c, more, rfl⟩ := List.exists_cons_of_ne_nil nonempty
  exact decodeLiteral_signed sign (all c List.mem_cons_self) read

theorem decodeLiteral_hexadecimal (sign : Sign) {x : UInt8} (letter : x = 0x78 ∨ x = 0x58)
    {digits : Bytes} (nonempty : digits ≠ []) (all : ∀ c ∈ digits, Ascii.isHexDigit c = true) :
    decodeLiteral (sign.text ++ Ascii.zero :: x :: digits) =
      .ok (.integer (Int64.ofInt (signed sign.negative (hexadecimalValue digits)))) := by
  have zero : ∀ c ∈ [Ascii.zero], Ascii.isDigit c = true := List.forall_mem_singleton.mpr rfl
  have signs : readSigns (sign.text ++ Ascii.zero :: x :: digits) =
      .ok (sign.negative, Ascii.zero :: x :: digits) :=
    readSigns_sign sign (List.cons_ne_nil _ _) zero (x :: digits)
  have read : readNumber (sign.text ++ Ascii.zero :: x :: digits) =
      .ok (.integer (hexadecimalInteger sign.negative (hexadecimalValue digits)), []) := by
    rw [readNumber, signs]
    exact readUnsigned_hexadecimal sign.negative letter nonempty all
  rw [← hexadecimalInteger_eq]
  exact decodeLiteral_signed sign rfl read

/-- A decimal integer is read exactly inside the signed 64-bit range and as the nearest float
outside it; a hexadecimal one is read modulo `2 ^ 64` as a signed integer. -/
theorem decodeLiteral_numeral (sign : Sign) :
    (∀ digits : Bytes, digits ≠ [] → (∀ c ∈ digits, Ascii.isDigit c = true) →
      let written := signed sign.negative (decimalValue digits)
      (-2 ^ 63 ≤ written → written < 2 ^ 63 → ∃ n : Int64,
        decodeLiteral (sign.text ++ digits) = .ok (.integer n) ∧ n.toInt = written) ∧
      (written < -2 ^ 63 ∨ 2 ^ 63 ≤ written →
        decodeLiteral (sign.text ++ digits) = .ok (.float (Binary64.ofInt written)))) ∧
    ∀ (x : UInt8) (digits : Bytes), x = 0x78 ∨ x = 0x58 → digits ≠ [] →
      (∀ c ∈ digits, Ascii.isHexDigit c = true) → ∃ n : Int64,
        decodeLiteral (sign.text ++ Ascii.zero :: x :: digits) = .ok (.integer n) ∧
        ∀ m : Int64, m = n ↔
          m.toInt ≡ signed sign.negative (hexadecimalValue digits) [ZMOD 2 ^ 64] := by
  constructor
  · intro digits nonempty all written
    have read := decodeLiteral_digits sign nonempty all
    constructor
    · intro low high
      rw [integerValue, if_pos ⟨low, high⟩] at read
      exact ⟨_, read, Int64.toInt_ofInt_of_le low high⟩
    · intro outside
      rw [integerValue, if_neg (by omega)] at read
      exact read
  · intro x digits letter nonempty all
    exact ⟨_, decodeLiteral_hexadecimal sign letter nonempty all,
      fun m => eq_ofInt_iff_modEq m _⟩

theorem decodeLiteral_numeral_limits :
    (∃ n : Int64, decodeLiteral (text "-09223372036854775808") = .ok (.integer n) ∧
      n.toInt = -2 ^ 63) ∧
    decodeLiteral (text "9223372036854775808") = .ok (.float (Binary64.ofInt (2 ^ 63))) ∧
    ∃ n : Int64, decodeLiteral (text "-0X1fffffffffffffffe") = .ok (.integer n) ∧
      ∀ m : Int64, m = n ↔ m.toInt ≡ -0x1fffffffffffffffe [ZMOD 2 ^ 64] := by
  have digits : (text "09223372036854775808").all Ascii.isDigit = true := by decide
  have bare : (text "9223372036854775808").all Ascii.isDigit = true := by decide
  have hexDigits : (text "1fffffffffffffffe").all Ascii.isHexDigit = true := by decide
  have least : signed true (decimalValue (text "09223372036854775808")) = -2 ^ 63 := by decide
  have beyond : signed false (decimalValue (text "9223372036854775808")) = 2 ^ 63 := by decide
  have long : signed true (hexadecimalValue (text "1fffffffffffffffe")) = -0x1fffffffffffffffe := by
    decide
  obtain ⟨inside, _⟩ := (decodeLiteral_numeral .minus).1 (text "09223372036854775808") (by decide)
    (List.all_eq_true.mp digits)
  obtain ⟨_, outside⟩ := (decodeLiteral_numeral .none).1 (text "9223372036854775808") (by decide)
    (List.all_eq_true.mp bare)
  have wrapped := (decodeLiteral_numeral .minus).2 0x58 (text "1fffffffffffffffe") (.inr rfl)
    (by decide) (List.all_eq_true.mp hexDigits)
  rw [Sign.negative, least] at inside
  rw [Sign.negative, beyond] at outside
  rw [Sign.negative, long] at wrapped
  exact ⟨inside (Int.le_refl _) (by decide), outside (.inr (Int.le_refl _)), wrapped⟩

end Literal

end LuaAsset
