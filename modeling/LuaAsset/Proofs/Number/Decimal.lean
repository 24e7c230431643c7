import LuaAsset.Number.Token
import Mathlib.Data.List.Induction
import Mathlib.Data.List.TakeWhile

/-! # Decimal digits read back

Digits after their leading zeros are those of the number they write (`decimal_decimalValue`), and as
a float they are read as the nearest one (`decimal?_digits`), also beyond the length at which the
reader stops looking at digits (`ofQuotient_of_large`). -/

set_option autoImplicit false

namespace LuaAsset

/-! ## Digits -/

theorem toNat_digit {d : Nat} (small : d < 10) : (UInt8.ofNat (48 + d)).toNat = 48 + d := by
  rw [UInt8.toNat_ofNat']
  omega

theorem isDigit_digit {d : Nat} (small : d < 10) : Ascii.isDigit (UInt8.ofNat (48 + d)) = true := by
  rw [Ascii.isDigit, Bool.and_eq_true, decide_eq_true_eq, decide_eq_true_eq, UInt8.le_iff_toNat_le,
    UInt8.le_iff_toNat_le, toNat_digit small]
  constructor
  · exact Nat.le_add_right 48 d
  · exact Nat.add_le_add_left (Nat.le_of_lt_succ small) 48

theorem isDigit_of_mem_decimal (n : Nat) : ∀ c ∈ decimal n, Ascii.isDigit c = true := by
  induction n using decimal.induct with
  | case1 n small =>
      intro c member
      rw [decimal, if_pos small, List.mem_singleton] at member
      rw [member]
      exact isDigit_digit small
  | case2 n large ih =>
      intro c member
      rw [decimal, if_neg large, List.mem_append, List.mem_singleton] at member
      cases member with
      | inl higher => exact ih c higher
      | inr last =>
          rw [last]
          exact isDigit_digit (Nat.mod_lt n (by decide))

theorem decimal_ne_nil (n : Nat) : decimal n ≠ [] := by
  rw [decimal]
  split <;> simp

theorem decimalValue_concat (s : Bytes) (c : UInt8) :
    decimalValue (s ++ [c]) = decimalValue s * 10 + (c.toNat - 48) := by
  rw [decimalValue, List.foldl_append]
  rfl

theorem decimalValue_append_digit (digits : Bytes) {d : Nat} (small : d < 10) :
    decimalValue (digits ++ [UInt8.ofNat (48 + d)]) = decimalValue digits * 10 + d := by
  rw [decimalValue_concat, toNat_digit small, Nat.add_sub_cancel_left]

theorem decimalValue_decimal (n : Nat) : decimalValue (decimal n) = n := by
  induction n using decimal.induct with
  | case1 n small =>
      rw [decimal, if_pos small]
      exact (decimalValue_append_digit [] small).trans (Nat.zero_add n)
  | case2 n large ih =>
      rw [decimal, if_neg large, decimalValue_append_digit _ (Nat.mod_lt n (by decide)), ih]
      omega

theorem isDigit_iff (c : UInt8) : Ascii.isDigit c = true ↔ 48 ≤ c.toNat ∧ c.toNat ≤ 57 := by
  rw [Ascii.isDigit, Bool.and_eq_true, decide_eq_true_eq, decide_eq_true_eq, UInt8.le_iff_toNat_le,
    UInt8.le_iff_toNat_le]
  rfl

theorem decimal_decimalValue {s : Bytes} (nonempty : s ≠ [])
    (all : ∀ c ∈ s, Ascii.isDigit c = true) (leads : s.head? ≠ some Ascii.zero) :
    decimal (decimalValue s) = s ∧ decimalValue s ≠ 0 := by
  induction s using List.reverseRecOn with
  | nil => exact absurd rfl nonempty
  | append_singleton s c ih =>
      obtain ⟨front, last⟩ := List.forall_mem_append.mp all
      obtain ⟨low, high⟩ := (isDigit_iff c).mp (last c (List.mem_singleton.mpr rfl))
      have same : UInt8.ofNat (48 + (c.toNat - 48)) = c := by
        rw [Nat.add_sub_cancel' low, UInt8.ofNat_toNat]
      rw [decimalValue_concat]
      by_cases first : s = []
      · subst first
        have digit : c ≠ Ascii.zero := fun zero => leads (congrArg some zero)
        have positive : c.toNat - 48 ≠ 0 := by
          intro zero
          exact digit (UInt8.toNat_inj.mp (show c.toNat = 48 by omega))
        have value : decimalValue [] * 10 + (c.toNat - 48) = c.toNat - 48 := Nat.zero_add _
        rw [value, decimal, if_pos (by omega), same]
        exact ⟨rfl, positive⟩
      · have leadsFront : s.head? ≠ some Ascii.zero := by
          obtain ⟨d, rest, rfl⟩ := List.exists_cons_of_ne_nil first
          exact leads
        obtain ⟨digits, positive⟩ := ih first front leadsFront
        have tens : (decimalValue s * 10 + (c.toNat - 48)) / 10 = decimalValue s := by omega
        have ones : (decimalValue s * 10 + (c.toNat - 48)) % 10 = c.toNat - 48 := by omega
        rw [decimal, if_neg (by omega), tens, ones, digits, same]
        exact ⟨rfl, by omega⟩

theorem decimalValue_dropZeros (s : Bytes) :
    decimalValue (s.dropWhile (· == Ascii.zero)) = decimalValue s := by
  induction s with
  | nil => rfl
  | cons c s ih =>
      by_cases zero : c = Ascii.zero
      · rw [zero, List.dropWhile_cons_of_pos (by decide), ih]
        rfl
      · rw [List.dropWhile_cons_of_neg (by simp [zero])]

theorem dropZeros_eq_decimal {s : Bytes} (all : ∀ c ∈ s, Ascii.isDigit c = true)
    (positive : decimalValue s ≠ 0) :
    s.dropWhile (· == Ascii.zero) = decimal (decimalValue s) := by
  have nonempty : s.dropWhile (· == Ascii.zero) ≠ [] := by
    intro empty
    rw [← decimalValue_dropZeros, empty] at positive
    exact positive rfl
  have leads : (s.dropWhile (· == Ascii.zero)).head? ≠ some Ascii.zero := by
    intro zero
    have first := List.head?_dropWhile_not (· == Ascii.zero) s
    rw [zero] at first
    exact absurd first (by decide)
  have digits := decimal_decimalValue nonempty
    (fun c member => all c ((List.dropWhile_sublist _).subset member)) leads
  rw [decimalValue_dropZeros] at digits
  exact digits.1.symm

theorem mem_decimalInt {n : Int} {c : UInt8} (member : c ∈ decimalInt n) :
    Ascii.isDigit c = true ∨ c = Ascii.minus := by
  cases n with
  | ofNat n => exact .inl (isDigit_of_mem_decimal n c member)
  | negSucc n =>
      obtain minus | digit := List.mem_cons.mp member
      · exact .inr minus
      · exact .inl (isDigit_of_mem_decimal (n + 1) c digit)

theorem decimal_injective {m n : Nat} (same : decimal m = decimal n) : m = n := by
  rw [← decimalValue_decimal m, same, decimalValue_decimal]

theorem decimalInt_injective {m n : Int} (same : decimalInt m = decimalInt n) : m = n := by
  have unsigned : ∀ n, Ascii.minus ∉ decimal n := fun n minus =>
    absurd (isDigit_of_mem_decimal n _ minus) (by decide)
  cases m with
  | ofNat m =>
      cases n with
      | ofNat n => exact congrArg Int.ofNat (decimal_injective same)
      | negSucc n =>
          rw [decimalInt, decimalInt] at same
          exact absurd (same ▸ List.mem_cons_self) (unsigned m)
  | negSucc m =>
      cases n with
      | ofNat n =>
          rw [decimalInt, decimalInt] at same
          exact absurd (same ▸ List.mem_cons_self) (unsigned n)
      | negSucc n =>
          have digits := decimal_injective (List.cons.inj same).2
          exact congrArg Int.negSucc (Nat.succ.inj digits)

/-- A positive number is at least the power of ten given by its number of digits. -/
theorem pow_length_decimal_le {n : Nat} (positive : n ≠ 0) :
    10 ^ ((decimal n).length - 1) ≤ n := by
  induction n using decimal.induct with
  | case1 n small =>
      rw [decimal, if_pos small]
      exact Nat.pos_of_ne_zero positive
  | case2 n large ih =>
      have shorter := ih (by omega)
      have nonempty := List.length_pos_iff.mpr (decimal_ne_nil (n / 10))
      rw [decimal, if_neg large, List.length_append, List.length_singleton, Nat.add_sub_cancel]
      calc 10 ^ (decimal (n / 10)).length
          = 10 ^ ((decimal (n / 10)).length - 1) * 10 := by
            rw [← Nat.pow_succ, Nat.succ_eq_add_one, Nat.sub_add_cancel nonempty]
        _ ≤ n / 10 * 10 := Nat.mul_le_mul_right 10 shorter
        _ ≤ n := Nat.div_mul_le_self n 10

theorem two_pow_le_of_lt_length {n k : Nat} (positive : n ≠ 0) (long : k < (decimal n).length) :
    2 ^ k ≤ n :=
  calc 2 ^ k ≤ 10 ^ k := Nat.pow_le_pow_left (by decide) k
    _ ≤ 10 ^ ((decimal n).length - 1) := Nat.pow_le_pow_right (by decide) (by omega)
    _ ≤ n := pow_length_decimal_le positive

namespace Binary64

/-! ## Integers as floats -/

theorem xor_two_pow {m i : Nat} (small : m < 2 ^ i) : m ^^^ 2 ^ i = m + 2 ^ i := by
  have apart : 2 ^ i + m = 2 ^ i ||| m := by
    have joined := Nat.two_pow_add_eq_or_of_lt small 1
    rwa [Nat.mul_one] at joined
  rw [Nat.add_comm, apart]
  apply Nat.eq_of_testBit_eq
  intro j
  rw [Nat.testBit_xor, Nat.testBit_or, Nat.testBit_two_pow]
  by_cases top : i = j
  · rw [← top, Nat.testBit_lt_two_pow small]
    simp
  · simp [top]

theorem negate_ofMagnitude {magnitude : Nat} (small : magnitude < 2 ^ 63) :
    (ofMagnitude false magnitude).negate = ofMagnitude true magnitude := by
  have bits : UInt64.ofNat magnitude ^^^ 0x8000000000000000 =
      UInt64.ofNat (magnitude + 2 ^ 63) := by
    apply UInt64.toNat_inj.mp
    rw [UInt64.toNat_xor, UInt64.toNat_ofNat', UInt64.toNat_ofNat', Nat.mod_eq_of_lt (by omega),
      Nat.mod_eq_of_lt (by omega)]
    exact xor_two_pow small
  exact congrArg Binary64.mk bits

theorem negate_ofQuotient (num den : Nat) :
    (ofQuotient false num den).negate = ofQuotient true num den := by
  rw [ofQuotient, ofQuotient]
  split
  · exact negate_ofMagnitude (by decide)
  · dsimp only
    split
    · exact negate_ofMagnitude (by omega)
    · refine negate_ofMagnitude (Nat.lt_of_le_of_lt (Nat.min_le_right _ _) ?_)
      decide

theorem ofInt_neg {n : Nat} (positive : n ≠ 0) :
    ofInt (-(n : Int)) = (ofInt (n : Int)).negate := by
  have below : decide (-(n : Int) < 0) = true := decide_eq_true (by omega)
  have above : decide ((n : Int) < 0) = false := decide_eq_false (by omega)
  rw [ofInt, ofInt, below, above, negate_ofQuotient, Int.natAbs_neg]

theorem div_le_roundToEven (num den : Nat) : num / den ≤ roundToEven num den := by
  rw [roundToEven]
  split
  · exact Nat.le_refl _
  · split
    · exact Nat.le_succ _
    · split
      · exact Nat.le_refl _
      · exact Nat.le_succ _

theorem ofQuotient_of_large {n : Nat} (large : 2 ^ 1024 ≤ n) :
    ofQuotient false n 1 = ofMagnitude false infinityMagnitude := by
  have positive : n ≠ 0 := Nat.ne_of_gt (Nat.lt_of_lt_of_le (Nat.two_pow_pos 1024) large)
  have long : 1024 ≤ n.log2 := (Nat.le_log2 positive).mpr large
  obtain ⟨e, size⟩ : ∃ e : Nat, n.log2 = e + 52 := ⟨n.log2 - 52, by omega⟩
  -- The significand has all its bits before it is rounded, so the exponent alone reaches infinity.
  have top : 2 ^ 52 ≤ n / 2 ^ e := by
    rw [Nat.le_div_iff_mul_le (Nat.two_pow_pos e), ← Nat.pow_add, Nat.add_comm, ← size]
    exact Nat.log2_self_le positive
  have guess : Int.ofNat n.log2 - Int.ofNat (Nat.log2 1) - 52 = Int.ofNat e := by
    rw [size, show Nat.log2 1 = 0 from rfl]
    simp only [Int.ofNat_eq_natCast]
    omega
  have parts : scaled n 1 (Int.ofNat e) = (n, 2 ^ e) := by rw [scaled, Nat.one_mul]
  have exponent : exponentOf n 1 = Int.ofNat e := by
    rw [exponentOf]
    simp only [guess, parts]
    rw [if_neg (by omega)]
    simp only [Int.ofNat_eq_natCast]
    omega
  have full : 2 ^ 52 ≤ roundToEven n (2 ^ e) := Nat.le_trans top (div_le_roundToEven n (2 ^ e))
  have scale : 2047 ≤ (Int.ofNat e + 1075).toNat := by
    simp only [Int.ofNat_eq_natCast]
    omega
  have beyond : infinityMagnitude ≤
      (Int.ofNat e + 1075).toNat * 2 ^ 52 + (roundToEven n (2 ^ e) - 2 ^ 52) :=
    Nat.le_add_right_of_le (Nat.mul_le_mul_right _ scale)
  rw [ofQuotient, if_neg positive]
  simp only [exponent, parts]
  rw [if_neg (Nat.not_lt.mpr full), Nat.min_eq_right beyond]

end Binary64

namespace Numeral

theorem nearest_decimal {n width : Nat} (positive : n ≠ 0) (narrow : width ≤ (decimal n).length) :
    nearest 10 n width 0 = Binary64.ofInt n := by
  have plain : Binary64.ofInt n = Binary64.ofQuotient false n 1 := by
    rw [Binary64.ofInt, Int.natAbs_natCast]
    exact congrArg (Binary64.ofQuotient · n 1) (decide_eq_false (by omega))
  rw [nearest.eq_def, if_neg positive]
  by_cases wide : 1100 < (0 : Int) + Int.ofNat width
  · have long : 1024 < (decimal n).length := by
      simp only [Int.ofNat_eq_natCast] at wide
      omega
    have large := two_pow_le_of_lt_length positive long
    rw [if_pos wide, plain, Binary64.ofQuotient_of_large large]
  · have small : ¬(0 : Int) + Int.ofNat width < -1200 := by
      simp only [Int.ofNat_eq_natCast]
      omega
    rw [if_neg wide, if_neg small, plain]
    exact congrArg (Binary64.ofQuotient false · 1) (Nat.mul_one n)

theorem decimal?_digits {s : Bytes} (all : ∀ c ∈ s, Ascii.isDigit c = true)
    (positive : decimalValue s ≠ 0) :
    decimal? s = some (Binary64.ofInt (decimalValue s)) := by
  have nonempty : s ≠ [] := by
    rintro rfl
    exact positive rfl
  have whole : mantissa? Ascii.isDigit s = some (⟨s, 0⟩, []) := by
    have taken : s.takeWhile Ascii.isDigit = s := List.takeWhile_eq_self_iff.mpr all
    have left : s.dropWhile Ascii.isDigit = [] := List.dropWhile_eq_nil_iff.mpr all
    rw [mantissa?, taken, left]
    simp [nonempty]
  rw [decimal?, whole]
  simp only [bind, Option.bind, closing?, pure, dropZeros_eq_decimal all positive]
  exact congrArg some (nearest_decimal positive (Nat.le_refl _))

end Numeral

end LuaAsset
