import LuaAsset.Number.Token

/-! # Floats nearest to integers

`Binary64.rank` orders the floats that are numbers, with both zeros at one place (`eq_of_rank_eq`).
Rounding of integers is monotone (`rank_ofInt_le`), and only the last `512` integers of the signed
range round to `2 ^ 63` (`toInteger?_ofInt_ne_none`, `eq_of_rank_ofInt_eq`). -/

set_option autoImplicit false

namespace LuaAsset

namespace Binary64

variable {x y : Binary64}

/-! ## Signs and magnitudes -/

theorem negative_eq (x : Binary64) : x.negative = decide (2 ^ 63 ≤ x.bits.toNat) := by
  have small := x.bits.toNat_lt
  have shifted : (x.bits >>> 63).toNat = x.bits.toNat / 2 ^ 63 := by
    rw [UInt64.toNat_shiftRight, Nat.shiftRight_eq_div_pow]
    rfl
  rw [negative, Bool.eq_iff_iff, beq_iff_eq, decide_eq_true_eq, ← UInt64.toNat_inj, shifted,
    UInt64.toNat_one]
  omega

theorem eq_of_magnitude_eq (sign : x.negative = y.negative) (same : x.magnitude = y.magnitude) :
    x = y := by
  have smallX := x.bits.toNat_lt
  have smallY := y.bits.toNat_lt
  rw [negative_eq, negative_eq, decide_eq_decide] at sign
  rw [magnitude, magnitude] at same
  have bits : x.bits = y.bits := UInt64.toNat_inj.mp (by omega)
  cases x
  cases y
  exact congrArg Binary64.mk bits

theorem toNat_ofMagnitude (negative : Bool) {size : Nat} (small : size < 2 ^ 63) :
    (ofMagnitude negative size).bits.toNat = size + if negative then 2 ^ 63 else 0 := by
  rw [ofMagnitude, UInt64.toNat_ofNat']
  cases negative with
  | false => exact Nat.mod_eq_of_lt (by rw [if_neg Bool.false_ne_true]; omega)
  | true => exact Nat.mod_eq_of_lt (by rw [if_pos rfl]; omega)

theorem magnitude_ofMagnitude (negative : Bool) {size : Nat} (small : size < 2 ^ 63) :
    (ofMagnitude negative size).magnitude = size := by
  rw [magnitude, toNat_ofMagnitude negative small]
  cases negative with
  | false => exact Nat.mod_eq_of_lt small
  | true => rw [if_pos rfl, Nat.add_mod_right, Nat.mod_eq_of_lt small]

theorem negative_ofMagnitude (negative : Bool) {size : Nat} (small : size < 2 ^ 63) :
    (ofMagnitude negative size).negative = negative := by
  rw [negative_eq, toNat_ofMagnitude negative small]
  cases negative with
  | false => exact decide_eq_false (by rw [if_neg Bool.false_ne_true]; omega)
  | true => exact decide_eq_true (by rw [if_pos rfl]; omega)

theorem magnitude_negate (x : Binary64) : x.negate.magnitude = x.magnitude := by
  rw [magnitude, negate, UInt64.toNat_xor, Nat.xor_mod_two_pow]
  exact Nat.xor_zero _

/-! ## The line of floats -/

def IsNumber (x : Binary64) : Prop := x.magnitude ≤ infinityMagnitude

instance (x : Binary64) : Decidable x.IsNumber := inferInstanceAs (Decidable (_ ≤ _))

def rank (x : Binary64) : Int := if x.negative then -(x.magnitude : Int) else x.magnitude

theorem lt_eq (left : x.IsNumber) (right : y.IsNumber) : x.lt y = decide (x.rank < y.rank) := by
  have orderLeft : x.order = some x.rank := if_pos left
  have orderRight : y.order = some y.rank := if_pos right
  rw [lt, orderLeft, orderRight]

/-- Floats of the same rank are equal, or both zero. -/
theorem eq_of_rank_eq (same : x.rank = y.rank) : x = y ∨ (x.magnitude = 0 ∧ y.magnitude = 0) := by
  rw [rank, rank] at same
  cases signX : x.negative <;> cases signY : y.negative <;>
    simp only [signX, signY, if_true, if_false, Bool.false_eq_true] at same
  · exact .inl (eq_of_magnitude_eq (signX.trans signY.symm) (by omega))
  · exact .inr (by omega)
  · exact .inr (by omega)
  · exact .inl (eq_of_magnitude_eq (signX.trans signY.symm) (by omega))

theorem toInt?_zero {e : Nat} (reading : x.reading = .finite x.negative 0 (.negSucc e)) :
    x.toInt? = some 0 := by
  rw [toInt?, reading]
  dsimp only
  rw [if_pos (Nat.zero_mod _), Nat.zero_div]
  cases x.negative <;> rfl

theorem toInteger?_zero (zero : x.magnitude = 0) : x.toInteger? = some 0 := by
  have reading : x.reading = .finite x.negative 0 (.negSucc 1073) := by
    rw [Binary64.reading, zero]
    rfl
  rw [toInteger?, toInt?_zero reading]
  rfl

theorem eq_of_rank_eq_of_none (fraction : x.toInteger? = none) (same : x.rank = y.rank) :
    x = y := by
  obtain equal | ⟨zero, _⟩ := eq_of_rank_eq same
  · exact equal
  · rw [toInteger?_zero zero] at fraction
    cases fraction

/-! ## Rounding -/

theorem roundToEven_cases (n d : Nat) :
    (2 * (n % d) < d ∧ roundToEven n d = n / d) ∨
      (d < 2 * (n % d) ∧ roundToEven n d = n / d + 1) ∨
        (2 * (n % d) = d ∧ roundToEven n d = n / d + n / d % 2) := by
  rw [roundToEven]
  split
  · rename_i below
    exact .inl ⟨below, rfl⟩
  · split
    · rename_i above
      exact .inr (.inl ⟨above, rfl⟩)
    · refine .inr (.inr ⟨by omega, ?_⟩)
      split <;> omega

theorem le_roundToEven (n d : Nat) : n / d ≤ roundToEven n d := by
  obtain ⟨_, rounded⟩ | ⟨_, rounded⟩ | ⟨_, rounded⟩ := roundToEven_cases n d <;> omega

theorem roundToEven_le (n d : Nat) : roundToEven n d ≤ n / d + 1 := by
  obtain ⟨_, rounded⟩ | ⟨_, rounded⟩ | ⟨_, rounded⟩ := roundToEven_cases n d <;> omega

theorem roundToEven_exact {n d : Nat} (positive : 0 < d) (divides : d ∣ n) :
    roundToEven n d = n / d := by
  rw [roundToEven, Nat.mod_eq_zero_of_dvd divides, Nat.mul_zero]
  exact if_pos positive

/-- Rounding is monotone. -/
theorem roundToEven_mono {m n d : Nat} (le : m ≤ n) : roundToEven m d ≤ roundToEven n d := by
  have quotients := Nat.div_le_div_right (c := d) le
  obtain apart | same := Nat.lt_or_eq_of_le quotients
  · exact Nat.le_trans (roundToEven_le m d) (Nat.le_trans apart (le_roundToEven n d))
  · -- with one quotient, the remainders are in the order of the numbers
    have remainders : m % d ≤ n % d := by
      have split := Nat.div_add_mod m d
      have splitAlso := Nat.div_add_mod n d
      rw [same] at split
      omega
    obtain ⟨_, rounded⟩ | ⟨_, rounded⟩ | ⟨_, rounded⟩ := roundToEven_cases m d <;>
      obtain ⟨_, roundedAlso⟩ | ⟨_, roundedAlso⟩ | ⟨_, roundedAlso⟩ := roundToEven_cases n d <;>
      omega

/-! ## Whole numbers -/

def wholeMantissa (n : Nat) : Nat := roundToEven (n * 2 ^ (52 - n.log2)) (2 ^ (n.log2 - 52))

theorem pow_split (k : Nat) : 2 ^ k * 2 ^ (52 - k) = 2 ^ 52 * 2 ^ (k - 52) := by
  rw [← Nat.pow_add, ← Nat.pow_add]
  congr 1
  omega

theorem wholeMantissa_bounds {n : Nat} (positive : n ≠ 0) :
    2 ^ 52 ≤ wholeMantissa n ∧ wholeMantissa n ≤ 2 ^ 53 := by
  have low : 2 ^ n.log2 ≤ n := Nat.log2_self_le positive
  have high : n < 2 * 2 ^ n.log2 := by
    rw [← Nat.pow_succ']
    exact Nat.lt_log2_self
  have scale := Nat.two_pow_pos (52 - n.log2)
  have unit := Nat.two_pow_pos (n.log2 - 52)
  have split := pow_split n.log2
  constructor
  · refine Nat.le_trans ((Nat.le_div_iff_mul_le unit).mpr ?_) (le_roundToEven _ _)
    rw [← split]
    exact Nat.mul_le_mul_right _ low
  · refine Nat.le_trans (roundToEven_le _ _) (Nat.succ_le_of_lt ?_)
    rw [Nat.div_lt_iff_lt_mul unit]
    have scaled := Nat.mul_lt_mul_of_pos_right high scale
    rw [Nat.mul_assoc, split] at scaled
    omega

theorem scaled_whole (n : Nat) : scaled n 1 (Int.ofNat n.log2 - 52) =
    (n * 2 ^ (52 - n.log2), 2 ^ (n.log2 - 52)) := by
  obtain small | large := Nat.lt_or_ge n.log2 52
  · have exponent : Int.ofNat n.log2 - 52 = Int.negSucc (51 - n.log2) := by
      rw [Int.ofNat_eq_natCast]
      omega
    have shift : 51 - n.log2 + 1 = 52 - n.log2 := by omega
    rw [exponent, scaled, shift, Nat.sub_eq_zero_of_le (Nat.le_of_lt small), Nat.pow_zero]
  · have exponent : Int.ofNat n.log2 - 52 = Int.ofNat (n.log2 - 52) := by
      rw [Int.ofNat_eq_natCast, Int.ofNat_eq_natCast]
      omega
    rw [exponent, scaled, Nat.sub_eq_zero_of_le large, Nat.pow_zero, Nat.mul_one, Nat.one_mul]

theorem exponentOf_whole {n : Nat} (positive : n ≠ 0) :
    exponentOf n 1 = Int.ofNat n.log2 - 52 := by
  have guess : Int.ofNat n.log2 - Int.ofNat (Nat.log2 1) - 52 = Int.ofNat n.log2 - 52 := by
    rw [show Nat.log2 1 = 0 by decide]
    simp
  have full : ¬n * 2 ^ (52 - n.log2) / 2 ^ (n.log2 - 52) < 2 ^ 52 := by
    rw [Nat.not_lt, Nat.le_div_iff_mul_le (Nat.two_pow_pos _), ← pow_split]
    exact Nat.mul_le_mul_right _ (Nat.log2_self_le positive)
  rw [exponentOf, guess, scaled_whole]
  dsimp only
  rw [if_neg full]
  exact Int.max_eq_left (by rw [Int.ofNat_eq_natCast]; omega)

theorem regrouped (scale : Nat) {mantissa : Nat} (normal : 2 ^ 52 ≤ mantissa) :
    (scale + 1023) * 2 ^ 52 + (mantissa - 2 ^ 52) = (scale + 1022) * 2 ^ 52 + mantissa := by omega

def wholeMagnitude (n : Nat) : Nat :=
  if n = 0 then 0 else (n.log2 + 1022) * 2 ^ 52 + wholeMantissa n

theorem ofQuotient_whole (negative : Bool) (n : Nat) :
    ofQuotient negative n 1 = ofMagnitude negative (min (wholeMagnitude n) infinityMagnitude) := by
  by_cases zero : n = 0
  · rw [ofQuotient, if_pos zero, wholeMagnitude, if_pos zero]
    rfl
  · obtain ⟨low, _⟩ := wholeMantissa_bounds zero
    have exponent : (Int.ofNat n.log2 - 52 + 1075).toNat = n.log2 + 1023 := by
      rw [Int.ofNat_eq_natCast]
      omega
    rw [ofQuotient, if_neg zero, exponentOf_whole zero, wholeMagnitude, if_neg zero]
    dsimp only
    rw [scaled_whole]
    dsimp only
    rw [← wholeMantissa, if_neg (Nat.not_lt.mpr low), exponent, regrouped _ low]

theorem wholeMagnitude_mono {m n : Nat} (le : m ≤ n) : wholeMagnitude m ≤ wholeMagnitude n := by
  by_cases zero : m = 0
  · rw [wholeMagnitude, if_pos zero]
    exact Nat.zero_le _
  · have positive : n ≠ 0 := by omega
    obtain ⟨_, most⟩ := wholeMantissa_bounds zero
    obtain ⟨least, _⟩ := wholeMantissa_bounds positive
    rw [wholeMagnitude, if_neg zero, wholeMagnitude, if_neg positive]
    have lengths : m.log2 ≤ n.log2 :=
      (Nat.le_log2 positive).mpr (Nat.le_trans (Nat.log2_self_le zero) le)
    obtain shorter | same := Nat.lt_or_eq_of_le lengths
    · omega
    · have mantissas : wholeMantissa m ≤ wholeMantissa n := by
        rw [wholeMantissa, wholeMantissa, same]
        exact roundToEven_mono (Nat.mul_le_mul_right _ le)
      omega

/-! ## Integers -/

theorem infinityMagnitude_lt : infinityMagnitude < 2 ^ 63 := by decide

theorem isNumber_ofMagnitude (negative : Bool) {size : Nat} (within : size ≤ infinityMagnitude) :
    (ofMagnitude negative size).IsNumber := by
  rw [IsNumber, magnitude_ofMagnitude negative (Nat.lt_of_le_of_lt within infinityMagnitude_lt)]
  exact within

theorem isNumber_ofQuotient (negative : Bool) (n d : Nat) :
    (ofQuotient negative n d).IsNumber := by
  rw [ofQuotient]
  split
  · exact isNumber_ofMagnitude _ (Nat.zero_le _)
  · dsimp only
    split
    · rename_i subnormal
      refine isNumber_ofMagnitude _ (Nat.le_of_lt (Nat.lt_of_lt_of_le subnormal ?_))
      decide
    · exact isNumber_ofMagnitude _ (Nat.min_le_right _ _)

theorem isNumber_ofInt (n : Int) : (ofInt n).IsNumber := isNumber_ofQuotient _ _ _

theorem IsNumber.negate (number : x.IsNumber) : x.negate.IsNumber := by
  rw [IsNumber, magnitude_negate]
  exact number

theorem rank_ofMagnitude (negative : Bool) {size : Nat} (within : size ≤ infinityMagnitude) :
    (ofMagnitude negative size).rank = if negative then -(size : Int) else size := by
  have small := Nat.lt_of_le_of_lt within infinityMagnitude_lt
  rw [rank, magnitude_ofMagnitude negative small, negative_ofMagnitude negative small]

theorem rank_ofInt (n : Int) : (ofInt n).rank =
    if n < 0 then -((min (wholeMagnitude n.natAbs) infinityMagnitude : Nat) : Int)
    else ((min (wholeMagnitude n.natAbs) infinityMagnitude : Nat) : Int) := by
  rw [ofInt, ofQuotient_whole, rank_ofMagnitude _ (Nat.min_le_right _ _)]
  simp only [decide_eq_true_eq]

/-- Conversion of integers to floats is monotone. -/
theorem rank_ofInt_le {m n : Int} (le : m ≤ n) : (ofInt m).rank ≤ (ofInt n).rank := by
  rw [rank_ofInt, rank_ofInt]
  split
  · split
    · have sizes := wholeMagnitude_mono (show n.natAbs ≤ m.natAbs by omega)
      omega
    · omega
  · have sizes := wholeMagnitude_mono (show m.natAbs ≤ n.natAbs by omega)
    rw [if_neg (by omega)]
    omega

theorem reading_normal {scale fraction : Nat} (bits : x.magnitude = scale * 2 ^ 52 + fraction)
    (small : fraction < 2 ^ 52) (normal : 0 < scale) (finite : scale < 2047) :
    x.reading = .finite x.negative (2 ^ 52 + fraction) (Int.ofNat scale - 1075) := by
  have high : x.magnitude / 2 ^ 52 = scale := by omega
  have low : x.magnitude % 2 ^ 52 = fraction := by omega
  rw [reading, high, low, if_neg (Nat.ne_of_lt finite), if_neg (Nat.ne_of_gt normal)]

theorem toInt?_of_le {mantissa e : Nat}
    (reading : x.reading = .finite x.negative mantissa (Int.ofNat e)) :
    x.toInt? = some (if x.negative then -((mantissa * 2 ^ e : Nat) : Int) else
      ((mantissa * 2 ^ e : Nat) : Int)) := by
  rw [toInt?, reading]
  rfl

theorem toInt?_of_dvd {n e : Nat}
    (reading : x.reading = .finite x.negative (n * 2 ^ (e + 1)) (Int.negSucc e)) :
    x.toInt? = some (if x.negative then -(n : Int) else n) := by
  rw [toInt?, reading]
  dsimp only
  rw [if_pos (Nat.mul_mod_left _ _), Nat.mul_div_cancel _ (Nat.two_pow_pos _)]
  rfl

theorem wholeMantissa_mul_le {n : Nat} (positive : n ≠ 0) (small : n ≤ 2 ^ 63) :
    wholeMantissa n * 2 ^ (n.log2 - 52) ≤ 2 ^ 63 := by
  obtain ⟨_, high⟩ := wholeMantissa_bounds positive
  have length : n.log2 < 64 := (Nat.log2_lt positive).mpr (by omega)
  by_cases longest : n.log2 = 63
  · have largest : n = 2 ^ 63 := by
      have low := Nat.log2_self_le positive
      rw [longest] at low
      omega
    rw [largest]
    decide
  · have units : 2 ^ (n.log2 - 52) ≤ 2 ^ 10 := Nat.pow_le_pow_right (by decide) (by omega)
    calc wholeMantissa n * 2 ^ (n.log2 - 52) ≤ 2 ^ 53 * 2 ^ 10 := Nat.mul_le_mul high units
      _ = 2 ^ 63 := by decide

theorem wholeMantissa_mul_lt {n : Nat} (positive : n ≠ 0) (small : n < 2 ^ 63 - 512) :
    wholeMantissa n * 2 ^ (n.log2 - 52) < 2 ^ 63 := by
  have length : n.log2 < 63 := (Nat.log2_lt positive).mpr (by omega)
  by_cases longest : n.log2 = 62
  · have mantissa : wholeMantissa n ≤ 2 ^ 53 - 1 := by
      have largest : roundToEven (2 ^ 63 - 513) (2 ^ 10) = 2 ^ 53 - 1 := by decide
      rw [wholeMantissa, longest, ← largest, Nat.pow_zero, Nat.mul_one]
      exact roundToEven_mono (by omega)
    calc wholeMantissa n * 2 ^ (n.log2 - 52) ≤ (2 ^ 53 - 1) * 2 ^ 10 := by
          rw [longest]
          exact Nat.mul_le_mul_right _ mantissa
      _ < 2 ^ 63 := by decide
  · obtain ⟨_, high⟩ := wholeMantissa_bounds positive
    have units : 2 ^ (n.log2 - 52) ≤ 2 ^ 9 := Nat.pow_le_pow_right (by decide) (by omega)
    calc wholeMantissa n * 2 ^ (n.log2 - 52) ≤ 2 ^ 53 * 2 ^ 9 := Nat.mul_le_mul high units
      _ < 2 ^ 63 := by decide

theorem wholeMantissa_short {n : Nat} (short : n.log2 < 52) :
    wholeMantissa n = n * 2 ^ (52 - n.log2) := by
  rw [wholeMantissa, Nat.sub_eq_zero_of_le (Nat.le_of_lt short), Nat.pow_zero,
    roundToEven_exact Nat.zero_lt_one (Nat.one_dvd _), Nat.div_one]

theorem toInt?_whole_short {n : Nat} (positive : n ≠ 0) (short : n.log2 < 52)
    (bits : x.magnitude = (n.log2 + 1022) * 2 ^ 52 + wholeMantissa n) :
    x.toInt? = some (if x.negative then -(n : Int) else n) := by
  obtain ⟨low, _⟩ := wholeMantissa_bounds positive
  have mantissa := wholeMantissa_short short
  have below : wholeMantissa n < 2 ^ 53 := by
    have scaled := Nat.mul_lt_mul_of_pos_right (Nat.lt_log2_self (n := n))
      (Nat.two_pow_pos (52 - n.log2))
    rw [← Nat.pow_add, ← mantissa] at scaled
    refine Nat.lt_of_lt_of_le scaled (Nat.pow_le_pow_right (by decide) ?_)
    omega
  have exponent : Int.ofNat (n.log2 + 1023) - 1075 = Int.negSucc (51 - n.log2) := by
    rw [Int.ofNat_eq_natCast]
    omega
  have shift : 52 - n.log2 = 51 - n.log2 + 1 := by omega
  rw [← regrouped _ low] at bits
  have reading := reading_normal bits (by omega) (by omega) (by omega)
  rw [Nat.add_sub_cancel' low, exponent, mantissa, shift] at reading
  exact toInt?_of_dvd reading

theorem toInt?_whole_long {n : Nat} (positive : n ≠ 0) (long : 52 ≤ n.log2)
    (bounded : n.log2 < 1023) (bits : x.magnitude = (n.log2 + 1022) * 2 ^ 52 + wholeMantissa n) :
    x.toInt? = some (if x.negative then -((wholeMantissa n * 2 ^ (n.log2 - 52) : Nat) : Int) else
      ((wholeMantissa n * 2 ^ (n.log2 - 52) : Nat) : Int)) := by
  obtain ⟨low, high⟩ := wholeMantissa_bounds positive
  obtain full | partly := Nat.eq_or_lt_of_le high
  · -- rounding has made the mantissa one bit longer
    have exponent : Int.ofNat (n.log2 + 1024) - 1075 = Int.ofNat (n.log2 - 52 + 1) := by
      rw [Int.ofNat_eq_natCast, Int.ofNat_eq_natCast]
      omega
    have carried : (n.log2 + 1022) * 2 ^ 52 + 2 ^ 53 = (n.log2 + 1024) * 2 ^ 52 + 0 := by omega
    rw [full, carried] at bits
    have reading := reading_normal bits (by decide) (by omega) (by omega)
    rw [exponent] at reading
    have value : (2 ^ 52 + 0) * 2 ^ (n.log2 - 52 + 1) = wholeMantissa n * 2 ^ (n.log2 - 52) := by
      rw [full, Nat.pow_succ]
      omega
    have whole := toInt?_of_le reading
    rwa [value] at whole
  · have exponent : Int.ofNat (n.log2 + 1023) - 1075 = Int.ofNat (n.log2 - 52) := by
      rw [Int.ofNat_eq_natCast, Int.ofNat_eq_natCast]
      omega
    rw [← regrouped _ low] at bits
    have reading := reading_normal bits (by omega) (by omega) (by omega)
    rw [Nat.add_sub_cancel' low, exponent] at reading
    exact toInt?_of_le reading

/-- A whole number up to `2 ^ 63` is rounded to a whole number up to `2 ^ 63`, and to `2 ^ 63`
itself only from the last `512` below it. -/
theorem toInt?_whole {n : Nat} (positive : n ≠ 0) (small : n ≤ 2 ^ 63)
    (bits : x.magnitude = (n.log2 + 1022) * 2 ^ 52 + wholeMantissa n) :
    ∃ k : Nat, k ≤ 2 ^ 63 ∧ (n < 2 ^ 63 - 512 → k < 2 ^ 63) ∧
      x.toInt? = some (if x.negative then -(k : Int) else k) := by
  have length : n.log2 < 64 := (Nat.log2_lt positive).mpr (by omega)
  obtain short | long := Nat.lt_or_ge n.log2 52
  · exact ⟨n, small, fun _ => by omega, toInt?_whole_short positive short bits⟩
  · exact ⟨_, wholeMantissa_mul_le positive small, wholeMantissa_mul_lt positive,
      toInt?_whole_long positive long (by omega) bits⟩

theorem toInteger?_ofInt_ne_none {n : Int} (low : -2 ^ 63 ≤ n) (high : n < 2 ^ 63 - 512) :
    (ofInt n).toInteger? ≠ none := by
  by_cases zero : n = 0
  · rw [zero, toInteger?_zero (show (ofInt 0).magnitude = 0 by decide)]
    exact Option.some_ne_none _
  · have size : n.natAbs ≤ 2 ^ 63 := by omega
    have positive : n.natAbs ≠ 0 := by omega
    have length : n.natAbs.log2 < 64 := (Nat.log2_lt positive).mpr (by omega)
    obtain ⟨_, bound⟩ := wholeMantissa_bounds positive
    have bits : wholeMagnitude n.natAbs =
        (n.natAbs.log2 + 1022) * 2 ^ 52 + wholeMantissa n.natAbs := if_neg positive
    have finite : wholeMagnitude n.natAbs ≤ infinityMagnitude := by
      rw [bits, infinityMagnitude]
      omega
    have float : ofInt n = ofMagnitude (decide (n < 0)) (wholeMagnitude n.natAbs) := by
      rw [ofInt, ofQuotient_whole, Nat.min_eq_left finite]
    have small := Nat.lt_of_le_of_lt finite infinityMagnitude_lt
    have sign := negative_ofMagnitude (decide (n < 0)) small
    obtain ⟨k, within, inside, whole⟩ := toInt?_whole positive size
      ((magnitude_ofMagnitude (decide (n < 0)) small).trans bits)
    simp only [sign, decide_eq_true_eq] at whole
    rw [float, toInteger?, whole]
    dsimp only
    rw [if_pos (by split <;> omega)]
    exact Option.some_ne_none _

/-- The last `512` integers of the signed range are rounded to `2 ^ 63`. -/
theorem rank_ofInt_last {n : Int64} (last : 2 ^ 63 - 512 ≤ n.toInt) :
    (ofInt n.toInt).rank = (ofInt (2 ^ 63)).rank := by
  have first : ofInt (2 ^ 63 - 512) = ofInt (2 ^ 63) := by decide
  have above := rank_ofInt_le last
  have below := rank_ofInt_le (Int.le_of_lt n.toInt_lt)
  rw [first] at above
  omega

theorem eq_of_rank_ofInt_eq {n : Int64} (fraction : x.toInteger? = none)
    (same : (ofInt n.toInt).rank = x.rank) : 2 ^ 63 - 512 ≤ n.toInt ∧ x = ofInt (2 ^ 63) := by
  have equal := eq_of_rank_eq_of_none fraction same.symm
  have last : 2 ^ 63 - 512 ≤ n.toInt := by
    refine Int.not_lt.mp fun earlier => ?_
    rw [equal] at fraction
    exact toInteger?_ofInt_ne_none n.le_toInt earlier fraction
  exact ⟨last, eq_of_rank_eq_of_none fraction (same.symm.trans (rank_ofInt_last last))⟩

end Binary64

namespace Numeral

/-! ## Numerals -/

theorem isNumber_nearest (base digits width : Nat) (exponent : Int) :
    (nearest base digits width exponent).IsNumber := by
  rw [nearest.eq_def]
  split
  · exact Binary64.isNumber_ofMagnitude _ (Nat.zero_le _)
  · split
    · exact Binary64.isNumber_ofMagnitude _ (Nat.le_refl _)
    · split
      · exact Binary64.isNumber_ofMagnitude _ (Nat.zero_le _)
      · split
        · exact Binary64.isNumber_ofQuotient _ _ _
        · exact Binary64.isNumber_ofQuotient _ _ _

variable {s : Bytes} {x : Binary64}

theorem isNumber_of_decimal? (read : decimal? s = some x) : x.IsNumber := by
  obtain ⟨mantissa, _, read⟩ := Option.bind_eq_some_iff.mp read
  obtain ⟨exponent, _, read⟩ := Option.bind_eq_some_iff.mp read
  obtain rfl := Option.some.inj read
  exact isNumber_nearest _ _ _ _

theorem isNumber_of_hexadecimal? (read : hexadecimal? s = some x) : x.IsNumber := by
  obtain ⟨mantissa, _, read⟩ := Option.bind_eq_some_iff.mp read
  obtain ⟨exponent, _, read⟩ := Option.bind_eq_some_iff.mp read
  obtain rfl := Option.some.inj read
  exact isNumber_nearest _ _ _ _

end Numeral

end LuaAsset
