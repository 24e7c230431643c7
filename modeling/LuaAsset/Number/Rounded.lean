import LuaAsset.Bytes

/-! # Rounded decimals

Quotients of natural numbers with a fixed number of digits (`Quotient.fixed`, `scientific`,
`general`), rounded once with ties to even (`roundEven`). -/

set_option autoImplicit false

namespace LuaAsset

structure Quotient where
  numerator : Nat
  denominator : Nat
  deriving DecidableEq, Repr

namespace Quotient

/-- The nearest integer, with ties to even. -/
def roundEven (n d : Nat) : Nat :=
  let whole := n / d
  let rest := n % d
  if 2 * rest < d then whole
  else if d < 2 * rest then whole + 1
  else whole + whole % 2

/-- The nearest quotient with a mantissa of a given number of bits. -/
def toMantissa (bits : Nat) (q : Quotient) : Quotient :=
  if q.numerator = 0 then q
  else
    -- The mantissa is taken between two powers of two by the lengths of both numbers.
    let shift : Int := (q.numerator.log2 : Int) - q.denominator.log2 - bits
    let scaled (shift : Int) : Nat × Nat :=
      (q.numerator * 2 ^ (-shift).toNat, q.denominator * 2 ^ shift.toNat)
    let shift := if (scaled shift).1 < 2 ^ bits * (scaled shift).2 then shift else shift + 1
    let m := roundEven (scaled shift).1 (scaled shift).2
    ⟨m * 2 ^ shift.toNat, 2 ^ (-shift).toNat⟩

/-! ## Fixed places -/

def padded (width n : Nat) : Bytes :=
  let digits := decimal n
  List.replicate (width - digits.length) Ascii.zero ++ digits

/-- Digits with a point before the last ones; without a fraction the point is dropped unless it is
kept. -/
def pointed (digits : Bytes) (places : Nat) (keepPoint : Bool) : Bytes :=
  digits.take (digits.length - places) ++
    (if places = 0 && !keepPoint then [] else [Ascii.dot]) ++ digits.drop (digits.length - places)

def fixed (places : Nat) (keepPoint : Bool) (q : Quotient) : Bytes :=
  pointed (padded (places + 1) (roundEven (q.numerator * 10 ^ places) q.denominator)) places
    keepPoint

/-! ## Powers of ten -/

def magnitude (q : Quotient) : Int :=
  if q.numerator = 0 then 0
  else
    let guess : Int := (decimal q.numerator).length - (decimal q.denominator).length
    if q.denominator * 10 ^ guess.toNat ≤ q.numerator * 10 ^ (-guess).toNat then guess
    else guess - 1

/-- The first digits of a quotient as a number, and the power of ten of the first digit. -/
def leading (digits : Nat) (q : Quotient) : Nat × Int :=
  let power := q.magnitude
  let scale : Int := digits - 1 - power
  let m := roundEven (q.numerator * 10 ^ scale.toNat) (q.denominator * 10 ^ (-scale).toNat)
  if m = 10 ^ digits then (10 ^ (digits - 1), power + 1) else (m, power)

def exponentText (letter : UInt8) (power : Int) : Bytes :=
  [letter, if power < 0 then Ascii.minus else Ascii.plus] ++ padded 2 power.natAbs

def scientific (places : Nat) (keepPoint : Bool) (letter : UInt8) (q : Quotient) : Bytes :=
  let (m, power) := q.leading (places + 1)
  pointed (padded (places + 1) m) places keepPoint ++ exponentText letter power

def withoutZeros (s : Bytes) : Bytes :=
  if s.contains Ascii.dot then
    let bare := (s.reverse.dropWhile (· == Ascii.zero)).reverse
    if bare.getLast? = some Ascii.dot then bare.dropLast else bare
  else s

/-- The fixed form, or the scientific one for exponents below `-4` or beyond the digits. -/
def general (digits : Nat) (keepZeros : Bool) (letter : UInt8) (q : Quotient) : Bytes :=
  let digits := max 1 digits
  let (m, power) := q.leading digits
  if power < -4 ∨ (digits : Int) ≤ power then
    let mantissa := pointed (padded digits m) (digits - 1) keepZeros
    (if keepZeros then mantissa else withoutZeros mantissa) ++ exponentText letter power
  else
    let whole := q.fixed (digits - 1 - power).toNat keepZeros
    if keepZeros then whole else withoutZeros whole

end Quotient

end LuaAsset
