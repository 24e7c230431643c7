/-! # Double-precision numbers as bit patterns

A float is its 64 bits, and all operations are exact integer arithmetic on them: `Binary64.reading`,
the order `Binary64.lt`, rounding of a quotient (`Binary64.ofQuotient`, ties to even), and
conversion to an integer (`Binary64.toInteger?`). -/

set_option autoImplicit false

namespace LuaAsset

structure Binary64 where
  bits : UInt64
  deriving DecidableEq, Repr

namespace Binary64

instance : Inhabited Binary64 := ⟨⟨0⟩⟩

/-- The meaning of a bit pattern: a finite float is `± mantissa · 2 ^ exponent`. -/
inductive Reading where
  | notANumber (negative : Bool)
  | infinite (negative : Bool)
  | finite (negative : Bool) (mantissa : Nat) (exponent : Int)
  deriving DecidableEq, Repr

def negative (x : Binary64) : Bool := x.bits >>> 63 == 1

def magnitude (x : Binary64) : Nat := x.bits.toNat % 2 ^ 63

def infinityMagnitude : Nat := 2047 * 2 ^ 52

def reading (x : Binary64) : Reading :=
  let scale := x.magnitude / 2 ^ 52
  let fraction := x.magnitude % 2 ^ 52
  if scale = 2047 then
    if fraction = 0 then .infinite x.negative else .notANumber x.negative
  else if scale = 0 then .finite x.negative fraction (-1074)
  else .finite x.negative (2 ^ 52 + fraction) (Int.ofNat scale - 1075)

def isFinite (x : Binary64) : Bool := x.magnitude < infinityMagnitude

def ofMagnitude (negative : Bool) (magnitude : Nat) : Binary64 :=
  ⟨UInt64.ofNat (magnitude + if negative then 2 ^ 63 else 0)⟩

def negate (x : Binary64) : Binary64 := ⟨x.bits ^^^ 0x8000000000000000⟩

/-- The rank of a float in the numeric order; both zeros have the same rank. -/
def order (x : Binary64) : Option Int :=
  if x.magnitude ≤ infinityMagnitude then
    some (if x.negative then -(x.magnitude : Int) else x.magnitude)
  else none

def lt (x y : Binary64) : Bool :=
  match x.order, y.order with
  | some a, some b => a < b
  | _, _ => false

/-! ## Rounding -/

/-- The integer nearest to a quotient, with ties to even. -/
def roundToEven (num den : Nat) : Nat :=
  let low := num / den
  let twice := 2 * (num % den)
  if twice < den then low
  else if den < twice then low + 1
  else if low % 2 = 0 then low else low + 1

def scaled (num den : Nat) (exponent : Int) : Nat × Nat :=
  match exponent with
  | .ofNat e => (num, den * 2 ^ e)
  | .negSucc e => (num * 2 ^ (e + 1), den)

/-- The least exponent that fits the quotient into 53 bits, at least that of the subnormals. -/
def exponentOf (num den : Nat) : Int :=
  let guess := Int.ofNat num.log2 - Int.ofNat den.log2 - 52
  let (n, d) := scaled num den guess
  max (if n / d < 2 ^ 52 then guess - 1 else guess) (-1074)

/-- The float nearest to `num / den`, with ties to even and overflow to infinity. -/
def ofQuotient (negative : Bool) (num den : Nat) : Binary64 :=
  if num = 0 then ofMagnitude negative 0
  else
    let exponent := exponentOf num den
    let (n, d) := scaled num den exponent
    let mantissa := roundToEven n d
    if mantissa < 2 ^ 52 then ofMagnitude negative mantissa
    else
      let magnitude := (exponent + 1075).toNat * 2 ^ 52 + (mantissa - 2 ^ 52)
      ofMagnitude negative (min magnitude infinityMagnitude)

def ofInt (n : Int) : Binary64 := ofQuotient (n < 0) n.natAbs 1

def toInt? (x : Binary64) : Option Int :=
  match x.reading with
  | .finite negative mantissa exponent =>
      let size : Option Nat := match exponent with
        | .ofNat e => some (mantissa * 2 ^ e)
        | .negSucc e =>
            if mantissa % 2 ^ (e + 1) = 0 then some (mantissa / 2 ^ (e + 1)) else none
      size.map fun n => if negative then -(n : Int) else n
  | _ => none

def toInteger? (x : Binary64) : Option Int64 :=
  match x.toInt? with
  | some n => if -2 ^ 63 ≤ n ∧ n < 2 ^ 63 then some (Int64.ofInt n) else none
  | none => none

end Binary64

end LuaAsset
