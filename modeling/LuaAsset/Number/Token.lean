import LuaAsset.Bytes
import LuaAsset.Number.Binary64

/-! # Numerals of floats

Decimal (`12.5e-3`) and hexadecimal (`0x1.8p4`) numerals are read as exact quotients, which
`Binary64.ofQuotient` rounds once.  Exponents out of range are settled before any power is computed.
-/

set_option autoImplicit false

namespace LuaAsset

namespace Numeral

structure Mantissa where
  digits : Bytes
  places : Nat

/-- Digits with an optional point; at least one digit is required. -/
def mantissa? (isDigit : UInt8 → Bool) (s : Bytes) : Option (Mantissa × Bytes) :=
  let whole := s.takeWhile isDigit
  let (fraction, rest) := match s.dropWhile isDigit with
    | c :: after =>
        if c = Ascii.dot then (after.takeWhile isDigit, after.dropWhile isDigit)
        else ([], c :: after)
    | [] => ([], [])
  let digits := whole ++ fraction
  if digits.isEmpty then none else some (⟨digits, fraction.length⟩, rest)

/-- The exponent after its mark: an optional sign and digits to the end. -/
def exponent? (s : Bytes) : Option Int :=
  let (negative, digits) := match s with
    | c :: rest =>
        if c = Ascii.minus then (true, rest)
        else if c = Ascii.plus then (false, rest)
        else (false, c :: rest)
    | [] => (false, [])
  if digits.isEmpty || !digits.all Ascii.isDigit then none
  else
    let size := Int.ofNat (decimalValue digits)
    some (if negative then -size else size)

/-- The exponent at the end of a numeral; zero if there is none. -/
def closing? (isMark : UInt8 → Bool) : Bytes → Option Int
  | [] => some 0
  | c :: rest => if isMark c then exponent? rest else none

/-- The float nearest to `digits · base ^ exponent`.  `width` is the number of digits; no power is
computed for numbers far beyond the range of floats. -/
def nearest (base : Nat) (digits width : Nat) (exponent : Int) : Binary64 :=
  if digits = 0 then Binary64.ofMagnitude false 0
  else if 1100 < exponent + Int.ofNat width then
    Binary64.ofMagnitude false Binary64.infinityMagnitude
  else if exponent + Int.ofNat width < -1200 then Binary64.ofMagnitude false 0
  else match exponent with
    | .ofNat e => Binary64.ofQuotient false (digits * base ^ e) 1
    | .negSucc e => Binary64.ofQuotient false digits (base ^ (e + 1))

def decimal? (s : Bytes) : Option Binary64 := do
  let (m, rest) ← mantissa? Ascii.isDigit s
  let exponent ← closing? (fun c => c == 0x65 || c == 0x45) rest
  let digits := decimalValue m.digits
  let width := (m.digits.dropWhile (· == Ascii.zero)).length
  return nearest 10 digits width (exponent - Int.ofNat m.places)

/-- A hexadecimal numeral after `0x`, with a binary exponent. -/
def hexadecimal? (s : Bytes) : Option Binary64 := do
  let (m, rest) ← mantissa? Ascii.isHexDigit s
  let exponent ← closing? (fun c => c == 0x70 || c == 0x50) rest
  let digits := hexadecimalValue m.digits
  let width := 4 * (m.digits.dropWhile (· == Ascii.zero)).length
  return nearest 2 digits width (exponent - 4 * Int.ofNat m.places)

end Numeral

end LuaAsset
