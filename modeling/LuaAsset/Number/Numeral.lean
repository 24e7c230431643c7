import LuaAsset.Bytes

/-! # Numerals with a base

Whole numbers in decimal, in octal after a zero, and in hexadecimal after `0x`, read from the front
of a byte string. -/

set_option autoImplicit false

namespace LuaAsset

namespace Numeral

def digitsIn (base : Nat) (s : Bytes) : Nat × Bytes :=
  let isDigit (c : UInt8) : Bool := Ascii.isHexDigit c && Ascii.hexValue c < base
  let digits := s.takeWhile isDigit
  (digits.foldl (fun n c => n * base + Ascii.hexValue c) 0, s.drop digits.length)

def natural (s : Bytes) : Nat × Bytes :=
  match s with
  | Ascii.zero :: x :: c :: rest =>
      if (text "xX").contains x && Ascii.isHexDigit c then digitsIn 16 (c :: rest)
      else digitsIn 8 s
  | Ascii.zero :: _ => digitsIn 8 s
  | _ => digitsIn 10 s

/-- A number after blanks and a sign, and the rest; `none` without a digit. -/
def integer? (s : Bytes) : Option (Int × Bytes) :=
  let s := s.dropWhile Ascii.isBlank
  let (negative, digits) := match s with
    | Ascii.minus :: rest => (true, rest)
    | Ascii.plus :: rest => (false, rest)
    | rest => (false, rest)
  if digits.head?.any Ascii.isDigit then
    let (n, rest) := natural digits
    some (if negative then -(n : Int) else n, rest)
  else none

/-- The digits of a number in a base, in lower case; `fuel` bounds their number. -/
def digits (base : Nat) : Nat → Nat → Bytes
  | 0, _ => []
  | fuel + 1, n =>
      (if n < base then [] else digits base fuel (n / base)) ++ [hexDigit (n % base)]

def inBase (base n : Nat) : Bytes := digits base (n.log2 + 1) n

end Numeral

end LuaAsset
