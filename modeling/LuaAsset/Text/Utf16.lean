import LuaAsset.Text.Utf8

/-! # Text held as sixteen-bit units

A text asset may hold its script as sixteen-bit units.  Units with paired surrogates become UTF-8;
with an unpaired surrogate the units are kept as little-endian bytes. -/

set_option autoImplicit false

namespace LuaAsset

namespace Utf16

def isHigh (u : UInt16) : Bool := 0xd800 ≤ u && u ≤ 0xdbff

def isLow (u : UInt16) : Bool := 0xdc00 ≤ u && u ≤ 0xdfff

def paired : List UInt16 → Bool
  | [] => true
  | [u] => !(isHigh u || isLow u)
  | u :: v :: rest =>
      if isHigh u && isLow v then paired rest
      else if isHigh u || isLow u then false
      else paired (v :: rest)

def ofPair (high low : UInt16) : UInt32 :=
  0x10000 + ((high.toUInt32 - 0xd800) <<< (10 : UInt32)) + (low.toUInt32 - 0xdc00)

/-- The code points of units.  The unit after a high surrogate is taken as its partner without a
check; `beyond` is the unit after the last. -/
def codePoints (beyond : UInt16) : List UInt16 → List UInt32
  | [] => []
  | [u] => [if isHigh u then ofPair u beyond else u.toUInt32]
  | u :: v :: rest =>
      if isHigh u then ofPair u v :: codePoints beyond rest
      else u.toUInt32 :: codePoints beyond (v :: rest)

def littleEndian (u : UInt16) : Bytes := [UInt8.ofNat (u.toNat % 256), UInt8.ofNat (u.toNat / 256)]

/-- The bytes of a script held as units: UTF-8 if the surrogates are paired, else the units.
`beyond` is the unit after the last. -/
def scriptBytesBefore (beyond : UInt16) (units : List UInt16) : Bytes :=
  if paired units then
    (codePoints beyond units).flatMap fun point => Utf8.encodeScalar point.toNat
  else units.flatMap littleEndian

def scriptBytes (units : List UInt16) : Bytes := scriptBytesBefore 0 units

def units : Bytes → List UInt16
  | low :: high :: rest => UInt16.ofNat (low.toNat + 256 * high.toNat) :: units rest
  | _ => []

/-- The units of a text that starts with the little-endian byte order mark. -/
def marked? : Bytes → Option (List UInt16)
  | 0xff :: 0xfe :: rest => if rest.length % 2 = 0 then some (units rest) else none
  | _ => none

end Utf16

end LuaAsset
