import LuaAsset.Failure

/-! # Compiled chunks

An encoded script is a marker byte, 256 opaque bytes, a zero-terminated path, optional further
zeros, and the instructions.  `Chunk.synthesize` puts a plain header in front of the instructions,
so that a stock tool can read them. -/

set_option autoImplicit false

namespace LuaAsset

namespace Chunk

def marker : UInt8 := 0x2a

def opaqueSize : Nat := 256

def hasMarker (blob : Bytes) : Bool := blob.head? == some marker

structure Header where
  version : UInt8 := 0x53
  format : UInt8 := 0
  intSize : UInt8 := 4
  sizeSize : UInt8 := 4
  instructionSize : UInt8 := 4
  integerSize : UInt8 := 8
  numberSize : UInt8 := 8
  checkInteger : UInt64 := 0x5678
  /-- The bits of the float 370.5. -/
  checkNumber : UInt64 := 0x4077280000000000

def littleEndian64 (n : UInt64) : Bytes :=
  (List.range 8).map fun i => UInt8.ofNat (n.toNat / 256 ^ i % 256)

def Header.toBytes (h : Header) : Bytes :=
  [0x1b, 0x4c, 0x75, 0x61, h.version, h.format, 0x19, 0x93, 0x0d, 0x0a, 0x1a, 0x0a, h.intSize,
    h.sizeSize, h.instructionSize, h.integerSize, h.numberSize] ++
    littleEndian64 h.checkInteger ++ littleEndian64 h.checkNumber

/-- The instructions of an encoded script after a plain header. -/
def synthesize (blob : Bytes) : Except Failure Bytes :=
  if blob.length < 1 + opaqueSize || !hasMarker blob then .error .unsupportedBlob
  else match (blob.drop (1 + opaqueSize)).dropWhile (· != 0) with
    | [] => .error .missingTerminator
    | terminator :: rest =>
        .ok (Header.toBytes {} ++ (terminator :: rest).dropWhile (· == 0))

end Chunk

end LuaAsset
