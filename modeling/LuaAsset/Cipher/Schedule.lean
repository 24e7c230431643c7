import LuaAsset.Cipher.Block

/-! # The key schedule

The bits of a key, low bit of each byte first, are selected into two halves of 28 bits.  Each round
takes 48 bits, in eight groups of six, from the rotated halves.  Decryption uses the round keys in
reverse (`schedule_decrypt`). -/

set_option autoImplicit false

namespace LuaAsset

namespace Cipher

inductive Direction where
  | encrypt
  | decrypt
  deriving DecidableEq, Repr

/-- The bits of a byte string, low bit of each byte first. -/
def keyBits (key : Bytes) : List Bool :=
  key.flatMap fun c => (List.range 8).map fun i => c.toNat.testBit i

def select (positions : List Nat) (bits : List Bool) : List Bool :=
  positions.map fun i => bits.getD i false

def rotated (n : Nat) (half : List Bool) : List Bool := half.drop n ++ half.take n

def bitsValue (bits : List Bool) : UInt32 :=
  bits.foldl (fun n b => (n <<< 1) ||| (if b then 1 else 0)) 0

/-- Rearranges two words of 24 bits: the first and third group of six of both in one word, the
second and fourth in the other, one group per byte. -/
def arranged (front back : UInt32) : RoundKey :=
  ⟨((front &&& 0x00fc0000) <<< 6) ||| ((front &&& 0x00000fc0) <<< 10) |||
      ((back &&& 0x00fc0000) >>> 10) ||| ((back &&& 0x00000fc0) >>> 6),
    ((front &&& 0x0003f000) <<< 12) ||| ((front &&& 0x0000003f) <<< 16) |||
      ((back &&& 0x0003f000) >>> 4) ||| (back &&& 0x0000003f)⟩

def roundKey (halves : List Bool × List Bool) (rotation : Nat) : RoundKey :=
  let bits := select roundSelection (rotated rotation halves.1 ++ rotated rotation halves.2)
  arranged (bitsValue (bits.take 24)) (bitsValue (bits.drop 24))

def keyHalves (key : Bytes) : List Bool × List Bool :=
  let bits := select keySelection (keyBits key)
  (bits.take 28, bits.drop 28)

/-- The index of the rotation for the round key at a place. -/
def Direction.turn (direction : Direction) (place : Nat) : Nat :=
  match direction with
  | .encrypt => place
  | .decrypt => 15 - place

/-- The sixteen round keys of a key, in order of use. -/
def schedule (key : Bytes) (direction : Direction) : List RoundKey :=
  (List.range 16).map fun place =>
    roundKey (keyHalves key) (rotations.getD (direction.turn place) 0)

theorem schedule_encrypt (key : Bytes) :
    schedule key .encrypt = rotations.map (roundKey (keyHalves key)) := rfl

theorem schedule_decrypt (key : Bytes) :
    schedule key .decrypt = (schedule key .encrypt).reverse := rfl

theorem length_schedule (key : Bytes) (direction : Direction) :
    (schedule key direction).length = 16 := by
  simp [schedule]

end Cipher

end LuaAsset
