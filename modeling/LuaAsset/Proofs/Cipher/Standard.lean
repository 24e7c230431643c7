import LuaAsset.Bytes

/-! # The standard block cipher

DES as in its standard: bit lists and tables of bit numbers, counted from one at the high bit of the
first byte. -/

set_option autoImplicit false

namespace LuaAsset

namespace Cipher

namespace Standard

abbrev Bits := List Bool

def permuted (table : List Nat) (bits : Bits) : Bits :=
  table.map fun number => bits.getD (number - 1) false

def sum (a b : Bits) : Bits := List.zipWith xor a b

def number (bits : Bits) : Nat := bits.foldl (fun n b => 2 * n + b.toNat) 0

/-! ## Tables -/

def initialPermutation : List Nat :=
  [ 58, 50, 42, 34, 26, 18, 10, 2,
    60, 52, 44, 36, 28, 20, 12, 4,
    62, 54, 46, 38, 30, 22, 14, 6,
    64, 56, 48, 40, 32, 24, 16, 8,
    57, 49, 41, 33, 25, 17, 9, 1,
    59, 51, 43, 35, 27, 19, 11, 3,
    61, 53, 45, 37, 29, 21, 13, 5,
    63, 55, 47, 39, 31, 23, 15, 7 ]

def finalPermutation : List Nat :=
  [ 40, 8, 48, 16, 56, 24, 64, 32,
    39, 7, 47, 15, 55, 23, 63, 31,
    38, 6, 46, 14, 54, 22, 62, 30,
    37, 5, 45, 13, 53, 21, 61, 29,
    36, 4, 44, 12, 52, 20, 60, 28,
    35, 3, 43, 11, 51, 19, 59, 27,
    34, 2, 42, 10, 50, 18, 58, 26,
    33, 1, 41, 9, 49, 17, 57, 25 ]

def expansion : List Nat :=
  [ 32, 1, 2, 3, 4, 5,
    4, 5, 6, 7, 8, 9,
    8, 9, 10, 11, 12, 13,
    12, 13, 14, 15, 16, 17,
    16, 17, 18, 19, 20, 21,
    20, 21, 22, 23, 24, 25,
    24, 25, 26, 27, 28, 29,
    28, 29, 30, 31, 32, 1 ]

def roundPermutation : List Nat :=
  [ 16, 7, 20, 21, 29, 12, 28, 17,
    1, 15, 23, 26, 5, 18, 31, 10,
    2, 8, 24, 14, 32, 27, 3, 9,
    19, 13, 30, 6, 22, 11, 4, 25 ]

/-- The key bits that enter the two halves; every eighth bit is left out. -/
def keyChoice : List Nat :=
  [ 57, 49, 41, 33, 25, 17, 9,
    1, 58, 50, 42, 34, 26, 18,
    10, 2, 59, 51, 43, 35, 27,
    19, 11, 3, 60, 52, 44, 36,
    63, 55, 47, 39, 31, 23, 15,
    7, 62, 54, 46, 38, 30, 22,
    14, 6, 61, 53, 45, 37, 29,
    21, 13, 5, 28, 20, 12, 4 ]

def roundChoice : List Nat :=
  [ 14, 17, 11, 24, 1, 5,
    3, 28, 15, 6, 21, 10,
    23, 19, 12, 4, 26, 8,
    16, 7, 27, 20, 13, 2,
    41, 52, 31, 37, 47, 55,
    30, 40, 51, 45, 33, 48,
    44, 49, 39, 56, 34, 53,
    46, 42, 50, 36, 29, 32 ]

def turns : List Nat :=
  [ 1, 1, 2, 2, 2, 2, 2, 2, 1, 2, 2, 2, 2, 2, 2, 1 ]

def boxes : List (List (List Nat)) :=
  [ [ [14, 4, 13, 1, 2, 15, 11, 8, 3, 10, 6, 12, 5, 9, 0, 7],
      [0, 15, 7, 4, 14, 2, 13, 1, 10, 6, 12, 11, 9, 5, 3, 8],
      [4, 1, 14, 8, 13, 6, 2, 11, 15, 12, 9, 7, 3, 10, 5, 0],
      [15, 12, 8, 2, 4, 9, 1, 7, 5, 11, 3, 14, 10, 0, 6, 13] ],
    [ [15, 1, 8, 14, 6, 11, 3, 4, 9, 7, 2, 13, 12, 0, 5, 10],
      [3, 13, 4, 7, 15, 2, 8, 14, 12, 0, 1, 10, 6, 9, 11, 5],
      [0, 14, 7, 11, 10, 4, 13, 1, 5, 8, 12, 6, 9, 3, 2, 15],
      [13, 8, 10, 1, 3, 15, 4, 2, 11, 6, 7, 12, 0, 5, 14, 9] ],
    [ [10, 0, 9, 14, 6, 3, 15, 5, 1, 13, 12, 7, 11, 4, 2, 8],
      [13, 7, 0, 9, 3, 4, 6, 10, 2, 8, 5, 14, 12, 11, 15, 1],
      [13, 6, 4, 9, 8, 15, 3, 0, 11, 1, 2, 12, 5, 10, 14, 7],
      [1, 10, 13, 0, 6, 9, 8, 7, 4, 15, 14, 3, 11, 5, 2, 12] ],
    [ [7, 13, 14, 3, 0, 6, 9, 10, 1, 2, 8, 5, 11, 12, 4, 15],
      [13, 8, 11, 5, 6, 15, 0, 3, 4, 7, 2, 12, 1, 10, 14, 9],
      [10, 6, 9, 0, 12, 11, 7, 13, 15, 1, 3, 14, 5, 2, 8, 4],
      [3, 15, 0, 6, 10, 1, 13, 8, 9, 4, 5, 11, 12, 7, 2, 14] ],
    [ [2, 12, 4, 1, 7, 10, 11, 6, 8, 5, 3, 15, 13, 0, 14, 9],
      [14, 11, 2, 12, 4, 7, 13, 1, 5, 0, 15, 10, 3, 9, 8, 6],
      [4, 2, 1, 11, 10, 13, 7, 8, 15, 9, 12, 5, 6, 3, 0, 14],
      [11, 8, 12, 7, 1, 14, 2, 13, 6, 15, 0, 9, 10, 4, 5, 3] ],
    [ [12, 1, 10, 15, 9, 2, 6, 8, 0, 13, 3, 4, 14, 7, 5, 11],
      [10, 15, 4, 2, 7, 12, 9, 5, 6, 1, 13, 14, 0, 11, 3, 8],
      [9, 14, 15, 5, 2, 8, 12, 3, 7, 0, 4, 10, 1, 13, 11, 6],
      [4, 3, 2, 12, 9, 5, 15, 10, 11, 14, 1, 7, 6, 0, 8, 13] ],
    [ [4, 11, 2, 14, 15, 0, 8, 13, 3, 12, 9, 7, 5, 10, 6, 1],
      [13, 0, 11, 7, 4, 9, 1, 10, 14, 3, 5, 12, 2, 15, 8, 6],
      [1, 4, 11, 13, 12, 3, 7, 14, 10, 15, 6, 8, 0, 5, 9, 2],
      [6, 11, 13, 8, 1, 4, 10, 7, 9, 5, 0, 15, 14, 2, 3, 12] ],
    [ [13, 2, 8, 4, 6, 15, 11, 1, 10, 9, 3, 14, 5, 0, 12, 7],
      [1, 15, 13, 8, 10, 3, 7, 4, 12, 5, 6, 11, 0, 14, 9, 2],
      [7, 11, 4, 1, 9, 12, 14, 2, 0, 6, 10, 13, 15, 3, 5, 8],
      [2, 1, 14, 7, 4, 10, 8, 13, 15, 12, 9, 0, 3, 5, 6, 11] ] ]

/-! ## Rounds -/

/-- Six bits through a box: the outer two choose the row and the inner four the column. -/
def substituted (box : List (List Nat)) (six : Bits) : Bits :=
  let row := number [six.getD 0 false, six.getD 5 false]
  let column := number ((six.drop 1).take 4)
  let entry := (box.getD row []).getD column 0
  [entry.testBit 3, entry.testBit 2, entry.testBit 1, entry.testBit 0]

def substitution (bits : Bits) : Bits :=
  (List.range 8).flatMap fun i => substituted (boxes.getD i []) ((bits.drop (6 * i)).take 6)

def roundFunction (half key : Bits) : Bits :=
  permuted roundPermutation (substitution (sum (permuted expansion half) key))

def round (halves : Bits × Bits) (key : Bits) : Bits × Bits :=
  (halves.2, sum halves.1 (roundFunction halves.2 key))

def through (keys : List Bits) (block : Bits) : Bits :=
  let mixed := permuted initialPermutation block
  let last := keys.foldl round (mixed.take 32, mixed.drop 32)
  permuted finalPermutation (last.2 ++ last.1)

/-! ## Round keys -/

/-- The round keys of two halves that are rotated by the given amounts in turn. -/
def turning : List Nat → Bits × Bits → List Bits
  | [], _ => []
  | places :: rest, halves =>
      let turned := (halves.1.rotateLeft places, halves.2.rotateLeft places)
      permuted roundChoice (turned.1 ++ turned.2) :: turning rest turned

def roundKeys (key : Bits) : List Bits :=
  let chosen := permuted keyChoice key
  turning turns (chosen.take 28, chosen.drop 28)

/-! ## Bytes -/

def byteBits (c : UInt8) : Bits := [7, 6, 5, 4, 3, 2, 1, 0].map c.toNat.testBit

def bitsOf (s : Bytes) : Bits := s.flatMap byteBits

def bytesOf : Bits → Bytes
  | a :: b :: c :: d :: e :: f :: g :: h :: rest =>
      UInt8.ofNat (number [a, b, c, d, e, f, g, h]) :: bytesOf rest
  | _ => []

def encipher (key block : Bytes) : Bytes :=
  bytesOf (through (roundKeys (bitsOf key)) (bitsOf block))

/-- The same rounds with the round keys in reverse order. -/
def decipher (key block : Bytes) : Bytes :=
  bytesOf (through (roundKeys (bitsOf key)).reverse (bitsOf block))

/-- The byte with the bits of a byte in reverse order. -/
def mirrored (c : UInt8) : UInt8 := UInt8.ofNat (number (byteBits c).reverse)

def blockAt (data : Bytes) (i : Nat) : Bytes := (data.drop (8 * i)).take 8

def blockwise (cipher : Bytes → Bytes) (data : Bytes) : Bytes :=
  (List.range (data.length / 8)).flatMap fun i => cipher (blockAt data i)

end Standard

end Cipher

end LuaAsset
