import LuaAsset.Bytes
import LuaAsset.Cipher.Tables

/-! # Blocks and rounds

A block is two words.  `Block.spread` permutes its bits before the rounds and `Block.gather`
permutes them back; a round adds a function of one half to the other, so the reversed round keys
undo a run of rounds (`rounds_reverse`). -/

set_option autoImplicit false

namespace LuaAsset

namespace Cipher

structure Block where
  left : UInt32
  right : UInt32
  deriving DecidableEq, Repr

structure RoundKey where
  even : UInt32
  odd : UInt32
  deriving DecidableEq, Repr

namespace Block

def wordBytes (w : UInt32) : Bytes :=
  [(w >>> 24).toUInt8, (w >>> 16).toUInt8, (w >>> 8).toUInt8, w.toUInt8]

def word (a b c d : UInt8) : UInt32 :=
  (a.toUInt32 <<< 24) ||| (b.toUInt32 <<< 16) ||| (c.toUInt32 <<< 8) ||| d.toUInt32

def toBytes (b : Block) : Bytes := wordBytes b.left ++ wordBytes b.right

def exchanged (b : Block) : Block := ⟨b.right, b.left⟩

/-- Exchanges the masked bits of the right word with those of the left word `shift` places higher.
-/
def swapDown (shift mask : UInt32) (b : Block) : Block :=
  let work := ((b.left >>> shift) ^^^ b.right) &&& mask
  ⟨b.left ^^^ (work <<< shift), b.right ^^^ work⟩

def swapUp (shift mask : UInt32) (b : Block) : Block := (swapDown shift mask b.exchanged).exchanged

def rotateLeft (w n : UInt32) : UInt32 := (w <<< n) ||| (w >>> (32 - n))

def swapEven (b : Block) : Block := swapDown 0 0xaaaaaaaa b

def spread (b : Block) : Block :=
  let b := swapDown 4 0x0f0f0f0f b
  let b := swapDown 16 0x0000ffff b
  let b := swapUp 2 0x33333333 b
  let b := swapUp 8 0x00ff00ff b
  let b := swapEven ⟨b.left, rotateLeft b.right 1⟩
  ⟨rotateLeft b.left 1, b.right⟩

def gather (b : Block) : Block :=
  let b := swapEven ⟨rotateLeft b.left 31, b.right⟩
  let b : Block := ⟨b.left, rotateLeft b.right 31⟩
  let b := swapUp 8 0x00ff00ff b
  let b := swapUp 2 0x33333333 b
  let b := swapDown 16 0x0000ffff b
  swapDown 4 0x0f0f0f0f b

theorem exchanged_exchanged (b : Block) : b.exchanged.exchanged = b := rfl

end Block

def boxAt (box : Array UInt32) (w : UInt32) : UInt32 := box.getD (w &&& 0x3f).toNat 0

/-- The round function: each group of six bits selects a word of its box, and the words are joined.
-/
def mix (half : UInt32) (key : RoundKey) : UInt32 :=
  let even := Block.rotateLeft half 28 ^^^ key.even
  let odd := half ^^^ key.odd
  boxAt boxSeventh even ||| boxAt boxFifth (even >>> 8) ||| boxAt boxThird (even >>> 16) |||
    boxAt boxFirst (even >>> 24) ||| boxAt boxEighth odd ||| boxAt boxSixth (odd >>> 8) |||
    boxAt boxFourth (odd >>> 16) ||| boxAt boxSecond (odd >>> 24)

def round (b : Block) (key : RoundKey) : Block := ⟨b.right, b.left ^^^ mix b.right key⟩

def rounds (keys : List RoundKey) (b : Block) : Block := keys.foldl round b

/-- Applies a list of round keys to a block and exchanges the halves at the end. -/
def through (keys : List RoundKey) (b : Block) : Block :=
  (rounds keys b.spread).exchanged.gather

theorem round_exchanged_round (b : Block) (key : RoundKey) :
    round (round b key).exchanged key = b.exchanged := by
  simp only [round, Block.exchanged]
  rw [UInt32.xor_assoc, UInt32.xor_self, UInt32.xor_zero]

theorem rounds_reverse (keys : List RoundKey) :
    ∀ b : Block, rounds keys.reverse (rounds keys b).exchanged = b.exchanged := by
  induction keys with
  | nil => intro b; rfl
  | cons key keys ih =>
      intro b
      simp only [rounds, List.reverse_cons, List.foldl_append, List.foldl_cons, List.foldl_nil]
      have inner := ih (round b key)
      simp only [rounds] at inner
      rw [inner, round_exchanged_round]

def blocks (keys : List RoundKey) : Bytes → Bytes
  | a :: b :: c :: d :: e :: f :: g :: h :: rest =>
      (through keys ⟨Block.word a b c d, Block.word e f g h⟩).toBytes ++ blocks keys rest
  | _ => []

end Cipher

end LuaAsset
