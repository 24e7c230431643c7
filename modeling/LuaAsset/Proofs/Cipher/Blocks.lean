import LuaAsset.Proofs.Cipher.Standard
import LuaAsset.Proofs.Cipher.Wiring
import Mathlib.Data.List.Basic
import Mathlib.Tactic.IntervalCases

/-! # Blocks in byte strings

Byte strings of whole blocks are built from blocks (`aligned_induction`), and the cipher processes
them block by block (`blocks_toBytes_append`, `blocks_append`). -/

set_option autoImplicit false

namespace LuaAsset

namespace Cipher

open Standard

/-! ## Bytes and bits -/

theorem byteBits_ofNat : ∀ a b c d e f g h : Bool,
    byteBits (UInt8.ofNat (number [a, b, c, d, e, f, g, h])) = [a, b, c, d, e, f, g, h] := by
  decide

theorem testBit_byte (c : UInt8) {i : Nat} (high : 8 ≤ i) : c.toNat.testBit i = false := by
  apply Nat.testBit_lt_two_pow
  exact Nat.lt_of_lt_of_le c.toNat_lt (Nat.pow_le_pow_right (by decide) high)

theorem byteBits_injective {c d : UInt8} (same : byteBits c = byteBits d) : c = d := by
  simp only [byteBits, List.map_cons, List.map_nil, List.cons.injEq] at same
  apply UInt8.toNat_inj.mp
  apply Nat.eq_of_testBit_eq
  intro i
  by_cases low : i < 8
  · interval_cases i <;> simp only [same]
  · rw [testBit_byte c (by omega), testBit_byte d (by omega)]

theorem bytesOf_bitsOf (s : Bytes) : bytesOf (bitsOf s) = s := by
  induction s with
  | nil => rfl
  | cons c s ih =>
      have front : bytesOf (bitsOf (c :: s)) =
          UInt8.ofNat (number (byteBits c)) :: bytesOf (bitsOf s) := rfl
      have same : UInt8.ofNat (number (byteBits c)) = c :=
        byteBits_injective (byteBits_ofNat _ _ _ _ _ _ _ _)
      rw [front, ih, same]

/-! ## Words and bytes -/

def wordBits (w : UInt32) : Bits := (List.range 32).map fun p => bit w (31 - p)

theorem wordBits_injective {v w : UInt32} (same : wordBits v = wordBits w) : v = w := by
  apply eq_of_bit
  intro i hi
  have place := List.map_inj_left.mp same (31 - i) (List.mem_range.mpr (by omega))
  simpa [show 31 - (31 - i) = i by omega] using place

theorem bit_toUInt32 (c : UInt8) (i : Nat) : bit c.toUInt32 i = c.toNat.testBit i := by
  have bits : bit c.toUInt32 i = c.toUInt32.toNat.testBit i := rfl
  rw [bits, UInt8.toNat_toUInt32]

theorem byteBits_shifted (w shift : UInt32) {low : Nat} (amount : shift.toNat = low)
    (hn : low < 32) :
    byteBits (w >>> shift).toUInt8 = [7, 6, 5, 4, 3, 2, 1, 0].map fun i => bit w (i + low) := by
  have small : ∀ i ∈ [7, 6, 5, 4, 3, 2, 1, 0], i < 8 := by decide
  subst amount
  apply List.map_congr_left
  intro i member
  rw [UInt32.toNat_toUInt8, Nat.testBit_mod_two_pow, decide_eq_true (small i member),
    Bool.true_and, ← bit_shiftRight w shift i hn]
  rfl

theorem wordBits_word (a b c d : UInt8) : wordBits (Block.word a b c d) = bitsOf [a, b, c, d] := by
  simp (disch := decide) [wordBits, Block.word, bitsOf, byteBits, List.range_succ, bit_shiftLeft,
    bit_toUInt32, testBit_byte]

theorem bitsOf_wordBytes (w : UInt32) : bitsOf (Block.wordBytes w) = wordBits w := by
  have bytes : bitsOf (Block.wordBytes w) = byteBits (w >>> 24).toUInt8 ++
      (byteBits (w >>> 16).toUInt8 ++ (byteBits (w >>> 8).toUInt8 ++
        byteBits (w >>> 0).toUInt8)) := by
    simp [bitsOf, Block.wordBytes]
  rw [bytes, byteBits_shifted w 24 rfl (by decide), byteBits_shifted w 16 rfl (by decide),
    byteBits_shifted w 8 rfl (by decide), byteBits_shifted w 0 rfl (by decide)]
  rfl

theorem wordBytes_word (a b c d : UInt8) :
    Block.wordBytes (Block.word a b c d) = [a, b, c, d] := by
  rw [← bytesOf_bitsOf (Block.wordBytes _), bitsOf_wordBytes, wordBits_word, bytesOf_bitsOf]

theorem word_wordBytes (w : UInt32) :
    Block.word (w >>> 24).toUInt8 (w >>> 16).toUInt8 (w >>> 8).toUInt8 w.toUInt8 = w := by
  apply wordBits_injective
  rw [wordBits_word, ← bitsOf_wordBytes]
  rfl

/-! ## Blocks and bytes -/

/-- The bits of a block in the order of their places. -/
def Block.bits (b : Block) : Bits := (List.range 64).map b.bitAt

theorem bitsOf_append (s t : Bytes) : bitsOf (s ++ t) = bitsOf s ++ bitsOf t := List.flatMap_append

theorem bitsOf_toBytes (b : Block) : bitsOf b.toBytes = b.bits := by
  rw [Block.toBytes, bitsOf_append, bitsOf_wordBytes, bitsOf_wordBytes]
  rfl

theorem length_toBytes (b : Block) : b.toBytes.length = 8 := rfl

theorem toBytes_of_word (a b c d e f g h : UInt8) :
    (Block.mk (Block.word a b c d) (Block.word e f g h)).toBytes = [a, b, c, d, e, f, g, h] := by
  rw [Block.toBytes, wordBytes_word, wordBytes_word]
  rfl

/-- Induction on byte strings of whole blocks. -/
theorem aligned_induction {motive : Bytes → Prop} (nil : motive [])
    (block : ∀ (b : Block) (rest : Bytes), motive rest → motive (b.toBytes ++ rest)) :
    ∀ data : Bytes, data.length % 8 = 0 → motive data
  | [], _ => nil
  | a :: b :: c :: d :: e :: f :: g :: h :: rest, aligned => by
      have inner : rest.length % 8 = 0 := by
        simp only [List.length_cons] at aligned
        omega
      have front := block ⟨Block.word a b c d, Block.word e f g h⟩ rest
        (aligned_induction nil block rest inner)
      rw [toBytes_of_word] at front
      exact front
  | [_], aligned | [_, _], aligned | [_, _, _], aligned | [_, _, _, _], aligned
  | [_, _, _, _, _], aligned | [_, _, _, _, _, _], aligned | [_, _, _, _, _, _, _], aligned => by
      simp at aligned

theorem blocks_toBytes_append (keys : List RoundKey) (b : Block) (rest : Bytes) :
    blocks keys (b.toBytes ++ rest) = (through keys b).toBytes ++ blocks keys rest := by
  have bytes : b.toBytes ++ rest = (b.left >>> 24).toUInt8 :: (b.left >>> 16).toUInt8 ::
      (b.left >>> 8).toUInt8 :: b.left.toUInt8 :: (b.right >>> 24).toUInt8 ::
      (b.right >>> 16).toUInt8 :: (b.right >>> 8).toUInt8 :: b.right.toUInt8 :: rest := rfl
  rw [bytes, blocks, word_wordBytes, word_wordBytes]

theorem length_blocks (keys : List RoundKey) :
    ∀ data : Bytes, data.length % 8 = 0 → (blocks keys data).length = data.length := by
  apply aligned_induction
  · rfl
  · intro b rest ih
    rw [blocks_toBytes_append, List.length_append, List.length_append, ih, length_toBytes,
      length_toBytes]

theorem blocks_append (keys : List RoundKey) (rest : Bytes) :
    ∀ data : Bytes, data.length % 8 = 0 →
      blocks keys (data ++ rest) = blocks keys data ++ blocks keys rest := by
  apply aligned_induction
  · rfl
  · intro b more ih
    rw [List.append_assoc, blocks_toBytes_append, ih, blocks_toBytes_append, List.append_assoc]

theorem blocks_cut (keys : List RoundKey) (data : Bytes) (count : Nat) (whole : count % 8 = 0)
    (inside : count ≤ data.length) :
    (blocks keys (data.take count)).length = count ∧
      blocks keys data = blocks keys (data.take count) ++ blocks keys (data.drop count) := by
  have length : (data.take count).length = count := List.length_take_of_le inside
  have aligned : (data.take count).length % 8 = 0 := by rw [length, whole]
  constructor
  · rw [length_blocks keys _ aligned, length]
  · rw [← blocks_append keys _ _ aligned, List.take_append_drop]

theorem take_blocks (keys : List RoundKey) (data : Bytes) (count : Nat) (whole : count % 8 = 0)
    (inside : count ≤ data.length) :
    (blocks keys data).take count = blocks keys (data.take count) := by
  obtain ⟨length, cut⟩ := blocks_cut keys data count whole inside
  rw [cut, List.take_left' length]

theorem drop_blocks (keys : List RoundKey) (data : Bytes) (count : Nat) (whole : count % 8 = 0)
    (inside : count ≤ data.length) :
    (blocks keys data).drop count = blocks keys (data.drop count) := by
  obtain ⟨length, cut⟩ := blocks_cut keys data count whole inside
  rw [cut, List.drop_left' length]

/-! ## Guards -/

theorem crypt_aligned (keys : List RoundKey) (data : Bytes) (hd : data.length % 8 = 0) :
    crypt keys data = .ok (blocks keys data) := by
  simp [crypt, blockSize, hd]

theorem scheduled_of_length (direction : Direction) {key : Bytes} (hk : key.length = 8) :
    scheduled key direction = .ok (schedule key direction) := by
  simp [scheduled, keySize, hk]

theorem run_scheduled (direction : Direction) (key : Bytes) (hk : key.length = 8) :
    run direction key = crypt (schedule key direction) := by
  funext data
  rw [run, scheduled_of_length direction hk]

theorem schedule_small :
    schedule [2, 5, 9, 3, 6, 1, 0, 1] .encrypt =
      [⟨0x091c0001, 0x1c010000⟩, ⟨0x2b041000, 0x23080000⟩, ⟨0x02190000, 0x20290008⟩,
        ⟨0x32200000, 0x15180100⟩, ⟨0x012f0000, 0x0a080020⟩, ⟨0x04300020, 0x27030000⟩,
        ⟨0x1a350000, 0x12000010⟩, ⟨0x10120000, 0x0e0d1000⟩, ⟨0x23130008, 0x00240000⟩,
        ⟨0x34280400, 0x24280000⟩, ⟨0x220c0000, 0x0b200000⟩, ⟨0x20390000, 0x010f0200⟩,
        ⟨0x18090800, 0x17000000⟩, ⟨0x00370000, 0x0d200002⟩, ⟨0x34050100, 0x06130000⟩,
        ⟨0x03280000, 0x24360000⟩] := by
  decide +kernel

theorem encrypt_two_blocks :
    encrypt [2, 5, 9, 3, 6, 1, 0, 1] [0, 1, 2, 3, 4, 5, 6, 7, 8, 9, 10, 11, 12, 13, 14, 15] =
      .ok [0x27, 0x31, 0x40, 0x1c, 0x9d, 0x93, 0x92, 0xba, 0x86, 0xbc, 0x49, 0x8b, 0x3c, 0xf1, 0x9e,
        0xcd] := by
  rw [encrypt, run_scheduled .encrypt _ rfl, schedule_small]
  decide +kernel

end Cipher

end LuaAsset
