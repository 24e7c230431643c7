import LuaAsset.Proofs.Cipher.EffectiveKey
import LuaAsset.Proofs.Cipher.Inverse
import Mathlib.Data.List.Forall2

/-! # Complements

Complementing key and data leaves the input of the boxes unchanged, so a round maps complements to
complements (`round_complemented`), and so does the cipher (`encrypt_decrypt_complemented`). -/

set_option autoImplicit false

namespace LuaAsset

namespace Cipher

open Standard

/-! ## Blocks -/

theorem bit_not (w : UInt32) {i : Nat} (hi : i < 32) : bit (~~~w) i = !bit w i := by
  simp [bit, hi]

namespace Block

def complemented (b : Block) : Block := ⟨~~~b.left, ~~~b.right⟩

theorem bitAt_complemented (b : Block) {p : Nat} (hp : p < 64) :
    b.complemented.bitAt p = !b.bitAt p := by
  by_cases low : p < 32
  · rw [bitAt, bitAt, if_pos low, if_pos low, complemented, bit_not _ (by omega)]
  · rw [bitAt, bitAt, if_neg low, if_neg low, complemented, bit_not _ (by omega)]

/-- A `Wiring` commutes with the complement. -/
theorem Wiring.complemented {f : Block → Block} {source : Nat → Nat} (h : Wiring f source)
    (b : Block) : f b.complemented = (f b).complemented := by
  apply eq_of_bitAt
  intro p hp
  rw [h.reads _ p hp, bitAt_complemented _ (h.within p hp), bitAt_complemented _ hp,
    h.reads b p hp]

end Block

/-! ## Rounds -/

theorem sum_not (a b : Bits) : sum (a.map not) (b.map not) = sum a b := by
  simp only [sum, List.zipWith_map, Bool.not_xor_not]

theorem permuted_expansion_not (w : UInt32) :
    permuted expansion (half (~~~w)) = (permuted expansion (half w)).map not := by
  have inside : ∀ n ∈ expansion, n - 1 < halfPlaces.length := by decide
  have small : ∀ i ∈ expansion.map fun n => halfPlaces.getD (n - 1) 0, i < 32 := by decide
  rw [half, half, permuted_map _ _ _ inside, permuted_map _ _ _ inside]
  generalize (expansion.map fun n => halfPlaces.getD (n - 1) 0) = places at small ⊢
  rw [List.map_map]
  apply List.map_congr_left
  intro i member
  rw [bit_not w (small i member), Function.comp_apply]

/-- Every bit of the first round key is the opposite of the bit of the second. -/
def Opposite (key other : RoundKey) : Prop := other.bits = key.bits.map not

variable {key other : RoundKey} {keys others : List RoundKey}

theorem mix_complemented (opposite : Opposite key other) (w : UInt32) :
    mix (~~~w) other = mix w key := by
  rw [mix_eq_selected, mix_eq_selected, RoundKey.bits_add, RoundKey.bits_add, ← permuted_expansion,
    ← permuted_expansion, permuted_expansion_not, opposite, sum_not]

theorem round_complemented (opposite : Opposite key other) (b : Block) :
    round b.complemented other = (round b key).complemented := by
  simp only [round, Block.complemented, mix_complemented opposite, UInt32.not_xor]

theorem rounds_complemented (opposite : List.Forall₂ Opposite keys others) :
    ∀ b : Block, rounds others b.complemented = (rounds keys b).complemented := by
  induction opposite with
  | nil => intro b; rfl
  | @cons key other keys others first _ ih =>
      intro b
      have rest := ih (round b key)
      rw [← round_complemented first] at rest
      exact rest

theorem through_complemented (opposite : List.Forall₂ Opposite keys others) (b : Block) :
    through others b.complemented = (through keys b).complemented := by
  have exchanged : ∀ b : Block, b.complemented.exchanged = b.exchanged.complemented := fun _ => rfl
  rw [through, Block.spread_wiring.complemented, rounds_complemented opposite, exchanged,
    Block.gather_wiring.complemented, through]

/-! ## Keys -/

def complemented (s : Bytes) : Bytes := s.map fun c => ~~~c

theorem length_complemented (s : Bytes) : (complemented s).length = s.length := List.length_map ..

theorem testBit_not (c : UInt8) {j : Nat} (hj : j < 8) :
    (~~~c).toNat.testBit j = !c.toNat.testBit j := by
  have bits : ∀ d : UInt8, d.toNat.testBit j = d.toBitVec.getLsbD j := fun _ => rfl
  rw [bits, bits, UInt8.toBitVec_not, BitVec.getLsbD_not, decide_eq_true hj, Bool.true_and]

theorem keyBit_complemented {key : Bytes} {p : Nat} (inside : p < 8 * key.length) :
    keyBit (complemented key) p = !keyBit key p := by
  have byte : p / 8 < key.length := by omega
  simp only [keyBit, complemented, List.getD_eq_getElem?_getD, List.getElem?_map,
    List.getElem?_eq_getElem byte, Option.map_some, Option.getD_some]
  exact testBit_not _ (by omega)

theorem opposite_schedule (direction : Direction) {key : Bytes} (hk : key.length = 8) :
    List.Forall₂ Opposite (schedule key direction) (schedule (complemented key) direction) := by
  rw [schedule, schedule, List.forall₂_map_left_iff, List.forall₂_map_right_iff, List.forall₂_same]
  intro place _
  rw [Opposite, bits_roundKey_keyHalves, bits_roundKey_keyHalves, List.map_map]
  apply List.map_congr_left
  intro p taken
  have small := (mem_takenPositions taken).1
  rw [Function.comp_apply, keyBit_complemented (by omega)]

/-! ## Data -/

theorem byteBits_not (c : UInt8) : byteBits (~~~c) = (byteBits c).map not := by
  have small : ∀ j ∈ [7, 6, 5, 4, 3, 2, 1, 0], j < 8 := by decide
  rw [byteBits, byteBits, List.map_map]
  apply List.map_congr_left
  intro j member
  rw [testBit_not c (small j member), Function.comp_apply]

theorem wordBytes_not (w : UInt32) : Block.wordBytes (~~~w) = complemented (Block.wordBytes w) := by
  have byte : ∀ (shift : UInt32), shift.toNat ≤ 24 →
      (~~~w >>> shift).toUInt8 = ~~~(w >>> shift).toUInt8 := by
    intro shift room
    have small : ∀ i ∈ [7, 6, 5, 4, 3, 2, 1, 0], i < 8 := by decide
    apply byteBits_injective
    rw [byteBits_not, byteBits_shifted _ shift rfl (by omega), byteBits_shifted _ shift rfl (by omega),
      List.map_map]
    apply List.map_congr_left
    intro i member
    have := small i member
    rw [bit_not w (by omega), Function.comp_apply]
  have last := byte 0 (by decide)
  rw [UInt32.shiftRight_zero, UInt32.shiftRight_zero] at last
  rw [Block.wordBytes, byte 24 (by decide), byte 16 (by decide), byte 8 (by decide), last]
  rfl

theorem toBytes_complemented (b : Block) : b.complemented.toBytes = complemented b.toBytes := by
  rw [Block.toBytes, Block.complemented, wordBytes_not, wordBytes_not, complemented, complemented,
    ← List.map_append]
  rfl

theorem blocks_complemented (opposite : List.Forall₂ Opposite keys others) :
    ∀ data : Bytes, data.length % 8 = 0 →
      blocks others (complemented data) = complemented (blocks keys data) := by
  have apart : ∀ s t : Bytes, complemented (s ++ t) = complemented s ++ complemented t :=
    fun _ _ => List.map_append
  apply aligned_induction
  · rfl
  · intro b rest ih
    rw [apart, ← toBytes_complemented, blocks_toBytes_append, blocks_toBytes_append, apart, ih,
      through_complemented opposite, toBytes_complemented]

theorem run_complemented (direction : Direction) (key data : Bytes) (hk : key.length = 8)
    (hd : data.length % 8 = 0) :
    ∃ out, run direction key data = .ok out ∧
      run direction (complemented key) (complemented data) = .ok (complemented out) := by
  have length : (complemented key).length = 8 := (length_complemented key).trans hk
  have aligned : (complemented data).length % 8 = 0 := by rw [length_complemented, hd]
  refine ⟨blocks (schedule key direction) data, ?_, ?_⟩
  · rw [run_scheduled direction key hk, crypt_aligned _ data hd]
  · rw [run_scheduled direction _ length, crypt_aligned _ _ aligned,
      blocks_complemented (opposite_schedule direction hk) data hd]

/-- The complement of the data under the complement of the key is encrypted, and decrypted, to the
complement of the result. -/
theorem encrypt_decrypt_complemented (key data : Bytes) (hk : key.length = 8)
    (hd : data.length % 8 = 0) :
    (∃ out, encrypt key data = .ok out ∧
        encrypt (complemented key) (complemented data) = .ok (complemented out)) ∧
      ∃ out, decrypt key data = .ok out ∧
        decrypt (complemented key) (complemented data) = .ok (complemented out) :=
  ⟨run_complemented .encrypt key data hk hd, run_complemented .decrypt key data hk hd⟩

theorem encrypt_decrypt_complemented_two_blocks :
    encrypt [0xfd, 0xfa, 0xf6, 0xfc, 0xf9, 0xfe, 0xff, 0xfe]
        [0xff, 0xfe, 0xfd, 0xfc, 0xfb, 0xfa, 0xf9, 0xf8, 0xf7, 0xf6, 0xf5, 0xf4, 0xf3, 0xf2, 0xf1,
          0xf0] =
      .ok [0xd8, 0xce, 0xbf, 0xe3, 0x62, 0x6c, 0x6d, 0x45, 0x79, 0x43, 0xb6, 0x74, 0xc3, 0x0e, 0x61,
        0x32] ∧
      decrypt [0xfd, 0xfa, 0xf6, 0xfc, 0xf9, 0xfe, 0xff, 0xfe]
          [0xd8, 0xce, 0xbf, 0xe3, 0x62, 0x6c, 0x6d, 0x45, 0x79, 0x43, 0xb6, 0x74, 0xc3, 0x0e, 0x61,
            0x32] =
        .ok [0xff, 0xfe, 0xfd, 0xfc, 0xfb, 0xfa, 0xf9, 0xf8, 0xf7, 0xf6, 0xf5, 0xf4, 0xf3, 0xf2,
          0xf1, 0xf0] := by
  obtain ⟨⟨out, written, forward⟩, _⟩ := encrypt_decrypt_complemented [2, 5, 9, 3, 6, 1, 0, 1]
    [0, 1, 2, 3, 4, 5, 6, 7, 8, 9, 10, 11, 12, 13, 14, 15] rfl rfl
  obtain ⟨_, back, read, backward⟩ := encrypt_decrypt_complemented [2, 5, 9, 3, 6, 1, 0, 1]
    [0x27, 0x31, 0x40, 0x1c, 0x9d, 0x93, 0x92, 0xba, 0x86, 0xbc, 0x49, 0x8b, 0x3c, 0xf1, 0x9e, 0xcd]
    rfl rfl
  obtain rfl := Except.ok.inj (encrypt_two_blocks.symm.trans written)
  obtain rfl := Except.ok.inj ((decrypt_of_encrypt rfl rfl encrypt_two_blocks).symm.trans read)
  exact ⟨forward, backward⟩

end Cipher

end LuaAsset
