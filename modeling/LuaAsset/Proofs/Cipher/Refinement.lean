import LuaAsset.Proofs.Cipher.Inverse
import LuaAsset.Proofs.Cipher.RoundKeys

/-! # Refinement of the standard cipher

The cipher on whole blocks, under the schedule of a key, is the standard cipher under the key with
mirrored bytes, in both directions. -/

set_option autoImplicit false

namespace LuaAsset

namespace Cipher

open Standard

def throughBytes (keys : List Bits) (block : Bytes) : Bytes :=
  bytesOf (Standard.through keys (bitsOf block))

theorem toBytes_through (keys : List RoundKey) (b : Block) :
    (through keys b).toBytes = throughBytes (keys.map RoundKey.bits) b.toBytes := by
  rw [throughBytes, bitsOf_toBytes, ← bits_through, ← bitsOf_toBytes, bytesOf_bitsOf]

theorem blockwise_append (cipher : Bytes → Bytes) (block rest : Bytes) (length : block.length = 8) :
    blockwise cipher (block ++ rest) = cipher block ++ blockwise cipher rest := by
  have count : (block ++ rest).length / 8 = rest.length / 8 + 1 := by
    rw [List.length_append, length]
    omega
  have first : blockAt (block ++ rest) 0 = block := by
    simp [blockAt, ← length]
  have later : ∀ i, blockAt (block ++ rest) (i + 1) = blockAt rest i := by
    intro i
    have places : 8 * (i + 1) = block.length + 8 * i := by omega
    rw [blockAt, places, List.drop_length_add_append, blockAt]
  rw [blockwise, count, List.range_succ_eq_map, List.flatMap_cons, first, List.flatMap_map, blockwise]
  simp only [later]

theorem blocks_eq_blockwise (keys : List RoundKey) :
    ∀ data : Bytes, data.length % 8 = 0 →
      blocks keys data = blockwise (throughBytes (keys.map RoundKey.bits)) data := by
  apply aligned_induction
  · rfl
  · intro b rest ih
    rw [blocks_toBytes_append, blockwise_append _ _ _ (length_toBytes b), toBytes_through, ih]

/-- On whole blocks the table-driven cipher equals the standard one under the key with mirrored
bytes, in both directions. -/
theorem encrypt_decrypt_eq_standard (key data : Bytes) (hk : key.length = 8)
    (hd : data.length % 8 = 0) :
    encrypt key data = .ok (blockwise (encipher (key.map mirrored)) data) ∧
      decrypt key data = .ok (blockwise (decipher (key.map mirrored)) data) := by
  constructor
  · rw [encrypt, run_scheduled .encrypt key hk, crypt_aligned _ data hd,
      blocks_eq_blockwise _ data hd, map_bits_schedule]
    rfl
  · rw [decrypt, run_scheduled .decrypt key hk, crypt_aligned _ data hd,
      blocks_eq_blockwise _ data hd, schedule_decrypt, List.map_reverse, map_bits_schedule]
    rfl

theorem encrypt_decrypt_eq_standard_known :
    [0xc8, 0x2c, 0xea, 0x9e, 0xd9, 0x3d, 0xfb, 0x8f].map mirrored =
        [0x13, 0x34, 0x57, 0x79, 0x9b, 0xbc, 0xdf, 0xf1] ∧
      encrypt [0xc8, 0x2c, 0xea, 0x9e, 0xd9, 0x3d, 0xfb, 0x8f]
          [0x01, 0x23, 0x45, 0x67, 0x89, 0xab, 0xcd, 0xef] =
        .ok [0x85, 0xe8, 0x13, 0x54, 0x0f, 0x0a, 0xb4, 0x05] ∧
      decrypt [0xc8, 0x2c, 0xea, 0x9e, 0xd9, 0x3d, 0xfb, 0x8f]
          [0x85, 0xe8, 0x13, 0x54, 0x0f, 0x0a, 0xb4, 0x05] =
        .ok [0x01, 0x23, 0x45, 0x67, 0x89, 0xab, 0xcd, 0xef] := by
  have written : encrypt [0xc8, 0x2c, 0xea, 0x9e, 0xd9, 0x3d, 0xfb, 0x8f]
      [0x01, 0x23, 0x45, 0x67, 0x89, 0xab, 0xcd, 0xef] =
        .ok [0x85, 0xe8, 0x13, 0x54, 0x0f, 0x0a, 0xb4, 0x05] := by
    rw [(encrypt_decrypt_eq_standard _ _ rfl rfl).1]
    decide +kernel
  exact ⟨by decide, written, decrypt_of_encrypt rfl rfl written⟩

end Cipher

end LuaAsset
