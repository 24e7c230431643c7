import LuaAsset.Proofs.Cipher.Blocks

/-! # Decryption inverts encryption

The initial and final permutations are inverse, and the reversed round keys undo the rounds, so they
undo whole blocks under any round keys (`blocks_reverse`). -/

set_option autoImplicit false

namespace LuaAsset

namespace Cipher

/-- The reversed round keys undo a block. -/
theorem through_reverse (keys : List RoundKey) (b : Block) :
    through keys.reverse (through keys b) = b := by
  have last : (rounds keys b.spread).exchanged.gather.spread =
      (rounds keys b.spread).exchanged := Block.spread_gather _
  rw [through, through, last, rounds_reverse, Block.exchanged_exchanged, Block.gather_spread]

theorem blocks_reverse (keys : List RoundKey) :
    ∀ data : Bytes, data.length % 8 = 0 → blocks keys.reverse (blocks keys data) = data := by
  apply aligned_induction
  · rfl
  · intro b rest ih
    rw [blocks_toBytes_append, blocks_toBytes_append, through_reverse, ih]

theorem blocks_inj (keys : List RoundKey) {s t : Bytes} (hs : s.length % 8 = 0)
    (ht : t.length % 8 = 0) : blocks keys s = blocks keys t ↔ s = t := by
  constructor
  · intro same
    rw [← blocks_reverse keys s hs, same, blocks_reverse keys t ht]
  · exact fun same => congrArg (blocks keys) same

theorem blocks_encrypt_decrypt (key data : Bytes) (hd : data.length % 8 = 0) :
    blocks (schedule key .encrypt) (blocks (schedule key .decrypt) data) = data := by
  have mirror : schedule key .encrypt = (schedule key .decrypt).reverse := by
    rw [schedule_decrypt, List.reverse_reverse]
  rw [mirror, blocks_reverse _ _ hd]

theorem crypt_reverse (keys : List RoundKey) (data : Bytes) (hd : data.length % 8 = 0) :
    (crypt keys data >>= crypt keys.reverse) = .ok data := by
  have inner : (blocks keys data).length % 8 = 0 := by rw [length_blocks keys data hd, hd]
  rw [crypt_aligned keys data hd]
  exact (crypt_aligned keys.reverse _ inner).trans (by rw [blocks_reverse keys data hd])

theorem decrypt_of_encrypt {key data out : Bytes} (hk : key.length = 8) (hd : data.length % 8 = 0)
    (written : encrypt key data = .ok out) : decrypt key out = .ok data := by
  have forward := crypt_reverse (schedule key .encrypt) data hd
  rw [encrypt, run_scheduled .encrypt key hk] at written
  rw [written, ← schedule_decrypt] at forward
  rw [decrypt, run_scheduled .decrypt key hk]
  exact forward

theorem scheduled_decrypt (key : Bytes) :
    scheduled key .decrypt = (scheduled key .encrypt).map List.reverse := by
  unfold scheduled
  split
  · rw [schedule_decrypt]
    rfl
  · rfl

/-- Decryption inverts encryption and encryption inverts decryption.  `crypt` under any round keys
is inverted by the same keys in reverse order, which is the schedule of decryption. -/
theorem encrypt_decrypt_inverse (key data : Bytes) (keys : List RoundKey)
    (hk : key.length = 8) (hd : data.length % 8 = 0) :
    (encrypt key data >>= decrypt key) = .ok data ∧
      (decrypt key data >>= encrypt key) = .ok data ∧
      (crypt keys data >>= crypt keys.reverse) = .ok data ∧
      scheduled key .decrypt = (scheduled key .encrypt).map List.reverse := by
  have forward := crypt_reverse (schedule key .encrypt) data hd
  have backward := crypt_reverse (schedule key .decrypt) data hd
  have mirror : (schedule key .decrypt).reverse = schedule key .encrypt := by
    rw [schedule_decrypt, List.reverse_reverse]
  rw [← schedule_decrypt] at forward
  rw [mirror] at backward
  refine ⟨?_, ?_, crypt_reverse keys data hd, scheduled_decrypt key⟩
  · have decrypting : decrypt key = crypt (schedule key .decrypt) := run_scheduled .decrypt key hk
    rw [encrypt, run_scheduled .encrypt key hk, decrypting, forward]
  · have encrypting : encrypt key = crypt (schedule key .encrypt) := run_scheduled .encrypt key hk
    rw [decrypt, run_scheduled .decrypt key hk, encrypting, backward]

theorem encrypt_decrypt_inverse_two_blocks :
    encrypt [2, 5, 9, 3, 6, 1, 0, 1] [0, 1, 2, 3, 4, 5, 6, 7, 8, 9, 10, 11, 12, 13, 14, 15] =
        .ok [0x27, 0x31, 0x40, 0x1c, 0x9d, 0x93, 0x92, 0xba, 0x86, 0xbc, 0x49, 0x8b, 0x3c, 0xf1,
          0x9e, 0xcd] ∧
      decrypt [2, 5, 9, 3, 6, 1, 0, 1] [0x27, 0x31, 0x40, 0x1c, 0x9d, 0x93, 0x92, 0xba, 0x86, 0xbc,
          0x49, 0x8b, 0x3c, 0xf1, 0x9e, 0xcd] =
        .ok [0, 1, 2, 3, 4, 5, 6, 7, 8, 9, 10, 11, 12, 13, 14, 15] ∧
      (crypt (List.replicate 16 ⟨0xdeadbeef, 0x01234567⟩)
          [0, 1, 2, 3, 4, 5, 6, 7, 8, 9, 10, 11, 12, 13, 14, 15] >>=
        crypt (List.replicate 16 ⟨0xdeadbeef, 0x01234567⟩).reverse) =
        .ok [0, 1, 2, 3, 4, 5, 6, 7, 8, 9, 10, 11, 12, 13, 14, 15] := by
  obtain ⟨undone, _, any, _⟩ := encrypt_decrypt_inverse [2, 5, 9, 3, 6, 1, 0, 1]
    [0, 1, 2, 3, 4, 5, 6, 7, 8, 9, 10, 11, 12, 13, 14, 15]
    (List.replicate 16 ⟨0xdeadbeef, 0x01234567⟩) rfl rfl
  rw [encrypt_two_blocks] at undone
  exact ⟨encrypt_two_blocks, undone, any⟩

end Cipher

end LuaAsset
