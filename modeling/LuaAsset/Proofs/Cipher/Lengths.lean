import LuaAsset.Proofs.Cipher.Blocks

/-! # Lengths and single blocks

Both directions check the key length, then the data length, and keep the length of the data
(`Guarded`).  Each block of the result depends on one block of the data (`crypt_blockwise`). -/

set_option autoImplicit false

namespace LuaAsset

namespace Cipher

open Standard

/-- A cipher that checks the key length, then the data length, and keeps the length of the data. -/
structure Guarded (cipher : Bytes → Bytes → Except Failure Bytes) : Prop where
  fails_iff : ∀ key data, (∃ failure, cipher key data = .error failure ∧ failure.kind = .cipher) ↔
    key.length ≠ 8 ∨ data.length % 8 ≠ 0
  key_first : ∀ key data, key.length ≠ 8 → cipher key data = .error (.keyLength key.length)
  data_next : ∀ key data, key.length = 8 → data.length % 8 ≠ 0 →
    cipher key data = .error (.dataLength data.length)
  keeps : ∀ key data, key.length = 8 → data.length % 8 = 0 →
    ∃ out, cipher key data = .ok out ∧ out.length = data.length

theorem guarded_run (direction : Direction) : Guarded (run direction) where
  fails_iff key data := by
    constructor
    · rintro ⟨failure, failed, _⟩
      obtain ⟨wrong, _⟩ | ⟨_, broken, _⟩ := (run_eq_error_iff direction key data failure).mp failed
      · exact .inl wrong
      · exact .inr broken
    · intro refused
      by_cases hk : key.length = keySize
      · have broken := refused.resolve_left fun wrong => wrong hk
        exact ⟨_, (run_eq_error_iff direction key data _).mpr (.inr ⟨hk, broken, rfl⟩), rfl⟩
      · exact ⟨_, (run_eq_error_iff direction key data _).mpr (.inl ⟨hk, rfl⟩), rfl⟩
  key_first key data wrong := (run_eq_error_iff direction key data _).mpr (.inl ⟨wrong, rfl⟩)
  data_next key data hk broken :=
    (run_eq_error_iff direction key data _).mpr (.inr ⟨hk, broken, rfl⟩)
  keeps key data hk hd := by
    rw [run_scheduled direction key hk]
    exact ⟨_, crypt_aligned _ data hd, length_blocks _ data hd⟩

theorem crypt_eq_ok {keys : List RoundKey} {data out : Bytes}
    (success : crypt keys data = .ok out) :
    data.length % 8 = 0 ∧ out = blocks keys data := by
  rw [crypt] at success
  split at success
  · rename_i hd
    exact ⟨hd, (Except.ok.inj success).symm⟩
  · cases success

/-- A block of the result depends on the block at its place only. -/
theorem blockAt_blocks (keys : List RoundKey) (data : Bytes) {i : Nat}
    (inside : i < data.length / 8) :
    blockAt (blocks keys data) i = blocks keys (blockAt data i) := by
  have front : 8 * i ≤ data.length := by omega
  have rest : 8 ≤ (data.drop (8 * i)).length := by
    rw [List.length_drop]
    omega
  rw [blockAt, drop_blocks keys data (8 * i) (by omega) front, take_blocks keys _ 8 rfl rest,
    blockAt]

theorem length_blockAt {data : Bytes} {i : Nat} (inside : i < data.length / 8) :
    (blockAt data i).length = 8 := by
  rw [blockAt, List.length_take, List.length_drop]
  omega

/-- Encryption and decryption fail exactly for a key that is not of eight bytes, or else for data
that are not whole blocks; otherwise they keep the length.  Under any round keys the result of a
concatenation of whole blocks is the concatenation of the results. -/
theorem crypt_blockwise :
    Guarded encrypt ∧ Guarded decrypt ∧
      (∀ keys a b, a.length % 8 = 0 → b.length % 8 = 0 → ∃ x y,
        crypt keys a = .ok x ∧ crypt keys b = .ok y ∧ crypt keys (a ++ b) = .ok (x ++ y)) ∧
      ∀ keys data out, crypt keys data = .ok out → out.length = data.length ∧
        ∀ i < data.length / 8, crypt keys (blockAt data i) = .ok (blockAt out i) := by
  refine ⟨guarded_run .encrypt, guarded_run .decrypt, fun keys a b ha hb => ?_,
    fun keys data out success => ?_⟩
  · have both : (a ++ b).length % 8 = 0 := by
      rw [List.length_append]
      omega
    refine ⟨_, _, crypt_aligned keys a ha, crypt_aligned keys b hb, ?_⟩
    rw [crypt_aligned keys _ both, blocks_append keys b a ha]
  · obtain ⟨hd, rfl⟩ := crypt_eq_ok success
    refine ⟨length_blocks keys data hd, fun i inside => ?_⟩
    have single : (blockAt data i).length % 8 = 0 := by rw [length_blockAt inside]
    rw [crypt_aligned keys _ single, blockAt_blocks keys data inside]

theorem crypt_blockwise_two_blocks :
    crypt (schedule [2, 5, 9, 3, 6, 1, 0, 1] .encrypt)
        [0, 1, 2, 3, 4, 5, 6, 7, 8, 9, 10, 11, 12, 13, 14, 15] =
      .ok [0x27, 0x31, 0x40, 0x1c, 0x9d, 0x93, 0x92, 0xba, 0x86, 0xbc, 0x49, 0x8b, 0x3c, 0xf1, 0x9e,
        0xcd] ∧
      crypt (schedule [2, 5, 9, 3, 6, 1, 0, 1] .encrypt) [8, 9, 10, 11, 12, 13, 14, 15] =
        .ok [0x86, 0xbc, 0x49, 0x8b, 0x3c, 0xf1, 0x9e, 0xcd] ∧
      encrypt [2, 5, 9] [1, 2, 3] = .error (.keyLength 3) ∧
      decrypt [2, 5, 9, 3, 6, 1, 0, 1] [1, 2, 3] = .error (.dataLength 3) := by
  obtain ⟨encrypting, decrypting, _, single⟩ := crypt_blockwise
  have written := encrypt_two_blocks
  rw [encrypt, run_scheduled .encrypt _ rfl] at written
  exact ⟨written, (single _ _ _ written).2 1 (by decide), encrypting.key_first _ _ (by decide),
    decrypting.data_next _ _ rfl (by decide)⟩

end Cipher

end LuaAsset
