import LuaAsset.Proofs.Payload.Unwrapping

/-! # Wrapping an unwrapped payload

Unwrapping drops the padding of the last block and wrapping pads with zeros, so only a payload with
zero padding comes back unchanged; blocks are encrypted independently, so all others agree up to the
last block. -/

set_option autoImplicit false

namespace LuaAsset

namespace Payload

open Cipher

theorem framed_eq (lead : Bytes) (n : Nat) (encrypted : Bytes) :
    framed lead n encrypted = lead ++ (signature ++ (littleEndian32 n ++ encrypted)) := by
  simp only [framed, List.append_assoc]

theorem length_framed (lead : Bytes) (n : Nat) (encrypted : Bytes) :
    (framed lead n encrypted).length = lead.length + 12 + encrypted.length := by
  simp only [framed, List.length_append, length_signature, length_littleEndian32]

theorem framed_inj {lead : Bytes} {n : Nat} {first second : Bytes} :
    framed lead n first = framed lead n second ↔ first = second :=
  List.append_right_inj _

/-! ## The last block -/

section LastBlock

variable {n : Nat} {data : Bytes}

theorem padded_take (fits : data.length = (n + 7) / 8 * 8) :
    padded (data.take n) = data.take n ++ List.replicate (data.length - n) 0 := by
  have count : (data.take n).length = n := List.length_take_of_le (by omega)
  simp only [padded, count, fits, blockSize]
  rfl

theorem length_padded_take (fits : data.length = (n + 7) / 8 * 8) :
    (padded (data.take n)).length = data.length := by
  rw [padded_take fits, List.length_append, List.length_take, List.length_replicate]
  omega

/-- Padding a prefix gives the bytes back iff the rest of them is zero. -/
theorem padded_take_eq_iff (fits : data.length = (n + 7) / 8 * 8) :
    padded (data.take n) = data ↔ ∀ c ∈ data.drop n, c = 0 := by
  have filled : data.drop n = List.replicate (data.length - n) 0 ↔ ∀ c ∈ data.drop n, c = 0 := by
    rw [List.eq_replicate_iff, List.length_drop]
    exact and_iff_right rfl
  rw [padded_take fits, ← filled]
  constructor
  · intro same
    exact (List.append_cancel_left (same.trans (List.take_append_drop n data).symm)).symm
  · intro zeros
    rw [← zeros, List.take_append_drop]

theorem take_padded_take (fits : data.length = (n + 7) / 8 * 8) :
    (padded (data.take n)).take (data.length - 8) = data.take (data.length - 8) := by
  have count : (data.take n).length = n := List.length_take_of_le (by omega)
  rw [padded_take fits, List.take_append_of_le_length (by omega), List.take_take]
  congr 1
  omega

end LastBlock

/-! ## Unwrapping and wrapping again -/

theorem wholeBlocks_of_aligned {s : Bytes} (aligned : s.length % 8 = 0) : wholeBlocks s = s := by
  have cut := wholeBlocks_append s [] aligned
  rw [List.append_nil] at cut
  exact cut.trans (List.append_nil s)

theorem unwrap_framed {lead encrypted : Bytes} {n : Nat} (absent : ¬signature <:+: lead)
    (positive : 0 < n) (small : n < 2 ^ 32) (fits : encrypted.length = (n + 7) / 8 * 8) :
    unwrap (framed lead n encrypted) =
      some ((blocks (schedule key .decrypt) encrypted).take n) := by
  have behind : 12 ≤ (littleEndian32 n ++ encrypted).length := by
    rw [List.length_append, length_littleEndian32]
    omega
  rw [framed_eq, unwrap_behind_signature lead _ absent, opened_of_long behind,
    List.drop_left' (length_littleEndian32 n), List.take_left' (length_littleEndian32 n),
    littleEndianValue_littleEndian32 n small, wholeBlocks_of_aligned (by omega)]

section Framed

variable {n : Nat} {data : Bytes}

theorem wrapped_take (lead : Bytes) (fits : data.length = (n + 7) / 8 * 8) :
    wrapped (data.take n) lead =
      framed lead n (blocks (schedule key .encrypt) (padded (data.take n))) := by
  have count : (data.take n).length = n := List.length_take_of_le (by omega)
  rw [wrapped, count]

theorem wrapped_take_eq_iff (lead : Bytes) (fits : data.length = (n + 7) / 8 * 8) :
    wrapped (data.take n) lead = framed lead n (blocks (schedule key .encrypt) data) ↔
      ∀ c ∈ data.drop n, c = 0 := by
  rw [wrapped_take lead fits, framed_inj,
    blocks_inj _ (by rw [length_padded]) (by omega), padded_take_eq_iff fits]

theorem take_blocks_padded (fits : data.length = (n + 7) / 8 * 8) :
    (blocks (schedule key .encrypt) (padded (data.take n))).take (data.length - 8) =
      (blocks (schedule key .encrypt) data).take (data.length - 8) := by
  have long := length_padded_take fits
  rw [take_blocks _ _ _ (by omega) (by omega), take_padded_take fits,
    ← take_blocks _ _ _ (by omega) (by omega)]

theorem length_wrapped_take (lead : Bytes) (fits : data.length = (n + 7) / 8 * 8) :
    (wrapped (data.take n) lead).length =
      (framed lead n (blocks (schedule key .encrypt) data)).length := by
  rw [wrapped_take lead fits, length_framed, length_framed, length_blocks _ _ (length_padded _),
    length_blocks _ _ (by omega), length_padded_take fits]

end Framed

/-- Wrapping an unwrapped payload gives it back iff the padding of its last block is zero; up to the
last block the two always agree. -/
theorem wrap_unwrap (lead : Bytes) (n : Nat) (encrypted : Bytes) (absent : ¬signature <:+: lead)
    (positive : 0 < n) (small : n < 2 ^ 32) (fits : encrypted.length = (n + 7) / 8 * 8) :
    ∃ data again, decrypt key encrypted = .ok data ∧
      unwrap (framed lead n encrypted) = some (data.take n) ∧
      wrap (data.take n) lead = .ok again ∧
      (again = framed lead n encrypted ↔ ∀ c ∈ data.drop n, c = 0) ∧
      again.length = (framed lead n encrypted).length ∧
      again.take ((framed lead n encrypted).length - 8) =
        (framed lead n encrypted).take ((framed lead n encrypted).length - 8) := by
  have aligned : encrypted.length % 8 = 0 := by omega
  obtain ⟨data, decrypted⟩ : ∃ data, blocks (schedule key .decrypt) encrypted = data := ⟨_, rfl⟩
  -- the cipher goes both ways, so the encrypted bytes are those of what they decrypt to
  have written : encrypted = blocks (schedule key .encrypt) data := by
    rw [← decrypted, blocks_encrypt_decrypt key encrypted aligned]
  have fitsData : data.length = (n + 7) / 8 * 8 := by
    rw [← decrypted, length_blocks _ _ aligned, fits]
  have count : (data.take n).length < 2 ^ 32 := by
    rw [List.length_take]
    omega
  refine ⟨data, wrapped (data.take n) lead, ?_, ?_, if_pos count, ?_, ?_, ?_⟩
  · rw [decrypt_aligned encrypted aligned, decrypted]
  · rw [unwrap_framed absent positive small fits, decrypted]
  · rw [written, wrapped_take_eq_iff lead fitsData]
  · rw [written, length_wrapped_take lead fitsData]
  · have more : (framed lead n encrypted).length - 8 =
        (lead ++ signature ++ littleEndian32 n).length + (data.length - 8) := by
      rw [framed, List.length_append, fits, fitsData]
      omega
    rw [more, wrapped_take lead fitsData, framed, framed, List.take_length_add_append,
      List.take_length_add_append, take_blocks_padded fitsData, written]

theorem wrap_unwrap_nine :
    ¬signature <:+: text "czczjz" ∧
      unwrap (framed (text "czczjz") 9 [0x27, 0x31, 0x40, 0x1c, 0x9d, 0x93, 0x92, 0xba, 0xb0, 0x37,
        0x1b, 0xfa, 0x70, 0xc5, 0x5e, 0x1f]) = some [0, 1, 2, 3, 4, 5, 6, 7, 8] ∧
      wrap [0, 1, 2, 3, 4, 5, 6, 7, 8] (text "czczjz") =
        .ok (framed (text "czczjz") 9 [0x27, 0x31, 0x40, 0x1c, 0x9d, 0x93, 0x92, 0xba, 0xb0, 0x37,
          0x1b, 0xfa, 0x70, 0xc5, 0x5e, 0x1f]) ∧
      unwrap (framed (text "czczjz") 9 [0x27, 0x31, 0x40, 0x1c, 0x9d, 0x93, 0x92, 0xba, 0x86, 0xbc,
        0x49, 0x8b, 0x3c, 0xf1, 0x9e, 0xcd]) = some [0, 1, 2, 3, 4, 5, 6, 7, 8] ∧
      wrap [0, 1, 2, 3, 4, 5, 6, 7, 8] (text "czczjz") ≠
        .ok (framed (text "czczjz") 9 [0x27, 0x31, 0x40, 0x1c, 0x9d, 0x93, 0x92, 0xba, 0x86, 0xbc,
          0x49, 0x8b, 0x3c, 0xf1, 0x9e, 0xcd]) := by
  have absent : ¬signature <:+: text "czczjz" := by decide
  obtain ⟨data, again, zeros, read, made, back, _⟩ := wrap_unwrap (text "czczjz") 9
    [0x27, 0x31, 0x40, 0x1c, 0x9d, 0x93, 0x92, 0xba, 0xb0, 0x37, 0x1b, 0xfa, 0x70, 0xc5, 0x5e, 0x1f]
    absent (by decide) (by decide) rfl
  obtain ⟨other, else_, sevens, readOther, madeOther, backOther, _⟩ := wrap_unwrap (text "czczjz") 9
    [0x27, 0x31, 0x40, 0x1c, 0x9d, 0x93, 0x92, 0xba, 0x86, 0xbc, 0x49, 0x8b, 0x3c, 0xf1, 0x9e, 0xcd]
    absent (by decide) (by decide) rfl
  have decrypted : decrypt key [0x27, 0x31, 0x40, 0x1c, 0x9d, 0x93, 0x92, 0xba, 0xb0, 0x37, 0x1b,
      0xfa, 0x70, 0xc5, 0x5e, 0x1f] = .ok [0, 1, 2, 3, 4, 5, 6, 7, 8, 0, 0, 0, 0, 0, 0, 0] := by
    apply decrypt_of_encrypt rfl rfl
    rw [encrypt, run_scheduled .encrypt _ rfl, key, schedule_small]
    decide +kernel
  have decryptedOther : decrypt key [0x27, 0x31, 0x40, 0x1c, 0x9d, 0x93, 0x92, 0xba, 0x86, 0xbc,
      0x49, 0x8b, 0x3c, 0xf1, 0x9e, 0xcd] =
      .ok [0, 1, 2, 3, 4, 5, 6, 7, 8, 9, 10, 11, 12, 13, 14, 15] :=
    decrypt_of_encrypt rfl rfl encrypt_two_blocks
  rw [decrypted] at zeros
  rw [decryptedOther] at sevens
  cases zeros
  cases sevens
  refine ⟨absent, read, made.trans (congrArg _ (back.mpr (by simp))), readOther, fun same => ?_⟩
  have nine : (9 : UInt8) = 0 :=
    backOther.mp (Except.ok.inj (madeOther.symm.trans same)) 9 (by simp)
  exact absurd nine (by decide)

end Payload

end LuaAsset
