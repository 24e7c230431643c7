import LuaAsset.Proofs.Cipher.Inverse
import LuaAsset.Proofs.Payload.Signature

/-! # A wrapped payload is unwrapped

After a lead without a signature, `wrap` and any trailing bytes, `unwrap` gives the plain text:
trailing bytes only add blocks, which the length cuts off.  An empty payload needs a block after it.
-/

set_option autoImplicit false

namespace LuaAsset

namespace Payload

open Cipher

/-! ## The length field -/

theorem length_littleEndian32 (n : Nat) : (littleEndian32 n).length = 4 := rfl

theorem littleEndianValue_littleEndian32 (n : Nat) (small : n < 2 ^ 32) :
    littleEndianValue (littleEndian32 n) = n := by
  have digit : ∀ m, (UInt8.ofNat (m % 256)).toNat = m % 256 := by
    intro m
    rw [UInt8.toNat_ofNat']
    omega
  have four : littleEndianValue (littleEndian32 n) =
      n % 256 + 256 * (n / 256 % 256 + 256 * (n / 65536 % 256 + 256 * (n / 16777216 % 256))) := by
    simp [littleEndianValue, littleEndian32, List.range_succ, digit]
  rw [four]
  omega

/-! ## Whole blocks -/

theorem length_padded (s : Bytes) : (padded s).length % 8 = 0 := by
  simp only [padded, blockSize, List.length_append, List.length_replicate]
  omega

theorem length_padded_of_ne (s : Bytes) (nonempty : s ≠ []) : 8 ≤ (padded s).length := by
  have positive := List.length_pos_iff.mpr nonempty
  simp only [padded, blockSize, List.length_append, List.length_replicate]
  omega

theorem take_padded_append (s more : Bytes) : (padded s ++ more).take s.length = s := by
  rw [padded, List.append_assoc, List.take_left]

theorem length_wholeBlocks (s : Bytes) : (wholeBlocks s).length = s.length / 8 * 8 := by
  rw [wholeBlocks, List.length_take, blockSize]
  omega

theorem wholeBlocks_append (s more : Bytes) (aligned : s.length % 8 = 0) :
    wholeBlocks (s ++ more) = s ++ wholeBlocks more := by
  have count : (s ++ more).length / 8 * 8 = s.length + more.length / 8 * 8 := by
    rw [List.length_append]
    omega
  rw [wholeBlocks, blockSize, count, List.take_length_add_append, wholeBlocks, blockSize]

/-! ## Wrapping and unwrapping -/

/-- The result of unwrapping, from the bytes after the first signature. -/
def opened (behind : Bytes) : Option Bytes :=
  if (wholeBlocks (behind.drop 4)).isEmpty then none
  else
    some ((blocks (schedule key .decrypt) (wholeBlocks (behind.drop 4))).take
      (littleEndianValue (behind.take 4)))

theorem unwrap_behind_signature (lead behind : Bytes) (absent : ¬signature <:+: lead) :
    unwrap (lead ++ (signature ++ behind)) = opened behind := by
  rw [unwrap, splitAtFirst_signature lead behind absent]
  rfl

theorem wrapped_append (plain lead rest : Bytes) :
    wrapped plain lead ++ rest = lead ++ (signature ++ (littleEndian32 plain.length ++
      (blocks (schedule key .encrypt) (padded plain) ++ rest))) := by
  simp only [wrapped, framed, List.append_assoc]

theorem opened_written (plain rest : Bytes) (small : plain.length < 2 ^ 32) :
    opened (littleEndian32 plain.length ++
        (blocks (schedule key .encrypt) (padded plain) ++ rest)) =
      if padded plain = [] ∧ rest.length < 8 then none else some plain := by
  have encrypted : (blocks (schedule key .encrypt) (padded plain)).length = (padded plain).length :=
    length_blocks _ _ (length_padded plain)
  have aligned : (blocks (schedule key .encrypt) (padded plain)).length % 8 = 0 := by
    rw [encrypted, length_padded]
  have decrypted : blocks (schedule key .decrypt) (blocks (schedule key .encrypt) (padded plain)) =
      padded plain := by
    rw [schedule_decrypt, blocks_reverse _ _ (length_padded plain)]
  rw [opened, List.drop_left' (length_littleEndian32 _), List.take_left' (length_littleEndian32 _),
    littleEndianValue_littleEndian32 _ small, wholeBlocks_append _ rest aligned,
    blocks_append _ _ _ aligned, decrypted, take_padded_append]
  have empty : (blocks (schedule key .encrypt) (padded plain) ++ wholeBlocks rest).isEmpty = true ↔
      padded plain = [] ∧ rest.length < 8 := by
    rw [List.isEmpty_iff, List.append_eq_nil_iff, ← List.length_eq_zero_iff, encrypted,
      ← List.length_eq_zero_iff, length_wholeBlocks, List.length_eq_zero_iff]
    refine and_congr_right fun _ => ?_
    omega
  by_cases nothing : padded plain = [] ∧ rest.length < 8
  · rw [if_pos nothing, if_pos (empty.mpr nothing)]
  · rw [if_neg nothing, if_neg (fun e => nothing (empty.mp e))]

/-- Unwrapping inverts `wrap` after any lead without a signature and before any trailing bytes.  An
empty payload is seen only if at least a block follows it. -/
theorem unwrap_wrap_append (plain lead rest : Bytes) (small : plain.length < 2 ^ 32)
    (absent : ¬signature <:+: lead) :
    ∃ blob, wrap plain lead = .ok blob ∧
      (plain ≠ [] → unwrap (blob ++ rest) = some plain) ∧
      (plain = [] → unwrap (blob ++ rest) = if rest.length < 8 then none else some []) := by
  refine ⟨wrapped plain lead, if_pos small, ?_⟩
  rw [wrapped_append, unwrap_behind_signature lead _ absent, opened_written plain rest small]
  constructor
  · intro nonempty
    have long := length_padded_of_ne plain nonempty
    have filled : padded plain ≠ [] := by
      intro empty
      rw [empty] at long
      cases long
    exact if_neg fun both => filled both.1
  · rintro rfl
    have nothing : padded [] = [] := rfl
    simp [nothing]

theorem unwrap_wrap_append_after_start :
    (text "return 42").length < 2 ^ 32 ∧ ¬signature <:+: text "czjzgqdczjzgqd" ∧
      (∃ blob, wrap (text "return 42") (text "czjzgqdczjzgqd") = .ok blob ∧
        unwrap (blob ++ [1, 2, 3, 4, 5, 6, 7, 8, 9]) = some (text "return 42")) ∧
      ∃ blob, wrap [] (text "czjzgqdczjzgqd") = .ok blob ∧
        unwrap (blob ++ [1, 2, 3, 4, 5, 6, 7]) = none ∧
        unwrap (blob ++ [1, 2, 3, 4, 5, 6, 7, 8]) = some [] := by
  have absent : ¬signature <:+: text "czjzgqdczjzgqd" := by decide
  have small : (text "return 42").length < 2 ^ 32 := by decide
  obtain ⟨some_, written, nine, _⟩ := unwrap_wrap_append (text "return 42") (text "czjzgqdczjzgqd")
    [1, 2, 3, 4, 5, 6, 7, 8, 9] small absent
  obtain ⟨empty, nothing, _, seven⟩ := unwrap_wrap_append [] (text "czjzgqdczjzgqd")
    [1, 2, 3, 4, 5, 6, 7] (by decide) absent
  obtain ⟨again, same, _, eight⟩ := unwrap_wrap_append [] (text "czjzgqdczjzgqd")
    [1, 2, 3, 4, 5, 6, 7, 8] (by decide) absent
  obtain rfl : empty = again := Except.ok.inj (nothing.symm.trans same)
  exact ⟨small, absent, ⟨some_, written, nine (by decide)⟩, empty, nothing, seven rfl, eight rfl⟩

end Payload

end LuaAsset
