import LuaAsset.Bytes
import Mathlib.Data.List.Induction

/-! # Hexadecimal digits

The value of concatenated digits (`hexadecimalValue_append`). -/

set_option autoImplicit false

namespace LuaAsset

theorem hexValue_lt (c : UInt8) (hex : Ascii.isHexDigit c = true) : Ascii.hexValue c < 16 := by
  simp only [Ascii.isHexDigit, Ascii.isDigit, Ascii.zero, Ascii.nine, Bool.or_eq_true,
    Bool.and_eq_true, decide_eq_true_eq, UInt8.le_iff_toNat_le, UInt8.reduceToNat] at hex
  simp only [Ascii.hexValue, Ascii.isDigit, Ascii.zero, Ascii.nine, Bool.and_eq_true,
    decide_eq_true_eq, UInt8.le_iff_toNat_le, UInt8.reduceToNat]
  split
  · omega
  · split <;> omega

theorem hexadecimalValue_concat (s : Bytes) (c : UInt8) :
    hexadecimalValue (s ++ [c]) = hexadecimalValue s * 16 + Ascii.hexValue c := by
  rw [hexadecimalValue, List.foldl_append]
  rfl

theorem hexadecimalValue_append (s t : Bytes) :
    hexadecimalValue (s ++ t) = hexadecimalValue s * 16 ^ t.length + hexadecimalValue t := by
  induction t using List.reverseRecOn with
  | nil => rw [List.append_nil, List.length_nil, Nat.pow_zero, Nat.mul_one]; rfl
  | append_singleton t c ih =>
      rw [← List.append_assoc, hexadecimalValue_concat, hexadecimalValue_concat, ih,
        List.length_append, List.length_singleton, Nat.pow_succ, Nat.add_mul, Nat.mul_assoc,
        Nat.add_assoc]

theorem hexadecimalValue_lt {s : Bytes} (all : ∀ c ∈ s, Ascii.isHexDigit c = true) :
    hexadecimalValue s < 16 ^ s.length := by
  induction s using List.reverseRecOn with
  | nil => exact Nat.zero_lt_one
  | append_singleton s c ih =>
      obtain ⟨front, last⟩ := List.forall_mem_append.mp all
      have small := hexValue_lt c (last c (List.mem_singleton.mpr rfl))
      have before := ih front
      rw [hexadecimalValue_concat, List.length_append, List.length_singleton, Nat.pow_succ]
      omega

end LuaAsset
