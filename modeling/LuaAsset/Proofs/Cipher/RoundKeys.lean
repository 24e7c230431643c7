import LuaAsset.Proofs.Cipher.RoundFunction
import Mathlib.Data.List.GetD

/-! # The key schedule as bit strings

The scheduled round keys, read in groups of six bits, are the round keys of the standard under the
key with mirrored bytes (`map_bits_schedule`). -/

set_option autoImplicit false

namespace LuaAsset

namespace Cipher

open Standard

/-! ## Arranged groups -/

theorem bit_bitsValue (bits : Bits) :
    ∀ i < 32, bit (bitsValue bits.reverse) i = bits.getD i false := by
  induction bits with
  | nil => intro i _; simp [bitsValue]
  | cons b bits ih =>
      intro i hi
      have step : bitsValue (b :: bits).reverse =
          (bitsValue bits.reverse <<< 1) ||| (if b then 1 else 0) := by
        simp [bitsValue, List.foldl_append]
      rw [step, bit_or, bit_shiftLeft _ 1 (by decide) hi]
      cases i with
      | zero => cases b <;> simp [bit]
      | succ i =>
          have above : ∀ i < 31, bit 1 (i + 1) = false := by decide
          have rest := ih i (by omega)
          cases b <;> simp [rest, above i (by omega)]

def fourGroups (w : UInt32) : Bits := [18, 12, 6, 0].flatMap fun low => sixAt w low

theorem fourGroups_bitsValue (bits : Bits) (length : bits.length = 24) :
    fourGroups (bitsValue bits) = bits := by
  have groups : ∀ w, fourGroups w = (List.range 24).map fun p => bit w (23 - p) := fun _ => rfl
  rw [groups]
  apply List.ext_getElem
  · simp [length]
  · intro p hp hq
    have place : 23 - p < bits.reverse.length := by simp [length]; omega
    have read := bit_bitsValue bits.reverse (23 - p) (by omega)
    rw [List.reverse_reverse, List.getD_eq_getElem _ _ place, List.getElem_reverse] at read
    simp only [List.getElem_map, List.getElem_range, read]
    congr 1
    simp at hp
    omega

theorem bits_arranged (front back : UInt32) :
    (arranged front back).bits = fourGroups front ++ fourGroups back := by
  have first : ∀ i < 32, bit 0x00fc0000 i = decide (18 ≤ i ∧ i < 24) := by decide
  have second : ∀ i < 32, bit 0x0003f000 i = decide (12 ≤ i ∧ i < 18) := by decide
  have third : ∀ i < 32, bit 0x00000fc0 i = decide (6 ≤ i ∧ i < 12) := by decide
  have fourth : ∀ i < 32, bit 0x0000003f i = decide (i < 6) := by decide
  simp (disch := decide) [RoundKey.bits, fourGroups, arranged, sixAt, bit_shiftLeft, bit_shiftRight,
    bit_of_le, first, second, third, fourth]

/-! ## Rotated halves -/

theorem rotateLeft_rotated (half : Bits) (n places : Nat) (long : 1 < half.length)
    (small : places < half.length) (room : n + places ≤ half.length) :
    (rotated n half).rotateLeft places = rotated (n + places) half := by
  have length : (rotated n half).length = half.length := by
    simp [rotated]
    omega
  have inner : places ≤ (half.drop n).length := by
    rw [List.length_drop]
    omega
  have step : (rotated n half).rotateLeft places =
      (rotated n half).drop places ++ (rotated n half).take places := by
    simp only [List.rotateLeft, length, Nat.mod_eq_of_lt small, if_neg (Nat.not_le.mpr long)]
  rw [step, rotated, List.take_append_of_le_length inner, List.drop_append_of_le_length inner,
    List.drop_drop, List.append_assoc, ← List.take_add, rotated]

def turned : Nat → List Nat → List Nat
  | _, [] => []
  | n, places :: rest => (n + places) :: turned (n + places) rest

theorem turning_rotated (left right : Bits) (hl : left.length = 28) (hr : right.length = 28) :
    ∀ (steps : List Nat) (n : Nat), (∀ places ∈ steps, places < 28) → n + steps.sum ≤ 28 →
      turning steps (rotated n left, rotated n right) =
        (turned n steps).map fun m => permuted roundChoice (rotated m left ++ rotated m right) := by
  intro steps
  induction steps with
  | nil => intro n _ _; rfl
  | cons places rest ih =>
      intro n small room
      have inner : n + places + rest.sum ≤ 28 := by
        simp only [List.sum_cons] at room
        omega
      have step := small places List.mem_cons_self
      have next := ih (n + places) (fun p member => small p (List.mem_cons_of_mem _ member)) inner
      simp only [turning, turned, List.map_cons]
      rw [rotateLeft_rotated left n places (by omega) (by omega) (by omega),
        rotateLeft_rotated right n places (by omega) (by omega) (by omega), next]

/-! ## Round keys -/

theorem select_eq_permuted (table : List Nat) (bits : Bits) :
    select (table.map fun n => n - 1) bits = permuted table bits := by
  rw [select, List.map_map]
  rfl

theorem bits_roundKey (halves : Bits × Bits) (n : Nat) :
    (roundKey halves n).bits =
      permuted roundChoice (rotated n halves.1 ++ rotated n halves.2) := by
  have tables : roundSelection = roundChoice.map fun n => n - 1 := by decide
  generalize hBits : select roundSelection (rotated n halves.1 ++ rotated n halves.2) = bits
  have length : bits.length = 48 := by rw [← hBits]; rfl
  rw [roundKey, hBits, bits_arranged, fourGroups_bitsValue _ (by simp [length]),
    fourGroups_bitsValue _ (by simp [length]), List.take_append_drop, ← hBits, tables,
    select_eq_permuted]

/-! ## Keys -/

theorem byteBits_mirrored (c : UInt8) : byteBits (mirrored c) = (byteBits c).reverse :=
  byteBits_ofNat _ _ _ _ _ _ _ _

theorem keyBits_eq (key : Bytes) : keyBits key = bitsOf (key.map mirrored) := by
  rw [keyBits, bitsOf, List.flatMap_map]
  apply List.flatMap_congr
  intro c _
  rw [byteBits_mirrored]
  rfl

theorem map_bits_schedule (key : Bytes) :
    (schedule key .encrypt).map RoundKey.bits = roundKeys (bitsOf (key.map mirrored)) := by
  have tables : keySelection = keyChoice.map fun n => n - 1 := by decide
  have sums : rotations = turned 0 turns := by decide
  have halves : keyHalves key =
      ((permuted keyChoice (bitsOf (key.map mirrored))).take 28,
        (permuted keyChoice (bitsOf (key.map mirrored))).drop 28) := by
    rw [keyHalves, keyBits_eq, tables, select_eq_permuted]
  have start : ∀ half : Bits, rotated 0 half = half := by simp [rotated]
  generalize hChosen : permuted keyChoice (bitsOf (key.map mirrored)) = chosen at halves
  have length : chosen.length = 56 := by rw [← hChosen]; rfl
  have turns_eq := turning_rotated (chosen.take 28) (chosen.drop 28) (by simp [length])
    (by simp [length]) turns 0 (by decide) (by decide)
  rw [start, start] at turns_eq
  rw [roundKeys, hChosen, schedule_encrypt, halves, turns_eq, List.map_map, sums]
  apply List.map_congr_left
  intro n _
  rw [Function.comp_apply, bits_roundKey]

end Cipher

end LuaAsset
