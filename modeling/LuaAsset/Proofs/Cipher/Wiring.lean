import LuaAsset.Cipher
import Mathlib.Tactic.SplitIfs

/-! # Bit permutations of a block

A map of blocks that only moves bits is given by the source of every place (`Wiring`).  The
exchanges and rotations around the rounds are such maps, so the two permutations are inverse by
their sources (`gather_spread`, `spread_gather`). -/

set_option autoImplicit false

namespace LuaAsset

namespace Cipher

/-! ## Bits of words -/

def bit (w : UInt32) (i : Nat) : Bool := w.toBitVec.getLsbD i

theorem eq_of_bit {v w : UInt32} (same : ∀ i < 32, bit v i = bit w i) : v = w := by
  apply UInt32.toBitVec_inj.mp
  apply BitVec.eq_of_getLsbD_eq
  intro i hi
  exact same i hi

@[simp] theorem bit_zero (i : Nat) : bit 0 i = false := by
  simp [bit]

@[simp] theorem bit_xor (v w : UInt32) (i : Nat) : bit (v ^^^ w) i = xor (bit v i) (bit w i) := by
  simp [bit]

@[simp] theorem bit_and (v w : UInt32) (i : Nat) : bit (v &&& w) i = (bit v i && bit w i) := by
  simp [bit]

@[simp] theorem bit_or (v w : UInt32) (i : Nat) : bit (v ||| w) i = (bit v i || bit w i) := by
  simp [bit]

theorem bit_shiftLeft (w n : UInt32) {i : Nat} (hn : n.toNat < 32) (hi : i < 32) :
    bit (w <<< n) i = (decide (n.toNat ≤ i) && bit w (i - n.toNat)) := by
  have amount : (n.toBitVec % 32).toNat = n.toNat := by
    simp [Nat.mod_eq_of_lt hn]
  have order : (!decide (i < n.toNat)) = decide (n.toNat ≤ i) := by
    by_cases low : n.toNat ≤ i
    · simp [low]
    · simp [low, Nat.lt_of_not_le low]
  rw [bit, UInt32.toBitVec_shiftLeft, BitVec.shiftLeft_eq', amount, BitVec.getLsbD_shiftLeft, order,
    decide_eq_true hi, Bool.true_and]
  rfl

theorem bit_shiftRight (w n : UInt32) (i : Nat) (hn : n.toNat < 32) :
    bit (w >>> n) i = bit w (i + n.toNat) := by
  have amount : n.toNat % 32 = n.toNat := Nat.mod_eq_of_lt hn
  simp [bit, UInt32.toBitVec_shiftRight, amount, Nat.add_comm]

theorem bit_of_le (w : UInt32) {i : Nat} (hi : 32 ≤ i) : bit w i = false :=
  BitVec.getLsbD_of_ge w.toBitVec i hi

theorem bit_rotateLeft (w n : UInt32) {i : Nat} (positive : 0 < n.toNat) (hn : n.toNat < 32)
    (hi : i < 32) : bit (Block.rotateLeft w n) i = bit w ((i + 32 - n.toNat) % 32) := by
  have back : (32 - n).toNat = 32 - n.toNat := by
    rw [UInt32.toNat_sub_of_le]
    · rfl
    · exact UInt32.le_iff_toNat_le.mpr (Nat.le_of_lt hn)
  rw [Block.rotateLeft, bit_or, bit_shiftLeft w n hn hi, bit_shiftRight w (32 - n) i (by omega), back]
  by_cases low : n.toNat ≤ i
  · have same : (i + 32 - n.toNat) % 32 = i - n.toNat := by omega
    have none : bit w (i + (32 - n.toNat)) = false := bit_of_le w (by omega)
    simp [low, same, none]
  · have same : (i + 32 - n.toNat) % 32 = i + (32 - n.toNat) := by omega
    simp [low, same]

/-! ## Places of blocks -/

namespace Block

/-- The bit of a block at a place, counted from the high end of its left word. -/
def bitAt (b : Block) (p : Nat) : Bool :=
  if p < 32 then bit b.left (31 - p) else bit b.right (63 - p)

theorem eq_of_bitAt {a b : Block} (same : ∀ p < 64, a.bitAt p = b.bitAt p) : a = b := by
  have left : a.left = b.left := by
    apply eq_of_bit
    intro i hi
    have at_ := same (31 - i) (by omega)
    simpa [bitAt, show 31 - i < 32 by omega, show 31 - (31 - i) = i by omega] using at_
  have right : a.right = b.right := by
    apply eq_of_bit
    intro i hi
    have at_ := same (63 - i) (by omega)
    simpa [bitAt, show ¬63 - i < 32 by omega, show 63 - (63 - i) = i by omega] using at_
  cases a
  cases b
  simp_all

structure Wiring (f : Block → Block) (source : Nat → Nat) : Prop where
  within : ∀ p < 64, source p < 64
  reads : ∀ b p, p < 64 → (f b).bitAt p = b.bitAt (source p)

theorem Wiring.andThen {f g : Block → Block} {first second : Nat → Nat} (hf : Wiring f first)
    (hg : Wiring g second) : Wiring (fun b => g (f b)) (fun p => first (second p)) where
  within := fun p hp => hf.within _ (hg.within p hp)
  reads := by
    intro b p hp
    rw [hg.reads (f b) p hp, hf.reads b _ (hg.within p hp)]

theorem Wiring.eq_self {f : Block → Block} {source : Nat → Nat} (h : Wiring f source)
    (fixed : ∀ p < 64, source p = p) (b : Block) : f b = b := by
  apply eq_of_bitAt
  intro p hp
  rw [h.reads b p hp, fixed p hp]

def exchangeSource (p : Nat) : Nat := if p < 32 then p + 32 else p - 32

theorem exchanged_wiring : Wiring exchanged exchangeSource where
  within := by
    intro p hp
    unfold exchangeSource
    split_ifs <;> omega
  reads := by
    intro b p hp
    unfold exchangeSource
    by_cases low : p < 32
    · simp [bitAt, exchanged, low, show ¬p + 32 < 32 by omega,
        show 63 - (p + 32) = 31 - p by omega]
    · simp [bitAt, exchanged, low, show p - 32 < 32 by omega, show 31 - (p - 32) = 63 - p by omega]

def swapSource (shift mask : UInt32) (p : Nat) : Nat :=
  if p < 32 then
    if shift.toNat ≤ 31 - p ∧ bit mask (31 - p - shift.toNat) then p + 32 + shift.toNat else p
  else if bit mask (63 - p) then p - 32 - shift.toNat else p

/-- Whether no masked bit is shifted out of a word. -/
def Fits (shift mask : UInt32) : Prop :=
  shift.toNat < 32 ∧ ∀ i < 32, bit mask i = true → i + shift.toNat < 32

instance (shift mask : UInt32) : Decidable (Fits shift mask) :=
  inferInstanceAs (Decidable (_ ∧ _))

theorem bit_swapDown_left (shift mask : UInt32) (b : Block) {i : Nat} (fits : Fits shift mask)
    (hi : i < 32) :
    bit (swapDown shift mask b).left i =
      if shift.toNat ≤ i ∧ bit mask (i - shift.toNat) then bit b.right (i - shift.toNat)
      else bit b.left i := by
  simp only [swapDown, bit_xor, bit_shiftLeft _ shift fits.1 hi, bit_and,
    bit_shiftRight _ shift _ fits.1]
  by_cases high : shift.toNat ≤ i
  · have same : i - shift.toNat + shift.toNat = i := by omega
    cases bit mask (i - shift.toNat) <;> simp [high, same]
  · simp [high]

theorem bit_swapDown_right (shift mask : UInt32) (b : Block) (i : Nat) (fits : Fits shift mask) :
    bit (swapDown shift mask b).right i =
      if bit mask i then bit b.left (i + shift.toNat) else bit b.right i := by
  simp only [swapDown, bit_xor, bit_and, bit_shiftRight _ shift _ fits.1]
  cases bit mask i
  · simp
  · simp [Bool.xor_left_comm (bit b.right i)]

theorem swapDown_wiring (shift mask : UInt32) (fits : Fits shift mask) :
    Wiring (swapDown shift mask) (swapSource shift mask) where
  within := by
    intro p hp
    unfold swapSource
    split_ifs <;> omega
  reads := by
    intro b p hp
    unfold swapSource
    by_cases low : p < 32
    · rw [bitAt, if_pos low, if_pos low, bit_swapDown_left shift mask b fits (by omega)]
      split_ifs with moved
      · have place : 63 - (p + 32 + shift.toNat) = 31 - p - shift.toNat := by omega
        rw [bitAt, if_neg (by omega), place]
      · rw [bitAt, if_pos low]
    · rw [bitAt, if_neg low, if_neg low, bit_swapDown_right shift mask b _ fits]
      split_ifs with moved
      · have room := fits.2 (63 - p) (by omega) moved
        have place : 31 - (p - 32 - shift.toNat) = 63 - p + shift.toNat := by omega
        rw [bitAt, if_pos (by omega), place]
      · rw [bitAt, if_neg low]

def swapUpSource (shift mask : UInt32) (p : Nat) : Nat :=
  exchangeSource (swapSource shift mask (exchangeSource p))

theorem swapUp_wiring (shift mask : UInt32) (fits : Fits shift mask) :
    Wiring (swapUp shift mask) (swapUpSource shift mask) :=
  (exchanged_wiring.andThen (swapDown_wiring shift mask fits)).andThen exchanged_wiring

def turnLeft (n : UInt32) (b : Block) : Block := ⟨rotateLeft b.left n, b.right⟩

def turnRight (n : UInt32) (b : Block) : Block := ⟨b.left, rotateLeft b.right n⟩

def turnLeftSource (n : UInt32) (p : Nat) : Nat :=
  if p < 32 then 31 - (63 - p - n.toNat) % 32 else p

def turnRightSource (n : UInt32) (p : Nat) : Nat :=
  if p < 32 then p else 63 - (95 - p - n.toNat) % 32

theorem turnLeft_wiring (n : UInt32) (positive : 0 < n.toNat) (hn : n.toNat < 32) :
    Wiring (turnLeft n) (turnLeftSource n) where
  within := by
    intro p hp
    unfold turnLeftSource
    split_ifs <;> omega
  reads := by
    intro b p hp
    unfold turnLeftSource
    by_cases low : p < 32
    · have source : 31 - (31 - (63 - p - n.toNat) % 32) = (31 - p + 32 - n.toNat) % 32 := by omega
      rw [if_pos low, bitAt, bitAt, if_pos low, if_pos (by omega), source]
      exact bit_rotateLeft b.left n positive hn (by omega)
    · rw [if_neg low, bitAt, bitAt, if_neg low, if_neg low]
      rfl

theorem turnRight_wiring (n : UInt32) (positive : 0 < n.toNat) (hn : n.toNat < 32) :
    Wiring (turnRight n) (turnRightSource n) where
  within := by
    intro p hp
    unfold turnRightSource
    split_ifs <;> omega
  reads := by
    intro b p hp
    unfold turnRightSource
    by_cases low : p < 32
    · rw [if_pos low, bitAt, bitAt, if_pos low, if_pos low]
      rfl
    · have source : 63 - (63 - (95 - p - n.toNat) % 32) = (63 - p + 32 - n.toNat) % 32 := by omega
      rw [if_neg low, bitAt, bitAt, if_neg low, if_neg (by omega), source]
      exact bit_rotateLeft b.right n positive hn (by omega)

/-! ## The two permutations -/

def spreadSource (p : Nat) : Nat :=
  swapSource 4 0x0f0f0f0f (swapSource 16 0x0000ffff (swapUpSource 2 0x33333333
    (swapUpSource 8 0x00ff00ff (turnRightSource 1 (swapSource 0 0xaaaaaaaa
      (turnLeftSource 1 p))))))

def gatherSource (p : Nat) : Nat :=
  turnLeftSource 31 (swapSource 0 0xaaaaaaaa (turnRightSource 31 (swapUpSource 8 0x00ff00ff
    (swapUpSource 2 0x33333333 (swapSource 16 0x0000ffff (swapSource 4 0x0f0f0f0f p))))))

theorem spread_wiring : Wiring spread spreadSource :=
  ((((((swapDown_wiring 4 0x0f0f0f0f (by decide)).andThen
    (swapDown_wiring 16 0x0000ffff (by decide))).andThen
    (swapUp_wiring 2 0x33333333 (by decide))).andThen
    (swapUp_wiring 8 0x00ff00ff (by decide))).andThen
    (turnRight_wiring 1 (by decide) (by decide))).andThen
    (swapDown_wiring 0 0xaaaaaaaa (by decide))).andThen
    (turnLeft_wiring 1 (by decide) (by decide))

theorem gather_wiring : Wiring gather gatherSource :=
  ((((((turnLeft_wiring 31 (by decide) (by decide)).andThen
    (swapDown_wiring 0 0xaaaaaaaa (by decide))).andThen
    (turnRight_wiring 31 (by decide) (by decide))).andThen
    (swapUp_wiring 8 0x00ff00ff (by decide))).andThen
    (swapUp_wiring 2 0x33333333 (by decide))).andThen
    (swapDown_wiring 16 0x0000ffff (by decide))).andThen
    (swapDown_wiring 4 0x0f0f0f0f (by decide))

set_option maxRecDepth 1000 in
theorem gather_spread (b : Block) : gather (spread b) = b :=
  (spread_wiring.andThen gather_wiring).eq_self (by decide) b

set_option maxRecDepth 1000 in
theorem spread_gather (b : Block) : spread (gather b) = b :=
  (gather_wiring.andThen spread_wiring).eq_self (by decide) b

end Block

end Cipher

end LuaAsset
