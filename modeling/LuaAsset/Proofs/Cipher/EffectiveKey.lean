import LuaAsset.Proofs.Cipher.RoundKeys

/-! # Effective key bits

A round key consists of the key bits at 48 positions (`bits_roundKey_keyHalves`), and the sixteen
rounds take every bit but the top one of each byte (`exists_taken_iff`).  So the schedule and the
low seven bits of the key bytes determine each other (`scheduled_eq_iff_effective`). -/

set_option autoImplicit false

namespace LuaAsset

namespace Cipher

open Standard

/-! ## Bits of a key -/

/-- The bit of a key at a position that counts from the low bit of each byte. -/
def keyBit (key : Bytes) (p : Nat) : Bool := (key.getD (p / 8) 0).toNat.testBit (p % 8)

theorem getD_keyBits (key : Bytes) : ∀ p, (keyBits key).getD p false = keyBit key p := by
  induction key with
  | nil => intro p; simp [keyBits, keyBit]
  | cons c key ih =>
      intro p
      have front : keyBits (c :: key) =
          ((List.range 8).map fun i => c.toNat.testBit i) ++ keyBits key := rfl
      rw [front]
      by_cases first : p < 8
      · rw [List.getD_append _ _ _ _ (by simpa using first),
          List.getD_eq_getElem _ _ (by simpa using first)]
        simp [keyBit, Nat.div_eq_of_lt first, Nat.mod_eq_of_lt first]
      · obtain ⟨q, rfl⟩ := Nat.exists_eq_add_of_le (Nat.le_of_not_lt first)
        have next : (8 + q) / 8 = q / 8 + 1 := by omega
        have shifted : keyBit (c :: key) (8 + q) = keyBit key q := by
          rw [keyBit, next, Nat.add_mod_left, List.getD_cons_succ, keyBit]
        rw [List.getD_append_right _ _ _ _ (by simp), shifted, ← ih q]
        simp

/-! ## Round keys -/

def turnedPositions (n : Nat) : List Nat :=
  let front := keySelection.take 28
  let back := keySelection.drop 28
  (front.drop n ++ front.take n) ++ (back.drop n ++ back.take n)

/-- The positions of the key bits that a round key takes. -/
def takenPositions (n : Nat) : List Nat :=
  roundChoice.map fun number => (turnedPositions n).getD (number - 1) 0

theorem choice_inside (n : Nat) :
    ∀ number ∈ roundChoice, number - 1 < (turnedPositions n).length := by
  have inside : ∀ number ∈ roundChoice, number - 1 < 56 := by decide
  have length : keySelection.length = 56 := rfl
  intro number member
  have := inside number member
  simp only [turnedPositions, List.length_append, List.length_drop, List.length_take, length]
  omega

theorem mem_takenPositions {n p : Nat} (taken : p ∈ takenPositions n) : p < 64 ∧ p % 8 ≠ 7 := by
  have selected : ∀ p ∈ keySelection, p < 64 ∧ p % 8 ≠ 7 := by decide
  obtain ⟨number, member, rfl⟩ := List.mem_map.mp taken
  apply selected
  rw [List.getD_eq_getElem _ _ (choice_inside n number member)]
  have turned := List.getElem_mem (choice_inside n number member)
  simp only [turnedPositions, List.mem_append] at turned
  rcases turned with (later | earlier) | (later | earlier)
  · exact List.mem_of_mem_take (List.mem_of_mem_drop later)
  · exact List.mem_of_mem_take (List.mem_of_mem_take earlier)
  · exact List.mem_of_mem_drop (List.mem_of_mem_drop later)
  · exact List.mem_of_mem_drop (List.mem_of_mem_take earlier)

theorem bits_roundKey_keyHalves (key : Bytes) (n : Nat) :
    (roundKey (keyHalves key) n).bits = (takenPositions n).map (keyBit key) := by
  have chosen : select keySelection (keyBits key) = keySelection.map (keyBit key) := by
    apply List.map_congr_left
    intro p _
    exact getD_keyBits key p
  have halves : keyHalves key =
      ((keySelection.take 28).map (keyBit key), (keySelection.drop 28).map (keyBit key)) := by
    rw [keyHalves, chosen, List.map_take, List.map_drop]
  have turned : rotated n (keyHalves key).1 ++ rotated n (keyHalves key).2 =
      (turnedPositions n).map (keyBit key) := by
    simp only [halves, rotated, turnedPositions, List.map_append, List.map_drop, List.map_take]
  rw [bits_roundKey, turned, permuted_map _ _ _ (choice_inside n), takenPositions]

theorem roundKey_eq_iff (halves others : Bits × Bits) (n : Nat) :
    roundKey halves n = roundKey others n ↔ (roundKey halves n).bits = (roundKey others n).bits := by
  have tables : roundSelection = roundChoice.map fun number => number - 1 := by decide
  have rebuilt : ∀ halves, roundKey halves n =
      arranged (bitsValue ((roundKey halves n).bits.take 24))
        (bitsValue ((roundKey halves n).bits.drop 24)) := by
    intro halves
    rw [bits_roundKey, roundKey, tables, select_eq_permuted]
  constructor
  · intro same
    rw [same]
  · intro same
    rw [rebuilt halves, rebuilt others, same]

/-- The sixteen rounds take every key bit except the top bit of each byte. -/
theorem exists_taken_iff (p : Nat) :
    (∃ n ∈ rotations, p ∈ takenPositions n) ↔ p < 64 ∧ p % 8 ≠ 7 := by
  -- the first two rounds are enough
  have covered : ∀ p < 64, p % 8 ≠ 7 → p ∈ takenPositions 1 ∨ p ∈ takenPositions 2 := by decide
  constructor
  · rintro ⟨n, _, taken⟩
    exact mem_takenPositions taken
  · rintro ⟨small, low⟩
    rcases covered p small low with first | second
    · exact ⟨1, by decide, first⟩
    · exact ⟨2, by decide, second⟩

theorem schedule_eq_iff (direction : Direction) (key other : Bytes) :
    schedule key direction = schedule other direction ↔
      ∀ p, p < 64 ∧ p % 8 ≠ 7 → keyBit key p = keyBit other p := by
  have encrypting : schedule key .encrypt = schedule other .encrypt ↔
      ∀ p, p < 64 ∧ p % 8 ≠ 7 → keyBit key p = keyBit other p := by
    simp only [schedule_encrypt, List.map_inj_left, roundKey_eq_iff, bits_roundKey_keyHalves,
      ← exists_taken_iff]
    constructor
    · rintro same p ⟨n, round, taken⟩
      exact same n round p taken
    · intro same n round p taken
      exact same p ⟨n, round, taken⟩
  cases direction with
  | encrypt => exact encrypting
  | decrypt => rw [schedule_decrypt, schedule_decrypt, List.reverse_inj, encrypting]

/-! ## Effective keys -/

/-- The part of a key that enters the schedule: the low seven bits of every byte. -/
def effective (key : Bytes) : Bytes := key.map fun c => c &&& 0x7f

def toggled (key : Bytes) (i j : Nat) : Bytes := key.modify i fun c => c ^^^ UInt8.ofNat (2 ^ j)

theorem testBit_lowSeven (c : UInt8) (j : Nat) :
    (c &&& 0x7f).toNat.testBit j = (c.toNat.testBit j && decide (j < 7)) := by
  have mask : (0x7f : UInt8).toNat = 2 ^ 7 - 1 := rfl
  rw [UInt8.toNat_and, mask, Nat.testBit_and, Nat.testBit_two_pow_sub_one]

theorem lowSeven_eq_iff (c d : UInt8) :
    c &&& 0x7f = d &&& 0x7f ↔ ∀ j < 7, c.toNat.testBit j = d.toNat.testBit j := by
  constructor
  · intro same j low
    have bits := congrArg (fun e => e.toNat.testBit j) same
    simpa only [testBit_lowSeven, low, decide_true, Bool.and_true] using bits
  · intro same
    apply UInt8.toNat_inj.mp
    apply Nat.eq_of_testBit_eq
    intro j
    rw [testBit_lowSeven, testBit_lowSeven]
    by_cases low : j < 7
    · rw [same j low]
    · simp [low]

theorem effective_eq_iff {key other : Bytes} (hk : key.length = 8) (ho : other.length = 8) :
    effective key = effective other ↔
      ∀ p, p < 64 ∧ p % 8 ≠ 7 → keyBit key p = keyBit other p := by
  constructor
  · rintro same p ⟨small, low⟩
    have bytes := congrArg (fun s => s.getD (p / 8) (0 &&& 0x7f)) same
    simp only [effective, List.getD_map] at bytes
    exact (lowSeven_eq_iff _ _).mp bytes (p % 8) (by omega)
  · intro same
    apply List.ext_getElem (by simp [effective, hk, ho])
    intro i hi hj
    simp only [effective, List.length_map, hk, ho] at hi hj
    simp only [effective, List.getElem_map, lowSeven_eq_iff]
    intro j low
    have bits := same (8 * i + j) (by omega)
    have byte : (8 * i + j) / 8 = i := by omega
    have place : (8 * i + j) % 8 = j := by omega
    rw [keyBit, keyBit, byte, place, List.getD_eq_getElem, List.getD_eq_getElem] at bits
    exact bits

theorem keyBit_toggled (key : Bytes) {i j : Nat} (hi : i < key.length) (hj : j < 8) (p : Nat) :
    keyBit (toggled key i j) p = xor (keyBit key p) (decide (p = 8 * i + j)) := by
  have single : (UInt8.ofNat (2 ^ j)).toNat = 2 ^ j :=
    UInt8.toNat_ofNat_of_lt' (Nat.pow_lt_pow_right (by decide) hj)
  rw [keyBit, toggled, keyBit, List.getD_eq_getElem?_getD, List.getD_eq_getElem?_getD]
  by_cases same : i = p / 8
  · subst same
    have place : (p = 8 * (p / 8) + j) = (j = p % 8) := by
      apply propext
      omega
    rw [List.getElem?_modify_eq, List.getElem?_eq_getElem hi, Option.map_eq_map, Option.map_some,
      Option.getD_some, Option.getD_some, UInt8.toNat_xor, single, Nat.testBit_xor,
      Nat.testBit_two_pow]
    simp only [place]
  · have apart : p ≠ 8 * i + j := by omega
    rw [List.getElem?_modify_ne _ _ same, decide_eq_false apart, Bool.xor_false]

theorem schedule_toggled (direction : Direction) {key : Bytes} (hk : key.length = 8) {i j : Nat}
    (hi : i < 8) (hj : j < 8) :
    schedule (toggled key i j) direction = schedule key direction ↔ j = 7 := by
  have flipped := keyBit_toggled key (hk ▸ hi) hj
  rw [schedule_eq_iff]
  constructor
  · intro same
    by_contra low
    have bit := same (8 * i + j) (by omega)
    simp [flipped] at bit
  · rintro rfl p ⟨_, low⟩
    have apart : p ≠ 8 * i + 7 := by omega
    rw [flipped, decide_eq_false apart, Bool.xor_false]

theorem length_toggled (key : Bytes) (i j : Nat) : (toggled key i j).length = key.length :=
  List.length_modify _ _ _

/-- Two keys of eight bytes have the same round keys iff their bytes agree in the low seven bits.
So changing a top bit never changes the cipher, and changing any other bit always changes the round
keys. -/
theorem scheduled_eq_iff_effective (direction : Direction) (key other : Bytes)
    (hk : key.length = 8) (ho : other.length = 8) :
    (scheduled key direction = scheduled other direction ↔ effective key = effective other) ∧
      (∃ keys, scheduled key direction = .ok keys ∧ keys.length = 16) ∧
      ∀ i < 8, (∀ data, run direction (toggled key i 7) data = run direction key data) ∧
        ∀ j < 7, scheduled (toggled key i j) direction ≠ scheduled key direction := by
  refine ⟨?_, ?_, ?_⟩
  · rw [scheduled_of_length direction hk, scheduled_of_length direction ho, Except.ok.injEq,
      schedule_eq_iff, effective_eq_iff hk ho]
  · exact ⟨_, scheduled_of_length direction hk, length_schedule key direction⟩
  · intro i hi
    have length : ∀ j, (toggled key i j).length = 8 := fun j => (length_toggled key i j).trans hk
    constructor
    · intro data
      rw [run_scheduled direction _ (length 7), run_scheduled direction key hk,
        (schedule_toggled direction hk hi (by decide)).mpr rfl]
    · intro j low same
      rw [scheduled_of_length direction (length j), scheduled_of_length direction hk,
        Except.ok.injEq, schedule_toggled direction hk hi (by omega)] at same
      omega

theorem scheduled_eq_iff_effective_top_bits :
    scheduled [2, 5, 9, 3, 6, 1, 0, 1] .decrypt =
        scheduled [0x82, 5, 0x89, 3, 6, 1, 0x80, 1] .decrypt ∧
      encrypt [2, 5, 9, 3, 6, 1, 0x80, 1] [0, 1, 2, 3, 4, 5, 6, 7, 8, 9, 10, 11, 12, 13, 14, 15] =
        .ok [0x27, 0x31, 0x40, 0x1c, 0x9d, 0x93, 0x92, 0xba, 0x86, 0xbc, 0x49, 0x8b, 0x3c, 0xf1,
          0x9e, 0xcd] ∧
      scheduled [2, 5, 9, 3, 6, 1, 8, 1] .encrypt ≠ scheduled [2, 5, 9, 3, 6, 1, 0, 1] .encrypt := by
  have topTurned : toggled [2, 5, 9, 3, 6, 1, 0, 1] 6 7 = [2, 5, 9, 3, 6, 1, 0x80, 1] := by decide
  have otherTurned : toggled [2, 5, 9, 3, 6, 1, 0, 1] 6 3 = [2, 5, 9, 3, 6, 1, 8, 1] := by decide
  obtain ⟨decrypting, _, _⟩ := scheduled_eq_iff_effective .decrypt [2, 5, 9, 3, 6, 1, 0, 1]
    [0x82, 5, 0x89, 3, 6, 1, 0x80, 1] rfl rfl
  obtain ⟨_, _, single⟩ := scheduled_eq_iff_effective .encrypt [2, 5, 9, 3, 6, 1, 0, 1]
    [2, 5, 9, 3, 6, 1, 0, 1] rfl rfl
  obtain ⟨top, other⟩ := single 6 (by decide)
  rw [topTurned] at top
  have different := other 3 (by decide)
  rw [otherTurned] at different
  exact ⟨decrypting.mpr (by decide), (top _).trans encrypt_two_blocks, different⟩

end Cipher

end LuaAsset
