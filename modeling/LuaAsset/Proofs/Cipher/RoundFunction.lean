import LuaAsset.Proofs.Cipher.Blocks

/-! # The rounds as bit strings

Between the permutations the halves are rotated by one bit with respect to the standard.  Up to that
rotation, the permutations, the fused boxes and the rounds are those of the standard
(`bits_through`). -/

set_option autoImplicit false

namespace LuaAsset

namespace Cipher

open Standard

/-! ## Bit strings read at places -/

theorem permuted_map (table places : List Nat) (f : Nat → Bool)
    (inside : ∀ n ∈ table, n - 1 < places.length) :
    permuted table (places.map f) = (table.map fun n => places.getD (n - 1) 0).map f := by
  rw [permuted, List.map_map]
  apply List.map_congr_left
  intro n member
  simp [List.getD_eq_getElem?_getD, inside n member]

theorem sum_map (places : List Nat) (f g : Nat → Bool) :
    sum (places.map f) (places.map g) = places.map fun p => xor (f p) (g p) := by
  rw [sum, List.zipWith_map, List.zipWith_self]

/-- The bit numbers of a rotated word in the order in which the standard lists a half. -/
def halfPlaces : List Nat := (List.range 32).map fun p => (32 - p) % 32

def half (w : UInt32) : Bits := halfPlaces.map (bit w)

theorem half_xor (v w : UInt32) : half (v ^^^ w) = sum (half v) (half w) := by
  rw [half, half, half, sum_map]
  apply List.map_congr_left
  intro i _
  rw [bit_xor]

theorem length_half (w : UInt32) : (half w).length = 32 := by
  simp [half, halfPlaces]

/-! ## The two permutations -/

def turnedPlaces : List Nat :=
  halfPlaces.map (fun i => 31 - i) ++ halfPlaces.map fun i => 63 - i

theorem half_append (b : Block) : half b.left ++ half b.right = turnedPlaces.map b.bitAt := by
  have small : ∀ i ∈ halfPlaces, i < 32 := by decide
  rw [turnedPlaces, List.map_append, List.map_map, List.map_map, half, half]
  refine congrArg₂ (· ++ ·) ?_ ?_
  · apply List.map_congr_left
    intro i member
    have := small i member
    simp [Block.bitAt, show 31 - i < 32 by omega, show 31 - (31 - i) = i by omega]
  · apply List.map_congr_left
    intro i member
    have := small i member
    simp [Block.bitAt, show ¬63 - i < 32 by omega, show 63 - (63 - i) = i by omega]

theorem half_spread (b : Block) :
    half b.spread.left ++ half b.spread.right = permuted initialPermutation b.bits := by
  have tables : turnedPlaces.map Block.spreadSource =
      initialPermutation.map fun n => (List.range 64).getD (n - 1) 0 := by decide
  have inside : ∀ n ∈ initialPermutation, n - 1 < (List.range 64).length := by decide
  have small : ∀ p ∈ turnedPlaces, p < 64 := by decide
  rw [half_append, Block.bits, permuted_map _ _ _ inside, ← tables, List.map_map]
  apply List.map_congr_left
  intro p member
  rw [Function.comp_apply, Block.spread_wiring.reads b p (small p member)]

theorem bits_gather (b : Block) :
    b.gather.bits = permuted finalPermutation (half b.left ++ half b.right) := by
  have tables : (List.range 64).map Block.gatherSource =
      finalPermutation.map fun n => turnedPlaces.getD (n - 1) 0 := by decide
  have inside : ∀ n ∈ finalPermutation, n - 1 < turnedPlaces.length := by decide
  rw [half_append, permuted_map _ _ _ inside, ← tables, List.map_map, Block.bits]
  apply List.map_congr_left
  intro p member
  rw [Function.comp_apply, Block.gather_wiring.reads b p (List.mem_range.mp member)]

/-! ## Groups of six -/

def sixAt (w : UInt32) (low : Nat) : Bits := [5, 4, 3, 2, 1, 0].map fun i => bit w (i + low)

/-- The forty-eight bits of two words that hold every second group of six each. -/
def RoundKey.bits (key : RoundKey) : Bits :=
  [24, 16, 8, 0].flatMap fun low => sixAt key.even low ++ sixAt key.odd low

def RoundKey.add (a b : RoundKey) : RoundKey := ⟨a.even ^^^ b.even, a.odd ^^^ b.odd⟩

theorem RoundKey.bits_add (a b : RoundKey) : (a.add b).bits = sum a.bits b.bits := by
  simp [RoundKey.bits, RoundKey.add, sixAt, sum]

theorem sixAt_rotateLeft (w : UInt32) (low : Nat) (room : low ≤ 26) :
    sixAt (Block.rotateLeft w 28) low =
      ([5, 4, 3, 2, 1, 0].map fun i => (i + low + 4) % 32).map (bit w) := by
  have small : ∀ i ∈ [5, 4, 3, 2, 1, 0], i < 6 := by decide
  rw [sixAt, List.map_map]
  apply List.map_congr_left
  intro i member
  have := small i member
  rw [bit_rotateLeft w 28 (by decide) (by decide) (by omega)]
  rfl

theorem permuted_expansion (w : UInt32) :
    permuted expansion (half w) = RoundKey.bits ⟨Block.rotateLeft w 28, w⟩ := by
  have inside : ∀ n ∈ expansion, n - 1 < halfPlaces.length := by decide
  have tables : (expansion.map fun n => halfPlaces.getD (n - 1) 0) =
      [24, 16, 8, 0].flatMap fun low =>
        ([5, 4, 3, 2, 1, 0].map fun i => (i + low + 4) % 32) ++
          [5, 4, 3, 2, 1, 0].map fun i => i + low := by decide
  have room : ∀ low ∈ [24, 16, 8, 0], low ≤ 26 := by decide
  rw [half, permuted_map _ _ _ inside, tables, List.map_flatMap, RoundKey.bits]
  apply List.flatMap_congr
  intro low member
  rw [List.map_append, sixAt_rotateLeft w low (room low member)]
  rfl

/-! ## Boxes -/

def fusedBoxes : List (Array UInt32) :=
  [boxFirst, boxSecond, boxThird, boxFourth, boxFifth, boxSixth, boxSeventh, boxEighth]

/-- For each box, the four words that its output bits select after the round permutation and the
rotation of a half. -/
def outputMasks : List (List UInt32) :=
  [ [0x01000000, 0x00010000, 0x00000400, 0x00000004],
    [0x00100000, 0x00000020, 0x80000000, 0x00008000],
    [0x00000200, 0x00020000, 0x00000008, 0x08000000],
    [0x00000080, 0x00002000, 0x00800000, 0x00000001],
    [0x02000000, 0x00080000, 0x00000100, 0x40000000],
    [0x20000000, 0x00000010, 0x00400000, 0x00004000],
    [0x00000002, 0x00200000, 0x00000800, 0x04000000],
    [0x10000000, 0x00000040, 0x00040000, 0x00001000] ]

def selected (masks : List UInt32) (bits : Bits) : UInt32 :=
  (List.zipWith (fun mask b => if b then mask else 0) masks bits).foldr (· ||| ·) 0

def meets (row bits : Bits) : Bool := (List.zipWith and row bits).any id

def sixOf (n : Nat) : Bits := [5, 4, 3, 2, 1, 0].map n.testBit

theorem toList_fusedBoxes : ∀ i < 8, (fusedBoxes.getD i #[]).toList =
    (List.range 64).map fun n =>
      selected (outputMasks.getD i []) (substituted (boxes.getD i []) (sixOf n)) := by
  decide +kernel

theorem fusedBoxes_eq (i : Nat) (hi : i < 8) (a b c d e f : Bool) :
    (fusedBoxes.getD i #[]).getD (number [a, b, c, d, e, f]) 0 =
      selected (outputMasks.getD i []) (substituted (boxes.getD i []) [a, b, c, d, e, f]) := by
  have written : ∀ a b c d e f : Bool, number [a, b, c, d, e, f] < 64 ∧
      sixOf (number [a, b, c, d, e, f]) = [a, b, c, d, e, f] := by decide
  obtain ⟨small, read⟩ := written a b c d e f
  rw [Array.getD_eq_getD_getElem?, ← Array.getElem?_toList, toList_fusedBoxes i hi,
    List.getElem?_map, List.getElem?_range small, Option.map_some, Option.getD_some, read]

theorem bit_selected (masks : List UInt32) (i : Nat) :
    ∀ bits : Bits, bit (selected masks bits) i = meets (masks.map fun mask => bit mask i) bits := by
  induction masks with
  | nil => intro bits; simp [selected, meets]
  | cons mask masks ih =>
      intro bits
      cases bits with
      | nil => simp [selected, meets]
      | cons b bits =>
          have rest := ih bits
          simp only [selected, meets] at rest
          cases b <;> simp [selected, meets, rest]

theorem selected_append (first second : List UInt32) (bits more : Bits)
    (same : first.length = bits.length) :
    selected (first ++ second) (bits ++ more) = selected first bits ||| selected second more := by
  apply eq_of_bit
  intro i _
  have lengths : (first.map fun mask => bit mask i).length = bits.length := by simp [same]
  rw [bit_or, bit_selected, bit_selected, bit_selected, List.map_append, meets,
    List.zipWith_append lengths, List.any_append]
  rfl

theorem meets_single (size q : Nat) (bits : Bits) (same : bits.length = size) (hq : q < size) :
    meets ((List.range size).map fun k => decide (k = q)) bits = bits.getD q false := by
  rw [Bool.eq_iff_iff, meets, List.any_eq_true]
  constructor
  · rintro ⟨on, member, isOn⟩
    obtain ⟨k, hk, rfl⟩ := List.mem_iff_getElem.mp member
    simp only [List.getElem_zipWith, List.getElem_map, List.getElem_range, id, Bool.and_eq_true,
      decide_eq_true_eq] at isOn
    obtain ⟨rfl, isOn⟩ := isOn
    simp [List.getD_eq_getElem?_getD, same, hq, isOn]
  · intro isOn
    refine ⟨true, List.mem_iff_getElem.mpr ⟨q, by simp [same, hq], ?_⟩, rfl⟩
    simpa [List.getD_eq_getElem?_getD, same, hq] using isOn

theorem half_selected (bits : Bits) (length : bits.length = 32) :
    half (selected outputMasks.flatten bits) = permuted roundPermutation bits := by
  have rows : (halfPlaces.map fun i => outputMasks.flatten.map fun mask => bit mask i) =
      roundPermutation.map fun n => (List.range 32).map fun k => decide (k = n - 1) := by
    decide
  have small : ∀ n ∈ roundPermutation, n - 1 < 32 := by decide
  calc
    half (selected outputMasks.flatten bits) =
        (halfPlaces.map fun i => outputMasks.flatten.map fun mask => bit mask i).map
          fun row => meets row bits := by
      rw [half, List.map_map]
      apply List.map_congr_left
      intro i _
      rw [bit_selected, Function.comp_apply]
    _ = permuted roundPermutation bits := by
      rw [rows, List.map_map, permuted]
      apply List.map_congr_left
      intro n member
      rw [Function.comp_apply, meets_single 32 (n - 1) bits length (small n member)]

/-! ## The round function -/

theorem low_six (w shift : UInt32) {low : Nat} (amount : shift.toNat = low) (hn : low < 32) :
    (w >>> shift) &&& 0x3f = UInt32.ofNat (number (sixAt w low)) := by
  have written : ∀ a b c d e f : Bool, ∀ i < 32,
      bit (UInt32.ofNat (number [a, b, c, d, e, f])) i = [f, e, d, c, b, a].getD i false := by
    decide
  have masked : ∀ i < 32, bit 0x3f i = decide (i < 6) := by decide
  subst amount
  apply eq_of_bit
  intro i hi
  rw [sixAt]
  simp only [List.map_cons, List.map_nil]
  rw [written _ _ _ _ _ _ i hi, bit_and, bit_shiftRight w shift i hn, masked i hi]
  by_cases inner : i < 6
  · interval_cases i <;> simp
  · have outside : ∀ six : Bits, six.length = 6 → six.getD i false = false := by
      intro six length
      simp [List.getD_eq_getElem?_getD, length, inner]
    rw [outside _ rfl]
    simp [inner]

theorem boxAt_fused (i : Nat) (hi : i < 8) (w shift : UInt32) {low : Nat}
    (amount : shift.toNat = low) (hn : low < 32) :
    boxAt (fusedBoxes.getD i #[]) (w >>> shift) =
      selected (outputMasks.getD i []) (substituted (boxes.getD i []) (sixAt w low)) := by
  have small : ∀ a b c d e f : Bool, number [a, b, c, d, e, f] < 64 := by decide
  have index : ((w >>> shift) &&& 0x3f).toNat = number (sixAt w low) := by
    rw [low_six w shift amount hn]
    exact UInt32.toNat_ofNat_of_lt' (Nat.lt_trans (small _ _ _ _ _ _) (by decide))
  rw [boxAt, index]
  exact fusedBoxes_eq i hi _ _ _ _ _ _

theorem substitution_bits (key : RoundKey) :
    substitution key.bits =
      substituted (boxes.getD 0 []) (sixAt key.even 24) ++
      (substituted (boxes.getD 1 []) (sixAt key.odd 24) ++
      (substituted (boxes.getD 2 []) (sixAt key.even 16) ++
      (substituted (boxes.getD 3 []) (sixAt key.odd 16) ++
      (substituted (boxes.getD 4 []) (sixAt key.even 8) ++
      (substituted (boxes.getD 5 []) (sixAt key.odd 8) ++
      (substituted (boxes.getD 6 []) (sixAt key.even 0) ++
        substituted (boxes.getD 7 []) (sixAt key.odd 0))))))) := rfl

theorem mix_eq_selected (w : UInt32) (key : RoundKey) :
    mix w key = selected outputMasks.flatten
      (substitution (RoundKey.bits (RoundKey.add ⟨Block.rotateLeft w 28, w⟩ key))) := by
  have flat : outputMasks.flatten = outputMasks.getD 0 [] ++ (outputMasks.getD 1 [] ++
      (outputMasks.getD 2 [] ++ (outputMasks.getD 3 [] ++ (outputMasks.getD 4 [] ++
      (outputMasks.getD 5 [] ++ (outputMasks.getD 6 [] ++ outputMasks.getD 7 [])))))) := rfl
  rw [substitution_bits, flat]
  simp only [RoundKey.add]
  generalize hEven : Block.rotateLeft w 28 ^^^ key.even = even
  generalize hOdd : w ^^^ key.odd = odd
  rw [selected_append _ _ _ _ rfl, selected_append _ _ _ _ rfl, selected_append _ _ _ _ rfl,
    selected_append _ _ _ _ rfl, selected_append _ _ _ _ rfl, selected_append _ _ _ _ rfl,
    selected_append _ _ _ _ rfl]
  have fused : mix w key =
      boxAt (fusedBoxes.getD 6 #[]) (even >>> 0) ||| boxAt (fusedBoxes.getD 4 #[]) (even >>> 8) |||
      boxAt (fusedBoxes.getD 2 #[]) (even >>> 16) ||| boxAt (fusedBoxes.getD 0 #[]) (even >>> 24) |||
      boxAt (fusedBoxes.getD 7 #[]) (odd >>> 0) ||| boxAt (fusedBoxes.getD 5 #[]) (odd >>> 8) |||
      boxAt (fusedBoxes.getD 3 #[]) (odd >>> 16) ||| boxAt (fusedBoxes.getD 1 #[]) (odd >>> 24) := by
    rw [mix, hEven, hOdd, UInt32.shiftRight_zero, UInt32.shiftRight_zero]
    rfl
  rw [fused, boxAt_fused 6 (by decide) even 0 rfl (by decide),
    boxAt_fused 4 (by decide) even 8 rfl (by decide),
    boxAt_fused 2 (by decide) even 16 rfl (by decide),
    boxAt_fused 0 (by decide) even 24 rfl (by decide),
    boxAt_fused 7 (by decide) odd 0 rfl (by decide),
    boxAt_fused 5 (by decide) odd 8 rfl (by decide),
    boxAt_fused 3 (by decide) odd 16 rfl (by decide),
    boxAt_fused 1 (by decide) odd 24 rfl (by decide)]
  ac_rfl

/-- On a rotated half `mix` is the round function of the standard on the half. -/
theorem half_mix (w : UInt32) (key : RoundKey) :
    half (mix w key) = roundFunction (half w) key.bits := by
  rw [mix_eq_selected, half_selected _ rfl, roundFunction, permuted_expansion, ← RoundKey.bits_add]

/-! ## Rounds and blocks -/

def Block.halves (b : Block) : Bits × Bits := (half b.left, half b.right)

theorem halves_round (b : Block) (key : RoundKey) :
    (round b key).halves = Standard.round b.halves key.bits := by
  simp only [Block.halves, round, Standard.round, half_xor, half_mix]

theorem halves_rounds (keys : List RoundKey) :
    ∀ b : Block, (rounds keys b).halves =
      (keys.map RoundKey.bits).foldl Standard.round b.halves := by
  induction keys with
  | nil => intro b; rfl
  | cons key keys ih =>
      intro b
      have rest := ih (round b key)
      rw [halves_round] at rest
      exact rest

/-- The bits of `through` are the rounds of the standard on the bits of the block. -/
theorem bits_through (keys : List RoundKey) (b : Block) :
    (through keys b).bits = Standard.through (keys.map RoundKey.bits) b.bits := by
  have start : b.spread.halves =
      ((permuted initialPermutation b.bits).take 32, (permuted initialPermutation b.bits).drop 32) := by
    rw [← half_spread, List.take_left' (length_half _), List.drop_left' (length_half _)]
    rfl
  have last := halves_rounds keys b.spread
  rw [start] at last
  rw [through, bits_gather, Standard.through, ← last]
  rfl

end Cipher

end LuaAsset
