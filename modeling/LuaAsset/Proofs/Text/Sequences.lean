import LuaAsset.Proofs.Text.Utf8

/-! # Numbers as UTF-8 sequences

The original UTF-8 writes numbers of up to 31 bits in up to six bytes (`IsSequence`).
`encodeScalar` writes at most four bytes, so it is correct iff the number has at most 21 bits
(`isSequence_encodeScalar_iff`). -/

set_option autoImplicit false

namespace LuaAsset

namespace Utf8

/-- The number of continuation bytes that a lead byte announces by its leading ones; `none` for a
continuation byte and for the bytes `FE` and `FF`. -/
def announced? (lead : UInt8) : Option Nat :=
  if lead < 0x80 then some 0
  else if lead < 0xc0 then none
  else if lead < 0xe0 then some 1
  else if lead < 0xf0 then some 2
  else if lead < 0xf8 then some 3
  else if lead < 0xfc then some 4
  else if lead < 0xfe then some 5
  else none

def leadWidth : Nat → Nat
  | 0 => 7
  | count + 1 => 5 - count

def carried (lead : UInt8) (tail : Bytes) : Nat :=
  tail.foldl (fun n c => n * 64 + payload c) (lead.toNat % 2 ^ leadWidth tail.length)

/-- The least number that needs the given number of continuation bytes. -/
def leastNeeding : Nat → Nat
  | 0 => 0
  | count + 1 => 2 ^ (leadWidth count + 6 * count)

def IsSequence (n : Nat) : Bytes → Prop
  | [] => False
  | lead :: tail =>
      announced? lead = some tail.length ∧ tail.all isContinuation = true ∧
        carried lead tail = n ∧ leastNeeding tail.length ≤ n

instance (n : Nat) (s : Bytes) : Decidable (IsSequence n s) :=
  match s with
  | [] => inferInstanceAs (Decidable False)
  | _ :: _ => inferInstanceAs (Decidable (_ ∧ _))

-- the least number of five bytes
example : IsSequence 0x200000 [0xf8, 0x88, 0x80, 0x80, 0x80] := by decide

/-- A sequence determines its number. -/
theorem IsSequence.unique {m n : Nat} {s : Bytes} (first : IsSequence m s)
    (second : IsSequence n s) : m = n := by
  cases s with
  | nil => exact first.elim
  | cons lead tail => exact first.2.2.1.symm.trans second.2.2.1

section CodePoint

variable {n : Nat}

theorem announced?_cases : ∀ c : UInt8,
    (c.toNat < 128 → announced? c = some 0) ∧
    (192 ≤ c.toNat → c.toNat < 224 → announced? c = some 1) ∧
    (224 ≤ c.toNat → c.toNat < 240 → announced? c = some 2) ∧
    (announced? c = some 3 ↔ 240 ≤ c.toNat ∧ c.toNat < 248) :=
  forall_byte (by decide +kernel)

theorem leastNeeding_values :
    leastNeeding 1 = 0x80 ∧ leastNeeding 2 = 0x800 ∧ leastNeeding 3 = 0x10000 := by decide

theorem isSequence_encodeScalar (small : n < 0x200000) : IsSequence n (encodeScalar n) := by
  obtain ⟨forOne, forTwo, forThree⟩ := leastNeeding_values
  by_cases one : n < 0x80
  · have lead := toNat_lead (n := n) (by omega)
    obtain ⟨announces, _⟩ := announced?_cases (UInt8.ofNat n)
    rw [encodeScalar_one one]
    refine ⟨announces (by omega), rfl, ?_, Nat.zero_le n⟩
    rw [carried, List.foldl_nil, lead]
    exact Nat.mod_eq_of_lt one
  by_cases two : n < 0x800
  · have lead := toNat_lead (n := 192 + n / 64) (by omega)
    obtain ⟨_, announces, _⟩ := announced?_cases (UInt8.ofNat (192 + n / 64))
    rw [encodeScalar_two (by omega) two]
    refine ⟨announces (by omega) (by omega), by simp [isContinuation_continuation], ?_,
      Nat.le_trans (Nat.le_of_eq forOne) (Nat.le_of_not_lt one)⟩
    simp only [carried, List.foldl_cons, List.foldl_nil, payload_continuation, lead,
      List.length_singleton, leadWidth]
    omega
  by_cases three : n < 0x10000
  · have lead := toNat_lead (n := 224 + n / 4096) (by omega)
    obtain ⟨_, _, announces, _⟩ := announced?_cases (UInt8.ofNat (224 + n / 4096))
    rw [encodeScalar_three (by omega) three]
    refine ⟨announces (by omega) (by omega), by simp [isContinuation_continuation], ?_,
      Nat.le_trans (Nat.le_of_eq forTwo) (Nat.le_of_not_lt two)⟩
    simp only [carried, List.foldl_cons, List.foldl_nil, payload_continuation, lead,
      List.length_cons, List.length_nil, leadWidth]
    omega
  · have lead := toNat_lead (n := 240 + n / 262144) (by omega)
    obtain ⟨_, _, _, announces⟩ := announced?_cases (UInt8.ofNat (240 + n / 262144))
    rw [encodeScalar_four (by omega) small]
    refine ⟨announces.mpr (by omega), by simp [isContinuation_continuation], ?_,
      Nat.le_trans (Nat.le_of_eq forThree) (Nat.le_of_not_lt three)⟩
    simp only [carried, List.foldl_cons, List.foldl_nil, payload_continuation, lead,
      List.length_cons, List.length_nil, leadWidth]
    omega

/-- Four bytes carry 21 bits. -/
theorem isSequence_encodeScalar_iff : IsSequence n (encodeScalar n) ↔ n < 0x200000 := by
  constructor
  · intro sequence
    by_cases four : n < 0x10000
    · omega
    · rw [encodeScalar_more (by omega)] at sequence
      obtain ⟨_, _, bits, _⟩ := sequence
      simp only [carried, List.foldl_cons, List.foldl_nil, payload_continuation, List.length_cons,
        List.length_nil, leadWidth] at bits
      omega
  · exact isSequence_encodeScalar

end CodePoint

end Utf8

end LuaAsset
