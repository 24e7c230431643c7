import LuaAsset.Literal.Reader
import LuaAsset.Proofs.Table.Assignment

/-! # Ties of keys

Integers are compared with each other exactly, and with floats after rounding, so a float may be
tied with two integers that are not tied.  The only such float among keys is `2 ^ 63`, to which the
last `512` integers round (`keyLt_ties_iff`).  The sorted result is in order nevertheless, since the
integers of positions precede the floats (`TableDraft.entries_eq`). -/

set_option autoImplicit false

namespace LuaAsset

namespace Value

variable {a b c : Value}

def Tied (a b : Value) : Prop := keyLt a b = false ∧ keyLt b a = false

instance (a b : Value) : Decidable (Tied a b) := inferInstanceAs (Decidable (_ ∧ _))

/-- A class of keys with two different integers beside the float that both are rounded to. -/
def Blurred (P : Value → Prop) : Prop :=
  P (.float (Binary64.ofInt (2 ^ 63))) ∧
    ∃ m n : Int64, 2 ^ 63 - 512 ≤ m.toInt ∧ m < n ∧ P (.integer m) ∧ P (.integer n)

/-! ## Numbers -/

theorem keyLt_numbers (left : a.isNumber = true) (right : b.isNumber = true) :
    keyLt a b = numberLt a b := by
  rw [keyLt_eq_keyOrder, keyOrder_numbers left right]

theorem numberLt_eq_false_iff (slotA : a.IsSlot) (slotB : b.IsSlot) (numberA : a.isNumber = true)
    (numberB : b.isNumber = true) : numberLt a b = false ↔
      ¬(a.nearestFloat.rank < b.nearestFloat.rank ∨ a.nearestFloat.rank = b.nearestFloat.rank ∧
        a.kind = 0 ∧ b.kind = 0 ∧ a.signedBits.toInt < b.signedBits.toInt) := by
  rw [← Bool.not_eq_true, numberLt_iff slotA slotB numberA numberB]

theorem numberLt_trans (slotA : a.IsSlot) (slotB : b.IsSlot) (slotC : c.IsSlot)
    (numberA : a.isNumber = true) (numberB : b.isNumber = true) (numberC : c.isNumber = true)
    (first : numberLt a b = true) (second : numberLt b c = true) : numberLt a c = true := by
  rw [numberLt_iff slotA slotB numberA numberB] at first
  rw [numberLt_iff slotB slotC numberB numberC] at second
  rw [numberLt_iff slotA slotC numberA numberC]
  omega

theorem isSlot_edge : IsSlot (.float (Binary64.ofInt (2 ^ 63))) := ⟨by decide, by decide⟩

theorem tied_integer_edge {n : Int64} (last : 2 ^ 63 - 512 ≤ n.toInt) :
    Tied (.integer n) (.float (Binary64.ofInt (2 ^ 63))) := by
  have integer : IsSlot (.integer n) := trivial
  have place := Binary64.rank_ofInt_last last
  constructor
  · rw [keyLt_numbers rfl rfl, numberLt_eq_false_iff integer isSlot_edge rfl rfl]
    simp [nearestFloat, kind, isFloat, place]
  · rw [keyLt_numbers rfl rfl, numberLt_eq_false_iff isSlot_edge integer rfl rfl]
    simp [nearestFloat, kind, isFloat, place]

/-- Two integers beside a float of the same rank make a class blurred. -/
theorem blurred_of_place {P : Value → Prop} (slots : ∀ k, P k → k.IsSlot)
    (inA : P a) (inB : P b) (inC : P c) (numberA : a.isNumber = true) (numberB : b.isNumber = true)
    (numberC : c.isNumber = true) (kindA : a.kind = 0) (kindB : b.kind ≠ 0) (kindC : c.kind = 0)
    (placeA : a.nearestFloat.rank = b.nearestFloat.rank)
    (less : a.signedBits.toInt < c.signedBits.toInt) : Blurred P := by
  obtain ⟨m, rfl⟩ | ⟨x, rfl, _⟩ := (slots a inA).number_cases numberA
  · obtain ⟨n, rfl⟩ | ⟨y, rfl, _⟩ := (slots c inC).number_cases numberC
    · obtain ⟨k, rfl⟩ | ⟨z, rfl, _, fraction⟩ := (slots b inB).number_cases numberB
      · exact absurd rfl kindB
      · obtain ⟨last, rfl⟩ := Binary64.eq_of_rank_ofInt_eq fraction placeA
        exact ⟨inB, m, n, last, Int64.lt_iff_toInt_lt.mpr less, inA, inC⟩
    · cases kindC
  · cases kindA

theorem weakOrderOn_numberLt {P : Value → Prop} (slots : ∀ k, P k → k.IsSlot)
    (clear : ¬Blurred P) : WeakOrderOn (fun k => P k ∧ k.isNumber = true) numberLt where
  asymm {a b} inA inB before := by
    rw [numberLt_iff (slots a inA.1) (slots b inB.1) inA.2 inB.2] at before
    rw [numberLt_eq_false_iff (slots b inB.1) (slots a inA.1) inB.2 inA.2]
    omega
  trans {a b c} inA inB inC first second := by
    rw [numberLt_eq_false_iff (slots b inB.1) (slots a inA.1) inB.2 inA.2] at first
    rw [numberLt_eq_false_iff (slots c inC.1) (slots b inB.1) inC.2 inB.2] at second
    rw [numberLt_eq_false_iff (slots c inC.1) (slots a inA.1) inC.2 inA.2]
    intro before
    -- all three are in one place, and the outer two are integers
    by_cases float : b.kind = 0
    · omega
    · exact clear (blurred_of_place slots inC.1 inB.1 inA.1 inC.2 inB.2 inA.2 (by omega) float
        (by omega) (by omega) (by omega))

/-! ## Keys -/

theorem keyOrder_trans {number : Value → Value → Bool}
    (numbers : a.isNumber = true → b.isNumber = true → c.isNumber = true →
      number a b = true → number b c = true → number a c = true)
    (first : keyOrder number a b = true) (second : keyOrder number b c = true) :
    keyOrder number a c = true := by
  cases kindA : a.isNumber <;> cases kindB : b.isNumber <;> cases kindC : c.isNumber
  · rw [keyOrder_names kindA kindB, bytesLt_iff] at first
    rw [keyOrder_names kindB kindC, bytesLt_iff] at second
    rw [keyOrder_names kindA kindC, bytesLt_iff]
    exact List.lt_trans first second
  · rw [keyOrder_mixed (by simp [kindB, kindC]), kindB] at second
    cases second
  · rw [keyOrder_mixed (by simp [kindA, kindB]), kindA] at first
    cases first
  · rw [keyOrder_mixed (by simp [kindA, kindB]), kindA] at first
    cases first
  · rw [keyOrder_mixed (by simp [kindA, kindC]), kindA]
  · rw [keyOrder_mixed (by simp [kindB, kindC]), kindB] at second
    cases second
  · rw [keyOrder_mixed (by simp [kindA, kindC]), kindA]
  · rw [keyOrder_numbers kindA kindB] at first
    rw [keyOrder_numbers kindB kindC] at second
    rw [keyOrder_numbers kindA kindC]
    exact numbers kindA kindB kindC first second

theorem weakOrderOn_keyLt_of_clear {P : Value → Prop} (slots : ∀ k, P k → k.IsSlot)
    (clear : ¬Blurred P) : WeakOrderOn P keyLt := by
  rw [keyLt_eq_keyOrder]
  exact weakOrderOn_keyOrder (weakOrderOn_numberLt slots clear)

theorem keyLt_irrefl (slot : a.IsSlot) : keyLt a a = false := by
  have clear : ¬Blurred fun k => k = a := by
    rintro ⟨rfl, _, _, _, _, integer, _⟩
    cases integer
  have order := weakOrderOn_keyLt_of_clear (P := fun k => k = a) (by rintro k rfl; exact slot) clear
  cases before : keyLt a a with
  | false => rfl
  | true => exact before.symm.trans (order.asymm rfl rfl before)

/-- The order `keyLt` is irreflexive and transitive.  Ties are transitive exactly on the classes
that do not hold the float `2 ^ 63` beside two of the integers that are rounded to it. -/
theorem keyLt_ties_iff {P : Value → Prop} (slots : ∀ k, P k → k.IsSlot) :
    (∀ a, P a → keyLt a a = false) ∧
    (∀ a b c, P a → P b → P c → keyLt a b = true → keyLt b c = true → keyLt a c = true) ∧
    ((∀ a b c, P a → P b → P c → Tied a b → Tied b c → Tied a c) ↔ ¬Blurred P) := by
  refine ⟨fun a inA => keyLt_irrefl (slots a inA), ?_, ?_, ?_⟩
  · intro a b c inA inB inC first second
    rw [keyLt_eq_keyOrder] at first second ⊢
    exact keyOrder_trans (numberLt_trans (slots a inA) (slots b inB) (slots c inC)) first second
  · rintro ties ⟨inFloat, m, n, last, less, inM, inN⟩
    have lastN : 2 ^ 63 - 512 ≤ n.toInt := by
      rw [Int64.lt_iff_toInt_lt] at less
      omega
    have tied := ties _ _ _ inM inFloat inN (tied_integer_edge last) (tied_integer_edge lastN).symm
    have compared : keyLt (.integer m) (.integer n) = decide (m < n) := rfl
    rw [Tied, compared, decide_eq_false_iff_not] at tied
    exact tied.1 less
  · intro clear a b c inA inB inC first second
    have order := weakOrderOn_keyLt_of_clear slots clear
    exact ⟨order.trans inC inB inA second.1 first.1, order.trans inA inB inC first.2 second.2⟩

def tiedPairs : List Value :=
  [.integer 9223372036854775807, .float (Binary64.ofInt (2 ^ 63)), .bool true,
    .float ⟨0xbff8000000000000⟩, .string (text "true"), .integer (-9223372036854775808)]

theorem keyLt_ties_iff_single :
    (∀ k ∈ tiedPairs, k.IsSlot) ∧ ¬Blurred (· ∈ tiedPairs) ∧
      Tied (.integer 9223372036854775807) (.float (Binary64.ofInt (2 ^ 63))) ∧
      ∀ a ∈ tiedPairs, ∀ b ∈ tiedPairs, ∀ c ∈ tiedPairs, Tied a b → Tied b c → Tied a c := by
  have slots : ∀ k ∈ tiedPairs, k.IsSlot := by
    intro k member
    simp only [tiedPairs, List.mem_cons, List.not_mem_nil, or_false] at member
    obtain rfl | rfl | rfl | rfl | rfl | rfl := member
    · exact trivial
    · exact isSlot_edge
    · exact trivial
    · exact ⟨by decide, by decide⟩
    · exact trivial
    · exact trivial
  have clear : ¬Blurred (· ∈ tiedPairs) := by
    rintro ⟨_, m, n, last, less, inM, inN⟩
    simp only [tiedPairs, List.mem_cons, Value.integer.injEq, reduceCtorEq, List.not_mem_nil,
      or_false, false_or] at inM inN
    obtain rfl | rfl := inM
    · obtain rfl | rfl := inN <;> exact absurd less (by decide)
    · exact absurd last (by decide)
  obtain ⟨_, _, ties⟩ := keyLt_ties_iff slots
  exact ⟨slots, clear, by decide, fun a inA b inB c inC => ties.mpr clear a b c inA inB inC⟩

/-- Two different integers, and a numeral read as the float that both are rounded to.  The float is
tied with both integers, which are not tied. -/
theorem tied_with_untied :
    decodeLiteral (text "9223372036854775808") = .ok (.float (Binary64.ofInt (2 ^ 63))) ∧
      Literal.normalKey (.float (Binary64.ofInt (2 ^ 63))) = .float (Binary64.ofInt (2 ^ 63)) ∧
      Tied (.integer 9223372036854775806) (.float (Binary64.ofInt (2 ^ 63))) ∧
      Tied (.float (Binary64.ofInt (2 ^ 63))) (.integer 9223372036854775807) ∧
      keyLt (.integer 9223372036854775806) (.integer 9223372036854775807) = true ∧
      (TableDraft.ofPairs [(.integer 9223372036854775807, .integer 1),
          (.integer 9223372036854775806, .integer 2),
          (.float (Binary64.ofInt (2 ^ 63)), .integer 3)]).entries =
        [(.integer 9223372036854775806, .integer 2), (.integer 9223372036854775807, .integer 1),
          (.float (Binary64.ofInt (2 ^ 63)), .integer 3)] ∧
      ¬∀ a b c : Value, a.IsSlot → b.IsSlot → c.IsSlot → Tied a b → Tied b c → Tied a c := by
  have first : Tied (.integer 9223372036854775806) (.float (Binary64.ofInt (2 ^ 63))) := by decide
  have second : Tied (.float (Binary64.ofInt (2 ^ 63))) (.integer 9223372036854775807) := by decide
  have untied : ¬Tied (.integer 9223372036854775806) (.integer 9223372036854775807) := by decide
  have sorted : [((.integer 9223372036854775806 : Value), (.integer 2 : Value)),
      (.integer 9223372036854775807, .integer 1),
      (.float (Binary64.ofInt (2 ^ 63)), .integer 3)].Pairwise
        fun a b => keyLt b.1 a.1 = false := by decide
  refine ⟨by decide, by decide, first, second, by decide, stableSort_eq_self sorted,
    fun all => untied ?_⟩
  exact all (.integer 9223372036854775806) _ (.integer 9223372036854775807) trivial isSlot_edge
    trivial first second

end Value

end LuaAsset
