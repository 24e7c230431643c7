import LuaAsset.Proofs.Table.Fields
import LuaAsset.Proofs.Table.Shape

/-! # Integers as keys

A key is a signed or an unsigned integer.  Positions depend on its value
(`Value.position?_eq_some`), but its name and its place in an object on the signed integer with the
same 64 bits (`Value.keyName_whole`), which differ from `2 ^ 63` on (`build_integers`). -/

set_option autoImplicit false

namespace LuaAsset

/-- The signed integer with the same 64 bits. -/
def wrapped (n : Int) : Int := if n < 2 ^ 63 then n else n - 2 ^ 64

theorem decimalInt_inj {m n : Int} : decimalInt m = decimalInt n ↔ m = n :=
  ⟨decimalInt_injective, congrArg decimalInt⟩

namespace Value

variable {j k : Value} {m n : Int}

theorem whole?_cases (whole : k.whole? = some n) :
    (∃ i : Int64, k = .integer i ∧ n = i.toInt) ∨ ∃ i : UInt64, k = .natural i ∧ n = i.toNat := by
  cases k with
  | integer i => exact .inl ⟨i, rfl, (Option.some.inj whole).symm⟩
  | natural i => exact .inr ⟨i, rfl, (Option.some.inj whole).symm⟩
  | _ => cases whole

theorem whole?_bounds (whole : k.whole? = some n) : -2 ^ 63 ≤ n ∧ n < 2 ^ 64 := by
  obtain ⟨i, rfl, rfl⟩ | ⟨i, rfl, rfl⟩ := whole?_cases whole
  · have low := i.le_toInt
    have high := i.toInt_lt
    omega
  · have high := i.toNat_lt
    omega

theorem toInt_signedBits (whole : k.whole? = some n) : k.signedBits.toInt = wrapped n := by
  obtain ⟨i, rfl, rfl⟩ | ⟨i, rfl, rfl⟩ := whole?_cases whole
  · exact (if_pos i.toInt_lt).symm
  · have high := i.toNat_lt
    have bits : i.toInt64.toInt = (i.toNat : Int).bmod (2 ^ 64) :=
      BitVec.toInt_eq_toNat_bmod i.toBitVec
    rw [signedBits, bits, wrapped, Int.bmod]
    simp only [Int.natCast_pow, Nat.cast_ofNat]
    split <;> split <;> omega

theorem isNumber_of_whole? (whole : k.whole? = some n) :
    k.isNumber = true ∧ k.isFloat = false := by
  obtain ⟨i, rfl, _⟩ | ⟨i, rfl, _⟩ := whole?_cases whole <;> exact ⟨rfl, rfl⟩

theorem keyName_signedBits (whole : k.whole? = some n) :
    k.keyName = decimalInt k.signedBits.toInt := by
  obtain ⟨i, rfl, _⟩ | ⟨i, rfl, _⟩ := whole?_cases whole <;> rfl

theorem keyName_whole (whole : k.whole? = some n) : k.keyName = decimalInt (wrapped n) := by
  rw [keyName_signedBits whole, toInt_signedBits whole]

theorem keyName_eq_decimalInt_iff (whole : k.whole? = some n) :
    k.keyName = decimalInt n ↔ n < 2 ^ 63 := by
  rw [keyName_whole whole, decimalInt_inj, wrapped]
  split <;> omega

theorem keyName_eq_iff (left : j.whole? = some m) (right : k.whole? = some n) :
    j.keyName = k.keyName ↔ m % 2 ^ 64 = n % 2 ^ 64 := by
  have boundsLeft := whole?_bounds left
  have boundsRight := whole?_bounds right
  rw [keyName_whole left, keyName_whole right, decimalInt_inj, wrapped, wrapped]
  split <;> split <;> omega

end Value

namespace TableDraft

section Wholes

variable {pairs : List (Value × Value)} (wholes : ∀ pair ∈ pairs, ∃ n, pair.1.whole? = some n)
include wholes

theorem whole?_of_mem_entries {entry : Value × Value}
    (member : entry ∈ (ofPairs pairs).entries) : ∃ n, entry.1.whole? = some n := by
  rw [(ofPairs pairs).entries_perm.mem_iff, held_eq] at member
  obtain position | beside := List.mem_append.mp member
  · obtain ⟨p, _, rfl⟩ := List.mem_map.mp position
    exact ⟨_, rfl⟩
  · exact wholes entry (List.mem_filter.mp beside).1

theorem namesOf_entries : namesOf (ofPairs pairs).entries =
    (numbersOf (ofPairs pairs).entries).map fun n => decimalInt n.toInt := by
  rw [namesOf, numbersOf, List.map_map]
  apply List.map_congr_left
  intro entry member
  obtain ⟨n, whole⟩ := whole?_of_mem_entries wholes member
  exact Value.keyName_signedBits whole

theorem rising_entries : (numbersOf (ofPairs pairs).entries).Pairwise (· ≤ ·) := by
  have integers : ∀ entry ∈ (ofPairs pairs).entries,
      entry.1.isNumber = true ∧ entry.1.isFloat = false := by
    intro entry member
    obtain ⟨n, whole⟩ := whole?_of_mem_entries wholes member
    exact Value.isNumber_of_whole? whole
  refine rising_of_sorted integers (sorted_stableSort weakOrderOn_entries fun entry member => ?_)
  exact (integers entry ((ofPairs pairs).entries_perm.mem_iff.mpr member)).2

theorem mem_numbersOf_entries (i : Int64) : i ∈ numbersOf (ofPairs pairs).entries ↔
    ∃ pair ∈ pairs, ∃ n, pair.1.whole? = some n ∧ i.toInt = wrapped n := by
  have proper : ∀ pair ∈ pairs, pair.1.isNull = false := by
    intro pair member
    obtain ⟨n, whole⟩ := wholes pair member
    exact Value.isNull_of_whole? whole
  rw [← List.mem_map_of_injective decimalInt_toInt_injective, ← namesOf_entries wholes,
    mem_namesOf_entries, (keeps_ofPairs proper).names, namesOf, List.mem_map]
  constructor
  · rintro ⟨pair, member, name⟩
    obtain ⟨n, whole⟩ := wholes pair member
    rw [Value.keyName_whole whole] at name
    exact ⟨pair, member, n, whole, (decimalInt_injective name).symm⟩
  · rintro ⟨pair, member, n, whole, bits⟩
    exact ⟨pair, member, by rw [Value.keyName_whole whole, bits]⟩

end Wholes

/-- Integer keys of either kind are named by the numerals of their bits as signed integers: by their
own numeral iff they are below `2 ^ 63`, and alike iff they are congruent modulo `2 ^ 64`.  An
object lists these numerals in ascending numeric order. -/
theorem build_integers {pairs : List (Value × Value)}
    (wholes : ∀ pair ∈ pairs, ∃ n, pair.1.whole? = some n) :
    (∀ pair ∈ pairs, ∀ n, pair.1.whole? = some n →
      pair.1.keyName = decimalInt (wrapped n) ∧
        (pair.1.keyName = decimalInt n ↔ n < 2 ^ 63)) ∧
    (∀ p ∈ pairs, ∀ q ∈ pairs, ∀ m n, p.1.whole? = some m → q.1.whole? = some n →
      (p.1.keyName = q.1.keyName ↔ m % 2 ^ 64 = n % 2 ^ 64)) ∧
    ∀ fields, (ofPairs pairs).build = .object fields → ∃ numbers : List Int,
      fields.map Prod.fst = numbers.map decimalInt ∧ numbers.Pairwise (· < ·) ∧
      ∀ i, i ∈ numbers ↔
        ∃ pair ∈ pairs, ∃ n, pair.1.whole? = some n ∧ i = wrapped n := by
  refine ⟨fun pair _ n whole => ?_, fun p _ q _ m n => Value.keyName_eq_iff, ?_⟩
  · exact ⟨Value.keyName_whole whole, Value.keyName_eq_decimalInt_iff whole⟩
  · intro fields built
    have same : fields = written (ofPairs pairs).entries [] := by
      rw [build] at built
      split at built
      · cases built
      · exact (Value.object.inj built).symm
    obtain ⟨numbers, names, order, members⟩ :=
      exists_numerals (namesOf_entries wholes) (rising_entries wholes)
    refine ⟨numbers.map Int64.toInt, ?_, ?_, ?_⟩
    · rw [same, names, List.map_map]
      rfl
    · rw [List.pairwise_map]
      exact order.imp Int64.lt_iff_toInt_lt.mp
    · intro i
      simp only [List.mem_map, members, mem_numbersOf_entries wholes]
      constructor
      · rintro ⟨_, ⟨pair, member, n, whole, bits⟩, rfl⟩
        exact ⟨pair, member, n, whole, bits⟩
      · rintro ⟨pair, member, n, whole, rfl⟩
        have bits := Value.toInt_signedBits whole
        exact ⟨pair.1.signedBits, ⟨pair, member, n, whole, bits⟩, bits⟩

def descending : List (Value × Value) :=
  [(.natural 9223372036854775808, .bool true), (.natural 9223372036854775807, .integer 1),
    (.integer 7, .null), (.natural 7, .integer 2), (.natural 0, .integer 3),
    (.integer (-9223372036854775808), .integer 4)]

theorem build_integers_descending :
    (∀ pair ∈ descending, ∃ n, pair.1.whole? = some n) ∧
      Value.keyName (.natural 9223372036854775807) = decimalInt 9223372036854775807 ∧
      Value.keyName (.natural 9223372036854775808) =
        Value.keyName (.integer (-9223372036854775808)) ∧
      ∃ (fields : List (Bytes × Value)) (numbers : List Int),
        (ofPairs descending).build = .object fields ∧
        fields.map Prod.fst = numbers.map decimalInt ∧ numbers.Pairwise (· < ·) ∧
        -9223372036854775808 ∈ numbers ∧ 9223372036854775807 ∈ numbers := by
  have wholes : ∀ pair ∈ descending, ∃ n, pair.1.whole? = some n := by
    intro pair member
    simp only [descending, List.mem_cons, List.not_mem_nil, or_false] at member
    obtain rfl | rfl | rfl | rfl | rfl | rfl := member <;> exact ⟨_, rfl⟩
  have object : (ofPairs descending).build = .object (ofPairs descending).fields :=
    build_of_beside (by decide)
  obtain ⟨names, same, listed⟩ := build_integers wholes
  obtain ⟨numbers, fields, rising, members⟩ := listed _ object
  refine ⟨wholes, ?_, ?_, _, numbers, object, fields, rising, ?_, ?_⟩
  · exact (names (.natural 9223372036854775807, .integer 1) (by decide) _ rfl).2.mpr (by decide)
  · exact (same (.natural 9223372036854775808, .bool true) (by decide)
      (.integer (-9223372036854775808), .integer 4) (by decide) _ _ rfl rfl).mpr (by decide)
  · exact (members _).mpr ⟨(.integer (-9223372036854775808), .integer 4), by decide,
      -9223372036854775808, by decide, by decide⟩
  · exact (members _).mpr ⟨(.natural 9223372036854775807, .integer 1), by decide,
      9223372036854775807, by decide, by decide⟩

/-- Two different integers with one name, and a larger integer listed before a smaller one. -/
theorem build_wrapped :
    Value.keyName (.natural 18446744073709551615) = text "-1" ∧
      Value.keyName (.natural 18446744073709551615) ≠ decimalInt 18446744073709551615 ∧
      (ofPairs [(.natural 18446744073709551615, .integer 1), (.integer (-1), .integer 2)]).build =
        .object [(text "-1", .integer 2)] ∧
      (ofPairs [(.natural 9223372036854775808, .integer 1), (.integer 1, .integer 2)]).build =
        .object [(text "-9223372036854775808", .integer 1), (text "1", .integer 2)] := by
  have name : Value.keyName (.natural 18446744073709551615) = text "-1" := by cbv
  refine ⟨name, fun own => ?_, by cbv, by cbv⟩
  have small := (Value.keyName_eq_decimalInt_iff rfl).mp own
  exact absurd small (by decide)

end TableDraft

end LuaAsset
