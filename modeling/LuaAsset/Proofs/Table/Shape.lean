import LuaAsset.Proofs.Table.Held

/-! # Which tables are arrays

The largest position equals the number of positions iff the positions are `1 … N`, so a table is an
array iff its keys are `1 … N` (`build_shape`). -/

set_option autoImplicit false

namespace LuaAsset

/-! ## Positions without a gap -/

theorem positions_eq_range {α : Type} {positions : List (Nat × α)} (ascending : Ascending positions)
    {n : Nat} (members : ∀ i, i ∈ positions.map Prod.fst ↔ 1 ≤ i ∧ i ≤ n) :
    positions.map Prod.fst = List.range' 1 n := by
  apply (List.pairwise_map.mpr ascending).eq_of_mem_iff (List.pairwise_lt_range' 1)
  intro i
  rw [members, List.mem_range'_1]
  omega

/-- If the last position equals the number of positions, all numbers up to it are positions. -/
theorem mem_of_dense {α : Type} {positions : List (Nat × α)} (ascending : Ascending positions)
    (positive : ∀ p ∈ positions, 1 ≤ p.1) {last : Nat × α} (ends : positions.getLast? = some last)
    (dense : last.1 = positions.length) (i : Nat) :
    i ∈ positions.map Prod.fst ↔ 1 ≤ i ∧ i ≤ positions.length := by
  have bounds : ∀ i ∈ positions.map Prod.fst, 1 ≤ i ∧ i ≤ positions.length := by
    intro i member
    obtain ⟨p, inside, rfl⟩ := List.mem_map.mp member
    have place := getElem?_of_dense ascending positive ends dense inside
    have below := (List.getElem?_eq_some_iff.mp place).1
    have start := positive p inside
    omega
  -- as many different numbers as there are in the range, and none outside of it
  have perm : (positions.map Prod.fst).Perm (List.range' 1 positions.length) := by
    have once : (positions.map Prod.fst).Nodup :=
      (List.pairwise_map.mpr ascending).imp fun {_ _} => Nat.ne_of_lt
    have subset : positions.map Prod.fst ⊆ List.range' 1 positions.length := by
      intro i member
      have bound := bounds i member
      rw [List.mem_range'_1]
      omega
    apply (List.subperm_of_subset once subset).perm_of_length_le
    simp
  rw [perm.mem_iff, List.mem_range'_1]
  omega

/-! ## Whole numbers as keys -/

namespace Value

/-- The natural number of a key, for either kind of integer. -/
def whole? : Value → Option Int
  | .integer n => some n.toInt
  | .natural n => some n.toNat
  | _ => none

theorem isNull_of_whole? {key : Value} {n : Int} (whole : key.whole? = some n) :
    key.isNull = false := by
  cases key with
  | null => cases whole
  | _ => rfl

theorem position?_eq_some {key : Value} {i : Nat} :
    key.position? = some i ↔ key.whole? = some (i : Int) ∧ 1 ≤ i ∧ i < 2 ^ 63 := by
  cases key with
  | integer n =>
      have below := n.toInt_lt
      rw [position?, whole?, Option.some_inj]
      split
      · rw [Option.some_inj]
        omega
      · simp only [reduceCtorEq, false_iff]
        omega
  | natural n =>
      rw [position?, whole?, Option.some_inj]
      split
      · rw [Option.some_inj]
        omega
      · simp only [reduceCtorEq, false_iff]
        omega
  | _ => simp [position?, whole?]

end Value

namespace TableDraft

/-- The keys are exactly the numbers from one to a last one; `null` is no key. -/
structure Numbered (pairs : List (Value × Value)) (n : Nat) : Prop where
  within : ∀ pair ∈ pairs, pair.1.isNull = false →
    ∃ i : Nat, pair.1.whole? = some (i : Int) ∧ 1 ≤ i ∧ i ≤ n
  reached : ∀ i : Nat, 1 ≤ i → i ≤ n → ∃ pair ∈ pairs, pair.1.whole? = some (i : Int)

theorem Numbered.le {pairs : List (Value × Value)} {n : Nat} (numbered : Numbered pairs n)
    {pair : Value × Value} (among : pair ∈ pairs) {i : Nat}
    (whole : pair.1.whole? = some (i : Int)) : i ≤ n := by
  obtain ⟨j, same, _, bound⟩ := numbered.within pair among (Value.isNull_of_whole? whole)
  rw [whole, Option.some_inj] at same
  omega

theorem Numbered.unique {pairs : List (Value × Value)} {m n : Nat} (first : Numbered pairs m)
    (second : Numbered pairs n) : m = n := by
  have le_of_numbered : ∀ {m n}, Numbered pairs m → Numbered pairs n → m ≤ n := by
    intro m n first second
    obtain rfl | positive := Nat.eq_zero_or_pos m
    · exact Nat.zero_le n
    · obtain ⟨pair, among, whole⟩ := first.reached m positive (Nat.le_refl m)
      exact second.le among whole
  exact Nat.le_antisymm (le_of_numbered first second) (le_of_numbered second first)

theorem Numbered.le_length {pairs : List (Value × Value)} {n : Nat} (numbered : Numbered pairs n) :
    n ≤ pairs.length := by
  have subset : (List.range' 1 n).map (fun i : Nat => some (i : Int)) ⊆
      pairs.map fun pair => pair.1.whole? := by
    intro whole member
    obtain ⟨i, inside, rfl⟩ := List.mem_map.mp member
    rw [List.mem_range'_1] at inside
    obtain ⟨pair, among, same⟩ := numbered.reached i (by omega) (by omega)
    exact List.mem_map.mpr ⟨pair, among, same⟩
  have once : ((List.range' 1 n).map fun i : Nat => some (i : Int)).Nodup := by
    apply List.Nodup.map _ List.nodup_range'
    intro i j same
    simpa using same
  have count := (List.subperm_of_subset once subset).length_le
  simpa using count

section Shape

variable {pairs : List (Value × Value)}

theorem placed_positive : ∀ p ∈ pairs.foldl placePair [], 1 ≤ p.1 := by
  intro p member
  obtain ⟨pair, _, found⟩ := position_of_mem_placed member
  exact (Value.position?_eq_some.mp found).2.1

theorem filter_isBeside_eq_nil : pairs.filter isBeside = [] ↔
    ∀ pair ∈ pairs, pair.1.isNull = false → ∃ i, pair.1.position? = some i := by
  rw [List.filter_eq_nil_iff]
  apply forall₂_congr
  intro pair _
  cases null : pair.1.isNull <;> cases found : pair.1.position? <;> simp [isBeside, null, found]

/-- Numbered keys leave no gap between the positions. -/
theorem Numbered.placed {n : Nat} (numbered : Numbered pairs n) (small : n < 2 ^ 63) :
    (pairs.foldl placePair []).map Prod.fst = List.range' 1 n := by
  apply positions_eq_range (ascending_placed pairs)
  intro i
  rw [mem_positions]
  constructor
  · rintro ⟨pair, among, found⟩
    obtain ⟨whole, positive, _⟩ := Value.position?_eq_some.mp found
    exact ⟨positive, numbered.le among whole⟩
  · rintro ⟨positive, bound⟩
    obtain ⟨pair, among, whole⟩ := numbered.reached i positive bound
    exact ⟨pair, among, Value.position?_eq_some.mpr ⟨whole, positive, by omega⟩⟩

theorem isArray_ofPairs (pairs : List (Value × Value)) : (ofPairs pairs).isArray =
    ((pairs.filter isBeside).isEmpty && (pairs.foldl placePair []).getLast?.any fun last =>
      last.1 == (pairs.foldl placePair []).length) := by
  rw [ofPairs_eq]
  rfl

theorem isArray_ofPairs_iff : (ofPairs pairs).isArray = true ↔
    ∃ n, 1 ≤ n ∧ n < 2 ^ 63 ∧ Numbered pairs n := by
  rw [isArray_ofPairs, Bool.and_eq_true, List.isEmpty_iff, filter_isBeside_eq_nil]
  constructor
  · rintro ⟨addressed, dense⟩
    cases ends : (pairs.foldl placePair []).getLast? with
    | none =>
        rw [ends] at dense
        cases dense
    | some last =>
        rw [ends, Option.any_some, beq_iff_eq] at dense
        have members := mem_of_dense (ascending_placed pairs) placed_positive ends dense
        have member : last.1 ∈ (pairs.foldl placePair []).map Prod.fst :=
          List.mem_map_of_mem (List.mem_of_getLast? ends)
        obtain ⟨pair, _, found⟩ := mem_positions.mp member
        obtain ⟨_, positive, small⟩ := Value.position?_eq_some.mp found
        refine ⟨last.1, positive, small, ?_, ?_⟩
        · intro pair among proper
          obtain ⟨i, found⟩ := addressed pair among proper
          have bound := (members i).mp (mem_positions.mpr ⟨pair, among, found⟩)
          exact ⟨i, (Value.position?_eq_some.mp found).1, bound.1, by omega⟩
        · intro i start bound
          obtain ⟨pair, among, found⟩ := mem_positions.mp ((members i).mpr ⟨start, by omega⟩)
          exact ⟨pair, among, (Value.position?_eq_some.mp found).1⟩
  · rintro ⟨n, positive, small, numbered⟩
    constructor
    · intro pair among proper
      obtain ⟨i, whole, start, bound⟩ := numbered.within pair among proper
      exact ⟨i, Value.position?_eq_some.mpr ⟨whole, start, by omega⟩⟩
    · have keys := numbered.placed small
      have count := congrArg List.length keys
      rw [List.length_map, List.length_range'] at count
      obtain ⟨k, rfl⟩ := Nat.exists_eq_add_of_le' positive
      have ends := congrArg List.getLast? keys
      rw [List.getLast?_map, List.range'_concat, List.getLast?_concat] at ends
      obtain ⟨last, ends, same⟩ := Option.map_eq_some_iff.mp ends
      rw [ends, Option.any_some, beq_iff_eq]
      omega

end Shape

theorem Numbered.getElem?_positional {pairs : List (Value × Value)} {n : Nat}
    (numbered : Numbered pairs n) (small : n < 2 ^ 63) {i : Nat} (positive : 1 ≤ i)
    (bound : i ≤ n) :
    ((pairs.foldl placePair []).map Prod.snd)[i - 1]? =
      latest (fun key => key.whole? = some (i : Int)) pairs := by
  have keys := congrArg (fun list : List Nat => list[i - 1]?) (numbered.placed small)
  rw [List.getElem?_map, List.getElem?_range' (by omega)] at keys
  obtain ⟨p, here, number⟩ := Option.map_eq_some_iff.mp keys
  have last := (mem_placed pairs p).mp (List.mem_of_getElem? here)
  have same : p.1 = i := by omega
  rw [List.getElem?_map, here, Option.map_some, ← last]
  apply latest_congr
  intro pair _
  rw [same, decide_eq_decide, Value.position?_eq_some]
  simp [positive, Nat.lt_of_le_of_lt bound small]

theorem Numbered.length_positional {pairs : List (Value × Value)} {n : Nat}
    (numbered : Numbered pairs n) (small : n < 2 ^ 63) :
    ((pairs.foldl placePair []).map Prod.snd).length = n := by
  have count := congrArg List.length (numbered.placed small)
  rwa [List.length_map, List.length_range', ← List.length_map (f := Prod.snd)] at count

/-- A table is an array iff its keys are the integers from one to a last one, with the last value
added under each; any other table is an object.  The bound on the last integer costs nothing, as
there are at least as many pairs. -/
theorem build_shape (pairs : List (Value × Value)) :
    ((∃ items, (ofPairs pairs).build = .array items) ↔
      ∃ n, 1 ≤ n ∧ n < 2 ^ 63 ∧ Numbered pairs n) ∧
    (∀ n, Numbered pairs n → n ≤ pairs.length ∧
      ∀ items, (ofPairs pairs).build = .array items → items.length = n ∧
        ∀ i : Nat, 1 ≤ i → i ≤ n →
          items[i - 1]? = latest (fun key => key.whole? = some (i : Int)) pairs) ∧
    ((∃ items, (ofPairs pairs).build = .array items) ∨
      ∃ fields, (ofPairs pairs).build = .object fields) := by
  refine ⟨?_, ?_, build_cases _⟩
  · simp only [build_eq_array_iff, exists_and_left, exists_eq, and_true]
    exact isArray_ofPairs_iff
  · intro n numbered
    refine ⟨numbered.le_length, ?_⟩
    intro items built
    obtain ⟨array, rfl⟩ := (build_eq_array_iff _ _).mp built
    obtain ⟨m, positive, small, numbered'⟩ := isArray_ofPairs_iff.mp array
    obtain rfl := numbered.unique numbered'
    rw [ofPairs_eq]
    exact ⟨numbered.length_positional small, fun i start bound =>
      numbered.getElem?_positional small start bound⟩

def rewritten : List (Value × Value) :=
  [(.integer 2, .bool false), (.natural 1, .integer 7), (.null, .integer 9), (.integer 2, .null)]

theorem build_shape_rewritten : Numbered rewritten 2 ∧
    ∃ items, (ofPairs rewritten).build = .array items ∧ items.length = 2 ∧
      items[0]? = some (.integer 7) ∧ items[1]? = some .null := by
  have numbered : Numbered rewritten 2 := by
    constructor
    · intro pair member proper
      simp only [rewritten, List.mem_cons, List.not_mem_nil, or_false] at member
      obtain rfl | rfl | rfl | rfl := member
      · exact ⟨2, rfl, by decide, by decide⟩
      · exact ⟨1, rfl, by decide, by decide⟩
      · cases proper
      · exact ⟨2, rfl, by decide, by decide⟩
    · intro i positive bound
      obtain rfl | rfl : i = 1 ∨ i = 2 := by omega
      · exact ⟨(.natural 1, .integer 7), by decide, rfl⟩
      · exact ⟨(.integer 2, .null), by decide, rfl⟩
  obtain ⟨array, filled, _⟩ := build_shape rewritten
  obtain ⟨items, built⟩ := array.mpr ⟨2, by decide, by decide, numbered⟩
  obtain ⟨count, values⟩ := (filled 2 numbered).2 items built
  exact ⟨numbered, items, built, count, values 1 (by decide) (by decide),
    values 2 (by decide) (by decide)⟩

end TableDraft

end LuaAsset
