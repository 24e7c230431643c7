import LuaAsset.Proofs.Number.Decimal
import LuaAsset.Proofs.Table.Order
import LuaAsset.Proofs.Table.Written
import Mathlib

/-! # The number of entries

Fields are distinguished by the names of their keys, so a built table has one element per name, and
a value is found under its key if no other key has that name (`build_entries`).  Among integers,
booleans and strings only a string that spells another key shares its name (`build_spelled`). -/

set_option autoImplicit false

namespace LuaAsset

namespace Value

/-- The element of an array or an object at a key. -/
def at? (whole key : Value) : Option Value :=
  match whole with
  | .array items => key.position?.bind fun index => items[index - 1]?
  | .object fields => fields.lookup key.keyName
  | _ => none

/-! ## Keys of one name -/

theorem keyName_position (index : Nat) (small : index < 2 ^ 63) :
    keyName (.integer (Int64.ofNat index)) = decimalInt index := by
  rw [keyName, Int64.toInt_ofNat_of_lt small]

theorem position?_bounds {key : Value} {index : Nat} (found : key.position? = some index) :
    1 ≤ index ∧ index < 2 ^ 63 ∧ key.keyName = decimalInt index := by
  cases key with
  | integer n =>
      simp only [position?] at found
      split at found
      · rename_i positive
        obtain rfl := Option.some.inj found
        have bound := n.toInt_lt
        refine ⟨by omega, by omega, ?_⟩
        rw [keyName, Int.toNat_of_nonneg (by omega)]
      · cases found
  | natural n =>
      simp only [position?] at found
      split at found
      · rename_i bounds
        obtain rfl := Option.some.inj found
        refine ⟨bounds.1, bounds.2, ?_⟩
        have same : n.toInt64 = Int64.ofNat n.toNat := by
          rw [← UInt64.toInt64_ofNat', UInt64.ofNat_toNat]
        rw [keyName, same, Int64.toInt_ofNat_of_lt bounds.2]
      · cases found
  | _ => cases found

/-- No key is a string that spells another key. -/
def Unspelled (keys : List Value) : Prop :=
  ∀ key ∈ keys, .string key.keyName ∈ keys → key = .string key.keyName

instance (keys : List Value) : Decidable (Unspelled keys) :=
  inferInstanceAs (Decidable (∀ key ∈ keys, _))

theorem keyName_bool_ne_integer (b : Bool) (n : Int64) :
    keyName (.bool b) ≠ keyName (.integer n) := by
  intro same
  -- neither word starts with a byte of a numeral
  have foreign : ∀ c ∈ decimalInt n.toInt, c ≠ 0x74 ∧ c ≠ 0x66 := by
    intro c member
    rcases mem_decimalInt member with digit | minus
    · constructor <;> (rintro rfl; exact absurd digit (by decide))
    · rw [minus]
      decide
  simp only [keyName] at same
  rw [← same] at foreign
  cases b
  · exact (foreign 0x66 (by decide)).2 rfl
  · exact (foreign 0x74 (by decide)).1 rfl

theorem eq_of_keyName_eq {a b : Value} (plainLeft : a.isPlainKey = true)
    (plainRight : b.isPlainKey = true) (names : a.keyName = b.keyName) :
    a = b ∨ a = .string b.keyName ∨ b = .string a.keyName := by
  rcases isPlainKey_cases plainLeft with ⟨m, rfl⟩ | ⟨s, rfl⟩ | ⟨x, rfl⟩
  · rcases isPlainKey_cases plainRight with ⟨n, rfl⟩ | ⟨t, rfl⟩ | ⟨y, rfl⟩
    · have numbers : m.toInt = n.toInt := decimalInt_injective names
      exact .inl (congrArg Value.integer (Int64.toInt_inj.mp numbers))
    · exact .inr (.inr (congrArg Value.string names.symm))
    · exact absurd names.symm (keyName_bool_ne_integer y m)
  · exact .inr (.inl (congrArg Value.string names))
  · rcases isPlainKey_cases plainRight with ⟨n, rfl⟩ | ⟨t, rfl⟩ | ⟨y, rfl⟩
    · exact absurd names (keyName_bool_ne_integer x n)
    · exact .inr (.inr (congrArg Value.string names.symm))
    · cases x <;> cases y <;> first | exact .inl rfl | exact absurd names (by decide)

theorem Unspelled.eq_of_keyName_eq {keys : List Value} (unspelled : Unspelled keys) {a b : Value}
    (left : a ∈ keys) (right : b ∈ keys) (plainLeft : a.isPlainKey = true)
    (plainRight : b.isPlainKey = true) (names : a.keyName = b.keyName) : a = b := by
  rcases Value.eq_of_keyName_eq plainLeft plainRight names with same | spells | spells
  · exact same
  · rw [spells] at left ⊢
    exact (unspelled b right left).symm
  · rw [spells] at right ⊢
    exact unspelled a left right

end Value

/-! ## Names -/

theorem nodup_namesOf {pairs : List (Value × Value)}
    (plain : ∀ pair ∈ pairs, pair.1.isPlainKey = true) (differ : (pairs.map Prod.fst).Nodup)
    (unspelled : Value.Unspelled (pairs.map Prod.fst)) : (namesOf pairs).Nodup := by
  have keys : ∀ key ∈ pairs.map Prod.fst, key.isPlainKey = true := by
    intro key member
    obtain ⟨pair, inside, rfl⟩ := List.mem_map.mp member
    exact plain pair inside
  have names : namesOf pairs = (pairs.map Prod.fst).map Value.keyName := by
    simp [namesOf]
  rw [names]
  exact differ.map_on fun a left b right =>
    unspelled.eq_of_keyName_eq left right (keys a left) (keys b right)

theorem length_eq_dedup {names all : List Bytes} (once : names.Nodup)
    (same : ∀ name, name ∈ names ↔ name ∈ all) : names.length = all.dedup.length := by
  have perm : names.Perm all.dedup := by
    rw [List.perm_ext_iff_of_nodup once (List.nodup_dedup all)]
    intro name
    rw [same name, List.mem_dedup]
  exact perm.length_eq

/-! ## Positions in ascending order -/

def Ascending {α : Type} (positions : List (Nat × α)) : Prop :=
  positions.Pairwise fun p q => p.1 < q.1

theorem mem_place_iff {α : Type} (index : Nat) (value : α) {positions : List (Nat × α)}
    (ascending : Ascending positions) (p : Nat × α) :
    p ∈ place index value positions ↔ p = (index, value) ∨ (p ∈ positions ∧ p.1 ≠ index) := by
  induction positions with
  | nil => simp [place]
  | cons first rest ih =>
      obtain ⟨i, v⟩ := first
      obtain ⟨before, later⟩ := List.pairwise_cons.mp ascending
      rw [place]
      split
      · rename_i below
        have behind : ∀ q ∈ (i, v) :: rest, q.1 ≠ index := by
          intro q member
          rcases List.mem_cons.mp member with rfl | member
          · exact Nat.ne_of_gt below
          · exact Nat.ne_of_gt (Nat.lt_trans below (before q member))
        rw [List.mem_cons]
        constructor
        · rintro (same | old)
          · exact .inl same
          · exact .inr ⟨old, behind p old⟩
        · rintro (same | old)
          · exact .inl same
          · exact .inr old.1
      · split
        · rename_i here
          have behind : ∀ q ∈ rest, q.1 ≠ index := by
            intro q member
            rw [here]
            exact Nat.ne_of_gt (before q member)
          rw [List.mem_cons, List.mem_cons]
          constructor
          · rintro (same | old)
            · exact .inl same
            · exact .inr ⟨.inr old, behind p old⟩
          · rintro (same | ⟨rfl | old, other⟩)
            · exact .inl same
            · exact absurd here.symm other
            · exact .inr old
        · rename_i other
          rw [List.mem_cons, List.mem_cons, ih later]
          constructor
          · rintro (rfl | same | old)
            · exact .inr ⟨.inl rfl, Ne.symm other⟩
            · exact .inl same
            · exact .inr ⟨.inr old.1, old.2⟩
          · rintro (same | ⟨rfl | old, differ⟩)
            · exact .inr (.inl same)
            · exact .inl rfl
            · exact .inr (.inr ⟨old, differ⟩)

theorem ascending_place {α : Type} (index : Nat) (value : α) {positions : List (Nat × α)}
    (ascending : Ascending positions) : Ascending (place index value positions) := by
  induction positions with
  | nil => exact List.pairwise_singleton _ _
  | cons first rest ih =>
      obtain ⟨i, v⟩ := first
      obtain ⟨before, later⟩ := List.pairwise_cons.mp ascending
      rw [place]
      split
      · rename_i below
        refine List.pairwise_cons.mpr ⟨fun q member => ?_, ascending⟩
        rcases List.mem_cons.mp member with rfl | member
        · exact below
        · exact Nat.lt_trans below (before q member)
      · split
        · rename_i here
          refine List.pairwise_cons.mpr ⟨fun q member => ?_, later⟩
          have after := before q member
          simpa [here] using after
        · refine List.pairwise_cons.mpr ⟨fun q member => ?_, ih later⟩
          rcases (mem_place_iff index value later q).mp member with rfl | old
          · dsimp only
            omega
          · exact before q old.1

theorem add_le_of_ascending {α : Type} (positions : List (Nat × α)) : ∀ {low : Nat},
    Ascending positions → (∀ p ∈ positions, low ≤ p.1) →
      ∀ {j : Nat} {p : Nat × α}, positions[j]? = some p → low + j ≤ p.1 := by
  induction positions with
  | nil => simp
  | cons first rest ih =>
      intro low ascending above j p found
      obtain ⟨before, later⟩ := List.pairwise_cons.mp ascending
      have start := above first List.mem_cons_self
      cases j with
      | zero =>
          obtain rfl : first = p := by simpa using found
          exact start
      | succ j =>
          have aboveNext : ∀ q ∈ rest, low + 1 ≤ q.1 := fun q member =>
            Nat.lt_of_le_of_lt start (before q member)
          have bound := ih later aboveNext (by simpa using found)
          omega

/-- If the last position equals the number of positions, each stands at its own index. -/
theorem getElem?_of_dense {α : Type} {positions : List (Nat × α)} (ascending : Ascending positions)
    (positive : ∀ p ∈ positions, 1 ≤ p.1) {last : Nat × α} (ends : positions.getLast? = some last)
    (dense : last.1 = positions.length) {p : Nat × α} (member : p ∈ positions) :
    positions[p.1 - 1]? = some p := by
  obtain ⟨j, inside, here⟩ := List.mem_iff_getElem.mp member
  have found : positions[j]? = some p := by rw [List.getElem?_eq_getElem inside, here]
  have least := add_le_of_ascending positions ascending positive found
  have tail : positions.drop j = p :: positions.drop (j + 1) := by
    rw [List.drop_eq_getElem_cons inside, here]
  have greatest : p.1 + (positions.length - 1 - j) ≤ last.1 := by
    have fromHere : Ascending (positions.drop j) := ascending.sublist (List.drop_sublist j _)
    apply add_le_of_ascending (positions.drop j) fromHere
    · intro q later
      rw [Ascending, tail, List.pairwise_cons] at fromHere
      rw [tail] at later
      rcases List.mem_cons.mp later with rfl | later
      · exact Nat.le_refl _
      · exact Nat.le_of_lt (fromHere.1 q later)
    · rw [List.getElem?_drop, ← ends, List.getLast?_eq_getElem?]
      congr 1
      omega
  have place : p.1 - 1 = j := by omega
  rw [place, found]

namespace TableDraft

/-! ## Contents of a draft -/

structure Keeps (t : TableDraft) (pairs : List (Value × Value)) : Prop where
  ascending : Ascending t.positional
  bounds : ∀ p ∈ t.positional, 1 ≤ p.1 ∧ p.1 < 2 ^ 63
  placed : ∀ pair ∈ pairs, ∀ index, pair.1.position? = some index →
    index ∈ t.positional.map Prod.fst
  beside : ∀ pair ∈ pairs, pair.1.position? = none → pair ∈ t.keyed
  added : ∀ entry ∈ t.held, ∃ pair ∈ pairs,
    pair.1.keyName = entry.1.keyName ∧ pair.2 = entry.2

theorem keeps_empty : empty.Keeps [] where
  ascending := List.Pairwise.nil
  bounds := by simp [empty]
  placed := by simp
  beside := by simp
  added := by simp [empty, held]

theorem mem_held {t : TableDraft} {entry : Value × Value} :
    entry ∈ t.held ↔
      (∃ p ∈ t.positional, entry = (.integer (Int64.ofNat p.1), p.2)) ∨ entry ∈ t.keyed := by
  simp [held, eq_comm]

section Addition

variable {t : TableDraft} {pairs : List (Value × Value)} {pair : Value × Value}

theorem Keeps.added_before (keeps : t.Keeps pairs) (pair : Value × Value) :
    ∀ entry ∈ t.held, ∃ other ∈ pairs ++ [pair],
      other.1.keyName = entry.1.keyName ∧ other.2 = entry.2 := by
  intro entry member
  obtain ⟨other, among, same⟩ := keeps.added entry member
  exact ⟨other, List.mem_append_left _ among, same⟩

theorem Keeps.add_name (keeps : t.Keeps pairs) (proper : pair.1.isNull = false)
    (named : pair.1.position? = none) : (t.add pair.1 pair.2).Keeps (pairs ++ [pair]) := by
  have before := keeps.added_before pair
  rw [add_of_name pair.2 proper named]
  refine ⟨keeps.ascending, keeps.bounds, ?_, ?_, ?_⟩
  · intro other member index position
    rcases List.mem_append.mp member with old | new
    · exact keeps.placed other old index position
    · obtain rfl := List.mem_singleton.mp new
      rw [named] at position
      cases position
  · intro other member name
    rcases List.mem_append.mp member with old | new
    · exact List.mem_append_left _ (keeps.beside other old name)
    · exact List.mem_append_right _ new
  · intro entry member
    rcases mem_held.mp member with position | name
    · exact before entry (mem_held.mpr (.inl position))
    · rcases List.mem_append.mp name with old | new
      · exact before entry (mem_held.mpr (.inr old))
      · obtain rfl := List.mem_singleton.mp new
        exact ⟨pair, List.mem_append_right _ new, rfl, rfl⟩

theorem Keeps.add_position (keeps : t.Keeps pairs) {index : Nat}
    (found : pair.1.position? = some index) :
    (t.add pair.1 pair.2).Keeps (pairs ++ [pair]) := by
  obtain ⟨positive, small, name⟩ := Value.position?_bounds found
  have before := keeps.added_before pair
  have members := mem_place_iff index pair.2 keeps.ascending
  rw [add_of_position pair.2 found]
  refine ⟨ascending_place index pair.2 keeps.ascending, ?_, ?_, ?_, ?_⟩
  · intro p member
    rcases (members p).mp member with rfl | old
    · exact ⟨positive, small⟩
    · exact keeps.bounds p old.1
  · intro other member index' position
    by_cases same : index' = index
    · exact List.mem_map.mpr ⟨(index, pair.2), (members _).mpr (.inl rfl), same.symm⟩
    · rcases List.mem_append.mp member with old | new
      · obtain ⟨p, inside, rfl⟩ := List.mem_map.mp (keeps.placed other old index' position)
        exact List.mem_map.mpr ⟨p, (members p).mpr (.inr ⟨inside, same⟩), rfl⟩
      · obtain rfl := List.mem_singleton.mp new
        rw [found] at position
        exact absurd (Option.some.inj position).symm same
  · intro other member named
    rcases List.mem_append.mp member with old | new
    · exact keeps.beside other old named
    · obtain rfl := List.mem_singleton.mp new
      rw [found] at named
      cases named
  · intro entry member
    rcases mem_held.mp member with ⟨p, inside, rfl⟩ | old
    · rcases (members p).mp inside with rfl | ⟨old, _⟩
      · refine ⟨pair, List.mem_append_right _ List.mem_cons_self, ?_, rfl⟩
        rw [name, Value.keyName_position index small]
      · exact before _ (mem_held.mpr (.inl ⟨p, old, rfl⟩))
    · exact before entry (mem_held.mpr (.inr old))

theorem Keeps.add (keeps : t.Keeps pairs) (pair : Value × Value)
    (proper : pair.1.isNull = false) : (t.add pair.1 pair.2).Keeps (pairs ++ [pair]) := by
  cases found : pair.1.position? with
  | none => exact keeps.add_name proper found
  | some index => exact keeps.add_position found

end Addition

theorem Keeps.addAll (pairs : List (Value × Value)) : ∀ {t : TableDraft}
    {done : List (Value × Value)}, t.Keeps done → (∀ pair ∈ pairs, pair.1.isNull = false) →
      (pairs.foldl (fun t pair => t.add pair.1 pair.2) t).Keeps (done ++ pairs) := by
  induction pairs with
  | nil =>
      intro t done keeps _
      rw [List.append_nil]
      exact keeps
  | cons pair pairs ih =>
      intro t done keeps proper
      obtain ⟨first, more⟩ := List.forall_mem_cons.mp proper
      have next := ih (keeps.add pair first) more
      rw [List.append_assoc] at next
      exact next

theorem keeps_ofPairs {pairs : List (Value × Value)}
    (proper : ∀ pair ∈ pairs, pair.1.isNull = false) : (ofPairs pairs).Keeps pairs :=
  Keeps.addAll pairs keeps_empty proper

theorem entries_perm (t : TableDraft) : t.entries.Perm t.held := stableSort_perm _ _

theorem mem_namesOf_entries (t : TableDraft) (name : Bytes) :
    name ∈ namesOf t.entries ↔ name ∈ namesOf t.held :=
  (t.entries_perm.map _).mem_iff

section Kept

variable {t : TableDraft} {pairs : List (Value × Value)} (keeps : t.Keeps pairs)
include keeps

theorem Keeps.exists_held {pair : Value × Value} (member : pair ∈ pairs) :
    ∃ entry ∈ t.held, entry.1.keyName = pair.1.keyName := by
  cases found : pair.1.position? with
  | none => exact ⟨pair, mem_held.mpr (.inr (keeps.beside pair member found)), rfl⟩
  | some index =>
      obtain ⟨p, inside, rfl⟩ := List.mem_map.mp (keeps.placed pair member index found)
      obtain ⟨_, small, name⟩ := Value.position?_bounds found
      refine ⟨_, mem_held.mpr (.inl ⟨p, inside, rfl⟩), ?_⟩
      rw [name, Value.keyName_position p.1 small]

theorem Keeps.names (name : Bytes) : name ∈ namesOf t.held ↔ name ∈ namesOf pairs := by
  simp only [namesOf, List.mem_map]
  constructor
  · rintro ⟨entry, member, rfl⟩
    obtain ⟨pair, inside, same, _⟩ := keeps.added entry member
    exact ⟨pair, inside, same⟩
  · rintro ⟨pair, member, rfl⟩
    exact keeps.exists_held member

theorem Keeps.length_fields : t.fields.length = (namesOf pairs).dedup.length := by
  obtain ⟨once, members⟩ := names_written t.entries [] List.nodup_nil
  have same : ∀ name, name ∈ t.fields.map Prod.fst ↔ name ∈ namesOf pairs := by
    intro name
    rw [← keeps.names name, ← mem_namesOf_entries]
    refine (members name).trans ?_
    simp
  rw [← List.length_map (f := Prod.fst)]
  exact length_eq_dedup once same

theorem Keeps.lookup_fields {pair : Value × Value} (member : pair ∈ pairs)
    (alone : ∀ other ∈ pairs, other.1.keyName = pair.1.keyName → other.2 = pair.2) :
    t.fields.lookup pair.1.keyName = some pair.2 := by
  apply lookup_written t.entries
  · intro entry inside same
    obtain ⟨other, among, name, value⟩ := keeps.added entry (t.entries_perm.mem_iff.mp inside)
    rw [← value]
    exact alone other among (name.trans same)
  · right
    rw [mem_namesOf_entries, keeps.names]
    exact List.mem_map.mpr ⟨pair, member, rfl⟩

/-- Every key of an array addresses a position. -/
theorem Keeps.position_of_isArray (array : t.isArray = true) {pair : Value × Value}
    (member : pair ∈ pairs) : ∃ index, pair.1.position? = some index := by
  cases found : pair.1.position? with
  | none =>
      simp only [isArray, Bool.and_eq_true, List.isEmpty_iff] at array
      have inside := keeps.beside pair member found
      rw [array.1] at inside
      cases inside
  | some index => exact ⟨index, rfl⟩

theorem Keeps.length_positional (array : t.isArray = true) :
    t.positional.length = (namesOf pairs).dedup.length := by
  simp only [isArray, Bool.and_eq_true, List.isEmpty_iff] at array
  have held_eq : namesOf t.held = t.positional.map fun p => decimalInt p.1 := by
    simp only [namesOf, held, array.1, List.append_nil, List.map_map]
    apply List.map_congr_left
    intro p member
    exact Value.keyName_position p.1 (keeps.bounds p member).2
  have once : (namesOf t.held).Nodup := by
    rw [held_eq]
    refine List.pairwise_map.mpr (keeps.ascending.imp ?_)
    intro p q before same
    have numbers := decimalInt_injective same
    omega
  rw [← length_eq_dedup once keeps.names, held_eq, List.length_map]

theorem Keeps.getElem?_positional (array : t.isArray = true) {pair : Value × Value}
    (member : pair ∈ pairs)
    (alone : ∀ other ∈ pairs, other.1.keyName = pair.1.keyName → other.2 = pair.2) {index : Nat}
    (found : pair.1.position? = some index) :
    (t.positional.map Prod.snd)[index - 1]? = some pair.2 := by
  obtain ⟨p, inside, rfl⟩ := List.mem_map.mp (keeps.placed pair member index found)
  obtain ⟨_, small, name⟩ := Value.position?_bounds found
  obtain ⟨other, among, named, value⟩ := keeps.added _ (mem_held.mpr (.inl ⟨p, inside, rfl⟩))
  have same : p.2 = pair.2 := by
    rw [← value]
    apply alone other among
    rw [named, name, Value.keyName_position p.1 small]
  simp only [isArray, Bool.and_eq_true] at array
  cases ends : t.positional.getLast? with
  | none =>
      rw [ends] at array
      exact absurd array.2 (by simp)
  | some last =>
      rw [ends, Option.any_some, beq_iff_eq] at array
      have place := getElem?_of_dense keeps.ascending (fun p inside => (keeps.bounds p inside).1)
        ends array.2 inside
      rw [List.getElem?_map, place, Option.map_some, same]

theorem Keeps.length_children : t.build.children.length = (namesOf pairs).dedup.length := by
  rw [build]
  split
  · rename_i array
    rw [Value.children, List.length_map]
    exact keeps.length_positional array
  · rw [Value.children, List.length_map]
    exact keeps.length_fields

theorem Keeps.at?_build {pair : Value × Value} (member : pair ∈ pairs)
    (alone : ∀ other ∈ pairs, other.1.keyName = pair.1.keyName → other.2 = pair.2) :
    t.build.at? pair.1 = some pair.2 := by
  rw [build]
  split
  · rename_i array
    obtain ⟨index, found⟩ := keeps.position_of_isArray array member
    rw [Value.at?, found]
    exact keeps.getElem?_positional array member alone found
  · exact keeps.lookup_fields member alone

end Kept

theorem build_cases (t : TableDraft) :
    (∃ items, t.build = .array items) ∨ ∃ fields, t.build = .object fields := by
  rw [build]
  split
  · exact .inl ⟨_, rfl⟩
  · exact .inr ⟨_, rfl⟩

/-- The built value has one element for each name among the keys, and the value of a pair whose key
shares its name with no other is found under that key.  So no pair is lost if the keys are different
integers, booleans and strings and no string spells another key. -/
theorem build_entries {pairs : List (Value × Value)}
    (proper : ∀ pair ∈ pairs, pair.1.isNull = false) :
    ((∃ items, (ofPairs pairs).build = .array items) ∨
      ∃ fields, (ofPairs pairs).build = .object fields) ∧
    (ofPairs pairs).build.children.length = (namesOf pairs).dedup.length ∧
    (∀ pair ∈ pairs,
      (∀ other ∈ pairs, other.1.keyName = pair.1.keyName → other.2 = pair.2) →
      (ofPairs pairs).build.at? pair.1 = some pair.2) ∧
    ((∀ pair ∈ pairs, pair.1.isPlainKey = true) → (pairs.map Prod.fst).Nodup →
      Value.Unspelled (pairs.map Prod.fst) →
      (ofPairs pairs).build.children.length = pairs.length ∧
        ∀ pair ∈ pairs, (ofPairs pairs).build.at? pair.1 = some pair.2) := by
  have keeps := keeps_ofPairs proper
  refine ⟨build_cases _, keeps.length_children, fun pair => keeps.at?_build, ?_⟩
  intro plain differ unspelled
  have once := nodup_namesOf plain differ unspelled
  constructor
  · rw [keeps.length_children, once.dedup, namesOf, List.length_map]
  · intro pair member
    apply keeps.at?_build member
    intro other among same
    exact congrArg Prod.snd (List.inj_on_of_nodup_map once among member same)

def assorted : List (Value × Value) :=
  [(.integer 2, .string (text "b")), (.bool true, .null), (.string (text "2.0"), .integer 7),
    (.integer (-1), .integer 7)]

theorem build_entries_assorted :
    (∀ pair ∈ assorted, pair.1.isNull = false) ∧
      (ofPairs assorted).build.children.length = 4 ∧
      (ofPairs assorted).build.at? (.bool true) = some .null ∧
      (ofPairs assorted).build.at? (.integer (-1)) = some (.integer 7) := by
  have proper : ∀ pair ∈ assorted, pair.1.isNull = false := by decide
  obtain ⟨_, _, _, kept⟩ := build_entries proper
  obtain ⟨count, found⟩ := kept (by decide) (by decide) (by decide +kernel)
  exact ⟨proper, count, found (.bool true, .null) (by decide),
    found (.integer (-1), .integer 7) (by decide)⟩

/-- A number and the string that spells it are different keys with one name; the value of the number
is lost. -/
theorem build_spelled :
    (.integer 0 : Value) ≠ .string (text "0") ∧
      (ofPairs [(.integer 0, .integer 1), (.string (text "0"), .integer 2)]).build =
        .object [(text "0", .integer 2)] ∧
      ¬∀ pairs : List (Value × Value), (∀ pair ∈ pairs, pair.1.isPlainKey = true) →
        (pairs.map Prod.fst).Nodup → (ofPairs pairs).build.children.length = pairs.length := by
  have lost : (ofPairs [(.integer 0, .integer 1), (.string (text "0"), .integer 2)]).build =
      .object [(text "0", .integer 2)] := by cbv
  refine ⟨by decide, lost, fun complete => ?_⟩
  have two := complete [(.integer 0, .integer 1), (.string (text "0"), .integer 2)] (by decide)
    (by decide)
  rw [lost] at two
  exact absurd two (by decide)

end TableDraft

end LuaAsset
