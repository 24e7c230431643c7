import LuaAsset.Proofs.Table.Contents
import LuaAsset.Proofs.Table.Sorting
import Mathlib.Data.List.Nodup
import Mathlib.Data.List.Perm.Basic

/-! # Independence of the order of pairs

If the keys are integers, strings and booleans without repetition, and no boolean is beside the
string that names it, the built table does not depend on the order of the pairs
(`build_ofPairs_perm`): positions commute, and the sort of the other pairs has no ties. -/

set_option autoImplicit false

namespace LuaAsset

/-! ## The order of keys -/

theorem bytesLt_iff : ∀ s t : Bytes, bytesLt s t = true ↔ s < t
  | _, [] => by simp [bytesLt]
  | [], _ :: _ => by simp [bytesLt]
  | a :: s, b :: t => by simp [bytesLt, List.cons_lt_cons_iff, bytesLt_iff s t]

theorem bytesLt_eq_false_iff (s t : Bytes) : bytesLt s t = false ↔ t ≤ s := by
  rw [← Bool.not_eq_true, bytesLt_iff, List.not_lt]

namespace Value

variable {a b c : Value}

/-- The order of keys over an order of numbers: numbers before names, names by their bytes. -/
def keyOrder (number : Value → Value → Bool) (a b : Value) : Bool :=
  if a.isNumber && b.isNumber then number a b
  else if a.isNumber != b.isNumber then a.isNumber
  else bytesLt a.keyName b.keyName

section

variable {number : Value → Value → Bool}

theorem keyOrder_numbers (left : a.isNumber = true) (right : b.isNumber = true) :
    keyOrder number a b = number a b := by
  simp [keyOrder, left, right]

theorem keyOrder_names (left : a.isNumber = false) (right : b.isNumber = false) :
    keyOrder number a b = bytesLt a.keyName b.keyName := by
  simp [keyOrder, left, right]

theorem keyOrder_mixed (kinds : a.isNumber ≠ b.isNumber) : keyOrder number a b = a.isNumber := by
  cases left : a.isNumber <;> cases right : b.isNumber <;> simp_all [keyOrder]

theorem weakOrderOn_keyOrder {P : Value → Prop}
    (order : WeakOrderOn (fun k => P k ∧ k.isNumber = true) number) :
    WeakOrderOn P (keyOrder number) where
  asymm {a b} inA inB before := by
    by_cases kinds : a.isNumber = b.isNumber
    · cases right : b.isNumber with
      | true =>
          have left := kinds.trans right
          rw [keyOrder_numbers left right] at before
          rw [keyOrder_numbers right left]
          exact order.asymm ⟨inA, left⟩ ⟨inB, right⟩ before
      | false =>
          have left := kinds.trans right
          rw [keyOrder_names left right, bytesLt_iff] at before
          rw [keyOrder_names right left, bytesLt_eq_false_iff]
          exact List.le_of_lt before
    · rw [keyOrder_mixed kinds] at before
      rw [keyOrder_mixed (Ne.symm kinds)]
      exact Bool.eq_false_iff.mpr fun right => kinds (before.trans right.symm)
  trans {a b c} inA inB inC first second := by
    cases kindA : a.isNumber <;> cases kindB : b.isNumber <;> cases kindC : c.isNumber
    · rw [keyOrder_names kindB kindA, bytesLt_eq_false_iff] at first
      rw [keyOrder_names kindC kindB, bytesLt_eq_false_iff] at second
      rw [keyOrder_names kindC kindA, bytesLt_eq_false_iff]
      exact List.le_trans first second
    · rw [keyOrder_mixed (by simp [kindB, kindC]), kindC] at second
      cases second
    · rw [keyOrder_mixed (by simp [kindA, kindB]), kindB] at first
      cases first
    · rw [keyOrder_mixed (by simp [kindA, kindB]), kindB] at first
      cases first
    · rw [keyOrder_mixed (by simp [kindA, kindC]), kindC]
    · rw [keyOrder_mixed (by simp [kindB, kindC]), kindC] at second
      cases second
    · rw [keyOrder_mixed (by simp [kindA, kindC]), kindC]
    · rw [keyOrder_numbers kindB kindA] at first
      rw [keyOrder_numbers kindC kindB] at second
      rw [keyOrder_numbers kindC kindA]
      exact order.trans ⟨inA, kindA⟩ ⟨inB, kindB⟩ ⟨inC, kindC⟩ first second

theorem keyOrder_tied (before : keyOrder number a b = false) (after : keyOrder number b a = false) :
    (a.isNumber = true ∧ b.isNumber = true ∧ number a b = false ∧ number b a = false) ∨
      (a.isNumber = false ∧ b.isNumber = false ∧ a.keyName = b.keyName) := by
  by_cases kinds : a.isNumber = b.isNumber
  · cases right : b.isNumber with
    | true =>
        have left := kinds.trans right
        rw [keyOrder_numbers left right] at before
        rw [keyOrder_numbers right left] at after
        exact .inl ⟨left, rfl, before, after⟩
    | false =>
        have left := kinds.trans right
        rw [keyOrder_names left right, bytesLt_eq_false_iff] at before
        rw [keyOrder_names right left, bytesLt_eq_false_iff] at after
        exact .inr ⟨left, rfl, List.le_antisymm after before⟩
  · rw [keyOrder_mixed kinds] at before
    rw [keyOrder_mixed (Ne.symm kinds)] at after
    exact absurd (before.trans after.symm) kinds

end

def numberLt (a b : Value) : Bool :=
  if a.isFloat || b.isFloat then a.nearestFloat.lt b.nearestFloat else a.signedBits < b.signedBits

theorem keyLt_eq_keyOrder : keyLt = keyOrder numberLt := rfl

theorem numberLt_exact (exactLeft : a.isFloat = false) (exactRight : b.isFloat = false) :
    numberLt a b = decide (a.signedBits < b.signedBits) := by
  simp [numberLt, exactLeft, exactRight]

/-- On keys that are no floats `keyLt` is a strict weak order. -/
theorem weakOrderOn_keyLt : WeakOrderOn (fun k : Value => k.isFloat = false) keyLt := by
  rw [keyLt_eq_keyOrder]
  refine weakOrderOn_keyOrder
    ⟨fun {a b} inA inB before => ?_, fun {a b c} inA inB inC first second => ?_⟩
  · rw [numberLt_exact inA.1 inB.1, decide_eq_true_eq] at before
    rw [numberLt_exact inB.1 inA.1, decide_eq_false_iff_not]
    exact Int64.lt_asymm before
  · rw [numberLt_exact inB.1 inA.1, decide_eq_false_iff_not] at first
    rw [numberLt_exact inC.1 inB.1, decide_eq_false_iff_not] at second
    rw [numberLt_exact inC.1 inA.1, decide_eq_false_iff_not]
    exact Int64.not_lt.mpr (Int64.le_trans (Int64.not_lt.mp first) (Int64.not_lt.mp second))

theorem keyLt_tied (exactLeft : a.isFloat = false) (exactRight : b.isFloat = false)
    (before : a.keyLt b = false) (after : b.keyLt a = false) :
    (a.isNumber = true ∧ b.isNumber = true ∧ a.signedBits = b.signedBits) ∨
      (a.isNumber = false ∧ b.isNumber = false ∧ a.keyName = b.keyName) := by
  rw [keyLt_eq_keyOrder] at before after
  obtain ⟨left, right, before, after⟩ | names := keyOrder_tied before after
  · rw [numberLt_exact exactLeft exactRight, decide_eq_false_iff_not] at before
    rw [numberLt_exact exactRight exactLeft, decide_eq_false_iff_not] at after
    exact .inl ⟨left, right, Int64.le_antisymm (Int64.not_lt.mp after) (Int64.not_lt.mp before)⟩
  · exact .inr names

/-- Keys that differ only if their values differ. -/
def isPlainKey : Value → Bool
  | .integer _ | .string _ | .bool _ => true
  | _ => false

theorem isPlainKey_cases (plain : a.isPlainKey = true) :
    (∃ n, a = .integer n) ∨ (∃ s, a = .string s) ∨ ∃ x, a = .bool x := by
  cases a with
  | integer n => exact .inl ⟨n, rfl⟩
  | string s => exact .inr (.inl ⟨s, rfl⟩)
  | bool x => exact .inr (.inr ⟨x, rfl⟩)
  | _ => cases plain

theorem isFloat_of_isPlainKey (plain : a.isPlainKey = true) : a.isFloat = false := by
  obtain ⟨n, rfl⟩ | ⟨s, rfl⟩ | ⟨x, rfl⟩ := isPlainKey_cases plain <;> rfl

/-- No boolean occurs among the keys together with the string that names it. -/
def NamesApart (keys : List Value) : Prop :=
  ∀ b : Bool, .bool b ∈ keys → .string (keyName (.bool b)) ∉ keys

theorem eq_of_tied {keys : List Value} (apart : NamesApart keys) (left : a ∈ keys)
    (right : b ∈ keys) (plainLeft : a.isPlainKey = true) (plainRight : b.isPlainKey = true)
    (before : a.keyLt b = false) (after : b.keyLt a = false) : a = b := by
  have words : text "true" ≠ text "false" := by decide
  obtain ⟨kindA, kindB, bits⟩ | ⟨kindA, kindB, names⟩ := keyLt_tied
    (isFloat_of_isPlainKey plainLeft) (isFloat_of_isPlainKey plainRight) before after
  · obtain ⟨m, rfl⟩ | ⟨s, rfl⟩ | ⟨x, rfl⟩ := isPlainKey_cases plainLeft
    · obtain ⟨n, rfl⟩ | ⟨t, rfl⟩ | ⟨y, rfl⟩ := isPlainKey_cases plainRight
      · exact congrArg Value.integer bits
      · cases kindB
      · cases kindB
    · cases kindA
    · cases kindA
  · obtain ⟨m, rfl⟩ | ⟨s, rfl⟩ | ⟨x, rfl⟩ := isPlainKey_cases plainLeft
    · cases kindA
    · obtain ⟨n, rfl⟩ | ⟨t, rfl⟩ | ⟨y, rfl⟩ := isPlainKey_cases plainRight
      · cases kindB
      · exact congrArg Value.string names
      · rw [show keyName (.string s) = s from rfl] at names
        exact absurd (names ▸ left) (apart y right)
    · obtain ⟨n, rfl⟩ | ⟨t, rfl⟩ | ⟨y, rfl⟩ := isPlainKey_cases plainRight
      · cases kindB
      · rw [show keyName (.string t) = t from rfl] at names
        exact absurd (names ▸ right) (apart x left)
      · cases x <;> cases y
        · rfl
        · exact absurd names words.symm
        · exact absurd names words
        · rfl

end Value

/-! ## Positions -/

theorem place_eq_cons {α : Type} {i : Nat} (v : α) {positions : List (Nat × α)}
    (first : ∀ p ∈ positions.head?, i < p.1) : place i v positions = (i, v) :: positions := by
  cases positions with
  | nil => rfl
  | cons p rest => exact if_pos (first p rfl)

theorem place_place_of_lt {α : Type} {i j : Nat} (before : i < j) (v w : α)
    (positions : List (Nat × α)) :
    place i v (place j w positions) = place j w (place i v positions) := by
  have behind : ¬j < i := Nat.not_lt.mpr (Nat.le_of_lt before)
  have other : j ≠ i := Nat.ne_of_gt before
  induction positions with
  | nil => simp [place, before, behind, other]
  | cons first rest ih =>
      obtain ⟨k, u⟩ := first
      obtain below | rfl | above := Nat.lt_trichotomy i k
      · have front : place i v ((k, u) :: rest) = (i, v) :: (k, u) :: rest :=
          place_eq_cons v (by simpa using below)
        have past : place j w ((i, v) :: (k, u) :: rest) =
            (i, v) :: place j w ((k, u) :: rest) := by
          rw [place, if_neg behind, if_neg other]
        rw [front, past]
        refine place_eq_cons v ?_
        rw [place]
        split
        · simpa using before
        · split
          · simpa using before
          · simpa using below
      · simp [place, behind, other]
      · have past : ¬i < k ∧ i ≠ k ∧ ¬j < k ∧ j ≠ k := by omega
        simp [place, past, ih]

theorem place_comm {α : Type} {i j : Nat} (differ : i ≠ j) (v w : α)
    (positions : List (Nat × α)) :
    place i v (place j w positions) = place j w (place i v positions) := by
  obtain before | after := Nat.lt_or_gt_of_ne differ
  · exact place_place_of_lt before v w positions
  · exact (place_place_of_lt after w v positions).symm

theorem place_perm {α : Type} {i : Nat} (v : α) {positions : List (Nat × α)}
    (fresh : i ∉ positions.map Prod.fst) : (place i v positions).Perm ((i, v) :: positions) := by
  induction positions with
  | nil => rfl
  | cons first rest ih =>
      obtain ⟨k, u⟩ := first
      obtain ⟨other, freshLater⟩ := List.ne_and_not_mem_of_not_mem_cons fresh
      have apart : i ≠ k := other
      rw [place, if_neg apart]
      split
      · rfl
      · exact ((ih freshLater).cons (k, u)).trans (.swap (i, v) (k, u) rest)

/-- The values that a table can have as keys, with integers of the signed kind. -/
def Value.IsKey : Value → Prop
  | .null | .natural _ => False
  | _ => True

theorem Value.isKey_of_isPlainKey {k : Value} (plain : k.isPlainKey = true) : k.IsKey := by
  obtain ⟨n, rfl⟩ | ⟨s, rfl⟩ | ⟨x, rfl⟩ := Value.isPlainKey_cases plain <;> exact trivial

theorem Value.IsKey.isNull {k : Value} (key : k.IsKey) : k.isNull = false := by
  cases k with
  | null => exact key.elim
  | _ => rfl

theorem Value.IsKey.eq_of_position? {k : Value} (key : k.IsKey) {i : Nat}
    (found : k.position? = some i) : k = .integer (Int64.ofNat i) := by
  cases k with
  | integer n =>
      rw [Value.position?] at found
      split at found
      · rename_i positive
        obtain rfl := Option.some.inj found
        have same : Int64.ofNat n.toInt.toNat = n := by
          rw [← Int64.ofInt_eq_ofNat, Int.toNat_of_nonneg (by omega), Int64.ofInt_toInt]
        rw [same]
      · cases found
  | natural n => exact key.elim
  | _ => cases found

namespace TableDraft

/-! ## Drafts -/

/-- All pairs of a draft, with the positions as integer keys. -/
def held (t : TableDraft) : List (Value × Value) :=
  t.positional.map (fun p => (.integer (Int64.ofNat p.1), p.2)) ++ t.keyed

theorem add_of_position {k : Value} (v : Value) {i : Nat} (found : k.position? = some i)
    (t : TableDraft) : t.add k v = { t with positional := place i v t.positional } := by
  have proper : k.isNull = false := by
    cases k with
    | null => cases found
    | _ => rfl
  rw [add, proper, if_neg Bool.false_ne_true, found]

theorem add_of_name {k : Value} (v : Value) (proper : k.isNull = false)
    (named : k.position? = none) (t : TableDraft) :
    t.add k v = { t with keyed := t.keyed ++ [(k, v)] } := by
  rw [add, proper, if_neg Bool.false_ne_true, named]

theorem held_add {t : TableDraft} {k : Value} (v : Value) (key : k.IsKey)
    (fresh : k ∉ t.held.map Prod.fst) : (t.add k v).held.Perm ((k, v) :: t.held) := by
  cases found : k.position? with
  | none =>
      rw [add_of_name v key.isNull found, held, held, ← List.append_assoc]
      exact List.perm_append_singleton (k, v) _
  | some i =>
      have same := key.eq_of_position? found
      have free : i ∉ t.positional.map Prod.fst := by
        intro taken
        obtain ⟨p, member, rfl⟩ := List.mem_map.mp taken
        refine fresh ?_
        rw [same, held, List.map_append, List.map_map]
        exact List.mem_append_left _ (List.mem_map.mpr ⟨p, member, rfl⟩)
      rw [add_of_position v found, held, held]
      have written := ((place_perm v free).map
        fun p : Nat × Value => (Value.integer (Int64.ofNat p.1), p.2)).append_right t.keyed
      rw [same]
      exact written

theorem held_addAll (pairs : List (Value × Value)) : ∀ t : TableDraft,
    (∀ pair ∈ pairs, pair.1.IsKey) → ((t.held ++ pairs).map Prod.fst).Nodup →
    (pairs.foldl (fun t pair => t.add pair.1 pair.2) t).held.Perm (t.held ++ pairs) := by
  induction pairs with
  | nil =>
      intro t _ _
      rw [List.append_nil]
      rfl
  | cons pair pairs ih =>
      intro t keys differ
      obtain ⟨first, more⟩ := List.forall_mem_cons.mp keys
      have moved : (t.held ++ pair :: pairs).Perm (pair :: (t.held ++ pairs)) := List.perm_middle
      have apart := (moved.map Prod.fst).nodup_iff.mp differ
      have fresh : pair.1 ∉ t.held.map Prod.fst := by
        intro taken
        refine (List.nodup_cons.mp apart).1 ?_
        rw [List.map_append]
        exact List.mem_append_left _ taken
      have step := (held_add pair.2 first fresh).append_right pairs
      have stillApart := (step.map Prod.fst).nodup_iff.mpr apart
      exact (ih _ more stillApart).trans (step.trans moved.symm)

theorem held_ofPairs {pairs : List (Value × Value)}
    (keys : ∀ pair ∈ pairs, pair.1.IsKey) (differ : (pairs.map Prod.fst).Nodup) :
    (ofPairs pairs).held.Perm pairs :=
  held_addAll pairs empty keys (by simpa [held, empty] using differ)

structure Rearranged (t u : TableDraft) : Prop where
  positional : t.positional = u.positional
  keyed : t.keyed.Perm u.keyed

theorem Rearranged.trans {t u v : TableDraft} (first : Rearranged t u) (second : Rearranged u v) :
    Rearranged t v where
  positional := first.positional.trans second.positional
  keyed := first.keyed.trans second.keyed

theorem Rearranged.add {t u : TableDraft} (same : Rearranged t u) (k v : Value) :
    Rearranged (t.add k v) (u.add k v) := by
  rw [TableDraft.add, TableDraft.add]
  split
  · exact same
  · split
    · exact ⟨congrArg (place _ v) same.positional, same.keyed⟩
    · exact ⟨same.positional, same.keyed.append_right _⟩

theorem Rearranged.addAll (pairs : List (Value × Value)) : ∀ {t u : TableDraft}, Rearranged t u →
    Rearranged (pairs.foldl (fun t pair => t.add pair.1 pair.2) t)
      (pairs.foldl (fun t pair => t.add pair.1 pair.2) u) := by
  induction pairs with
  | nil => exact id
  | cons pair pairs ih => exact fun same => ih (same.add pair.1 pair.2)

theorem rearranged_add_add {j k : Value} (keyFirst : j.IsKey) (keySecond : k.IsKey)
    (differ : j ≠ k) (v w : Value) (t : TableDraft) :
    Rearranged ((t.add j v).add k w) ((t.add k w).add j v) := by
  have proper := keyFirst.isNull
  have proper' := keySecond.isNull
  cases first : j.position? with
  | none =>
      cases second : k.position? with
      | none =>
          simp only [add_of_name _ proper first, add_of_name _ proper' second, List.append_assoc]
          exact ⟨rfl, (List.Perm.swap _ _ []).append_left t.keyed⟩
      | some i =>
          simp only [add_of_name _ proper first, add_of_position _ second]
          exact ⟨rfl, .refl _⟩
  | some i =>
      cases second : k.position? with
      | none =>
          simp only [add_of_position _ first, add_of_name _ proper' second]
          exact ⟨rfl, .refl _⟩
      | some i' =>
          have apart : i' ≠ i := by
            rintro rfl
            exact differ ((keyFirst.eq_of_position? first).trans
              (keySecond.eq_of_position? second).symm)
          simp only [add_of_position _ first, add_of_position _ second]
          exact ⟨place_comm apart w v t.positional, .refl _⟩

theorem rearranged_of_perm {pairs pairs' : List (Value × Value)} (perm : pairs.Perm pairs') :
    (∀ pair ∈ pairs, pair.1.IsKey) → (pairs.map Prod.fst).Nodup → ∀ t : TableDraft,
    Rearranged (pairs.foldl (fun t pair => t.add pair.1 pair.2) t)
      (pairs'.foldl (fun t pair => t.add pair.1 pair.2) t) := by
  induction perm with
  | nil => exact fun _ _ t => ⟨rfl, .refl _⟩
  | cons pair _ ih =>
      intro keys differ t
      exact ih (List.forall_mem_cons.mp keys).2 (List.nodup_cons.mp differ).2 _
  | swap second first rest =>
      intro keys differ t
      obtain ⟨keyFirst, more⟩ := List.forall_mem_cons.mp keys
      obtain ⟨keySecond, _⟩ := List.forall_mem_cons.mp more
      have apart : first.1 ≠ second.1 := fun same =>
        (List.nodup_cons.mp differ).1 (same ▸ List.mem_cons_self)
      exact Rearranged.addAll rest (rearranged_add_add keyFirst keySecond apart _ _ t)
  | trans first _ ih ih' =>
      intro keys differ t
      exact (ih keys differ t).trans
        (ih' (fun pair member => keys pair (first.mem_iff.mpr member))
          ((first.map Prod.fst).nodup_iff.mp differ) t)

theorem rearranged_ofPairs {pairs pairs' : List (Value × Value)} (perm : pairs.Perm pairs')
    (keys : ∀ pair ∈ pairs, pair.1.IsKey) (differ : (pairs.map Prod.fst).Nodup) :
    Rearranged (ofPairs pairs) (ofPairs pairs') :=
  rearranged_of_perm perm keys differ empty

theorem Rearranged.held {t u : TableDraft} (same : Rearranged t u) : t.held.Perm u.held := by
  rw [TableDraft.held, TableDraft.held, same.positional]
  exact same.keyed.append_left _

/-- Drafts with the same sorted entries build the same table. -/
theorem Rearranged.build {t u : TableDraft} (same : Rearranged t u)
    (entries : t.entries = u.entries) : t.build = u.build := by
  have shape : t.isArray = u.isArray := by
    rw [isArray, isArray, same.positional, same.keyed.isEmpty_eq]
  rw [TableDraft.build, TableDraft.build, shape, same.positional, fields, fields, entries]

theorem weakOrderOn_entries : WeakOrderOn (fun pair : Value × Value => pair.1.isFloat = false)
    fun a b => a.1.keyLt b.1 where
  asymm := Value.weakOrderOn_keyLt.asymm
  trans := Value.weakOrderOn_keyLt.trans

theorem build_ofPairs_perm {pairs pairs' : List (Value × Value)} (perm : pairs.Perm pairs')
    (plain : ∀ pair ∈ pairs, pair.1.isPlainKey = true) (differ : (pairs.map Prod.fst).Nodup)
    (apart : Value.NamesApart (pairs.map Prod.fst)) :
    (ofPairs pairs).build = (ofPairs pairs').build := by
  have isKey : ∀ pair ∈ pairs, pair.1.IsKey := fun pair member =>
    Value.isKey_of_isPlainKey (plain pair member)
  have rearranged := rearranged_ofPairs perm isKey differ
  have holds := held_ofPairs isKey differ
  have keys := (holds.map Prod.fst).nodup_iff.mpr differ
  -- No two of the pairs are tied, so there is only one way to sort them.
  refine rearranged.build (stableSort_eq_of_perm weakOrderOn_entries rearranged.held ?_ ?_)
  · exact fun pair member => Value.isFloat_of_isPlainKey (plain pair (holds.mem_iff.mp member))
  · intro a left b right before after
    have leftKey := List.mem_map_of_mem (f := Prod.fst) (holds.mem_iff.mp left)
    have rightKey := List.mem_map_of_mem (f := Prod.fst) (holds.mem_iff.mp right)
    have same := Value.eq_of_tied apart leftKey rightKey (plain a (holds.mem_iff.mp left))
      (plain b (holds.mem_iff.mp right)) before after
    exact List.inj_on_of_nodup_map keys left right same

end TableDraft

end LuaAsset
