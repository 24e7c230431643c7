import LuaAsset.Proofs.Interpreter.Unfolding
import LuaAsset.Proofs.Table.Order

/-! # The order of enumeration

An interpreter enumerates the pairs of a table in an unspecified order.  With integers, strings and
booleans as keys, and no boolean beside the string that names it, `marshal` does not depend on the
order (`marshal_rearranged`); otherwise the value enumerated last is kept (`marshal_named_twice`).
-/

set_option autoImplicit false

namespace LuaAsset

namespace Interpreter

/-- The same tables with their pairs enumerated in another order. -/
def Heap.Rearranged (heap heap' : Heap) : Prop := List.Forall₂ List.Perm heap heap'

def Heap.KeysScalar (heap : Heap) : Prop := ∀ pairs ∈ heap, ∀ pair ∈ pairs, pair.1.isScalar = true

/-- No table has both a boolean and the string that names it as keys. -/
def Heap.NamesApart (heap : Heap) : Prop :=
  ∀ pairs ∈ heap, ∀ b, .bool b ∈ pairs.map Prod.fst →
    .string (Value.keyName (.bool b)) ∉ pairs.map Prod.fst

instance (heap : Heap) : Decidable heap.KeysScalar :=
  inferInstanceAs (Decidable (∀ pairs ∈ heap, _))

instance (heap : Heap) : Decidable heap.NamesApart :=
  inferInstanceAs (Decidable (∀ pairs ∈ heap, ∀ _ : Bool, _ → _))

namespace Heap.Rearranged

variable {heap heap' : Heap}

theorem length (same : heap.Rearranged heap') : heap.length = heap'.length :=
  List.Forall₂.length_eq same

theorem pairs (same : heap.Rearranged heap') (place : Nat) :
    (heap.pairs place).Perm (heap'.pairs place) := by
  induction same generalizing place with
  | nil => rfl
  | cons first _ ih =>
      cases place with
      | zero => exact first
      | succ place => exact ih place

theorem wellFormed (same : heap.Rearranged heap') (proper : heap.WellFormed) :
    heap'.WellFormed := by
  induction same with
  | nil => exact fun pairs member => absurd member List.not_mem_nil
  | cons first _ ih =>
      obtain ⟨⟨some_, differ⟩, later⟩ := List.forall_mem_cons.mp proper
      have keys := first.map Prod.fst
      refine List.forall_mem_cons.mpr ⟨⟨?_, ?_⟩, ih later⟩
      · exact fun member => some_ (keys.mem_iff.mpr member)
      · exact keys.nodup_iff.mp differ

end Heap.Rearranged

/-! ## Scalars as keys -/

theorem isPlainKey_plainValue {cell : Cell} (scalar : cell.isScalar = true) :
    cell.plainValue.isPlainKey = true := by
  cases cell <;> first | rfl | cases scalar

theorem plainValue_injective {a b : Cell} (left : a.isScalar = true) (right : b.isScalar = true)
    (same : a.plainValue = b.plainValue) : a = b := by
  cases a <;> cases left <;> cases b <;> cases right <;> cases same <;> rfl

theorem keys_unfoldPairs (heap : Heap) (path : List Nat) {pairs : List (Cell × Cell)}
    (scalars : ∀ pair ∈ pairs, pair.1.isScalar = true) :
    (unfoldPairs heap path pairs).map Prod.fst = (pairs.map Prod.fst).map Cell.plainValue := by
  rw [unfoldPairs, List.map_map, List.map_map]
  exact List.map_congr_left fun pair member => (unfold_scalar heap path (scalars pair member)).1

theorem namesApart_map {keys : List Cell} (scalars : ∀ key ∈ keys, key.isScalar = true)
    (apart : ∀ b, .bool b ∈ keys → .string (Value.keyName (.bool b)) ∉ keys) :
    Value.NamesApart (keys.map Cell.plainValue) := by
  intro b bool name
  obtain ⟨key, member, same⟩ := List.mem_map.mp bool
  obtain ⟨key', member', same'⟩ := List.mem_map.mp name
  obtain rfl : key = .bool b := plainValue_injective (scalars key member) rfl same
  obtain rfl : key' = .string (Value.keyName (.bool b)) :=
    plainValue_injective (scalars key' member') rfl same'
  exact apart b member member'

/-! ## Unfoldings -/

theorem build_rearranged {heap heap' : Heap} {path : List Nat} {pairs pairs' : List (Cell × Cell)}
    (perm : pairs.Perm pairs') (scalars : ∀ pair ∈ pairs, pair.1.isScalar = true)
    (differ : (pairs.map Prod.fst).Nodup)
    (apart : ∀ b, .bool b ∈ pairs.map Prod.fst →
      .string (Value.keyName (.bool b)) ∉ pairs.map Prod.fst)
    (same : ∀ cell, unfold heap path cell = unfold heap' path cell) :
    (TableDraft.ofPairs (unfoldPairs heap path pairs)).build =
      (TableDraft.ofPairs (unfoldPairs heap' path pairs')).build := by
  have keys := keys_unfoldPairs heap path scalars
  have scalarKeys : ∀ key ∈ pairs.map Prod.fst, key.isScalar = true := by
    intro key member
    obtain ⟨pair, among, rfl⟩ := List.mem_map.mp member
    exact scalars pair among
  have other : unfoldPairs heap' path pairs' = unfoldPairs heap path pairs' := by
    rw [unfoldPairs, unfoldPairs]
    exact List.map_congr_left fun pair _ => by rw [same, same]
  rw [other]
  refine TableDraft.build_ofPairs_perm (perm.map _) (fun entry member => ?_) ?_ ?_
  · obtain ⟨pair, among, rfl⟩ := List.mem_map.mp member
    dsimp only
    rw [(unfold_scalar heap path (scalars pair among)).1]
    exact isPlainKey_plainValue (scalars pair among)
  · rw [keys]
    exact differ.map_on fun a left b right =>
      plainValue_injective (scalarKeys a left) (scalarKeys b right)
  · rw [keys]
    exact namesApart_map scalarKeys apart

theorem expansionsOf_rearranged {heap heap' : Heap} {path : List Nat}
    {pairs pairs' : List (Cell × Cell)} (perm : pairs.Perm pairs')
    (same : ∀ cell, expansions heap path cell = expansions heap' path cell) :
    expansionsOf heap path pairs = expansionsOf heap' path pairs' := by
  have counts : (fun pair : Cell × Cell =>
        expansions heap path pair.2 + expansions heap path pair.1) =
      fun pair => expansions heap' path pair.2 + expansions heap' path pair.1 := by
    funext pair
    rw [same, same]
  rw [expansionsOf, expansionsOf, counts]
  exact (perm.map _).foldr_eq 0

/-- A cell has the same unfolding, and the same number of expansions, in both heaps. -/
theorem unfold_rearranged {heap heap' : Heap} (same : heap.Rearranged heap')
    (proper : heap.WellFormed) (scalars : heap.KeysScalar) (apart : heap.NamesApart)
    (path : List Nat) (cell : Cell) :
    unfold heap path cell = unfold heap' path cell ∧
      expansions heap path cell = expansions heap' path cell := by
  induction path, cell using unfold.induct heap with
  | case1 | case2 | case3 | case4 | case5 | case6 =>
      rw [unfold, unfold, expansions, expansions]
      all_goals simp
  | case7 path place seen =>
      rw [unfold_open seen, unfold_open seen, expansions_open seen, expansions_open seen]
      exact ⟨rfl, rfl⟩
  | case8 path place fresh inside cells _ =>
      have member := pairs_mem inside
      rw [unfold_table fresh, unfold_table fresh, expansions_table fresh, expansions_table fresh]
      constructor
      · exact build_rearranged (same.pairs place) (scalars _ member) (proper _ member).2
          (apart _ member) fun cell => (cells (cell, cell)).1
      · exact congrArg (1 + ·)
          (expansionsOf_rearranged (same.pairs place) fun cell => (cells (cell, cell)).2)
  | case9 path place fresh outside =>
      have outside' : ¬place < heap'.length := same.length ▸ outside
      rw [unfold_table fresh, unfold_table fresh, expansions_table fresh, expansions_table fresh,
        pairs_outside outside, pairs_outside outside']
      exact ⟨rfl, rfl⟩

/-! ## Marshalling -/

/-- The result of `marshal` does not depend on the order in which tables enumerate their pairs, on
any stack and under any limit. -/
theorem marshal_rearranged {heap heap' : Heap} (same : heap.Rearranged heap')
    (proper : heap.WellFormed) (scalars : heap.KeysScalar) (apart : heap.NamesApart)
    (index : Int) (t : Thread) : marshal heap index t = marshal heap' index t := by
  cases shown : t.cellAt (t.absolute index) with
  | table root =>
      obtain ⟨value, count⟩ := unfold_rearranged same proper scalars apart [] (.table root)
      rw [marshal_eq_charge proper shown, marshal_eq_charge (same.wellFormed proper) shown, value,
        count]
  | _ => simp only [marshal, expandWithin, shown]

def shelf : Heap :=
  [[(.integer 1, .table 1), (.string (text "1"), .table 0), (.bool true, .float ⟨0⟩)],
    [(.integer 2, .bool false), (.integer 1, .string (text "a"))]]

def shelfTurned : Heap :=
  [[(.bool true, .float ⟨0⟩), (.string (text "1"), .table 0), (.integer 1, .table 1)],
    [(.integer 1, .string (text "a")), (.integer 2, .bool false)]]

theorem marshal_rearranged_shelf :
    shelf.Rearranged shelfTurned ∧ shelf.WellFormed ∧ shelf.KeysScalar ∧ shelf.NamesApart ∧
      marshal shelf (-1) onTop = marshal shelfTurned (-1) onTop ∧
      marshal shelfTurned (-1) onTop =
        .ok (.object [(text "1", .null), (text "true", .float ⟨0⟩)], onTop) := by
  have same : shelf.Rearranged shelfTurned :=
    .cons (by decide) (.cons (by decide) .nil)
  have proper : shelf.WellFormed := by decide
  have scalars : shelf.KeysScalar := by decide
  have apart : shelf.NamesApart := by decide
  refine ⟨same, proper, scalars, apart, marshal_rearranged same proper scalars apart (-1) onTop, ?_⟩
  cbv

/-- A table with a boolean and the string that names it as keys: the value enumerated last is kept.
-/
theorem marshal_named_twice :
    Heap.Rearranged [[(.bool true, .integer 1), (.string (text "true"), .integer 2)]]
        [[(.string (text "true"), .integer 2), (.bool true, .integer 1)]] ∧
      Heap.WellFormed [[(.bool true, .integer 1), (.string (text "true"), .integer 2)]] ∧
      Heap.KeysScalar [[(.bool true, .integer 1), (.string (text "true"), .integer 2)]] ∧
      marshal [[(.bool true, .integer 1), (.string (text "true"), .integer 2)]] (-1) onTop =
        .ok (.object [(text "true", .integer 2)], onTop) ∧
      marshal [[(.string (text "true"), .integer 2), (.bool true, .integer 1)]] (-1) onTop =
        .ok (.object [(text "true", .integer 1)], onTop) :=
  ⟨.cons (by decide) .nil, by decide, by decide, by cbv, by cbv⟩

end Interpreter

end LuaAsset
