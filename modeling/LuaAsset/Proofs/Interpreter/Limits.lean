import LuaAsset.Proofs.Interpreter.Marshaller

/-! # Stack space and depth of marshalling

The stack grows once for each expanded table (`marshal_growths`).  The tables being expanded are
different tables of the heap (`Tracked`, preserved by every step), which bounds their number and the
nesting of the value (`marshal_bounded`). -/

set_option autoImplicit false

namespace LuaAsset

/-! ## Depth -/

namespace Value

mutual

def depth : Value → Nat
  | .array items => deepestItem items + 1
  | .object fields => deepestField fields + 1
  | _ => 0

def deepestItem : List Value → Nat
  | [] => 0
  | item :: rest => max item.depth (deepestItem rest)

def deepestField : List (Bytes × Value) → Nat
  | [] => 0
  | (_, value) :: rest => max value.depth (deepestField rest)

end

theorem deepestItem_le {items : List Value} {levels : Nat}
    (all : ∀ item ∈ items, item.depth ≤ levels) : deepestItem items ≤ levels := by
  induction items with
  | nil => exact Nat.zero_le _
  | cons item rest ih =>
      obtain ⟨first, later⟩ := List.forall_mem_cons.mp all
      exact Nat.max_le.mpr ⟨first, ih later⟩

theorem deepestField_le {fields : List (Bytes × Value)} {levels : Nat}
    (all : ∀ value ∈ fields.map Prod.snd, value.depth ≤ levels) :
    deepestField fields ≤ levels := by
  induction fields with
  | nil => exact Nat.zero_le _
  | cons field rest ih =>
      obtain ⟨first, later⟩ := List.forall_mem_cons.mp all
      exact Nat.max_le.mpr ⟨first, ih later⟩

theorem depth_le_succ {v : Value} {levels : Nat}
    (all : ∀ child ∈ v.children, child.depth ≤ levels) : v.depth ≤ levels + 1 := by
  cases v with
  | array items => exact Nat.succ_le_succ (deepestItem_le all)
  | object fields => exact Nat.succ_le_succ (deepestField_le all)
  | _ => exact Nat.zero_le _

end Value

namespace Interpreter

open StateTransition (Reaches)
open Marshaller (Ends start step)

/-! ## Growths -/

/-- Marshalling succeeds iff the stack may grow at least as often as tables are expanded, counting
repeats; the value is then the one for an unlimited stack. -/
theorem marshal_growths {heap : Heap} (proper : heap.WellFormed) {t : Thread} {index : Int}
    {root : Nat} (shown : t.cellAt (t.absolute index) = .table root) (n : Nat) :
    ∃ v, marshal heap index { t with growths := none } = .ok (v, { t with growths := none }) ∧
      (expansions heap [] (.table root) ≤ n →
        marshal heap index { t with growths := some n } =
          .ok (v, { t with growths := some (n - expansions heap [] (.table root)) })) ∧
      (n < expansions heap [] (.table root) →
        ∃ failure, marshal heap index { t with growths := some n } = .error failure ∧
          failure.kind = .fault) := by
  have unlimited := marshal_eq_charge proper (t := { t with growths := none }) shown
  have limited := marshal_eq_charge proper (t := { t with growths := some n }) shown
  refine ⟨unfold heap [] (.table root), unlimited, fun enough => ?_, fun short => ?_⟩
  · rw [limited]
    exact if_pos enough
  · refine ⟨.stackExhausted, ?_, rfl⟩
    rw [limited]
    exact if_neg (Nat.not_le_of_lt short)

theorem marshal_growths_ring :
    ring.WellFormed ∧ (between none).cellAt ((between none).absolute (-2)) = .table 0 ∧
      expansions ring [] (.table 0) = 3 ∧
      marshal ring (-2) (between none) = .ok (ringValue, between none) ∧
      marshal ring (-2) (between (some 4)) = .ok (ringValue, between (some 1)) ∧
      ∃ failure, marshal ring (-2) (between (some 2)) = .error failure ∧ failure.kind = .fault := by
  have proper : ring.WellFormed := by decide
  have root : (between none).cellAt ((between none).absolute (-2)) = .table 0 := by decide
  have count : expansions ring [] (.table 0) = 3 := by simp [expansions, ring, Heap.pairs]
  have marshalled : marshal ring (-2) (between none) = .ok (ringValue, between none) := by cbv
  obtain ⟨v, unlimited, enough, _⟩ := marshal_growths proper root 4
  obtain ⟨_, _, _, short⟩ := marshal_growths proper root 2
  obtain ⟨rfl, -⟩ := Prod.mk.inj (Except.ok.inj (marshalled.symm.trans unlimited))
  rw [count] at enough short
  exact ⟨proper, root, count, marshalled, enough (by decide), short (by decide)⟩

/-! ## Closed heaps -/

def Heap.has (heap : Heap) : Cell → Bool
  | .table place => place < heap.length
  | _ => true

/-- All tables among keys and values belong to the heap. -/
def Heap.Closed (heap : Heap) : Prop :=
  ∀ pairs ∈ heap, ∀ pair ∈ pairs, heap.has pair.1 = true ∧ heap.has pair.2 = true

instance (heap : Heap) : Decidable heap.Closed :=
  inferInstanceAs (Decidable (∀ pairs ∈ heap, _))

theorem Heap.Closed.has {heap : Heap} (closed : heap.Closed) (place : Nat) :
    ∀ pair ∈ heap.pairs place, heap.has pair.1 = true ∧ heap.has pair.2 = true := by
  intro pair member
  by_cases inside : place < heap.length
  · exact closed _ (pairs_mem inside) pair member
  · rw [pairs_outside inside] at member
    cases member

theorem depth_fieldValue (v : Value) : (fieldValue v).depth ≤ v.depth := by
  cases v with
  | float x =>
      rw [fieldValue]
      split <;> exact Nat.le_refl _
  | _ => exact Nat.le_refl _

/-- The value of a cell nests at most as deep as there are tables off the path. -/
theorem depth_unfold {heap : Heap} (closed : heap.Closed) (path : List Nat) (cell : Cell)
    (known : heap.has cell = true) : (unfold heap path cell).depth ≤ offPath heap path := by
  induction path, cell using unfold.induct heap with
  | case1 | case2 | case3 | case4 | case5 | case6 =>
      rw [unfold]
      exact Nat.zero_le _
  | case7 path place seen =>
      rw [unfold_open seen]
      exact Nat.zero_le _
  | case8 path place fresh inside keys values =>
      have fewer := offPath_cons_lt inside fresh
      rw [unfold_table fresh]
      refine (Value.depth_le_succ (TableDraft.Holds.build (TableDraft.holds_ofPairs _
        fun entry member => ?_))).trans fewer
      obtain ⟨pair, among, rfl⟩ := List.mem_map.mp member
      exact (depth_fieldValue _).trans (values pair (closed.has place pair among).2)
  | case9 path place fresh outside => exact absurd (of_decide_eq_true known) outside

/-! ## Tables in progress -/

namespace Marshaller

/-- The expansions in progress, the innermost first. -/
def expanding (m : Marshaller) : List Expansion :=
  (match m.stage with
    | .turn e => [e]
    | _ => []) ++ m.waits.map Wait.expansion

structure Tracked (heap : Heap) (base : List Cell) (m : Marshaller) : Prop where
  laidOn : LaidOn (fun cell => heap.has cell = true) base m
  visiting : m.visit.visiting = m.expanding.map Expansion.place
  apart : m.visit.visiting.Nodup
  inside : ∀ place ∈ m.visit.visiting, place < heap.length
  asked : ∀ index, m.stage = .convert index →
    heap.has (m.visit.thread.cellAt (m.visit.thread.absolute index)) = true

theorem tracked_start {heap : Heap} {index : Int} {t : Thread}
    (known : heap.has (t.cellAt (t.absolute index)) = true) :
    Tracked heap t.stack (start index t) where
  laidOn := laidOn_start _ index t
  visiting := rfl
  apart := List.nodup_nil
  inside := by simp [start]
  asked := by
    intro other same
    cases same
    exact known

theorem Moves.tracked {heap : Heap} (closed : heap.Closed) {base : List Cell} {m m' : Marshaller}
    (moves : Moves heap m m') (tracked : Tracked heap base m) : Tracked heap base m' := by
  have laidOn := moves.laidOn (P := fun cell => heap.has cell = true) rfl closed.has tracked.laidOn
  obtain ⟨_, visiting, apart, inside, asked⟩ := tracked
  cases moves with
  | plain | visited | exhausted => exact ⟨laidOn, visiting, apart, inside, by simp⟩
  | opened found fresh grown =>
      have known := asked _ rfl
      rw [found] at known
      refine ⟨laidOn, congrArg (List.cons _) visiting, List.nodup_cons.mpr ⟨fresh, apart⟩, ?_,
        by simp⟩
      exact List.forall_mem_cons.mpr ⟨of_decide_eq_true known, inside⟩
  | shown next =>
      refine ⟨laidOn, visiting, apart, inside, fun index same => ?_⟩
      cases same
      exact laidOn.top (by rw [laid, List.length_cons]; omega)
  | @closed e waits s thread next =>
      have first : s.visiting = e.place :: waits.map fun wait => wait.expansion.place := by
        rw [visiting]
        simp [expanding]
      have rest : s.visiting.erase e.place = waits.map fun wait => wait.expansion.place := by
        rw [first, List.erase_cons_head]
      have fewer : s.visiting.erase e.place ⊆ s.visiting := List.erase_subset
      refine ⟨laidOn, ?_, apart.erase e.place, fun place member => inside place (fewer member),
        by simp⟩
      rw [rest]
      simp [expanding]
  | valued =>
      refine ⟨laidOn, visiting, apart, inside, fun index same => ?_⟩
      cases same
      exact laidOn.second (by rw [laid, List.length_cons]; omega)
  | added => exact ⟨laidOn, visiting, apart, inside, by simp⟩

/-- At most as many expansions are in progress as there are tables. -/
theorem Tracked.length_le {heap : Heap} {base : List Cell} {m : Marshaller}
    (tracked : Tracked heap base m) : m.expanding.length ≤ heap.length := by
  have places : m.visit.visiting ⊆ List.range heap.length :=
    fun place member => List.mem_range.mpr (tracked.inside place member)
  calc m.expanding.length = m.visit.visiting.length := by rw [tracked.visiting, List.length_map]
    _ ≤ (List.range heap.length).length := (tracked.apart.subperm places).length_le
    _ = heap.length := List.length_range

end Marshaller

/-- In a heap of tables `marshal` terminates from every table, with at most as many expansions in
progress as there are tables.  With an unlimited stack it returns, and its value nests no deeper
than that number. -/
theorem marshal_bounded {heap : Heap} (proper : heap.WellFormed) (closed : heap.Closed) {t : Thread}
    {index : Int} {root : Nat} (shown : t.cellAt (t.absolute index) = .table root)
    (inside : root < heap.length) :
    Ends heap index t (marshal heap index t) ∧
      (∀ m, Reaches (step heap) (start index t) m → m.expanding.length ≤ heap.length) ∧
      (t.growths = none → ∃ v, marshal heap index t = .ok (v, t)) ∧
      ∀ v t', marshal heap index t = .ok (v, t') → v.depth ≤ heap.length := by
  have known : heap.has (.table root) = true := decide_eq_true inside
  refine ⟨Marshaller.ends_marshal proper shown, fun m reached => ?_, fun unlimited => ?_,
    fun v t' marshalled => ?_⟩
  · rw [← shown] at known
    exact (Marshaller.reaches_induction (Marshaller.Moves.tracked closed) reached
      (Marshaller.tracked_start known)).length_le
  · rw [marshal_eq_charge proper shown, Thread.charge_unlimited t unlimited]
    exact ⟨_, rfl⟩
  · rw [marshal_eq_charge proper shown] at marshalled
    obtain ⟨t'', same⟩ := Thread.charge_ok marshalled
    cases same
    rw [← offPath_nil heap]
    exact depth_unfold closed [] (.table root) known

theorem marshal_bounded_ring :
    ring.WellFormed ∧ ring.Closed ∧
      (between none).cellAt ((between none).absolute (-2)) = .table 0 ∧ 0 < ring.length ∧
      Ends ring (-2) (between none) (.ok (ringValue, between none)) ∧
      (∀ m, Reaches (step ring) (start (-2) (between none)) m → m.expanding.length ≤ 2) ∧
      ringValue.depth = 2 ∧ ringValue.depth ≤ ring.length := by
  have proper : ring.WellFormed := by decide
  have closed : ring.Closed := by decide
  have root : (between none).cellAt ((between none).absolute (-2)) = .table 0 := by decide
  have marshalled : marshal ring (-2) (between none) = .ok (ringValue, between none) := by cbv
  obtain ⟨ends, few, _, flat⟩ := marshal_bounded proper closed root (by decide)
  rw [marshalled] at ends
  exact ⟨proper, closed, root, by decide, ends, few, by decide, flat _ _ marshalled⟩

end Interpreter

end LuaAsset
