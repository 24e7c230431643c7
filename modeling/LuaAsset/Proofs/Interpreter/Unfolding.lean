import Mathlib
import LuaAsset.Interpreter.Marshal
import LuaAsset.Proofs.Table.Contents

/-! # Tables unfolded along their paths

`unfold` is the specification of `marshal` without stack and visited set: a table on the path from
the root is `null`, any other one is built from its pairs.  `expandWithin_eq` relates the two: the
visited tables are the path, the key for the next pair is on top of the stack, and the stack grows
once per expansion. -/

set_option autoImplicit false

namespace LuaAsset

namespace Interpreter

/-- No key is `nil`, and the keys of each table differ. -/
def Heap.WellFormed (heap : Heap) : Prop :=
  ∀ pairs ∈ heap, .nil ∉ pairs.map Prod.fst ∧ (pairs.map Prod.fst).Nodup

instance (heap : Heap) : Decidable heap.WellFormed :=
  inferInstanceAs (Decidable (∀ pairs ∈ heap, _))

/-! ## The unfolding -/

def offPath (heap : Heap) (path : List Nat) : Nat :=
  (List.range heap.length).countP fun place => place ∉ path

theorem offPath_nil (heap : Heap) : offPath heap [] = heap.length := by
  simp [offPath]

theorem offPath_nil_lt (heap : Heap) : offPath heap [] < heap.length + 1 := by
  rw [offPath_nil]
  exact Nat.lt_succ_self _

theorem offPath_cons_lt {heap : Heap} {path : List Nat} {place : Nat}
    (inside : place < heap.length) (fresh : place ∉ path) :
    offPath heap (place :: path) < offPath heap path := by
  have member : place ∈ (List.range heap.length).filter fun place => place ∉ path := by
    simp [inside, fresh]
  have fewer : (List.range heap.length).filter (fun other => other ∉ place :: path) =
      ((List.range heap.length).filter fun other => other ∉ path).filter (· ≠ place) := by
    rw [List.filter_filter]
    congr 1
    funext other
    simp
  rw [offPath, offPath, List.countP_eq_length_filter, List.countP_eq_length_filter, fewer]
  exact List.length_filter_lt_length_iff_exists.mpr ⟨place, member, by simp⟩

/-- The value of a cell while the tables of a path are open.  A table outside the heap is empty. -/
def unfold (heap : Heap) (path : List Nat) : Cell → Value
  | .nil => .null
  | .bool b => .bool b
  | .integer n => .integer n
  | .float x => .float x
  | .string s => .string s
  | .other _ _ => .null
  | .table place =>
      if _seen : place ∈ path then .null
      else if _inside : place < heap.length then
        let entries := (heap.pairs place).map fun pair =>
          (unfold heap (place :: path) pair.1, fieldValue (unfold heap (place :: path) pair.2))
        (TableDraft.ofPairs (entries.filter fun entry => !entry.1.isNull)).build
      else .object []
termination_by offPath heap path
decreasing_by all_goals exact offPath_cons_lt ‹_› ‹_›

/-- The number of expanded tables, with repeats. -/
def expansions (heap : Heap) (path : List Nat) : Cell → Nat
  | .table place =>
      if _seen : place ∈ path then 0
      else if _inside : place < heap.length then
        1 + ((heap.pairs place).map fun pair =>
          expansions heap (place :: path) pair.2 + expansions heap (place :: path) pair.1).foldr
            (· + ·) 0
      else 1
  | _ => 0
termination_by offPath heap path
decreasing_by all_goals exact offPath_cons_lt ‹_› ‹_›

def unfoldPairs (heap : Heap) (path : List Nat) (pairs : List (Cell × Cell)) :
    List (Value × Value) :=
  pairs.map fun pair => (unfold heap path pair.1, fieldValue (unfold heap path pair.2))

def expansionsOf (heap : Heap) (path : List Nat) (pairs : List (Cell × Cell)) : Nat :=
  (pairs.map fun pair => expansions heap path pair.2 + expansions heap path pair.1).foldr (· + ·) 0

theorem pairs_outside {heap : Heap} {place : Nat} (outside : ¬place < heap.length) :
    heap.pairs place = [] := by
  rw [Heap.pairs, List.getD_eq_getElem?_getD, List.getElem?_eq_none (Nat.le_of_not_lt outside)]
  rfl

theorem pairs_mem {heap : Heap} {place : Nat} (inside : place < heap.length) :
    heap.pairs place ∈ heap := by
  rw [Heap.pairs, List.getD_eq_getElem?_getD, List.getElem?_eq_getElem inside]
  exact List.getElem_mem inside

theorem unfold_open {heap : Heap} {path : List Nat} {place : Nat} (seen : place ∈ path) :
    unfold heap path (.table place) = .null := by
  rw [unfold, dif_pos seen]

theorem unfold_table {heap : Heap} {path : List Nat} {place : Nat} (fresh : place ∉ path) :
    unfold heap path (.table place) =
      (TableDraft.ofPairs (unfoldPairs heap (place :: path) (heap.pairs place))).build := by
  rw [unfold, dif_neg fresh]
  by_cases inside : place < heap.length
  · rw [dif_pos inside]
    exact congrArg TableDraft.build (TableDraft.ofPairs_filter _)
  · rw [dif_neg inside, pairs_outside inside]
    exact TableDraft.build_empty.symm

theorem expansions_open {heap : Heap} {path : List Nat} {place : Nat} (seen : place ∈ path) :
    expansions heap path (.table place) = 0 := by
  rw [expansions, dif_pos seen]

theorem expansions_table {heap : Heap} {path : List Nat} {place : Nat} (fresh : place ∉ path) :
    expansions heap path (.table place) =
      1 + expansionsOf heap (place :: path) (heap.pairs place) := by
  rw [expansions, dif_neg fresh]
  by_cases inside : place < heap.length
  · rw [dif_pos inside]
    rfl
  · rw [dif_neg inside, pairs_outside inside]
    rfl

theorem expansionsOf_nil (heap : Heap) (path : List Nat) : expansionsOf heap path [] = 0 := rfl

theorem expansionsOf_cons (heap : Heap) (path : List Nat) (key value : Cell)
    (rest : List (Cell × Cell)) :
    expansionsOf heap path ((key, value) :: rest) =
      expansions heap path value + (expansions heap path key + expansionsOf heap path rest) := by
  rw [expansionsOf, List.map_cons, List.foldr_cons, Nat.add_assoc]
  rfl

theorem unfold_plain (heap : Heap) (path : List Nat) (cell : Cell)
    (plain : ∀ place, cell ≠ .table place) :
    unfold heap path cell = cell.plainValue ∧ expansions heap path cell = 0 := by
  cases cell with
  | table place => exact absurd rfl (plain place)
  | _ =>
      constructor
      · rw [unfold, Cell.plainValue]
      · rw [expansions]
        exact plain

def Cell.isScalar : Cell → Bool
  | .bool _ | .integer _ | .string _ => true
  | _ => false

theorem unfold_scalar (heap : Heap) (path : List Nat) {cell : Cell}
    (scalar : cell.isScalar = true) :
    unfold heap path cell = cell.plainValue ∧ expansions heap path cell = 0 := by
  refine unfold_plain heap path cell fun place same => ?_
  rw [same] at scalar
  cases scalar

/-! ## The stack -/

namespace Thread

/-- A number of growths of the stack, followed by work on it. -/
def charge {α : Type} (t : Thread) (growths : Nat) (work : Thread → Except Failure α) :
    Except Failure α :=
  match t.growths with
  | none => work t
  | some n =>
      if growths ≤ n then work { t with growths := some (n - growths) }
      else .error .stackExhausted

variable {α β : Type}

theorem charge_unlimited (t : Thread) (unlimited : t.growths = none) (growths : Nat)
    (work : Thread → Except Failure α) : t.charge growths work = work t := by
  rw [charge, unlimited]

theorem charge_zero (t : Thread) (work : Thread → Except Failure α) : t.charge 0 work = work t := by
  obtain ⟨stack, growths⟩ := t
  cases growths with
  | none => rfl
  | some n => rfl

theorem charge_add (t : Thread) (first second : Nat) (work : Thread → Except Failure α) :
    t.charge (first + second) work = t.charge first fun t => t.charge second work := by
  obtain ⟨stack, growths⟩ := t
  cases growths with
  | none => rfl
  | some n =>
      simp only [charge]
      by_cases enough : first ≤ n
      · rw [if_pos enough]
        by_cases both : first + second ≤ n
        · rw [if_pos both, if_pos (by omega), Nat.sub_sub]
        · rw [if_neg both, if_neg (by omega)]
      · rw [if_neg enough, if_neg (by omega)]

theorem charge_push (t : Thread) (cell : Cell) (growths : Nat) (work : Thread → Except Failure α) :
    (t.push cell).charge growths work = t.charge growths fun t => work (t.push cell) := by
  obtain ⟨stack, left⟩ := t
  cases left with
  | none => rfl
  | some n => rfl

theorem charge_one (t : Thread) (work : Thread → Except Failure α) :
    (match t.grow? with
      | none => .error .stackExhausted
      | some t => work t) = t.charge 1 work := by
  obtain ⟨stack, growths⟩ := t
  cases growths with
  | none => rfl
  | some n => cases n with
    | zero => rfl
    | succ n => simp [grow?, charge]

theorem charge_bind (t : Thread) (growths : Nat) (made : Thread → α)
    (more : α → Except Failure β) :
    (t.charge growths fun t => .ok (made t)) >>= more =
      t.charge growths fun t => more (made t) := by
  obtain ⟨stack, left⟩ := t
  cases left with
  | none => rfl
  | some n =>
      simp only [charge]
      by_cases enough : growths ≤ n
      · rw [if_pos enough, if_pos enough]
        rfl
      · rw [if_neg enough, if_neg enough]
        rfl

/-- Successful work under `charge` is the work on the same stack after the growths. -/
theorem charge_ok {t : Thread} {growths : Nat} {made : Thread → α} {result : α}
    (success : (t.charge growths fun t => .ok (made t)) = .ok result) :
    ∃ t', result = made t' := by
  obtain ⟨stack, left⟩ := t
  cases left with
  | none => exact ⟨_, (Except.ok.inj success).symm⟩
  | some n =>
      rw [charge] at success
      dsimp only at success
      split at success
      · exact ⟨_, (Except.ok.inj success).symm⟩
      · cases success

theorem charge_congr (t : Thread) (growths : Nat) {work other : Thread → Except Failure α}
    (same : ∀ t' : Thread, t'.stack = t.stack → work t' = other t') :
    t.charge growths work = t.charge growths other := by
  obtain ⟨stack, left⟩ := t
  cases left with
  | none => exact same _ rfl
  | some n =>
      simp only [charge]
      by_cases enough : growths ≤ n
      · rw [if_pos enough, if_pos enough]
        exact same _ rfl
      · rw [if_neg enough, if_neg enough]

theorem cellAt_push {t : Thread} {index place : Nat} (root : t.cellAt index = .table place)
    (cell : Cell) : (t.push cell).cellAt index = .table place := by
  have inside : index - 1 < t.stack.reverse.length := by
    apply Nat.lt_of_not_le
    intro outside
    rw [cellAt, List.getD_eq_getElem?_getD, List.getElem?_eq_none outside] at root
    cases root
  rw [← root, cellAt, cellAt, push, List.reverse_cons, List.getD_eq_getElem?_getD,
    List.getD_eq_getElem?_getD, List.getElem?_append_left inside]

theorem cellAt_congr {t t' : Thread} (same : t'.stack = t.stack) (index : Nat) :
    t'.cellAt index = t.cellAt index := by
  rw [cellAt, cellAt, same]

theorem cellAt_top (t : Thread) (cell : Cell) :
    (t.push cell).cellAt ((t.push cell).absolute (-1)) = cell := by
  have top : (t.push cell).absolute (-1) = t.stack.length + 1 := by
    rw [absolute, if_neg (by decide), push, List.length_cons]
    omega
  rw [top]
  simp [cellAt, push]

theorem cellAt_second (t : Thread) (below above : Cell) :
    ((t.push below).push above).cellAt (((t.push below).push above).absolute (-2)) = below := by
  have second : ((t.push below).push above).absolute (-2) = t.stack.length + 1 := by
    rw [absolute, if_neg (by decide), push, push, List.length_cons, List.length_cons]
    omega
  rw [second]
  simp [cellAt, push]

theorem pop_push (t : Thread) (cell : Cell) : (t.push cell).pop 1 = t := rfl

end Thread

/-! ## The next pair -/

theorem Thread.next_push {heap : Heap} {t : Thread} {index place : Nat}
    (root : t.cellAt index = .table place) (key : Cell) :
    (t.push key).next heap index =
      match following (heap.pairs place) key with
      | (key, value) :: _ => (true, (t.push key).push value)
      | [] => (false, t) := by
  rw [next, cellAt_push root]
  rfl

theorem following_suffix (pairs : List (Cell × Cell)) (key : Cell) :
    following pairs key <:+ pairs := by
  rw [following]
  split
  · exact List.suffix_refl _
  · exact (List.drop_suffix 1 _).trans (List.dropWhile_suffix _)

theorem following_key {pairs rest : List (Cell × Cell)} {before key value : Cell}
    (proper : .nil ∉ pairs.map Prod.fst) (differ : (pairs.map Prod.fst).Nodup)
    (shown : following pairs before = (key, value) :: rest) : following pairs key = rest := by
  obtain ⟨done, rfl⟩ : (key, value) :: rest <:+ pairs := by
    rw [← shown]
    exact following_suffix pairs before
  have some_ : key ≠ .nil := by
    rintro rfl
    exact proper (by simp)
  have earlier : ∀ pair ∈ done, decide (pair.1 ≠ key) = true := by
    intro pair member
    rw [List.map_append, List.map_cons] at differ
    have apart := (List.nodup_append.mp differ).2.2
    exact decide_eq_true (apart pair.1 (List.mem_map_of_mem member) key List.mem_cons_self)
  rw [following, if_neg some_, List.dropWhile_append_of_pos earlier, List.dropWhile_cons_of_neg
    (by simp)]
  rfl

/-! ## The walk -/

/-- The result for a cell on a thread whose visited tables are those of a path. -/
def worth (heap : Heap) (t : Thread) (path : List Nat) (cell : Cell) :
    Except Failure (Value × Visit) :=
  t.charge (expansions heap path cell) fun t => .ok (unfold heap path cell, ⟨t, path⟩)

def ExpandsOn (heap : Heap) (path : List Nat) (expand : Expander) : Prop :=
  ∀ (index : Int) (t : Thread) (place : Nat), t.cellAt (t.absolute index) = .table place →
    expand index ⟨t, path⟩ = worth heap t path (.table place)

theorem convert_eq {heap : Heap} {path : List Nat} {expand : Expander}
    (expands : ExpandsOn heap path expand) (index : Int) (t : Thread) :
    convert expand index ⟨t, path⟩ = worth heap t path (t.cellAt (t.absolute index)) := by
  rw [convert]
  dsimp only
  cases found : t.cellAt (t.absolute index) with
  | table place => exact expands index t place found
  | _ =>
      rw [worth, (unfold_plain heap path _ (by simp)).1, (unfold_plain heap path _ (by simp)).2,
        Thread.charge_zero]

theorem walk_behind {heap : Heap} {expand : Expander} {index place : Nat} {t : Thread}
    (root : t.cellAt index = .table place) (key : Cell) (path : List Nat) (rounds : Nat)
    (draft : TableDraft) (last : following (heap.pairs place) key = []) :
    walk heap expand index (rounds + 1) draft ⟨t.push key, path⟩ = .ok (draft, ⟨t, path⟩) := by
  rw [walk]
  dsimp only
  rw [Thread.next_push root, last]

/-- Loop lemma: a walk at a key converts each remaining pair with the key below the value, and the
key is on top again when the next pair is requested. -/
theorem walk_eq {heap : Heap} {path : List Nat} {expand : Expander} {index place : Nat}
    (expands : ExpandsOn heap path expand)
    (proper : .nil ∉ (heap.pairs place).map Prod.fst)
    (differ : ((heap.pairs place).map Prod.fst).Nodup) (todo : List (Cell × Cell)) :
    ∀ (key : Cell) (draft : TableDraft) (t : Thread), t.cellAt index = .table place →
      following (heap.pairs place) key = todo →
      walk heap expand index (todo.length + 1) draft ⟨t.push key, path⟩ =
        t.charge (expansionsOf heap path todo) fun t =>
          .ok ((unfoldPairs heap path todo).foldl (fun d pair => d.add pair.1 pair.2) draft,
            ⟨t, path⟩) := by
  induction todo with
  | nil =>
      intro key draft t root shown
      rw [List.length_nil, walk_behind root key path 0 draft shown, expansionsOf_nil,
        Thread.charge_zero]
      rfl
  | cons pair rest ih =>
      obtain ⟨newKey, value⟩ := pair
      intro key draft t root shown
      have later := following_key proper differ shown
      rw [List.length_cons, walk]
      dsimp only
      rw [Thread.next_push root, shown]
      dsimp only
      -- first the value, on top of the stack
      rw [convert_eq expands, Thread.cellAt_top, worth, Thread.charge_bind, Thread.charge_push,
        Thread.charge_push, expansionsOf_cons, Thread.charge_add]
      refine Thread.charge_congr t _ fun t₁ same₁ => ?_
      dsimp only
      -- then the key below it
      rw [convert_eq expands, Thread.cellAt_second, worth, Thread.charge_bind, Thread.charge_push,
        Thread.charge_push, Thread.charge_add]
      refine Thread.charge_congr t₁ _ fun t₂ same₂ => ?_
      have still : t₂.cellAt index = .table place := by
        rw [Thread.cellAt_congr (same₂.trans same₁), root]
      dsimp only
      rw [Thread.pop_push, ih newKey _ t₂ still later]
      rfl

/-- With more levels than tables off the path, expanding a table gives its `worth` on that path and
restores the visited tables. -/
theorem expandWithin_eq {heap : Heap} (proper : heap.WellFormed) (levels : Nat) :
    ∀ path, offPath heap path < levels → ExpandsOn heap path (expandWithin heap levels) := by
  induction levels with
  | zero =>
      intro path few
      exact absurd few (Nat.not_lt_zero _)
  | succ levels ih =>
      intro path few index t place root
      rw [expandWithin]
      dsimp only
      rw [root]
      dsimp only
      by_cases seen : place ∈ path
      · rw [if_pos seen, worth, unfold_open seen, expansions_open seen, Thread.charge_zero]
      · rw [if_neg seen, worth, unfold_table seen, expansions_table seen, Thread.charge_add]
        refine (Thread.charge_one t _).trans (Thread.charge_congr t _ fun t₁ same => ?_)
        have still : t₁.cellAt (t.absolute index) = .table place := by
          rw [Thread.cellAt_congr same, root]
        by_cases inside : place < heap.length
        · have member := pairs_mem inside
          -- the walk is one level down, on a path that leaves one table fewer
          have fewer := offPath_cons_lt inside seen
          rw [walk_eq (ih (place :: path) (by omega)) (proper _ member).1 (proper _ member).2
            (heap.pairs place) .nil .empty t₁ still rfl, Thread.charge_bind]
          simp only [List.erase_cons_head]
          rfl
        · have empty := pairs_outside inside
          rw [walk_behind still .nil (place :: path) _ .empty (by rw [empty]; rfl), empty,
            expansionsOf_nil, Thread.charge_zero]
          simp only [Bind.bind, Except.bind, List.erase_cons_head]
          rfl

/-! ## Floats -/

def FloatsFinite (v : Value) : Prop :=
  ∀ x, Value.Occurs (.float x) v → x.isFinite = true

theorem floatsFinite_of_children {v : Value} (parts : ∀ child ∈ v.children, FloatsFinite child)
    (self : ∀ x, v = .float x → x.isFinite = true) : FloatsFinite v := by
  intro x occurs
  cases occurs with
  | self => exact self x rfl
  | inside member within => exact parts _ member x within

theorem floatsFinite_fieldValue {v : Value} (leaf : v.children = []) :
    FloatsFinite (fieldValue v) := by
  cases v with
  | float x =>
      rw [fieldValue]
      split
      · rename_i finite
        exact floatsFinite_of_children (by simp [Value.children]) fun y same => by
          cases same
          exact finite
      · exact floatsFinite_of_children (by simp [Value.children]) (by simp)
  | _ => exact floatsFinite_of_children (by simp [fieldValue, leaf]) (by simp [fieldValue])

theorem floatsFinite_build {t : TableDraft} (holds : t.Holds FloatsFinite) :
    FloatsFinite t.build := by
  refine floatsFinite_of_children holds.build fun x same => ?_
  rw [TableDraft.build] at same
  split at same <;> cases same

theorem fieldValue_unfold_table (heap : Heap) (path : List Nat) (place : Nat) :
    fieldValue (unfold heap path (.table place)) = unfold heap path (.table place) := by
  by_cases seen : place ∈ path
  · rw [unfold_open seen]
    rfl
  · rw [unfold_table seen, TableDraft.build]
    split <;> rfl

theorem floatsFinite_unfold (heap : Heap) (path : List Nat) (cell : Cell) :
    FloatsFinite (fieldValue (unfold heap path cell)) := by
  induction path, cell using unfold.induct heap with
  | case1 | case2 | case3 | case4 | case5 | case6 =>
      rw [unfold]
      exact floatsFinite_fieldValue rfl
  | case7 path place seen =>
      rw [unfold_open seen]
      exact floatsFinite_fieldValue rfl
  | case8 path place fresh _ _ values =>
      rw [fieldValue_unfold_table, unfold_table fresh]
      refine floatsFinite_build (TableDraft.holds_ofPairs _ fun entry member => ?_)
      obtain ⟨pair, _, rfl⟩ := List.mem_map.mp member
      exact values pair
  | case9 path place fresh outside =>
      rw [fieldValue_unfold_table, unfold_table fresh, pairs_outside outside]
      exact floatsFinite_build (TableDraft.holds_empty _)

/-! ## Marshalling -/

/-- Equation of `marshal`: the unfolding from the root, after as many growths as tables are
expanded. -/
theorem marshal_eq_charge {heap : Heap} (proper : heap.WellFormed) {t : Thread} {index : Int}
    {root : Nat} (shown : t.cellAt (t.absolute index) = .table root) :
    marshal heap index t = t.charge (expansions heap [] (.table root)) fun t =>
      .ok (unfold heap [] (.table root), t) := by
  rw [marshal, expandWithin_eq proper _ [] (offPath_nil_lt heap) index t root shown, worth]
  obtain ⟨stack, growths⟩ := t
  cases growths with
  | none => rfl
  | some n =>
      simp only [Thread.charge]
      by_cases enough : expansions heap [] (.table root) ≤ n
      · rw [if_pos enough, if_pos enough]
      · rw [if_neg enough, if_neg enough]

/-- On a stack that may grow, `marshal` gives the unfolding of the table from the root, with no
float that is not finite, and leaves the stack as it was. -/
theorem marshal_eq_unfold {heap : Heap} (proper : heap.WellFormed) {t : Thread} {index : Int}
    {root : Nat} (unlimited : t.growths = none)
    (shown : t.cellAt (t.absolute index) = .table root) :
    marshal heap index t = .ok (unfold heap [] (.table root), t) ∧
      FloatsFinite (unfold heap [] (.table root)) := by
  constructor
  · have few : offPath heap [] < heap.length + 1 := by
      rw [offPath_nil]
      exact Nat.lt_succ_self _
    rw [marshal, expandWithin_eq proper _ [] few index t root shown, worth,
      Thread.charge_unlimited t unlimited]
  · rw [← fieldValue_unfold_table]
    exact floatsFinite_unfold heap [] (.table root)

def knot : Heap :=
  [[(.integer 1, .table 1), (.integer 2, .table 1), (.string (text "self"), .table 0),
      (.table 1, .bool true), (.table 0, .bool false), (.other 6, .integer 5),
      (.string (text "huge"), .float ⟨0x7ff0000000000000⟩)],
    [(.integer 1, .integer 7), (.integer 2, .float ⟨0x3ff8000000000000⟩), (.integer 3, .table 0),
      (.integer 4, .other 6 1)]]

def knotted : Value := .array [.integer 7, .float ⟨0x3ff8000000000000⟩, .null, .null]

def onTop : Thread := ⟨[.table 0, .nil], none⟩

theorem marshal_eq_unfold_knot :
    knot.WellFormed ∧ onTop.growths = none ∧ onTop.cellAt (onTop.absolute (-1)) = .table 0 ∧
      unfold knot [] (.table 0) = .object
        [(text "1", knotted), (text "2", knotted), (text "[7,1.5,null,null]", .bool true),
          (text "huge", .null), (text "self", .null)] ∧
      FloatsFinite (unfold knot [] (.table 0)) := by
  have proper : knot.WellFormed := by decide
  have root : onTop.cellAt (onTop.absolute (-1)) = .table 0 := by decide
  obtain ⟨marshalled, finite⟩ := marshal_eq_unfold proper rfl root
  refine ⟨proper, rfl, root, ?_, finite⟩
  have walked : marshal knot (-1) onTop = .ok (.object
      [(text "1", knotted), (text "2", knotted), (text "[7,1.5,null,null]", .bool true),
        (text "huge", .null), (text "self", .null)], onTop) := by
    cbv
  exact congrArg Prod.fst (Except.ok.inj (marshalled.symm.trans walked))

end Interpreter

end LuaAsset
