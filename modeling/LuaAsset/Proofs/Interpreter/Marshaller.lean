import Mathlib.Computability.StateTransition
import LuaAsset.Proofs.Interpreter.Unfolding

/-! # Marshalling as a step machine

`Marshaller.step` performs one stack operation at a time, without a bound on rounds or levels;
`Ends` relates a start to its outcome, and agrees with `marshal` on heaps of tables (`ends_iff`).
`Moves` is the inversion of a step, from which the stack discipline follows (`Moves.laidOn`). -/

set_option autoImplicit false

namespace LuaAsset

namespace Interpreter

open StateTransition (Reaches)

namespace Thread

theorem stack_of_grow? {t t' : Thread} (grown : t.grow? = some t') : t'.stack = t.stack := by
  obtain ⟨stack, growths⟩ := t
  match growths with
  | none | some (n + 1) => rw [← Option.some.inj grown]
  | some 0 => cases grown

theorem next_shown {heap : Heap} {t t' : Thread} {index : Nat}
    (next : t.next heap index = (true, t')) :
    ∃ place key value, (key, value) ∈ heap.pairs place ∧
      t' = ((t.pop 1).push key).push value := by
  rw [Thread.next] at next
  split at next
  · rename_i place _
    split at next
    · rename_i key value rest shown
      have suffix := following_suffix (heap.pairs place) (t.stack.headD .nil)
      rw [shown] at suffix
      exact ⟨place, key, value, suffix.mem List.mem_cons_self, (congrArg Prod.snd next).symm⟩
    · cases next
  · cases next

theorem next_behind {heap : Heap} {t t' : Thread} {index : Nat}
    (next : t.next heap index = (false, t')) : t' = t.pop 1 := by
  rw [Thread.next] at next
  split at next
  · split at next
    · cases next
    · exact (congrArg Prod.snd next).symm
  · exact (congrArg Prod.snd next).symm

end Thread

structure Expansion where
  index : Nat
  place : Nat
  draft : TableDraft

/-- What an expansion waits for while a pair is on the stack: the value of the pair, or its key once
the value is converted. -/
inductive Wait where
  | value (e : Expansion)
  | key (e : Expansion) (v : Value)

def Wait.expansion : Wait → Expansion
  | .value e => e
  | .key e _ => e

inductive Stage where
  | convert (index : Int)
  | turn (e : Expansion)
  | answer (v : Value)
  | fail (failure : Failure)

structure Marshaller where
  stage : Stage
  waits : List Wait
  visit : Visit

namespace Marshaller

/-! ## Steps -/

/-- The conversion of the cell at an index: a table is expanded unless it is being visited. -/
def converted (index : Int) (waits : List Wait) (s : Visit) : Marshaller :=
  match s.thread.cellAt (s.thread.absolute index) with
  | .table place =>
      if place ∈ s.visiting then ⟨.answer .null, waits, s⟩
      else match s.thread.grow? with
        | none => ⟨.fail .stackExhausted, waits, s⟩
        | some thread =>
            ⟨.turn ⟨s.thread.absolute index, place, .empty⟩, waits,
              ⟨thread.push .nil, place :: s.visiting⟩⟩
  | cell => ⟨.answer cell.plainValue, waits, s⟩

def turned (heap : Heap) (e : Expansion) (waits : List Wait) (s : Visit) : Marshaller :=
  match s.thread.next heap e.index with
  | (true, thread) => ⟨.convert (-1), .value e :: waits, { s with thread := thread }⟩
  | (false, thread) => ⟨.answer e.draft.build, waits, ⟨thread, s.visiting.erase e.place⟩⟩

def step (heap : Heap) : Marshaller → Option Marshaller
  | ⟨.convert index, waits, s⟩ => some (converted index waits s)
  | ⟨.turn e, waits, s⟩ => some (turned heap e waits s)
  | ⟨.answer v, .value e :: waits, s⟩ => some ⟨.convert (-2), .key e v :: waits, s⟩
  | ⟨.answer key, .key e v :: waits, s⟩ =>
      some ⟨.turn { e with draft := e.draft.add key (fieldValue v) }, waits,
        { s with thread := s.thread.pop 1 }⟩
  | ⟨.answer _, [], _⟩ | ⟨.fail _, _, _⟩ => none

def outcome? : Marshaller → Option (Except Failure (Value × Thread))
  | ⟨.answer v, [], s⟩ => some (.ok (v, s.thread))
  | ⟨.fail failure, _, _⟩ => some (.error failure)
  | _ => none

theorem eq_of_outcome? {m : Marshaller} {v : Value} {t : Thread}
    (outcome : m.outcome? = some (.ok (v, t))) :
    m.stage = .answer v ∧ m.waits = [] ∧ m.visit.thread = t := by
  obtain ⟨stage, waits, s⟩ := m
  cases stage with
  | answer w =>
      cases waits with
      | nil =>
          cases outcome
          exact ⟨rfl, rfl, rfl⟩
      | cons wait waits => cases outcome
  | convert index | turn e | fail failure => cases outcome

def start (index : Int) (t : Thread) : Marshaller := ⟨.convert index, [], ⟨t, []⟩⟩

/-- Marshalling from an index of a stack terminates with an outcome. -/
def Ends (heap : Heap) (index : Int) (t : Thread)
    (outcome : Except Failure (Value × Thread)) : Prop :=
  ∃ last ∈ StateTransition.eval (step heap) (start index t), last.outcome? = some outcome

theorem Ends.unique {heap : Heap} {index : Int} {t : Thread}
    {first second : Except Failure (Value × Thread)} (one : Ends heap index t first)
    (other : Ends heap index t second) : first = second := by
  obtain ⟨last, ends, outcome⟩ := one
  obtain ⟨last', ends', outcome'⟩ := other
  rw [Part.mem_unique ends ends', outcome'] at outcome
  exact (Option.some.inj outcome).symm

/-! ## Inversion of a step -/

inductive Moves (heap : Heap) : Marshaller → Marshaller → Prop
  | plain {index : Int} {waits : List Wait} {s : Visit}
      (other : ∀ place, s.thread.cellAt (s.thread.absolute index) ≠ .table place) :
      Moves heap ⟨.convert index, waits, s⟩
        ⟨.answer (s.thread.cellAt (s.thread.absolute index)).plainValue, waits, s⟩
  | visited {index : Int} {waits : List Wait} {s : Visit} {place : Nat}
      (found : s.thread.cellAt (s.thread.absolute index) = .table place)
      (seen : place ∈ s.visiting) :
      Moves heap ⟨.convert index, waits, s⟩ ⟨.answer .null, waits, s⟩
  | exhausted {index : Int} {waits : List Wait} {s : Visit} {place : Nat}
      (found : s.thread.cellAt (s.thread.absolute index) = .table place)
      (fresh : place ∉ s.visiting) (full : s.thread.grow? = none) :
      Moves heap ⟨.convert index, waits, s⟩ ⟨.fail .stackExhausted, waits, s⟩
  | opened {index : Int} {waits : List Wait} {s : Visit} {place : Nat} {thread : Thread}
      (found : s.thread.cellAt (s.thread.absolute index) = .table place)
      (fresh : place ∉ s.visiting) (grown : s.thread.grow? = some thread) :
      Moves heap ⟨.convert index, waits, s⟩
        ⟨.turn ⟨s.thread.absolute index, place, .empty⟩, waits,
          ⟨thread.push .nil, place :: s.visiting⟩⟩
  | shown {e : Expansion} {waits : List Wait} {s : Visit} {thread : Thread}
      (next : s.thread.next heap e.index = (true, thread)) :
      Moves heap ⟨.turn e, waits, s⟩
        ⟨.convert (-1), .value e :: waits, { s with thread := thread }⟩
  | closed {e : Expansion} {waits : List Wait} {s : Visit} {thread : Thread}
      (next : s.thread.next heap e.index = (false, thread)) :
      Moves heap ⟨.turn e, waits, s⟩
        ⟨.answer e.draft.build, waits, ⟨thread, s.visiting.erase e.place⟩⟩
  | valued {e : Expansion} {v : Value} {waits : List Wait} {s : Visit} :
      Moves heap ⟨.answer v, .value e :: waits, s⟩ ⟨.convert (-2), .key e v :: waits, s⟩
  | added {e : Expansion} {key v : Value} {waits : List Wait} {s : Visit} :
      Moves heap ⟨.answer key, .key e v :: waits, s⟩
        ⟨.turn { e with draft := e.draft.add key (fieldValue v) }, waits,
          { s with thread := s.thread.pop 1 }⟩

theorem moves_converted (heap : Heap) (index : Int) (waits : List Wait) (s : Visit) :
    Moves heap ⟨.convert index, waits, s⟩ (converted index waits s) := by
  rw [converted]
  split
  · rename_i place found
    split
    · rename_i seen
      exact .visited found seen
    · rename_i fresh
      split
      · rename_i full
        exact .exhausted found fresh full
      · rename_i thread grown
        exact .opened found fresh grown
  · rename_i other
    exact .plain other

theorem moves_turned (heap : Heap) (e : Expansion) (waits : List Wait) (s : Visit) :
    Moves heap ⟨.turn e, waits, s⟩ (turned heap e waits s) := by
  rw [turned]
  split
  · rename_i thread next
    exact .shown next
  · rename_i thread next
    exact .closed next

theorem moves_of_step {heap : Heap} {m m' : Marshaller} (stepped : m' ∈ step heap m) :
    Moves heap m m' := by
  obtain ⟨stage, waits, s⟩ := m
  cases stage with
  | convert index =>
      rw [← Option.some.inj stepped]
      exact moves_converted heap index waits s
  | turn e =>
      rw [← Option.some.inj stepped]
      exact moves_turned heap e waits s
  | answer v =>
      cases waits with
      | nil => cases stepped
      | cons wait waits =>
          cases wait with
          | value e =>
              rw [← Option.some.inj stepped]
              exact .valued
          | key e value =>
              rw [← Option.some.inj stepped]
              exact .added
  | fail failure => cases stepped

theorem Moves.step {heap : Heap} {m m' : Marshaller} (moves : Moves heap m m') :
    m' ∈ step heap m := by
  cases moves with
  | plain other =>
      rw [Marshaller.step, converted]
      split
      · rename_i place found
        exact absurd found (other place)
      · rfl
  | visited found seen => simp only [Marshaller.step, converted, found, if_pos seen, Option.mem_def]
  | exhausted found fresh full =>
      simp only [Marshaller.step, converted, found, if_neg fresh, full, Option.mem_def]
  | opened found fresh grown =>
      simp only [Marshaller.step, converted, found, if_neg fresh, grown, Option.mem_def]
  | shown next | closed next => simp only [Marshaller.step, turned, next, Option.mem_def]
  | valued | added => rfl

theorem reaches_induction {heap : Heap} {P : Marshaller → Prop} {m m' : Marshaller}
    (keeps : ∀ {m m'}, Moves heap m m' → P m → P m') (reached : Reaches (step heap) m m')
    (holds : P m) : P m' := by
  induction reached with
  | refl => exact holds
  | tail _ stepped ih => exact keeps (moves_of_step stepped) ih

/-! ## Runs -/

/-- The step machine reaches the answer of an expander: the same value for the waiting expansion, or
the same failure. -/
def Comes (heap : Heap) (m : Marshaller) (waits : List Wait) :
    Except Failure (Value × Visit) → Prop
  | .ok (v, s) => Reaches (step heap) m ⟨.answer v, waits, s⟩
  | .error failure => ∃ inner s, Reaches (step heap) m ⟨.fail failure, inner, s⟩

variable {heap : Heap} {m m' : Marshaller} {waits inner : List Wait} {t : Thread}

theorem Comes.after {answer : Except Failure (Value × Visit)} (moves : Moves heap m m')
    (comes : Comes heap m' waits answer) : Comes heap m waits answer := by
  cases answer with
  | ok answered => exact .head moves.step comes
  | error failure =>
      obtain ⟨inner, s, reached⟩ := comes
      exact ⟨inner, s, .head moves.step reached⟩

theorem Comes.bind {growths : Nat} {made : Thread → Value × Visit}
    {more : Thread → Except Failure (Value × Visit)}
    (first : Comes heap m inner (t.charge growths fun t => .ok (made t)))
    (behind : ∀ t', t'.stack = t.stack →
      Comes heap ⟨.answer (made t').1, inner, (made t').2⟩ waits (more t')) :
    Comes heap m waits (t.charge growths more) := by
  have joined : ∀ t', t'.stack = t.stack →
      Reaches (step heap) m ⟨.answer (made t').1, inner, (made t').2⟩ →
      Comes heap m waits (more t') := by
    intro t' same reached
    have later := behind t' same
    generalize more t' = answer at later ⊢
    cases answer with
    | ok answered => exact reached.trans later
    | error failure =>
        obtain ⟨inner, s, failed⟩ := later
        exact ⟨inner, s, reached.trans failed⟩
  obtain ⟨stack, growths'⟩ := t
  cases growths' with
  | none => exact joined _ rfl first
  | some n =>
      rw [Thread.charge] at first ⊢
      dsimp only at first ⊢
      by_cases enough : growths ≤ n
      · rw [if_pos enough] at first ⊢
        exact joined _ rfl first
      · rw [if_neg enough] at first ⊢
        exact first

def ConvertsOn (heap : Heap) (path : List Nat) : Prop :=
  ∀ (index : Int) (t : Thread) (waits : List Wait),
    Comes heap ⟨.convert index, waits, ⟨t, path⟩⟩ waits
      (worth heap t path (t.cellAt (t.absolute index)))

theorem comes_closed {path : List Nat} {index place : Nat} (root : t.cellAt index = .table place)
    {key : Cell} (last : following (heap.pairs place) key = []) (draft : TableDraft) :
    Comes heap ⟨.turn ⟨index, place, draft⟩, waits, ⟨t.push key, place :: path⟩⟩ waits
      (.ok (draft.build, ⟨t, path⟩)) := by
  have next : (t.push key).next heap index = (false, t) := by
    rw [Thread.next_push root, last]
  have closed : Moves heap ⟨.turn ⟨index, place, draft⟩, waits, ⟨t.push key, place :: path⟩⟩
      ⟨.answer draft.build, waits, ⟨t, (place :: path).erase place⟩⟩ := .closed next
  rw [List.erase_cons_head] at closed
  exact .single closed.step

/-- Step lemma: an expansion at a key goes through the remaining pairs and answers with the table
they build. -/
theorem comes_turn {path : List Nat} {index place : Nat}
    (converts : ConvertsOn heap (place :: path))
    (proper : .nil ∉ (heap.pairs place).map Prod.fst)
    (differ : ((heap.pairs place).map Prod.fst).Nodup) (todo : List (Cell × Cell)) :
    ∀ (key : Cell) (draft : TableDraft) (t : Thread), t.cellAt index = .table place →
      following (heap.pairs place) key = todo →
      Comes heap ⟨.turn ⟨index, place, draft⟩, waits, ⟨t.push key, place :: path⟩⟩ waits
        (t.charge (expansionsOf heap (place :: path) todo) fun t =>
          .ok (((unfoldPairs heap (place :: path) todo).foldl
            (fun d pair => d.add pair.1 pair.2) draft).build, ⟨t, path⟩)) := by
  induction todo with
  | nil =>
      intro key draft t root shown
      rw [expansionsOf_nil, Thread.charge_zero]
      exact comes_closed root shown draft
  | cons pair rest ih =>
      obtain ⟨newKey, value⟩ := pair
      intro key draft t root shown
      have next : (t.push key).next heap index = (true, (t.push newKey).push value) := by
        rw [Thread.next_push root, shown]
      refine Comes.after (.shown next) ?_
      -- first the value, on top of the stack
      have valued := converts (-1) ((t.push newKey).push value)
        (.value ⟨index, place, draft⟩ :: waits)
      rw [Thread.cellAt_top, worth, Thread.charge_push, Thread.charge_push] at valued
      rw [expansionsOf_cons, Thread.charge_add]
      refine Comes.bind valued fun t₁ same₁ => Comes.after .valued ?_
      -- then the key below it
      have keyed := converts (-2) ((t₁.push newKey).push value)
        (.key ⟨index, place, draft⟩ (unfold heap (place :: path) value) :: waits)
      rw [Thread.cellAt_second, worth, Thread.charge_push, Thread.charge_push] at keyed
      rw [Thread.charge_add]
      refine Comes.bind keyed fun t₂ same₂ => Comes.after .added ?_
      have still : t₂.cellAt index = .table place := by
        rw [Thread.cellAt_congr (same₂.trans same₁), root]
      exact ih newKey _ t₂ still (following_key proper differ shown)

theorem convertsOn (proper : heap.WellFormed) (bound : Nat) :
    ∀ path, offPath heap path < bound → ConvertsOn heap path := by
  induction bound with
  | zero =>
      intro path few
      exact absurd few (Nat.not_lt_zero _)
  | succ bound ih =>
      intro path few index t waits
      cases found : t.cellAt (t.absolute index) with
      | table place =>
          by_cases seen : place ∈ path
          · rw [worth, unfold_open seen, expansions_open seen, Thread.charge_zero]
            exact .single (Moves.visited found seen).step
          · rw [worth, unfold_table seen, expansions_table seen, Thread.charge_add,
              ← Thread.charge_one]
            cases grown : t.grow? with
            | none => exact ⟨waits, ⟨t, path⟩, .single (Moves.exhausted found seen grown).step⟩
            | some t₁ =>
                refine Comes.after (.opened found seen grown) ?_
                dsimp only
                have still : t₁.cellAt (t.absolute index) = .table place := by
                  rw [Thread.cellAt_congr (Thread.stack_of_grow? grown), found]
                -- what lies in the table is worth its value on a path that leaves one table fewer
                by_cases inside : place < heap.length
                · have member := pairs_mem inside
                  have fewer := offPath_cons_lt inside seen
                  exact comes_turn (ih (place :: path) (by omega)) (proper _ member).1
                    (proper _ member).2 (heap.pairs place) .nil .empty t₁ still rfl
                · have empty := pairs_outside inside
                  have behind : following (heap.pairs place) .nil = [] := by rw [empty]; rfl
                  rw [empty, expansionsOf_nil, Thread.charge_zero]
                  exact comes_closed still behind .empty
      | _ =>
          have other : ∀ place, t.cellAt (t.absolute index) ≠ .table place := by simp [found]
          have plain : Moves heap ⟨.convert index, waits, ⟨t, path⟩⟩
              ⟨.answer (t.cellAt (t.absolute index)).plainValue, waits, ⟨t, path⟩⟩ := .plain other
          obtain ⟨value, free⟩ := unfold_plain heap path _ other
          rw [← found, worth, value, free, Thread.charge_zero]
          exact .single plain.step

theorem ends_marshal (proper : heap.WellFormed) {index : Int} {root : Nat}
    (shown : t.cellAt (t.absolute index) = .table root) :
    Ends heap index t (marshal heap index t) := by
  have few := offPath_nil_lt heap
  have comes := convertsOn proper _ [] few index t []
  rw [shown, ← expandWithin_eq proper _ [] few index t root shown] at comes
  rw [marshal]
  cases expanded : expandWithin heap (heap.length + 1) index ⟨t, []⟩ with
  | ok answered =>
      rw [expanded] at comes
      exact ⟨_, StateTransition.mem_eval.mpr ⟨comes, rfl⟩, rfl⟩
  | error failure =>
      rw [expanded] at comes
      obtain ⟨inner, s, reached⟩ := comes
      exact ⟨_, StateTransition.mem_eval.mpr ⟨reached, rfl⟩, rfl⟩

theorem ends_iff (proper : heap.WellFormed) {index : Int} {root : Nat}
    (shown : t.cellAt (t.absolute index) = .table root)
    (outcome : Except Failure (Value × Thread)) :
    Ends heap index t outcome ↔ marshal heap index t = outcome := by
  constructor
  · exact fun ends => (ends_marshal proper shown).unique ends
  · rintro rfl
    exact ends_marshal proper shown

/-! ## The stack -/

/-- The number of cells a marshaller has pushed: a pair per waiting expansion, and the key of one
that is about to advance. -/
def laid (m : Marshaller) : Nat :=
  2 * m.waits.length + match m.stage with
    | .turn _ => 1
    | _ => 0

/-- The stack is the original one with the cells that the marshaller has pushed on top. -/
def LaidOn (P : Cell → Prop) (base : List Cell) (m : Marshaller) : Prop :=
  ∃ cells, m.visit.thread.stack = cells ++ base ∧ cells.length = m.laid ∧ ∀ cell ∈ cells, P cell

theorem Moves.laidOn {heap : Heap} {P : Cell → Prop} {base : List Cell} (nothing : P .nil)
    (kind : ∀ place, ∀ pair ∈ heap.pairs place, P pair.1 ∧ P pair.2) {m m' : Marshaller}
    (moves : Moves heap m m') (laidOn : LaidOn P base m) : LaidOn P base m' := by
  obtain ⟨cells, stack, length, all⟩ := laidOn
  -- what a step takes off the stack is one of those cells
  have popped : ∀ n, n + 1 = m.laid → (m.visit.thread.pop 1).stack = cells.drop 1 ++ base ∧
      (cells.drop 1).length = n ∧ ∀ cell ∈ cells.drop 1, P cell := by
    intro n count
    have room : 1 ≤ cells.length := by omega
    refine ⟨?_, ?_, fun cell member => all cell (List.mem_of_mem_drop member)⟩
    · rw [Thread.pop, stack, List.drop_append_of_le_length room]
    · rw [List.length_drop]
      omega
  cases moves with
  | plain | visited | exhausted | valued => exact ⟨cells, stack, length, all⟩
  | opened found fresh grown =>
      refine ⟨.nil :: cells, ?_, ?_, List.forall_mem_cons.mpr ⟨nothing, all⟩⟩
      · exact congrArg (List.cons Cell.nil) ((Thread.stack_of_grow? grown).trans stack)
      · rw [List.length_cons, length]
        rfl
  | @shown e waits s thread next =>
      obtain ⟨below, count, kept⟩ := popped (2 * waits.length) rfl
      obtain ⟨place, key, value, pair, rfl⟩ := Thread.next_shown next
      obtain ⟨keyKind, valueKind⟩ := kind place _ pair
      refine ⟨value :: key :: cells.drop 1, ?_, ?_, ?_⟩
      · exact congrArg (fun stack => value :: key :: stack) below
      · rw [List.length_cons, List.length_cons, count]
        rfl
      · exact List.forall_mem_cons.mpr ⟨valueKind, List.forall_mem_cons.mpr ⟨keyKind, kept⟩⟩
  | @closed e waits s thread next =>
      obtain ⟨below, count, kept⟩ := popped (2 * waits.length) rfl
      rw [← Thread.next_behind next] at below
      exact ⟨cells.drop 1, below, count, kept⟩
  | @added e key v waits s =>
      obtain ⟨below, count, kept⟩ := popped (2 * waits.length + 1) rfl
      exact ⟨cells.drop 1, below, count, kept⟩

theorem laidOn_start (P : Cell → Prop) (index : Int) (t : Thread) :
    LaidOn P t.stack (start index t) :=
  ⟨[], rfl, rfl, by simp⟩

section Top

variable {P : Cell → Prop} {base : List Cell} {m : Marshaller}

theorem LaidOn.top (laidOn : LaidOn P base m) (room : 1 ≤ m.laid) :
    P (m.visit.thread.cellAt (m.visit.thread.absolute (-1))) := by
  obtain ⟨cells, stack, length, all⟩ := laidOn
  obtain ⟨stage, waits, ⟨⟨laid, growths⟩, visiting⟩⟩ := m
  match cells with
  | [] => exact absurd length (Nat.ne_of_lt room)
  | cell :: cells =>
      obtain rfl : laid = cell :: (cells ++ base) := stack
      have shown := Thread.cellAt_top ⟨cells ++ base, growths⟩ cell
      exact (congrArg P shown).mpr (all cell List.mem_cons_self)

theorem LaidOn.second (laidOn : LaidOn P base m) (room : 2 ≤ m.laid) :
    P (m.visit.thread.cellAt (m.visit.thread.absolute (-2))) := by
  obtain ⟨cells, stack, length, all⟩ := laidOn
  obtain ⟨stage, waits, ⟨⟨laid, growths⟩, visiting⟩⟩ := m
  match cells with
  | [] | [_] =>
      simp only [List.length_nil, List.length_cons] at length
      omega
  | above :: below :: cells =>
      obtain rfl : laid = above :: below :: (cells ++ base) := stack
      have shown := Thread.cellAt_second ⟨cells ++ base, growths⟩ below above
      exact (congrArg P shown).mpr (all below (by simp))

end Top

theorem Ends.stack {heap : Heap} {index : Int} {t t' : Thread} {v : Value}
    (ends : Ends heap index t (.ok (v, t'))) : t'.stack = t.stack := by
  obtain ⟨last, ended, outcome⟩ := ends
  obtain ⟨answered, idle, rfl⟩ := eq_of_outcome? outcome
  have reached := (StateTransition.mem_eval.mp ended).1
  obtain ⟨cells, stack, length, _⟩ := reaches_induction (P := LaidOn (fun _ => True) t.stack)
    (Moves.laidOn trivial fun _ _ _ => ⟨trivial, trivial⟩) reached (laidOn_start _ index t)
  -- nothing waits and nothing turns, so that nothing is left of what was laid on the stack
  have nothing : cells = [] := by
    rw [laid, answered, idle] at length
    exact List.eq_nil_of_length_eq_zero length
  rw [stack, nothing, List.nil_append]

end Marshaller

open Marshaller (Ends)

/-- For every heap and both forms of index, marshalling that returns leaves the stack unchanged;
this holds for the step machine without a bound on its steps and for `marshal`. -/
theorem marshal_stack {heap : Heap} {t t' : Thread} {index : Int} {root : Nat} {v : Value}
    (shown : t.cellAt (t.absolute index) = .table root) :
    (Ends heap index t (.ok (v, t')) → t'.stack = t.stack) ∧
      (heap.WellFormed → marshal heap index t = .ok (v, t') → t'.stack = t.stack) := by
  refine ⟨Ends.stack, fun proper marshalled => ?_⟩
  exact ((Marshaller.ends_iff proper shown _).mpr marshalled).stack

def ring : Heap :=
  [[(.string (text "self"), .table 0), (.integer 1, .table 1), (.table 1, .integer 7)],
    [(.integer 1, .table 0)]]

def ringValue : Value :=
  .object [(text "1", .array [.null]), (text "[null]", .integer 7), (text "self", .null)]

def between (growths : Option Nat) : Thread := ⟨[.bool true, .table 0, .nil, .integer 5], growths⟩

theorem marshal_stack_ring :
    (between (some 5)).cellAt ((between (some 5)).absolute (-2)) = .table 0 ∧
      Ends ring (-2) (between (some 5)) (.ok (ringValue, between (some 2))) ∧
      (between (some 2)).stack = (between (some 5)).stack ∧
      (between (some 3)).cellAt ((between (some 3)).absolute 3) = .table 0 ∧ ring.WellFormed ∧
      marshal ring 3 (between (some 3)) = .ok (ringValue, between (some 0)) ∧
      (between (some 0)).stack = (between (some 3)).stack := by
  have proper : ring.WellFormed := by decide
  have relative : (between (some 5)).cellAt ((between (some 5)).absolute (-2)) = .table 0 := by
    decide
  have absolute : (between (some 3)).cellAt ((between (some 3)).absolute 3) = .table 0 := by decide
  have ends : Ends ring (-2) (between (some 5)) (.ok (ringValue, between (some 2))) :=
    (Marshaller.ends_iff proper relative _).mpr (by cbv)
  have marshalled : marshal ring 3 (between (some 3)) = .ok (ringValue, between (some 0)) := by cbv
  exact ⟨relative, ends, (marshal_stack relative).1 ends, absolute, proper, marshalled,
    (marshal_stack absolute).2 proper marshalled⟩

end Interpreter

end LuaAsset
