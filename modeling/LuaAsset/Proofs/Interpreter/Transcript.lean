import LuaAsset.Proofs.Interpreter.Unfolding
import LuaAsset.Proofs.Literal.RoundTrip

/-! # Tables as literals

`transcript` writes a table of booleans, integers, strings and tables as a literal with bracketed
keys.  On an acyclic heap reading this text gives the value that `marshal` gives
(`marshal_eq_transcript`), since the value of the literal is the unfolding of the table. -/

set_option autoImplicit false

namespace LuaAsset

namespace Interpreter

/-! ## Heaps with a transcript -/

def Cell.isData : Cell → Bool
  | .table _ => true
  | cell => cell.isScalar

def Heap.Plain (heap : Heap) : Prop :=
  ∀ pairs ∈ heap, ∀ pair ∈ pairs, pair.1.isScalar = true ∧ pair.2.isData = true

instance (heap : Heap) : Decidable heap.Plain :=
  inferInstanceAs (Decidable (∀ pairs ∈ heap, _))

def Heap.Refers (heap : Heap) (place child : Nat) : Prop :=
  .table child ∈ (heap.pairs place).map Prod.snd

def Heap.Acyclic (heap : Heap) : Prop := ∀ place, ¬Relation.TransGen heap.Refers place place

theorem acyclic_of_upward {heap : Heap}
    (upward : ∀ place child, heap.Refers place child → place < child) : heap.Acyclic := by
  intro place returns
  have later : ∀ {place child}, Relation.TransGen heap.Refers place child → place < child := by
    intro place child reached
    induction reached with
    | single refers => exact upward _ _ refers
    | tail _ refers ih => exact ih.trans (upward _ _ refers)
  exact Nat.lt_irrefl place (later returns)

/-- Whether tables nest at most `levels` deep from a cell. -/
def Heap.nestsWithin (heap : Heap) : Nat → Cell → Bool
  | 0, .table _ => false
  | levels + 1, .table place => (heap.pairs place).all fun pair => heap.nestsWithin levels pair.2
  | _, _ => true

/-! ## The literal of a cell -/

/-- A scalar cell as a bracketed key; other cells cannot be written as keys. -/
def Cell.bracket : Cell → Literal.Key
  | .bool b => .bracketed (.bool b)
  | .integer n => .bracketed (.integer n.toInt)
  | .string s => .bracketed (.string s)
  | _ => .position

/-- The literal of a cell while the tables of a path are open; what cannot be written is `nil`. -/
def transcript (heap : Heap) (gap : Nat) (path : List Nat) : Cell → Literal.Term
  | .bool b => .scalar (.bool b)
  | .integer n => .scalar (.integer n.toInt)
  | .string s => .scalar (.string s)
  | .table place =>
      if _seen : place ∈ path then .nil
      else if _inside : place < heap.length then
        .table gap ((heap.pairs place).map fun pair =>
          (pair.1.bracket, transcript heap gap (place :: path) pair.2))
      else .table gap []
  | _ => .nil
termination_by offPath heap path
decreasing_by exact offPath_cons_lt ‹_› ‹_›

def transcriptFields (heap : Heap) (gap : Nat) (path : List Nat) (pairs : List (Cell × Cell)) :
    List (Literal.Key × Literal.Term) :=
  pairs.map fun pair => (pair.1.bracket, transcript heap gap path pair.2)

theorem transcript_table {heap : Heap} (gap : Nat) {path : List Nat} {place : Nat}
    (fresh : place ∉ path) : transcript heap gap path (.table place) =
      .table gap (transcriptFields heap gap (place :: path) (heap.pairs place)) := by
  rw [transcript, dif_neg fresh]
  by_cases inside : place < heap.length
  · rw [dif_pos inside]
    rfl
  · rw [dif_neg inside, pairs_outside inside]
    rfl

/-! ## Depth -/

theorem deepest_le {fields : List (Literal.Key × Literal.Term)} {levels : Nat}
    (all : ∀ field ∈ fields, field.2.depth ≤ levels) : Literal.deepest fields ≤ levels := by
  induction fields with
  | nil => exact Nat.zero_le _
  | cons field fields ih =>
      obtain ⟨first, later⟩ := List.forall_mem_cons.mp all
      exact Nat.max_le.mpr ⟨first, ih later⟩

theorem depth_transcript {heap : Heap} (gap : Nat) (levels : Nat) :
    ∀ (path : List Nat) (cell : Cell), heap.nestsWithin levels cell = true →
      (transcript heap gap path cell).depth ≤ levels := by
  induction levels with
  | zero =>
      intro path cell nests
      cases cell with
      | table place => cases nests
      | _ => simp [transcript, Literal.Term.depth]
  | succ levels ih =>
      intro path cell nests
      cases cell with
      | table place =>
          by_cases seen : place ∈ path
          · rw [transcript, dif_pos seen]
            exact Nat.zero_le _
          · rw [transcript_table gap seen, Literal.Term.depth]
            refine Nat.succ_le_succ (deepest_le fun field member => ?_)
            obtain ⟨pair, among, rfl⟩ := List.mem_map.mp member
            exact ih _ _ (List.all_eq_true.mp nests pair among)
      | _ => simp [transcript, Literal.Term.depth]

/-! ## Values -/

theorem integerValue_toInt (n : Int64) : Literal.integerValue n.toInt = .integer n := by
  have low := n.le_toInt
  have high := n.toInt_lt
  rw [Literal.integerValue, if_pos ⟨low, high⟩, Int64.ofInt_toInt]

theorem address_bracket {cell : Cell} (scalar : cell.isScalar = true) (taken : Nat) :
    cell.bracket.address taken = cell.plainValue ∧ cell.bracket.taken taken = taken := by
  cases cell with
  | bool b => exact ⟨rfl, rfl⟩
  | string s => exact ⟨rfl, rfl⟩
  | integer n =>
      refine ⟨?_, rfl⟩
      rw [Cell.bracket, Literal.Key.address, Literal.Scalar.value, integerValue_toInt]
      rfl
  | _ => cases scalar

theorem value_transcript_scalar (heap : Heap) (gap : Nat) (path : List Nat) {cell : Cell}
    (scalar : cell.isScalar = true) :
    (transcript heap gap path cell).value = cell.plainValue := by
  cases cell with
  | bool b | string s =>
      rw [transcript]
      rfl
  | integer n =>
      rw [transcript]
      exact integerValue_toInt n
  | _ => cases scalar

theorem isNull_unfold {heap : Heap} {path : List Nat} {cell : Cell} (data : cell.isData = true)
    (fresh : ∀ place, cell = .table place → place ∉ path) :
    (unfold heap path cell).isNull = false ∧
      fieldValue (unfold heap path cell) = unfold heap path cell := by
  cases cell with
  | table place =>
      refine ⟨?_, fieldValue_unfold_table heap path place⟩
      rw [unfold_table (fresh place rfl), TableDraft.build]
      split <;> rfl
  | bool b | integer n | string s =>
      rw [unfold]
      exact ⟨rfl, rfl⟩
  | _ => cases data

theorem pairs_transcriptFields {heap : Heap} (gap : Nat) (path : List Nat) (taken : Nat)
    {entries : List (Cell × Cell)} (scalars : ∀ pair ∈ entries, pair.1.isScalar = true)
    (same : ∀ pair ∈ entries, (transcript heap gap path pair.2).value =
      fieldValue (unfold heap path pair.2)) :
    Literal.pairs taken (Literal.fieldValues (transcriptFields heap gap path entries)) =
      unfoldPairs heap path entries := by
  induction entries with
  | nil => rfl
  | cons pair entries ih =>
      obtain ⟨scalar, scalarsLater⟩ := List.forall_mem_cons.mp scalars
      obtain ⟨first, later⟩ := List.forall_mem_cons.mp same
      obtain ⟨address, unmoved⟩ := address_bracket scalar taken
      have rest := ih scalarsLater later
      rw [transcriptFields] at rest ⊢
      rw [List.map_cons, Literal.fieldValues, Literal.pairs, address, unmoved, rest, first,
        unfoldPairs, unfoldPairs, List.map_cons, (unfold_scalar heap path scalar).1]

theorem tableValue_transcriptFields {heap : Heap} (gap : Nat) (path : List Nat)
    {entries : List (Cell × Cell)} (scalars : ∀ pair ∈ entries, pair.1.isScalar = true)
    (same : ∀ pair ∈ entries, (transcript heap gap path pair.2).value = unfold heap path pair.2)
    (kept : ∀ pair ∈ entries, (unfold heap path pair.2).isNull = false ∧
      fieldValue (unfold heap path pair.2) = unfold heap path pair.2) :
    Literal.tableValue (Literal.fieldValues (transcriptFields heap gap path entries)) =
      (TableDraft.ofPairs (unfoldPairs heap path entries)).build := by
  have values : ∀ pair ∈ entries, (transcript heap gap path pair.2).value =
      fieldValue (unfold heap path pair.2) := fun pair member =>
    (same pair member).trans (kept pair member).2.symm
  have all : ∀ entry ∈ unfoldPairs heap path entries, (!entry.2.isNull) = true := by
    intro entry member
    obtain ⟨pair, among, rfl⟩ := List.mem_map.mp member
    dsimp only
    rw [(kept pair among).2, (kept pair among).1]
    rfl
  rw [Literal.tableValue, pairs_transcriptFields gap path 0 scalars values,
    List.filter_eq_self.mpr all]

def Heap.Leads (heap : Heap) (path : List Nat) (cell : Cell) : Prop :=
  ∀ place, cell = .table place → ∀ above ∈ path, Relation.TransGen heap.Refers above place

theorem Heap.Leads.fresh {heap : Heap} (acyclic : heap.Acyclic) {path : List Nat} {cell : Cell}
    (leads : heap.Leads path cell) (place : Nat) (same : cell = .table place) : place ∉ path :=
  fun member => acyclic place (leads place same place member)

theorem Heap.Leads.value {heap : Heap} {path : List Nat} {place : Nat}
    (leads : heap.Leads path (.table place)) {pair : Cell × Cell}
    (member : pair ∈ heap.pairs place) : heap.Leads (place :: path) pair.2 := by
  intro child same above among
  have refers : heap.Refers place child := by
    rw [Heap.Refers, ← same]
    exact List.mem_map_of_mem member
  obtain rfl | among := List.mem_cons.mp among
  · exact .single refers
  · exact (leads place rfl above among).tail refers

/-- The value of the literal of a cell is its unfolding. -/
theorem value_transcript {heap : Heap} (plain : heap.Plain) (acyclic : heap.Acyclic) (gap : Nat)
    (path : List Nat) (cell : Cell) : cell.isData = true → heap.Leads path cell →
      (transcript heap gap path cell).value = unfold heap path cell := by
  induction path, cell using unfold.induct heap with
  | case1 | case4 | case6 =>
      intro data
      cases data
  | case2 path b | case3 path n | case5 path s =>
      intro _ _
      rw [value_transcript_scalar heap gap path rfl, unfold]
      rfl
  | case7 path place seen => exact fun _ leads => absurd seen (leads.fresh acyclic place rfl)
  | case8 path place fresh inside _ values =>
      intro _ leads
      have entries := plain _ (pairs_mem inside)
      rw [transcript_table gap fresh, unfold_table fresh, Literal.Term.value]
      refine tableValue_transcriptFields gap _ (fun pair member => (entries pair member).1) ?_ ?_
      · exact fun pair member => values pair (entries pair member).2 (leads.value member)
      · exact fun pair member =>
          isNull_unfold (entries pair member).2 ((leads.value member).fresh acyclic)
  | case9 path place fresh outside =>
      intro _ _
      rw [transcript_table gap fresh, unfold_table fresh, pairs_outside outside]
      rfl

/-! ## Reading and marshalling -/

/-- On an acyclic heap of booleans, integers, strings and tables, the text of a table that nests
within the limit is readable, and `marshal` gives the value of that text whenever the stack
suffices. -/
theorem marshal_eq_transcript {heap : Heap} (proper : heap.WellFormed) (plain : heap.Plain)
    (acyclic : heap.Acyclic) (gap : Nat) {t : Thread} {index : Int} {root : Nat}
    (shown : t.cellAt (t.absolute index) = .table root)
    (nests : heap.nestsWithin Literal.nestingLimit (.table root) = true) :
    ∃ v, decodeLiteral (transcript heap gap [] (.table root)).written = .ok v ∧
      (t.growths = none → marshal heap index t = .ok (v, t)) ∧
      ∀ w t', marshal heap index t = .ok (w, t') → w = v := by
  have depth := depth_transcript gap Literal.nestingLimit [] (.table root) nests
  have value := value_transcript plain acyclic gap [] (.table root) rfl fun _ _ _ member =>
    absurd member List.not_mem_nil
  have marshalled := marshal_eq_charge proper shown
  refine ⟨unfold heap [] (.table root), ?_, fun unlimited => ?_, fun w t' success => ?_⟩
  · rw [Literal.decodeLiteral_written _ depth, value]
  · rw [marshalled, Thread.charge_unlimited t unlimited]
  · rw [marshalled] at success
    obtain ⟨t'', same⟩ := Thread.charge_ok success
    exact congrArg Prod.fst same

def shared : Heap :=
  [[(.string (text "it's"), .table 1), (.integer (-3), .table 2), (.bool true, .table 1)],
    [(.integer 1, .string (text "a\n")), (.integer 2, .table 2)],
    [(.string (text "ok"), .bool false)]]

theorem acyclic_shared : shared.Acyclic := by
  refine acyclic_of_upward fun place child refers => ?_
  rcases place with _ | _ | _ | place <;>
    simp [Heap.Refers, Heap.pairs, shared] at refers <;> omega

theorem marshal_eq_transcript_shared :
    shared.WellFormed ∧ shared.Plain ∧ shared.Acyclic ∧
      onTop.cellAt (onTop.absolute (-1)) = .table 0 ∧
      shared.nestsWithin Literal.nestingLimit (.table 0) = true ∧
      (transcript shared 0 [] (.table 0)).written =
        text "\x7b['it\\'s']=\x7b[1]='a\\n',[2]=\x7b['ok']=false\x7d\x7d," ++
          text "[-3]=\x7b['ok']=false\x7d," ++
          text "[true]=\x7b[1]='a\\n',[2]=\x7b['ok']=false\x7d\x7d\x7d" ∧
      ∃ v, decodeLiteral (transcript shared 0 [] (.table 0)).written = .ok v ∧
        marshal shared (-1) onTop = .ok (v, onTop) := by
  have proper : shared.WellFormed := by decide
  have plain : shared.Plain := by decide
  have root : onTop.cellAt (onTop.absolute (-1)) = .table 0 := by decide
  have nests : shared.nestsWithin Literal.nestingLimit (.table 0) = true := by decide
  obtain ⟨v, read, marshalled, _⟩ :=
    marshal_eq_transcript proper plain acyclic_shared 0 root nests
  exact ⟨proper, plain, acyclic_shared, root, nests, by cbv, v, read, marshalled rfl⟩

end Interpreter

end LuaAsset
