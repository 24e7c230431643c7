import LuaAsset.Proofs.Number.Nearest
import LuaAsset.Proofs.Table.Entries
import LuaAsset.Proofs.Table.Stability

/-! # Pairs as assignments

Building a draft gives the table in which each pair replaces an earlier one of its slot
(`TableDraft.build_performed`).  The comparison of keys is no order, as integers are compared with
floats after rounding; on a later and an earlier key it agrees with one that separates keys of
different names (`Value.keyLt_eq_keyBefore`). -/

set_option autoImplicit false

namespace LuaAsset

namespace Value

variable {a b : Value}

/-! ## Slots -/

def IsSlot : Value → Prop
  | .null | .natural _ => False
  | .float x => x.IsNumber ∧ x.toInteger? = none
  | _ => True

theorem IsSlot.isKey (slot : a.IsSlot) : a.IsKey := by
  cases a with
  | null => exact slot.elim
  | natural n => exact slot.elim
  | _ => exact trivial

def isTable : Value → Bool
  | .array _ | .object _ => true
  | _ => false

/-- Whether two keys address one slot.  A table as a key is distinct from every other. -/
def sameSlot (a b : Value) : Bool := !a.isTable && a = b

theorem eq_of_sameSlot (same : a.sameSlot b = true) : a = b := by
  rw [sameSlot, Bool.and_eq_true, decide_eq_true_eq] at same
  exact same.2

/-! ## An order of slots -/

/-- The kind of a number: at equal rank an integer precedes a float. -/
def kind (a : Value) : Int := if a.isFloat then 1 else 0

/-- Numbers by rank, then by kind, then by their bits. -/
def numberBefore (a b : Value) : Bool :=
  decide (a.nearestFloat.rank < b.nearestFloat.rank ∨ a.nearestFloat.rank = b.nearestFloat.rank ∧
    (a.kind < b.kind ∨ a.kind = b.kind ∧ a.signedBits.toInt < b.signedBits.toInt))

theorem weakOrderOn_numberBefore (P : Value → Prop) : WeakOrderOn P numberBefore where
  asymm {a b} _ _ before := by
    rw [numberBefore, decide_eq_true_eq] at before
    rw [numberBefore, decide_eq_false_iff_not]
    omega
  trans {a b c} _ _ _ first second := by
    rw [numberBefore, decide_eq_false_iff_not] at first second ⊢
    omega

def keyBefore (a b : Value) : Bool := keyOrder numberBefore a b

theorem weakOrderOn_keyBefore : WeakOrderOn (fun _ => True) keyBefore :=
  weakOrderOn_keyOrder (weakOrderOn_numberBefore _)

theorem keyBefore_irrefl (a : Value) : keyBefore a a = false := by
  cases before : keyBefore a a with
  | false => rfl
  | true => exact before.symm.trans (weakOrderOn_keyBefore.asymm trivial trivial before)

theorem IsSlot.number_cases (slot : a.IsSlot) (number : a.isNumber = true) :
    (∃ n, a = .integer n) ∨ ∃ x, a = .float x ∧ x.IsNumber ∧ x.toInteger? = none := by
  cases a with
  | integer n => exact .inl ⟨n, rfl⟩
  | natural n => exact slot.elim
  | float x => exact .inr ⟨x, rfl, slot⟩
  | _ => cases number

theorem eq_of_tied_numbers (slotA : a.IsSlot) (slotB : b.IsSlot) (numberA : a.isNumber = true)
    (numberB : b.isNumber = true) (before : numberBefore a b = false)
    (after : numberBefore b a = false) : a = b := by
  rw [numberBefore, decide_eq_false_iff_not] at before after
  obtain ⟨m, rfl⟩ | ⟨x, rfl, _, fraction⟩ := slotA.number_cases numberA
  · obtain ⟨n, rfl⟩ | ⟨y, rfl, _⟩ := slotB.number_cases numberB
    · simp only [kind, isFloat, signedBits] at before after
      exact congrArg Value.integer (Int64.toInt_inj.mp (by omega))
    · simp only [kind, isFloat, if_true, Bool.false_eq_true, if_false] at before after
      omega
  · obtain ⟨n, rfl⟩ | ⟨y, rfl, _⟩ := slotB.number_cases numberB
    · simp only [kind, isFloat, if_true, Bool.false_eq_true, if_false] at before after
      omega
    · simp only [nearestFloat] at before after
      exact congrArg Value.float (Binary64.eq_of_rank_eq_of_none fraction (by omega))

/-- Tied slots have the same name. -/
theorem keyName_eq_of_tied (slotA : a.IsSlot) (slotB : b.IsSlot) (before : keyBefore a b = false)
    (after : keyBefore b a = false) : a.keyName = b.keyName := by
  obtain ⟨numberA, numberB, before, after⟩ | ⟨_, _, names⟩ := keyOrder_tied before after
  · rw [eq_of_tied_numbers slotA slotB numberA numberB before after]
  · exact names

theorem rank_lt_iff_of_int {m n : Int64} :
    (n < m) ↔ (Binary64.ofInt n.toInt).rank < (Binary64.ofInt m.toInt).rank ∨
      (Binary64.ofInt n.toInt).rank = (Binary64.ofInt m.toInt).rank ∧ n.toInt < m.toInt := by
  rw [Int64.lt_iff_toInt_lt]
  obtain less | more := Int.lt_or_le n.toInt m.toInt
  · have ranks := Binary64.rank_ofInt_le (Int.le_of_lt less)
    omega
  · have ranks := Binary64.rank_ofInt_le more
    omega

theorem numberLt_iff (slotA : a.IsSlot) (slotB : b.IsSlot) (numberA : a.isNumber = true)
    (numberB : b.isNumber = true) : numberLt a b = true ↔
      a.nearestFloat.rank < b.nearestFloat.rank ∨ a.nearestFloat.rank = b.nearestFloat.rank ∧
        a.kind = 0 ∧ b.kind = 0 ∧ a.signedBits.toInt < b.signedBits.toInt := by
  obtain ⟨m, rfl⟩ | ⟨x, rfl, numberX, _⟩ := slotA.number_cases numberA
  · obtain ⟨n, rfl⟩ | ⟨y, rfl, numberY, _⟩ := slotB.number_cases numberB
    · rw [numberLt_exact rfl rfl, decide_eq_true_eq]
      simp only [signedBits, nearestFloat, kind, isFloat, Bool.false_eq_true, if_false, true_and]
      exact rank_lt_iff_of_int
    · have float : numberLt (.integer m) (.float y) = (Binary64.ofInt m.toInt).lt y := rfl
      rw [float, Binary64.lt_eq (Binary64.isNumber_ofInt _) numberY, decide_eq_true_eq]
      simp [nearestFloat, kind, isFloat]
  · obtain ⟨n, rfl⟩ | ⟨y, rfl, numberY, _⟩ := slotB.number_cases numberB
    · have float : numberLt (.float x) (.integer n) = x.lt (Binary64.ofInt n.toInt) := rfl
      rw [float, Binary64.lt_eq numberX (Binary64.isNumber_ofInt _), decide_eq_true_eq]
      simp [nearestFloat, kind, isFloat]
    · have float : numberLt (.float x) (.float y) = x.lt y := rfl
      rw [float, Binary64.lt_eq numberX numberY, decide_eq_true_eq]
      simp [nearestFloat, kind, isFloat]

theorem numberLt_eq_numberBefore (slotA : a.IsSlot) (slotB : b.IsSlot)
    (numberA : a.isNumber = true) (numberB : b.isNumber = true)
    (unplaced : a.isFloat = true → b.position? = none) : numberLt b a = numberBefore b a := by
  rw [Bool.eq_iff_iff, numberLt_iff slotB slotA numberB numberA, numberBefore, decide_eq_true_eq]
  obtain ⟨m, rfl⟩ | ⟨x, rfl, _, fraction⟩ := slotA.number_cases numberA
  · obtain ⟨n, rfl⟩ | ⟨y, rfl, _⟩ := slotB.number_cases numberB <;>
      simp [kind, isFloat]
  · obtain ⟨n, rfl⟩ | ⟨y, rfl, _⟩ := slotB.number_cases numberB
    · -- an integer without a position is not rounded to a float above its range
      have apart : (Binary64.ofInt n.toInt).rank ≠ x.rank := by
        intro same
        obtain ⟨last, _⟩ := Binary64.eq_of_rank_ofInt_eq fraction same
        have found := unplaced rfl
        rw [position?, if_pos (by omega)] at found
        cases found
      simp [kind, isFloat, nearestFloat, apart]
    · simp [kind, isFloat, signedBits]

theorem keyLt_eq_keyBefore (slotA : a.IsSlot) (slotB : b.IsSlot)
    (unplaced : a.isFloat = true → b.position? = none) : keyLt b a = keyBefore b a := by
  rw [keyLt_eq_keyOrder, keyBefore, keyOrder, keyOrder]
  by_cases numbers : (b.isNumber && a.isNumber) = true
  · obtain ⟨numberB, numberA⟩ := Bool.and_eq_true_iff.mp numbers
    rw [if_pos numbers, if_pos numbers,
      numberLt_eq_numberBefore slotA slotB numberA numberB unplaced]
  · rw [if_neg numbers, if_neg numbers]

end Value

namespace TableDraft

/-! ## Drafts of pairs -/

def placePair (positions : List (Nat × Value)) (pair : Value × Value) : List (Nat × Value) :=
  match pair.1.position? with
  | some index => place index pair.2 positions
  | none => positions

def isBeside (pair : Value × Value) : Bool := !pair.1.isNull && pair.1.position?.isNone

theorem isBeside_iff {pair : Value × Value} :
    isBeside pair = true ↔ pair.1.isNull = false ∧ pair.1.position? = none := by
  simp [isBeside]

theorem addAll_eq (pairs : List (Value × Value)) : ∀ t : TableDraft,
    pairs.foldl (fun t pair => t.add pair.1 pair.2) t =
      ⟨pairs.foldl placePair t.positional, t.keyed ++ pairs.filter isBeside, t.handedOut⟩ := by
  induction pairs with
  | nil =>
      intro t
      rw [List.filter_nil, List.append_nil]
      rfl
  | cons pair pairs ih =>
      intro t
      rw [List.foldl_cons, List.foldl_cons, ih]
      cases null : pair.1.isNull with
      | true =>
          have key : pair.1 = .null := by
            cases same : pair.1 with
            | null => rfl
            | _ =>
                rw [same] at null
                cases null
          rw [List.filter_cons_of_neg (by simp [isBeside, null]), add, if_pos null, placePair, key]
          rfl
      | false =>
          cases found : pair.1.position? with
          | some index =>
              rw [List.filter_cons_of_neg (by simp [isBeside, found]), add_of_position _ found,
                placePair, found]
          | none =>
              rw [List.filter_cons_of_pos (by simp [isBeside, null, found]),
                add_of_name _ null found, placePair, found, List.append_assoc,
                List.singleton_append]

theorem ofPairs_eq (pairs : List (Value × Value)) :
    ofPairs pairs = ⟨pairs.foldl placePair [], pairs.filter isBeside, 0⟩ :=
  addAll_eq pairs empty

theorem held_eq (pairs : List (Value × Value)) : (ofPairs pairs).held =
    (pairs.foldl placePair []).map (fun p => (.integer (Int64.ofNat p.1), p.2)) ++
      pairs.filter isBeside := by
  rw [ofPairs_eq]
  rfl

theorem place_place {α : Type} (index : Nat) (v w : α) (positions : List (Nat × α)) :
    place index w (place index v positions) = place index w positions := by
  induction positions with
  | nil => simp [place]
  | cons first rest ih =>
      obtain ⟨i, u⟩ := first
      obtain below | rfl | above := Nat.lt_trichotomy index i
      · simp [place, below]
      · simp [place]
      · have past : ¬index < i ∧ index ≠ i := by omega
        simp [place, past, ih]

theorem placed_superseded {index : Nat} (v : Value) (pairs : List (Value × Value))
    (again : ∃ d ∈ pairs, d.1.position? = some index) : ∀ positions : List (Nat × Value),
    pairs.foldl placePair (place index v positions) = pairs.foldl placePair positions := by
  induction pairs with
  | nil =>
      obtain ⟨d, member, _⟩ := again
      cases member
  | cons pair pairs ih =>
      intro positions
      obtain ⟨d, member, found⟩ := again
      rw [List.foldl_cons, List.foldl_cons]
      by_cases here : pair.1.position? = some index
      · rw [placePair, here, placePair, here]
        dsimp only
        rw [place_place]
      · have later : ∃ d ∈ pairs, d.1.position? = some index := by
          obtain rfl | member := List.mem_cons.mp member
          · exact absurd found here
          · exact ⟨d, member, found⟩
        cases other : pair.1.position? with
        | none =>
            rw [placePair, other, placePair, other]
            exact ih later positions
        | some i =>
            have apart : i ≠ index := fun same => here (by rw [other, same])
            rw [placePair, other, placePair, other]
            dsimp only
            rw [place_comm apart]
            exact ih later _

/-! ## Fields in the order of slots -/

theorem assign_assign (name : Bytes) (v w : Value) (fields : List (Bytes × Value)) :
    assign name w (assign name v fields) = assign name w fields := by
  induction fields with
  | nil => simp [assign]
  | cons field rest ih =>
      by_cases here : field.1 = name
      · simp [assign, here]
      · simp [assign, here, ih]

theorem written_superseded {e m : Value × Value} (names : e.1.keyName = m.1.keyName)
    (front back : List (Value × Value)) :
    written (front ++ e :: m :: back) [] = written (front ++ m :: back) [] := by
  have step : ∀ fields, written (e :: m :: back) fields = written (m :: back) fields := by
    intro fields
    have twice : assign m.1.keyName m.2 (assign e.1.keyName e.2 fields) =
        assign m.1.keyName m.2 fields := by rw [names, assign_assign]
    exact congrArg (written back) twice
  rw [written_append, step, written_append]

def pairBefore (a b : Value × Value) : Bool := Value.keyBefore a.1 b.1

theorem weakOrderOn_pairBefore : WeakOrderOn (fun _ => True) pairBefore where
  asymm _ _ := Value.weakOrderOn_keyBefore.asymm trivial trivial
  trans _ _ _ := Value.weakOrderOn_keyBefore.trans trivial trivial trivial

section Slots

variable {pairs : List (Value × Value)} (slots : ∀ pair ∈ pairs, pair.1.IsSlot)

include slots

/-- In the sorted arrangement the integers of positions precede all other keys, so no float precedes
the integer of a position. -/
theorem agree_held : (ofPairs pairs).held.Pairwise
    (StableSort.AgreeAfter id (fun a b => a.1.keyLt b.1) pairBefore) := by
  have beside : ∀ pair ∈ pairs.filter isBeside, pair.1.IsSlot ∧ pair.1.position? = none := by
    intro pair member
    obtain ⟨member, kept⟩ := List.mem_filter.mp member
    exact ⟨slots pair member, (isBeside_iff.mp kept).2⟩
  rw [held_eq]
  refine List.pairwise_append.mpr ⟨?_, ?_, ?_⟩
  · refine List.pairwise_map.mpr (List.pairwise_of_forall fun p q => ?_)
    exact Value.keyLt_eq_keyBefore trivial trivial fun float => absurd float Bool.false_ne_true
  · refine List.pairwise_of_forall_mem_list fun a left b right => ?_
    exact Value.keyLt_eq_keyBefore (beside a left).1 (beside b right).1 fun _ => (beside b right).2
  · intro a left b right
    obtain ⟨p, _, rfl⟩ := List.mem_map.mp left
    exact Value.keyLt_eq_keyBefore trivial (beside b right).1 fun _ => (beside b right).2

theorem isSlot_of_mem_held {entry : Value × Value} (member : entry ∈ (ofPairs pairs).held) :
    entry.1.IsSlot := by
  rw [held_eq] at member
  obtain position | beside := List.mem_append.mp member
  · obtain ⟨p, _, rfl⟩ := List.mem_map.mp position
    exact trivial
  · exact slots entry (List.mem_filter.mp beside).1

theorem entries_eq : (ofPairs pairs).entries = stableSort pairBefore (ofPairs pairs).held := by
  have sorted := map_stableSort (agree_held slots)
  rwa [List.map_id, List.map_id] at sorted

theorem build_slots_perm {pairs' : List (Value × Value)} (perm : pairs.Perm pairs')
    (names : (pairs.map fun pair => pair.1.keyName).Nodup) :
    (ofPairs pairs).build = (ofPairs pairs').build := by
  have slots' : ∀ pair ∈ pairs', pair.1.IsSlot := fun pair member =>
    slots pair (perm.mem_iff.mpr member)
  have isKey : ∀ pair ∈ pairs, pair.1.IsKey := fun pair member => (slots pair member).isKey
  have keys : (pairs.map Prod.fst).Nodup := by
    refine List.Nodup.of_map Value.keyName ?_
    rwa [List.map_map]
  have rearranged := rearranged_ofPairs perm isKey keys
  have heldNames := ((held_ofPairs isKey keys).map fun pair => pair.1.keyName).nodup_iff.mpr names
  refine rearranged.build ?_
  rw [entries_eq slots, entries_eq slots']
  refine stableSort_eq_of_perm weakOrderOn_pairBefore rearranged.held (fun _ _ => trivial) ?_
  intro a left b right before after
  refine List.inj_on_of_nodup_map heldNames left right ?_
  exact Value.keyName_eq_of_tied (isSlot_of_mem_held slots left) (isSlot_of_mem_held slots right)
    before after

end Slots

theorem fields_eq (t : TableDraft) :
    t.fields = written (stableSort (fun a b => a.1.keyLt b.1) t.held) [] := rfl

theorem build_of_beside {t : TableDraft} (beside : t.keyed ≠ []) : t.build = .object t.fields := by
  have mixed : t.isArray = false := by simp [isArray, beside]
  rw [build, mixed, if_neg Bool.false_ne_true]

section Superseded

variable {xs ys : List (Value × Value)} {e d : Value × Value}

theorem ofPairs_superseded {index : Nat} (placed : e.1.position? = some index) (later : d ∈ ys)
    (same : d.1 = e.1) : ofPairs (xs ++ e :: ys) = ofPairs (xs ++ ys) := by
  have away : isBeside e = false := by simp [isBeside, placed]
  have again : ∃ d ∈ ys, d.1.position? = some index := ⟨d, later, by rw [same, placed]⟩
  have positions : (xs ++ e :: ys).foldl placePair [] = (xs ++ ys).foldl placePair [] := by
    rw [List.foldl_append, List.foldl_cons, List.foldl_append]
    generalize xs.foldl placePair [] = before
    rw [show placePair before e = place index e.2 before by rw [placePair, placed]]
    exact placed_superseded e.2 ys again before
  rw [ofPairs_eq, ofPairs_eq, positions, List.filter_append, List.filter_append,
    List.filter_cons_of_neg (by simp [away])]

theorem held_beside (beside : isBeside e = true) : ∃ front,
    (ofPairs (xs ++ e :: ys)).held = front ++ e :: ys.filter isBeside ∧
      (ofPairs (xs ++ ys)).held = front ++ ys.filter isBeside := by
  have unplaced := (isBeside_iff.mp beside).2
  have positions : (xs ++ e :: ys).foldl placePair [] = (xs ++ ys).foldl placePair [] := by
    rw [List.foldl_append, List.foldl_cons, List.foldl_append]
    congr 1
    rw [placePair, unplaced]
  let placed := ((xs ++ ys).foldl placePair []).map
    fun p : Nat × Value => (Value.integer (Int64.ofNat p.1), p.2)
  refine ⟨placed ++ xs.filter isBeside, ?_, ?_⟩
  · rw [held_eq, List.filter_append, List.filter_cons_of_pos beside, positions,
      List.append_assoc]
  · rw [held_eq, List.filter_append, List.append_assoc]

theorem build_superseded_beside (slots : ∀ pair ∈ xs ++ e :: ys, pair.1.IsSlot)
    (beside : isBeside e = true) (later : d ∈ ys) (same : d.1 = e.1) :
    (ofPairs (xs ++ e :: ys)).build = (ofPairs (xs ++ ys)).build := by
  have besideLater : isBeside d = true := by rwa [isBeside, same, ← isBeside]
  have kept : d ∈ ys.filter isBeside := List.mem_filter.mpr ⟨later, besideLater⟩
  obtain ⟨front, heldWith, heldWithout⟩ : ∃ front,
      (ofPairs (xs ++ e :: ys)).held = front ++ e :: ys.filter isBeside ∧
        (ofPairs (xs ++ ys)).held = front ++ ys.filter isBeside := held_beside beside
  have agree := agree_held slots
  rw [heldWith] at agree
  have tied : pairBefore d e = false ∧ pairBefore e d = false := by
    rw [pairBefore, pairBefore, same]
    exact ⟨Value.keyBefore_irrefl _, Value.keyBefore_irrefl _⟩
  obtain ⟨front', m, back, sortedWith, sortedWithout, notLarger, notSmaller⟩ :=
    stableSort_superseded weakOrderOn_pairBefore agree kept tied.1 tied.2
  have slotM : m.1.IsSlot := by
    refine isSlot_of_mem_held slots ?_
    rw [heldWith, ← mem_stableSort, sortedWith]
    simp
  have names := Value.keyName_eq_of_tied (slots e (by simp)) slotM notLarger notSmaller
  have fieldsSame : (ofPairs (xs ++ e :: ys)).fields = (ofPairs (xs ++ ys)).fields := by
    rw [fields_eq, fields_eq, heldWith, heldWithout, sortedWith, sortedWithout,
      written_superseded names]
  have keyedWith : (ofPairs (xs ++ e :: ys)).keyed ≠ [] := by
    rw [ofPairs_eq]
    exact List.ne_nil_of_mem (List.mem_filter.mpr ⟨by simp, beside⟩)
  have keyedWithout : (ofPairs (xs ++ ys)).keyed ≠ [] := by
    rw [ofPairs_eq, List.filter_append]
    exact List.ne_nil_of_mem (List.mem_append_right _ kept)
  rw [build_of_beside keyedWith, build_of_beside keyedWithout, fieldsSame]

/-- Of two pairs with the same key the first has no effect. -/
theorem build_superseded (slots : ∀ pair ∈ xs ++ e :: ys, pair.1.IsSlot) (later : d ∈ ys)
    (same : d.1 = e.1) : (ofPairs (xs ++ e :: ys)).build = (ofPairs (xs ++ ys)).build := by
  cases placed : e.1.position? with
  | some index => rw [ofPairs_superseded placed later same]
  | none =>
      have beside := isBeside_iff.mpr ⟨(slots e (by simp)).isKey.isNull, placed⟩
      exact build_superseded_beside slots beside later same

end Superseded

/-! ## Assignments -/

/-- A table after an assignment: the old entry of the slot is removed, and `null` adds no new one.
-/
def assignTo (table : List (Value × Value)) (pair : Value × Value) : List (Value × Value) :=
  let others := table.filter fun other => !other.1.sameSlot pair.1
  if pair.2.isNull then others else others ++ [pair]

/-- The table that assignments make from the empty one, in the order of the assignments in force;
the order matters to keys that share a name only (`build_slots_perm`). -/
def performed (pairs : List (Value × Value)) : List (Value × Value) := pairs.foldl assignTo []

theorem build_replaced (pair : Value × Value) (later : List (Value × Value)) :
    ∀ table before : List (Value × Value),
      (∀ other ∈ before ++ table ++ pair :: later, other.1.IsSlot) →
      (ofPairs (before ++ table.filter (fun other => !other.1.sameSlot pair.1) ++
        pair :: later)).build = (ofPairs (before ++ table ++ pair :: later)).build := by
  intro table
  induction table with
  | nil => exact fun _ _ => rfl
  | cons first table ih =>
      intro before slots
      cases same : first.1.sameSlot pair.1 with
      | true =>
          rw [List.filter_cons_of_neg (by simp [same])]
          have fewer : ∀ other ∈ before ++ table ++ pair :: later, other.1.IsSlot := by
            intro other member
            refine slots other ?_
            simp only [List.mem_append, List.mem_cons] at member ⊢
            obtain (member | member) | member := member
            · exact .inl (.inl member)
            · exact .inl (.inr (.inr member))
            · exact .inr member
          rw [List.append_assoc, List.cons_append] at slots
          rw [ih before fewer, List.append_assoc, List.append_assoc, List.cons_append]
          exact (build_superseded slots (List.mem_append_right _ List.mem_cons_self)
            (Value.eq_of_sameSlot same).symm).symm
      | false =>
          rw [List.filter_cons_of_pos (by simp [same])]
          have moved := ih (before ++ [first]) (by simpa using slots)
          simpa using moved

theorem build_assigned (pairs : List (Value × Value)) : ∀ table : List (Value × Value),
    (∀ pair ∈ table ++ pairs, pair.1.IsSlot) → (∀ pair ∈ pairs, pair.2.isNull = false) →
    (ofPairs (pairs.foldl assignTo table)).build = (ofPairs (table ++ pairs)).build := by
  induction pairs with
  | nil =>
      intro table _ _
      rw [List.append_nil]
      rfl
  | cons pair pairs ih =>
      intro table slots something
      obtain ⟨first, more⟩ := List.forall_mem_cons.mp something
      have assigned : assignTo table pair =
          table.filter (fun other => !other.1.sameSlot pair.1) ++ [pair] := by
        rw [assignTo, if_neg (by simp [first])]
      have replaced := build_replaced pair pairs table [] slots
      have slotsLater : ∀ other ∈ assignTo table pair ++ pairs, other.1.IsSlot := by
        intro other member
        refine slots other ?_
        rw [assigned, List.append_assoc, List.singleton_append] at member
        obtain kept | later := List.mem_append.mp member
        · exact List.mem_append_left _ (List.mem_filter.mp kept).1
        · exact List.mem_append_right _ later
      rw [List.foldl_cons, ih _ slotsLater more, assigned, List.append_assoc, List.singleton_append]
      exact replaced

/-- Adding pairs one by one builds the table that they make as assignments. -/
theorem build_performed {pairs : List (Value × Value)} (slots : ∀ pair ∈ pairs, pair.1.IsSlot)
    (something : ∀ pair ∈ pairs, pair.2.isNull = false) :
    (ofPairs (performed pairs)).build = (ofPairs pairs).build :=
  build_assigned pairs [] slots something

theorem performed_concat (pairs : List (Value × Value)) (pair : Value × Value) :
    performed (pairs ++ [pair]) = assignTo (performed pairs) pair := by
  rw [performed, List.foldl_append]
  rfl

theorem mem_assignTo {table : List (Value × Value)} {pair other : Value × Value} :
    other ∈ assignTo table pair ↔ (other ∈ table ∧ other.1.sameSlot pair.1 = false) ∨
      (other = pair ∧ pair.2.isNull = false) := by
  rw [assignTo]
  cases null : pair.2.isNull <;> simp

/-- A table holds the last assignment to a slot. -/
theorem mem_performed {pairs : List (Value × Value)} {other : Value × Value} :
    other ∈ performed pairs ↔ other.2.isNull = false ∧ ∃ front back,
      pairs = front ++ other :: back ∧ ∀ pair ∈ back, other.1.sameSlot pair.1 = false := by
  induction pairs using List.reverseRecOn with
  | nil => simp [performed]
  | append_singleton pairs pair ih =>
      rw [performed_concat, mem_assignTo, ih]
      constructor
      · rintro (⟨⟨something, front, back, rfl, apart⟩, different⟩ | ⟨rfl, something⟩)
        · refine ⟨something, front, back ++ [pair], by simp, ?_⟩
          exact List.forall_mem_append.mpr ⟨apart, List.forall_mem_singleton.mpr different⟩
        · exact ⟨something, pairs, [], rfl, fun _ member => nomatch member⟩
      · rintro ⟨something, front, back, split, apart⟩
        obtain rfl | ⟨back, last, rfl⟩ := List.eq_nil_or_concat back
        · obtain ⟨_, same⟩ := List.append_inj' split rfl
          obtain rfl : pair = other := List.singleton_inj.mp same
          exact .inr ⟨rfl, something⟩
        · rw [List.concat_eq_append, ← List.cons_append, ← List.append_assoc] at split
          obtain ⟨rfl, same⟩ := List.append_inj' split rfl
          obtain rfl : pair = last := List.singleton_inj.mp same
          rw [List.concat_eq_append] at apart
          obtain ⟨apart, different⟩ := List.forall_mem_append.mp apart
          exact .inl ⟨⟨something, front, back, rfl, apart⟩, different pair List.mem_cons_self⟩

theorem performed_apart (pairs : List (Value × Value)) :
    (performed pairs).Pairwise fun earlier later => earlier.1.sameSlot later.1 = false := by
  induction pairs using List.reverseRecOn with
  | nil => exact List.Pairwise.nil
  | append_singleton pairs pair ih =>
      rw [performed_concat, assignTo]
      split
      · exact ih.filter _
      · refine List.pairwise_append.mpr ⟨ih.filter _, List.pairwise_singleton _ _, ?_⟩
        intro other member last same
        rw [List.mem_singleton.mp same]
        simpa using (List.mem_filter.mp member).2

/-! ## Assignments of `null` -/

/-- Only empty slots are assigned `null`. -/
def Unremoved (pairs : List (Value × Value)) : Prop :=
  pairs.Pairwise fun earlier later => later.2.isNull = true →
    earlier.2.isNull = true ∨ earlier.1.sameSlot later.1 = false

theorem performed_filter {pairs : List (Value × Value)} (unremoved : Unremoved pairs) :
    performed (pairs.filter fun pair => !pair.2.isNull) = performed pairs := by
  induction pairs using List.reverseRecOn with
  | nil => rfl
  | append_singleton pairs pair ih =>
      obtain ⟨front, _, across⟩ := List.pairwise_append.mp unremoved
      rw [List.filter_append, performed_concat]
      cases null : pair.2.isNull with
      | false =>
          rw [List.filter_cons_of_pos (by simp [null]), List.filter_nil, performed_concat, ih front]
      | true =>
          rw [List.filter_cons_of_neg (by simp [null]), List.filter_nil, List.append_nil, ih front]
          have untouched : ∀ other ∈ performed pairs, (!other.1.sameSlot pair.1) = true := by
            intro other member
            obtain ⟨something, before, after, rfl, _⟩ := mem_performed.mp member
            obtain empty | apart := across other (by simp) pair List.mem_cons_self null
            · rw [something] at empty
              cases empty
            · rw [apart]
              rfl
          rw [assignTo, if_pos null]
          exact (List.filter_eq_self.mpr untouched).symm

end TableDraft

end LuaAsset
