import LuaAsset.Literal.Snippet

/-! # Positions of snippets

The search for a closing brace starts afresh at its opening brace and runs in step with the pass
(`Tracked`).  So anchors lie inside their blocks (`Tracked.block`), and snippets are disjoint or
nested; a later one may contain an earlier one, since the cursor is compared with anchors and not
with braces (`located_nested`). -/

set_option autoImplicit false

namespace LuaAsset

namespace Snippet

/-! ## One byte -/

/-- The effect of a byte on the open braces and on a search that is in step with the pass. -/
theorem step_cases (p : Progress) (c : UInt8) (rest : Bytes) :
    (p.quoting = .outside ∧ c = Ascii.openBrace ∧
      (p.step c rest).braces = ⟨p.position, isAssignment p.passed, c :: rest⟩ :: p.braces ∧
      ∀ depth, closingFrom p.quoting depth (c :: rest) =
        (closingFrom (p.step c rest).quoting (depth + 1) rest).map (· + 1)) ∨
    ((p.step c rest).braces = p.braces.drop 1 ∧ closingFrom p.quoting 1 (c :: rest) = some 1 ∧
      ∀ depth, closingFrom p.quoting (depth + 2) (c :: rest) =
        (closingFrom (p.step c rest).quoting (depth + 1) rest).map (· + 1)) ∨
    ((p.step c rest).braces = p.braces ∧
      ∀ depth, closingFrom p.quoting depth (c :: rest) =
        (closingFrom (p.step c rest).quoting depth rest).map (· + 1)) := by
  obtain ⟨quoting, braces, passed, position⟩ := p
  by_cases outside : quoting = .outside
  · subst outside
    by_cases opening : c = Ascii.openBrace
    · subst opening
      refine .inl ⟨rfl, rfl, rfl, fun depth => ?_⟩
      have other : Ascii.openBrace ≠ Ascii.closeBrace := by decide
      rw [closingFrom, if_neg fun closing => other closing.2.1]
      rfl
    · by_cases closing : c = Ascii.closeBrace
      · subst closing
        refine .inr (.inl ⟨rfl, rfl, fun depth => ?_⟩)
        rw [closingFrom, if_neg (by simp)]
        rfl
      · refine .inr (.inr ⟨by simp [Progress.step, opening, closing], fun depth => ?_⟩)
        simp [closingFrom, Progress.step, opening, closing]
  · refine .inr (.inr ⟨by simp [Progress.step, outside], fun depth => ?_⟩)
    simp [closingFrom, Progress.step, outside]

theorem closing_step {p : Progress} {above outer : List Brace} {b : Brace}
    (split : p.braces = above ++ b :: outer) (c : UInt8) (rest : Bytes) :
    ((p.step c rest).braces = outer ∧
      closingFrom p.quoting (above.length + 1) (c :: rest) = some 1) ∨
    ∃ above', (p.step c rest).braces = above' ++ b :: outer ∧
      closingFrom p.quoting (above.length + 1) (c :: rest) =
        (closingFrom (p.step c rest).quoting (above'.length + 1) rest).map (· + 1) := by
  obtain ⟨_, _, braces, search⟩ | ⟨braces, found, search⟩ | ⟨braces, search⟩ := step_cases p c rest
  · exact .inr ⟨_ :: above, by rw [braces, split]; rfl, search _⟩
  · cases above with
    | nil => exact .inl ⟨by rw [braces, split]; rfl, found⟩
    | cons inner above => exact .inr ⟨above, by rw [braces, split]; rfl, search _⟩
  · exact .inr ⟨above, by rw [braces, split], search _⟩

/-! ## The braces of anchors -/

theorem mem_anchorsFrom_cons {p : Progress} {c : UInt8} {rest : Bytes} {a : Anchor}
    (member : a ∈ anchorsFrom p (c :: rest)) :
    a = ⟨p.position, p.braces.head?⟩ ∨ a ∈ anchorsFrom (p.step c rest) rest := by
  rw [anchorsFrom] at member
  split at member
  · exact List.mem_cons.mp member
  · exact .inr member

theorem brace_opened (w : Bytes) : ∀ (p : Progress), ∀ a ∈ anchorsFrom p w, ∀ b, a.brace = some b →
    b ∈ p.braces ∨ p.position ≤ b.start := by
  induction w with
  | nil =>
      intro p a member
      cases member
  | cons c rest ih =>
      intro p a member b brace
      obtain rfl | later := mem_anchorsFrom_cons member
      · exact .inl (List.mem_of_head? brace)
      · obtain old | new := ih _ a later b brace
        · obtain ⟨_, _, braces, _⟩ | ⟨braces, _⟩ | ⟨braces, _⟩ := step_cases p c rest
          · rw [braces] at old
            obtain rfl | old := List.mem_cons.mp old
            · exact .inr (Nat.le_refl _)
            · exact .inl old
          · rw [braces] at old
            exact .inl (List.mem_of_mem_drop old)
          · rw [braces] at old
            exact .inl old
        · exact .inr (Nat.le_of_succ_le new)

theorem brace_behind (w : Bytes) : ∀ {p : Progress} {above outer : List Brace} {b : Brace}
    {n : Nat}, p.braces = above ++ b :: outer →
    closingFrom p.quoting (above.length + 1) w = some n →
    ∀ a ∈ anchorsFrom p w, p.position + n ≤ a.position → ∀ b', a.brace = some b' →
      b' ∈ outer ∨ p.position + n ≤ b'.start := by
  induction w with
  | nil =>
      intro p above outer b n _ _ a member
      cases member
  | cons c rest ih =>
      intro p above outer b n split closing a member behind b' brace
      obtain ⟨braces, found⟩ | ⟨above', braces, search⟩ := closing_step split c rest
      · obtain rfl : n = 1 := Option.some.inj (closing.symm.trans found)
        obtain rfl | later := mem_anchorsFrom_cons member
        · exact absurd behind (Nat.not_succ_le_self p.position)
        · rw [← braces]
          exact brace_opened rest _ a later b' brace
      · rw [search] at closing
        obtain ⟨m, further, rfl⟩ := Option.map_eq_some_iff.mp closing
        have ahead : p.position + (m + 1) = (p.step c rest).position + m := by
          rw [show (p.step c rest).position = p.position + 1 from rfl]
          omega
        obtain rfl | later := mem_anchorsFrom_cons member
        · exact absurd behind (by simp)
        · rw [ahead] at behind ⊢
          exact ih braces further a later behind b' brace

/-! ## The search in step with the pass -/

/-- Invariant of the pass: the open braces lie before the current place, properly nested, and the
search for the end of each block has reached that place. -/
structure Tracked (s : Bytes) (p : Progress) (rest : Bytes) : Prop where
  left : rest = s.drop p.position
  text : ∀ b ∈ p.braces, b.text = s.drop b.start
  before : ∀ b ∈ p.braces, b.start < p.position
  nested : p.braces.Pairwise fun inner outer => outer.start < inner.start
  search : ∀ above b outer, p.braces = above ++ b :: outer →
    blockLength? b.text =
      (closingFrom p.quoting (above.length + 1) rest).map (· + (p.position - b.start))

theorem tracked_start (s : Bytes) : Tracked s .start s where
  left := rfl
  text := by simp [Progress.start]
  before := by simp [Progress.start]
  nested := List.Pairwise.nil
  search above b outer split := by simp [Progress.start] at split

theorem byte_at {s rest : Bytes} {c : UInt8} {i : Nat} (left : c :: rest = s.drop i) :
    s[i]? = some c ∧ rest = s.drop (i + 1) := by
  constructor
  · rw [← List.head?_drop, ← left]
    rfl
  · rw [← List.tail_drop, ← left]
    rfl

/-- A search that advances by a byte stays in step with the pass. -/
theorem search_further {q : Quoting} {depth start position : Nat} {found : Option Nat}
    {rest : Bytes} (before : start < position)
    (further : found = (closingFrom q depth rest).map (· + 1)) :
    found.map (· + (position - start)) =
      (closingFrom q depth rest).map (· + (position + 1 - start)) := by
  rw [further, Option.map_map]
  congr 1
  funext n
  simp only [Function.comp_apply]
  omega

theorem Tracked.step {s : Bytes} {p : Progress} {c : UInt8} {rest : Bytes}
    (tracked : Tracked s p (c :: rest)) : Tracked s (p.step c rest) rest := by
  have position : (p.step c rest).position = p.position + 1 := rfl
  have left := (byte_at tracked.left).2
  have before : ∀ b ∈ p.braces, b.start < p.position + 1 :=
    fun b member => Nat.lt_succ_of_lt (tracked.before b member)
  have behind : ∀ {above outer : List Brace} {b : Brace}, p.braces = above ++ b :: outer →
      b.start < p.position := fun split =>
    tracked.before _ (split ▸ List.mem_append_right _ List.mem_cons_self)
  obtain ⟨outside, opening, braces, search⟩ | ⟨braces, found, search⟩ | ⟨braces, search⟩ :=
    step_cases p c rest
  · refine ⟨left, ?_, ?_, ?_, ?_⟩
    · rw [braces]
      exact List.forall_mem_cons.mpr ⟨tracked.left, tracked.text⟩
    · rw [braces, position]
      exact List.forall_mem_cons.mpr ⟨Nat.lt_succ_self _, before⟩
    · rw [braces]
      exact List.pairwise_cons.mpr ⟨tracked.before, tracked.nested⟩
    · intro above b outer split
      rw [braces] at split
      rw [position]
      cases above with
      | nil =>
          -- the brace itself: its search starts with this byte
          obtain ⟨rfl, rfl⟩ := List.cons.inj split
          rw [blockLength?, ← outside, search 0]
          simp
      | cons new above =>
          have split := (List.cons.inj split).2
          rw [tracked.search above b outer split]
          exact search_further (behind split) (search (above.length + 1))
  · refine ⟨left, ?_, ?_, ?_, ?_⟩
    · rw [braces]
      exact fun b member => tracked.text b (List.mem_of_mem_drop member)
    · rw [braces]
      exact fun b member => before b (List.mem_of_mem_drop member)
    · rw [braces]
      exact tracked.nested.sublist (List.drop_sublist 1 _)
    · intro above b outer split
      rw [braces] at split
      cases whole : p.braces with
      | nil => simp [whole] at split
      | cons closed others =>
          rw [whole, List.drop_one, List.tail_cons] at split
          have full : p.braces = (closed :: above) ++ b :: outer := by rw [whole, split]; rfl
          rw [position, tracked.search _ b outer full]
          exact search_further (behind full) (search above.length)
  · refine ⟨left, ?_, ?_, ?_, ?_⟩
    · rw [braces]
      exact tracked.text
    · rw [braces]
      exact before
    · rw [braces]
      exact tracked.nested
    · intro above b outer split
      rw [braces] at split
      rw [position, tracked.search above b outer split]
      exact search_further (behind split) (search (above.length + 1))

theorem exists_point {I : Progress → Bytes → Prop}
    (step : ∀ {p c rest}, I p (c :: rest) → I (p.step c rest) rest) (w : Bytes) :
    ∀ {p : Progress}, I p w → ∀ a ∈ anchorsFrom p w, ∃ p' rest, I p' rest ∧
      a = ⟨p'.position, p'.braces.head?⟩ ∧ anchorText <+: rest := by
  induction w with
  | nil =>
      intro p _ a member
      cases member
  | cons c rest ih =>
      intro p holds a member
      rw [anchorsFrom] at member
      split at member
      · rename_i begins
        rcases List.mem_cons.mp member with rfl | later
        · exact ⟨p, c :: rest, holds, rfl, List.isPrefixOf_iff_prefix.mp begins⟩
        · exact ih (step holds) a later
      · exact ih (step holds) a member

/-! ## Blocks -/

theorem closingFrom_bounds (w : Bytes) : ∀ {q : Quoting} {depth n : Nat},
    closingFrom q depth w = some n → 0 < n ∧ n ≤ w.length := by
  induction w with
  | nil =>
      intro q depth n found
      cases found
  | cons c rest ih =>
      intro q depth n found
      rw [closingFrom] at found
      rw [List.length_cons]
      split at found
      · obtain rfl := Option.some.inj found
        exact ⟨Nat.one_pos, Nat.succ_le_succ (Nat.zero_le _)⟩
      · obtain ⟨m, further, rfl⟩ := Option.map_eq_some_iff.mp found
        exact ⟨Nat.succ_pos m, Nat.succ_le_succ (ih further).2⟩

theorem Tracked.block {s : Bytes} {p : Progress} {rest : Bytes} (tracked : Tracked s p rest)
    {b : Brace} (innermost : p.braces.head? = some b) {n : Nat}
    (block : blockLength? b.text = some n) :
    ∃ outer m, p.braces = b :: outer ∧ closingFrom p.quoting 1 rest = some m ∧ 0 < m ∧
      b.start + n = p.position + m := by
  obtain ⟨outer, split⟩ := List.head?_eq_some_iff.mp innermost
  have before := tracked.before b (List.mem_of_head? innermost)
  rw [tracked.search [] b outer split] at block
  obtain ⟨m, closing, rfl⟩ := Option.map_eq_some_iff.mp block
  exact ⟨outer, m, split, closing, (closingFrom_bounds rest closing).1, by omega⟩

theorem position_lt_block (s : Bytes) : ∀ a ∈ anchors s, ∀ b n, a.brace = some b →
    blockLength? b.text = some n → a.position < b.start + n := by
  intro a member b n brace block
  obtain ⟨p, rest, tracked, rfl, _⟩ := exists_point Tracked.step s (tracked_start s) a member
  obtain ⟨_, m, _, _, positive, ends⟩ := tracked.block brace block
  rw [ends]
  exact Nat.lt_add_of_pos_right positive

/-- Two anchors, where the second one lies after the block of the first: its brace opens before that
block or after it. -/
def Clears (first second : Anchor) : Prop :=
  ∀ b n, first.brace = some b → blockLength? b.text = some n → b.start + n ≤ second.position →
    ∀ b', second.brace = some b' → b'.start < b.start ∨ b.start + n ≤ b'.start

theorem Tracked.pairwise_clears {s : Bytes} (w : Bytes) : ∀ {p : Progress}, Tracked s p w →
    (anchorsFrom p w).Pairwise Clears := by
  induction w with
  | nil => exact fun _ => List.Pairwise.nil
  | cons c rest ih =>
      intro p tracked
      have later := ih tracked.step
      by_cases here : anchorText.isPrefixOf (c :: rest)
      · rw [anchorsFrom, if_pos here]
        refine List.pairwise_cons.mpr
          ⟨fun a member b n innermost block behind b' brace => ?_, later⟩
        obtain ⟨outer, m, split, closing, _, finish⟩ := tracked.block innermost block
        have among : a ∈ anchorsFrom p (c :: rest) := by
          rw [anchorsFrom, if_pos here]
          exact List.mem_cons_of_mem _ member
        rw [finish] at behind ⊢
        have alone : p.braces = [] ++ b :: outer := split
        refine (brace_behind (c :: rest) alone closing a among behind b' brace).imp_left
          fun around => ?_
        have nested := tracked.nested
        rw [split] at nested
        exact (List.pairwise_cons.mp nested).1 b' around
      · rw [anchorsFrom, if_neg here]
        exact later

/-! ## Reports -/

/-- An anchor is skipped, or its block is reported and the cursor moves to the end of the block. -/
theorem report_cons_cases (cursor : Nat) (a : Anchor) (later : List Anchor) :
    report cursor (a :: later) = report cursor later ∨
    (cursor ≤ a.position ∧ ∃ b n, a.brace = some b ∧ b.assigned = false ∧
      blockLength? b.text = some n ∧
      report cursor (a :: later) = (b.start, b.text.take n) :: report (b.start + n) later) := by
  by_cases hidden : a.position < cursor
  · exact .inl (by rw [report, if_pos hidden])
  · have shown := Nat.le_of_not_lt hidden
    cases brace : a.brace with
    | none => exact .inl (by rw [report, if_neg hidden, brace])
    | some b =>
        cases assigned : b.assigned with
        | true => exact .inl (by simp [report, brace, assigned])
        | false =>
            cases block : blockLength? b.text with
            | none => exact .inl (by simp [report, brace, assigned, block])
            | some n =>
                refine .inr ⟨shown, b, n, rfl, assigned, block, ?_⟩
                rw [report, if_neg hidden, brace]
                simp [assigned, block]

/-- A reported snippet is the block of an anchor after the cursor, provided that anchors lie in
their blocks. -/
theorem mem_report {span : Nat × Bytes} (as : List Anchor) : ∀ {cursor : Nat},
    (∀ a ∈ as, ∀ b n, a.brace = some b → blockLength? b.text = some n →
      a.position < b.start + n) →
    span ∈ report cursor as → ∃ a ∈ as, cursor ≤ a.position ∧ ∃ b n, a.brace = some b ∧
      b.assigned = false ∧ blockLength? b.text = some n ∧ span = (b.start, b.text.take n) := by
  induction as with
  | nil =>
      intro cursor _ member
      cases member
  | cons a later ih =>
      intro cursor within member
      have withinLater := (List.forall_mem_cons.mp within).2
      obtain same | ⟨shown, b, n, brace, free, block, same⟩ := report_cons_cases cursor a later
      · rw [same] at member
        obtain ⟨a', among, reported⟩ := ih withinLater member
        exact ⟨a', List.mem_cons_of_mem _ among, reported⟩
      · rw [same] at member
        obtain rfl | member := List.mem_cons.mp member
        · exact ⟨a, List.mem_cons_self, shown, b, n, brace, free, block, rfl⟩
        · obtain ⟨a', among, behind, reported⟩ := ih withinLater member
          have ahead := within a List.mem_cons_self b n brace block
          exact ⟨a', List.mem_cons_of_mem _ among, by omega, reported⟩

def finish (span : Nat × Bytes) : Nat := span.1 + span.2.length

/-- A snippet reported later ends after an earlier one, and lies after it or around it. -/
def Follows (earlier later : Nat × Bytes) : Prop :=
  finish earlier < finish later ∧ (finish earlier ≤ later.1 ∨ later.1 < earlier.1)

instance (earlier later : Nat × Bytes) : Decidable (Follows earlier later) :=
  inferInstanceAs (Decidable (_ ∧ _))

theorem finish_block {b : Brace} {n : Nat} (block : blockLength? b.text = some n) :
    finish (b.start, b.text.take n) = b.start + n := by
  rw [finish, List.length_take, Nat.min_eq_left (closingFrom_bounds b.text block).2]

theorem pairwise_report {as : List Anchor} (clears : as.Pairwise Clears) : ∀ {cursor : Nat},
    (∀ a ∈ as, ∀ b n, a.brace = some b → blockLength? b.text = some n →
      a.position < b.start + n) →
    (report cursor as).Pairwise Follows := by
  induction as with
  | nil => exact fun _ => List.Pairwise.nil
  | cons a later ih =>
      intro cursor within
      obtain ⟨first, clearsLater⟩ := List.pairwise_cons.mp clears
      have withinLater := (List.forall_mem_cons.mp within).2
      obtain same | ⟨_, b, n, brace, _, block, same⟩ := report_cons_cases cursor a later
      · rw [same]
        exact ih clearsLater withinLater
      · rw [same]
        refine List.pairwise_cons.mpr ⟨fun span member => ?_, ih clearsLater withinLater⟩
        obtain ⟨a', among, behind, b', n', brace', _, block', rfl⟩ :=
          mem_report later withinLater member
        rw [Follows, finish_block block, finish_block block']
        have ahead := withinLater a' among b' n' brace' block'
        exact ⟨by omega, (first a' among b n brace block behind b' brace').symm⟩

/-- Every snippet is the part of the text at its place.  Snippets are reported in the order of their
ends, and a later one lies after or around an earlier one. -/
theorem located_nested (s : Bytes) :
    (∀ span ∈ located s, span.2 <+: s.drop span.1) ∧ (located s).Pairwise Follows := by
  have within := position_lt_block s
  constructor
  · intro span member
    obtain ⟨a, among, _, b, n, brace, _, _, rfl⟩ := mem_report _ within member
    obtain ⟨p, rest, tracked, rfl, _⟩ := exists_point Tracked.step s (tracked_start s) a among
    rw [← tracked.text b (List.mem_of_head? brace)]
    exact List.take_prefix n b.text
  · exact pairwise_report ((tracked_start s).pairwise_clears s) within

/-- A record inside a table without a name: both the record and the table around it are reported. -/
theorem located_around :
    located (text "\x7b \x7bid=1\x7d, id=2\x7d") =
      [(2, text "\x7bid=1\x7d"), (0, text "\x7b \x7bid=1\x7d, id=2\x7d")] ∧
    ¬(located (text "\x7b \x7bid=1\x7d, id=2\x7d")).Pairwise
      fun earlier later => finish earlier ≤ later.1 := by
  have reported : located (text "\x7b \x7bid=1\x7d, id=2\x7d") =
      [(2, text "\x7bid=1\x7d"), (0, text "\x7b \x7bid=1\x7d, id=2\x7d")] := by
    decide
  rw [reported]
  exact ⟨rfl, by decide⟩

end Snippet

end LuaAsset
