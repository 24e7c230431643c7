import LuaAsset.Proofs.Literal.Blocks

/-! # No record is missed

The pass notes every occurrence of `id=` with its innermost open brace (`exists_anchor`,
`Complete`).  An anchor with a reportable block is skipped only below the cursor, inside a snippet
that started before it, so it lies in some snippet (`anchor_covered`). -/

set_option autoImplicit false

namespace LuaAsset

namespace Snippet

variable {s : Bytes} {i : Nat} {c : UInt8}

instance (s : Bytes) (b i : Nat) : Decidable (Open s b i) :=
  decidable_of_iff
    (Stands Ascii.openBrace s b ∧ b < i ∧ ∀ j ≤ i, b < j → nesting s b < nesting s j)
    ⟨fun ⟨opens, before, above⟩ => ⟨opens, before, fun j behind upTo => above j upTo behind⟩,
      fun still => ⟨still.opens, still.before, fun j upTo behind => still.above j behind upTo⟩⟩

/-! ## Every open brace is kept -/

theorem Open.back {b : Nat} (still : Open s b (i + 1)) : b = i ∨ Open s b i := by
  rcases Nat.lt_or_eq_of_le (Nat.le_of_lt_succ still.before) with before | here
  · refine .inr ⟨still.opens, before, fun j behind upTo => ?_⟩
    exact still.above j behind (Nat.le_succ_of_le upTo)
  · exact .inl here

structure Complete (s : Bytes) (p : Progress) (rest : Bytes) : Prop extends Counted s p rest where
  kept : ∀ b, Open s b p.position → ∃ brace ∈ p.braces, brace.start = b

theorem complete_start (s : Bytes) : Complete s .start s where
  toCounted := counted_start s
  kept b still := absurd still.before (Nat.not_lt_zero b)

section Step

variable {p : Progress} {rest : Bytes}

theorem Counted.innermost_closed (counted : Counted s p (c :: rest))
    (nested : nesting s (p.position + 1) = nesting s p.position - 1) {top : Brace}
    {outer : List Brace} (split : p.braces = top :: outer) :
    ¬Open s top.start (p.position + 1) := by
  -- the nesting falls back to what it was where the top brace stands
  intro still
  have level := counted.level [] top outer split
  have above := still.above (p.position + 1) still.before (Nat.le_refl _)
  rw [List.length_nil] at level
  omega

theorem Complete.step (complete : Complete s p (c :: rest)) : Complete s (p.step c rest) rest where
  toCounted := complete.toCounted.step
  kept b still := by
    have still : Open s b (p.position + 1) := still
    rcases nesting_cases complete.here with ⟨rfl, opens, _⟩ | ⟨rfl, closes, nested⟩ | ⟨other, _⟩
    · rw [step_openBrace (complete.quoting.trans opens.2)]
      obtain rfl | old := still.back
      · exact ⟨_, List.mem_cons_self, rfl⟩
      · obtain ⟨brace, member, start⟩ := complete.kept b old
        exact ⟨brace, List.mem_cons_of_mem _ member, start⟩
    · rw [step_closeBrace (complete.quoting.trans closes.2)]
      obtain rfl | old := still.back
      · exact absurd (still.opens.unique closes) (by decide)
      · obtain ⟨brace, member, start⟩ := complete.kept b old
        obtain ⟨top, outer, split⟩ := List.exists_cons_of_ne_nil (List.ne_nil_of_mem member)
        have closed := complete.toCounted.innermost_closed nested split
        rw [split] at member
        -- only the top brace is taken away, and that table is no longer open
        obtain rfl | inside := List.mem_cons.mp member
        · exact absurd (start ▸ still) closed
        · exact ⟨brace, by simpa [Progress.past, split] using inside, start⟩
    · have braces : (p.step c rest).braces = p.braces := by
        by_cases outside : p.quoting = .outside
        · obtain ⟨opening, closing⟩ := other (complete.quoting.symm.trans outside)
          simp [Progress.step, opening, closing]
        · rw [step_quoted outside]
          rfl
      rw [braces]
      obtain rfl | old := still.back
      · have same : c = Ascii.openBrace :=
          Option.some.inj (complete.here.symm.trans still.opens.1)
        exact absurd same (other still.opens.2).1
      · exact complete.kept b old

end Step

theorem Complete.head {p : Progress} {rest : Bytes} {b : Nat} (complete : Complete s p rest)
    (innermost : Innermost s b p.position) :
    ∃ brace, p.braces.head? = some brace ∧ brace.start = b := by
  obtain ⟨brace, member, start⟩ := complete.kept b innermost.1
  obtain ⟨top, outer, split⟩ := List.exists_cons_of_ne_nil (List.ne_nil_of_mem member)
  have onTop : top ∈ p.braces := split ▸ List.mem_cons_self
  refine ⟨top, by rw [split]; rfl, ?_⟩
  have inner := innermost.2 top.start (complete.opened top onTop)
  have nested := complete.nested
  rw [split] at nested member
  obtain rfl | below := List.mem_cons.mp member
  · exact start
  · -- a brace below the top is not innermost
    have outside := (List.pairwise_cons.mp nested).1 brace below
    omega

/-! ## Every anchor is noted -/

theorem exists_anchor {I : Progress → Bytes → Prop}
    (step : ∀ {p c rest}, I p (c :: rest) → I (p.step c rest) rest) (w : Bytes) :
    ∀ {p : Progress} {k : Nat}, I p w → anchorText <+: w.drop k →
      ∃ p', I p' (w.drop k) ∧ p'.position = p.position + k ∧
        ⟨p'.position, p'.braces.head?⟩ ∈ anchorsFrom p w := by
  induction w with
  | nil =>
      intro p k _ begins
      rw [List.drop_nil] at begins
      exact absurd (List.prefix_nil.mp begins) (by decide)
  | cons c rest ih =>
      intro p k holds begins
      cases k with
      | zero =>
          have here : anchorText.isPrefixOf (c :: rest) = true :=
            List.isPrefixOf_iff_prefix.mpr begins
          refine ⟨p, holds, rfl, ?_⟩
          rw [anchorsFrom, if_pos here]
          exact List.mem_cons_self
      | succ k =>
          obtain ⟨p', there, position, member⟩ := ih (step holds) begins
          have behind : (p.step c rest).position = p.position + 1 := rfl
          refine ⟨p', there, by omega, ?_⟩
          rw [anchorsFrom]
          split
          · exact List.mem_cons_of_mem _ member
          · exact member

theorem le_position (w : Bytes) : ∀ (p : Progress), ∀ a ∈ anchorsFrom p w,
    p.position ≤ a.position := by
  induction w with
  | nil =>
      intro p a member
      cases member
  | cons c rest ih =>
      intro p a member
      obtain rfl | later := mem_anchorsFrom_cons member
      · exact Nat.le_refl _
      · exact Nat.le_of_succ_le (ih _ a later)

theorem pairwise_position (w : Bytes) : ∀ p : Progress,
    (anchorsFrom p w).Pairwise fun first second => first.position < second.position := by
  induction w with
  | nil => exact fun _ => List.Pairwise.nil
  | cons c rest ih =>
      intro p
      rw [anchorsFrom]
      split
      · exact List.pairwise_cons.mpr ⟨fun a later => le_position rest _ a later, ih _⟩
      · exact ih _

/-! ## Every block is found -/

theorem closingFrom_of_nesting (w : Bytes) : ∀ {depth i stop : Nat}, w = s.drop i → 0 < depth →
    i < stop → Stands Ascii.closeBrace s (stop - 1) →
    nesting s stop = nesting s i - depth →
    (∀ j, i ≤ j → j < stop → nesting s i - depth < nesting s j) →
    closingFrom (quotingAt s i) depth w = some (stop - i) := by
  induction w with
  | nil =>
      intro depth i stop left _ ahead closes _ _
      have inside := (List.getElem?_eq_some_iff.mp closes.1).1
      have ended := congrArg List.length left
      rw [List.length_nil, List.length_drop] at ended
      omega
  | cons c rest ih =>
      intro depth i stop left positive ahead closes level between
      obtain ⟨here, next⟩ := byte_at left
      -- the search ends at this byte, or goes on from the next one at a depth that fits the nesting
      by_cases ends : quotingAt s i = .outside ∧ c = Ascii.closeBrace ∧ depth = 1
      · rw [closingFrom, if_pos ends]
        obtain ⟨outside, rfl, rfl⟩ := ends
        have lower := nesting_closed ⟨here, outside⟩
        have last : stop = i + 1 := by
          refine Nat.le_antisymm (Nat.le_of_not_lt fun further => ?_) ahead
          have higher := between (i + 1) (Nat.le_succ i) further
          omega
        rw [last, Nat.add_sub_cancel_left]
      · obtain ⟨inner, above, same, search⟩ := closingFrom_further here positive ends rest
        have further : i + 1 < stop := by
          refine Nat.lt_of_le_of_ne ahead fun last => ends ?_
          subst last
          rw [Nat.add_sub_cancel] at closes
          have lower := nesting_closed closes
          exact ⟨closes.2, Option.some.inj (here.symm.trans closes.1), by omega⟩
        rw [search, ih next above further closes (by omega) fun j from_ upTo => ?_]
        · rw [Option.map_some]
          congr 1
          omega
        · have bound := between j (Nat.le_of_succ_le from_) upTo
          omega

theorem length_of_block {start stop : Nat} (block : Block s start stop) :
    blockLength? (s.drop start) = some (stop - start) := by
  have opens := block.opens
  have nested := nesting_opened opens
  have shape : s.drop start = Ascii.openBrace :: s.drop (start + 1) := by
    rw [List.drop_eq_getElem?_toList_append, opens.1]
    rfl
  have outside : quotingAt s (start + 1) = .outside := by
    rw [quotingAt_succ opens.1, opens.2]
    decide
  have ahead : start + 1 < stop := by
    refine Nat.lt_of_le_of_ne block.before fun last => ?_
    have level := block.level
    rw [← last] at level
    omega
  have found : closingFrom .outside 1 (s.drop (start + 1)) = some (stop - (start + 1)) := by
    rw [← outside]
    refine closingFrom_of_nesting _ rfl Nat.one_pos ahead block.closes ?_ fun j from_ upTo => ?_
    · rw [block.level]
      omega
    · have above := block.above j from_ upTo
      omega
  rw [blockLength?, shape, closingFrom_openBrace, found, Option.map_some]
  congr 1
  omega

/-! ## Skipped anchors -/

/-- An anchor lies in the block of its brace. -/
def Within (a : Anchor) : Prop :=
  ∀ b n, a.brace = some b → blockLength? b.text = some n →
    b.start ≤ a.position ∧ a.position < b.start + n

theorem within_block (s : Bytes) : ∀ a ∈ anchors s, Within a := by
  intro a member b n brace block
  refine ⟨?_, position_lt_block s a member b n brace block⟩
  obtain ⟨p, rest, tracked, rfl, _⟩ := exists_point Tracked.step s (tracked_start s) a member
  exact Nat.le_of_lt (tracked.before b (List.mem_of_head? brace))

/-- An anchor with a reportable block lies before the cursor or inside a reported snippet. -/
theorem covered_report (as : List Anchor) : ∀ cursor : Nat,
    as.Pairwise (fun first second => first.position < second.position) → (∀ a ∈ as, Within a) →
    ∀ a ∈ as, ∀ b n, a.brace = some b → b.assigned = false → blockLength? b.text = some n →
      a.position < cursor ∨
        ∃ span ∈ report cursor as, span.1 ≤ a.position ∧ a.position < finish span := by
  induction as with
  | nil =>
      intro cursor _ _ a member
      cases member
  | cons first later ih =>
      intro cursor ordered within a member b n brace free block
      obtain ⟨before, orderedLater⟩ := List.pairwise_cons.mp ordered
      obtain ⟨withinFirst, withinLater⟩ := List.forall_mem_cons.mp within
      obtain rfl | among := List.mem_cons.mp member
      · by_cases hidden : a.position < cursor
        · exact .inl hidden
        · refine .inr ⟨(b.start, b.text.take n), ?_, ?_⟩
          · rw [report, if_neg hidden, brace]
            simp [free, block]
          · rw [finish_block block]
            exact withinFirst b n brace block
      · obtain same | ⟨_, b', n', brace', _, block', same⟩ := report_cons_cases cursor first later
        · rw [same]
          exact ih cursor orderedLater withinLater a among b n brace free block
        · rw [same]
          obtain skipped | ⟨span, reported, inside⟩ :=
            ih (b'.start + n') orderedLater withinLater a among b n brace free block
          · -- the cursor is at the end of the block of an earlier anchor
            have start := (withinFirst b' n' brace' block').1
            have order := before a among
            refine .inr ⟨_, List.mem_cons_self, ?_, ?_⟩
            · exact Nat.le_of_lt (Nat.lt_of_le_of_lt start order)
            · rw [finish_block block']
              exact skipped
          · exact .inr ⟨span, List.mem_cons_of_mem _ reported, inside⟩

theorem located_block {span : Nat × Bytes} (member : span ∈ located s) :
    Block s span.1 (finish span) ∧ span.2 <+: s.drop span.1 := by
  obtain ⟨a, among, _, b, n, brace, _, length, rfl⟩ :=
    mem_report _ (position_lt_block s) member
  obtain ⟨p, rest, counted, rfl, _⟩ := exists_point Counted.step s (counted_start s) a among
  have kept := List.mem_of_head? brace
  have opens := (counted.opened b kept).opens
  rw [finish_block length]
  rw [counted.text b kept] at length ⊢
  exact ⟨block_of_length opens length, List.take_prefix n _⟩

/-- Every occurrence of `id=` whose innermost open table is closed and not assigned lies inside a
located snippet. -/
theorem anchor_covered {start stop : Nat} (begins : anchorText <+: s.drop i)
    (innermost : Innermost s start i) (unassigned : ¬[Ascii.equals] <:+ s.take start)
    (unassignedOuter : ¬[Ascii.equals, Ascii.openBrace] <:+ s.take start)
    (block : Block s start stop) :
    ∃ first snippet, (first, snippet) ∈ located s ∧ snippet ∈ snippets s ∧
      snippet <+: s.drop first ∧ first ≤ i ∧ i + anchorText.length ≤ first + snippet.length := by
  obtain ⟨p, complete, position, member⟩ := exists_anchor Complete.step s (complete_start s) begins
  rw [show Progress.start.position = 0 from rfl, Nat.zero_add] at position
  subst position
  obtain ⟨brace, top, rfl⟩ := complete.head innermost
  have kept := List.mem_of_head? top
  have free : brace.assigned = false := by
    rw [complete.assigned brace kept]
    exact (isAssignment_reverse_eq_false_iff _).mpr ⟨unassigned, unassignedOuter⟩
  have length : blockLength? brace.text = some (stop - brace.start) := by
    rw [complete.text brace kept]
    exact length_of_block block
  obtain ⟨⟨⟩⟩ | ⟨span, reported, from_, upTo⟩ :=
    covered_report (anchors s) 0 (pairwise_position s .start) (within_block s) _ member brace _ top
      free length
  obtain ⟨reportedBlock, shape⟩ := located_block reported
  exact ⟨span.1, span.2, reported, List.mem_map_of_mem reported, shape, from_,
    anchor_le begins reportedBlock.closes upTo⟩

def sheltered : Bytes := text "'\x7b'\x7bid=1,\x7bid=2\x7d\x7d"

theorem anchor_covered_sheltered :
    anchorText <+: sheltered.drop 10 ∧ Innermost sheltered 9 10 ∧
      ¬[Ascii.equals] <:+ sheltered.take 9 ∧
      ¬[Ascii.equals, Ascii.openBrace] <:+ sheltered.take 9 ∧ Block sheltered 9 15 ∧
      ∃ first snippet, (first, snippet) ∈ located sheltered ∧ snippet ∈ snippets sheltered ∧
        snippet <+: sheltered.drop first ∧ first ≤ 10 ∧
        10 + anchorText.length ≤ first + snippet.length := by
  have begins : anchorText <+: sheltered.drop 10 := by decide
  have innermost : Innermost sheltered 9 10 := Open.innermost (by decide) (by decide)
  have unassigned : ¬[Ascii.equals] <:+ sheltered.take 9 := by decide
  have unassignedOuter : ¬[Ascii.equals, Ascii.openBrace] <:+ sheltered.take 9 := by decide
  have block : Block sheltered 9 15 := block_of_length (by decide) (n := 6) (by decide)
  exact ⟨begins, innermost, unassigned, unassignedOuter, block,
    anchor_covered begins innermost unassigned unassignedOuter block⟩

end Snippet

end LuaAsset
