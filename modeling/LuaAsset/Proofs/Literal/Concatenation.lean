import LuaAsset.Proofs.Literal.Listing
import LuaAsset.Proofs.Literal.Spans

/-! # Records of concatenated texts

A text is settled if the pass ends outside strings with no open brace.  The line break after it
separates anchors and assignments, so a settled text and the text after it are searched
independently (`located_append_line`). -/

set_option autoImplicit false

namespace LuaAsset

namespace Snippet

/-- The pass over a text ends outside strings and with no open brace. -/
def Settled (s : Bytes) : Prop :=
  (passing .start s []).quoting = .outside ∧ (passing .start s []).braces = []

instance (s : Bytes) : Decidable (Settled s) := inferInstanceAs (Decidable (_ ∧ _))

/-! ## Blocks of anchors -/

/-- The block that an anchor reports, unless the anchor lies before the cursor. -/
def Anchor.block? (a : Anchor) : Option (Nat × Bytes) :=
  a.brace.bind fun b =>
    if b.assigned then none
    else (blockLength? b.text).map fun length => (b.start, b.text.take length)

theorem report_cons (cursor : Nat) (a : Anchor) (later : List Anchor) :
    report cursor (a :: later) =
      if a.position < cursor then report cursor later
      else match a.block? with
        | none => report cursor later
        | some span => span :: report (finish span) later := by
  rw [report]
  by_cases hidden : a.position < cursor
  · rw [if_pos hidden, if_pos hidden]
  · rw [if_neg hidden, if_neg hidden, Anchor.block?]
    cases a.brace with
    | none => rfl
    | some b =>
        cases assigned : b.assigned with
        | true => simp [assigned]
        | false =>
            cases block : blockLength? b.text with
            | none => simp [assigned, block]
            | some length => simp [assigned, block, finish_block block]

theorem report_append {bound : Nat} (as : List Anchor) : ∀ {cursor : Nat}, cursor ≤ bound →
    (∀ a ∈ as, ∀ span, a.block? = some span → finish span ≤ bound) →
    ∃ next ≤ bound, ∀ later,
      report cursor (as ++ later) = report cursor as ++ report next later := by
  induction as with
  | nil => exact fun within _ => ⟨_, within, fun _ => rfl⟩
  | cons a as ih =>
      intro cursor within ends
      obtain ⟨first, more⟩ := List.forall_mem_cons.mp ends
      have skipped := ih within more
      by_cases hidden : a.position < cursor
      · simpa [report_cons, hidden] using skipped
      · cases block : a.block? with
        | none => simpa [report_cons, hidden, block] using skipped
        | some span =>
            simpa [report_cons, hidden, block] using ih (first span block) more

theorem report_before {low high : Nat} (below : low ≤ high) (as : List Anchor)
    (behind : ∀ a ∈ as, high ≤ a.position) : report low as = report high as := by
  induction as with
  | nil => rfl
  | cons a as ih =>
      obtain ⟨first, more⟩ := List.forall_mem_cons.mp behind
      rw [report_cons, report_cons, if_neg (by omega), if_neg (by omega), ih more]

/-! ## Extended texts -/

def Brace.extended (t : Bytes) (b : Brace) : Brace := { b with text := b.text ++ t }

def Anchor.extended (t : Bytes) (a : Anchor) : Anchor :=
  { a with brace := a.brace.map (Brace.extended t) }

def Progress.extended (t : Bytes) (p : Progress) : Progress :=
  { p with braces := p.braces.map (Brace.extended t) }

theorem step_extended (t : Bytes) (p : Progress) (c : UInt8) (rest : Bytes) :
    (p.extended t).step c (rest ++ t) = (p.step c rest).extended t := by
  have quoting : (p.extended t).quoting = p.quoting := rfl
  by_cases outside : p.quoting = .outside
  · by_cases opening : c = Ascii.openBrace
    · subst opening
      rw [step_openBrace outside, step_openBrace (quoting.trans outside)]
      rfl
    · by_cases closing : c = Ascii.closeBrace
      · subst closing
        rw [step_closeBrace outside, step_closeBrace (quoting.trans outside)]
        simp [Progress.extended, Progress.past]
      · simp [Progress.step, Progress.extended, outside, opening, closing]
  · rw [step_quoted outside, step_quoted fun plain => outside (quoting.symm.trans plain)]
    rfl

theorem passing_extended (t w : Bytes) : ∀ p : Progress,
    passing (p.extended t) w t = (passing p w []).extended t := by
  induction w with
  | nil => exact fun _ => rfl
  | cons c w ih =>
      intro p
      rw [passing, passing, step_extended, List.append_nil]
      exact ih (p.step c w)

theorem passed_passing (w rest : Bytes) : ∀ p : Progress,
    (passing p w rest).passed = w.reverse ++ p.passed := by
  induction w with
  | nil => exact fun _ => rfl
  | cons c w ih =>
      intro p
      rw [passing, ih, List.reverse_cons, List.append_assoc]
      rfl

theorem position_passing (w rest : Bytes) : ∀ p : Progress,
    (passing p w rest).position = p.position + w.length := by
  induction w with
  | nil => exact fun _ => rfl
  | cons c w ih =>
      intro p
      have next : (p.step c (w ++ rest)).position = p.position + 1 := rfl
      rw [passing, ih, next, List.length_cons]
      omega

theorem isPrefixOf_line (w rest : Bytes) :
    anchorText.isPrefixOf (w ++ Ascii.lineFeed :: rest) = anchorText.isPrefixOf w := by
  match w with
  | [] => rfl
  | [c] => rfl
  | [c, d] => rfl
  | c :: d :: e :: w => rfl

theorem anchorsWithin_line (rest w : Bytes) : ∀ p : Progress,
    anchorsWithin (p.extended (Ascii.lineFeed :: rest)) w (Ascii.lineFeed :: rest) =
      (anchorsFrom p w).map (Anchor.extended (Ascii.lineFeed :: rest)) := by
  induction w with
  | nil => exact fun _ => rfl
  | cons c w ih =>
      intro p
      have begins := isPrefixOf_line (c :: w) rest
      rw [List.cons_append] at begins
      have innermost : (p.extended (Ascii.lineFeed :: rest)).braces.head? =
          p.braces.head?.map (Brace.extended (Ascii.lineFeed :: rest)) := List.head?_map
      rw [anchorsWithin, anchorsFrom, step_extended, ih, begins, innermost]
      split <;> rfl

theorem closingFrom_append (t w : Bytes) : ∀ {q : Quoting} {depth n : Nat},
    closingFrom q depth w = some n → closingFrom q depth (w ++ t) = some n := by
  induction w with
  | nil =>
      intro q depth n found
      cases found
  | cons c w ih =>
      intro q depth n found
      rw [closingFrom] at found
      rw [List.cons_append, closingFrom]
      split at found
      · rename_i ends
        rw [if_pos ends, found]
      · rename_i goesOn
        obtain ⟨m, further, rfl⟩ := Option.map_eq_some_iff.mp found
        rw [if_neg goesOn]
        dsimp only
        rw [ih further, Option.map_some]

theorem closing_of_passing (w : Bytes) : ∀ {p : Progress} {above outer : List Brace} {b : Brace},
    p.braces = above ++ b :: outer → (passing p w []).braces = [] →
      ∃ n, closingFrom p.quoting (above.length + 1) w = some n := by
  induction w with
  | nil =>
      intro p above outer b split closed
      rw [passing, split] at closed
      simp at closed
  | cons c w ih =>
      intro p above outer b split closed
      rw [passing, List.append_nil] at closed
      rcases closing_step split c w with ⟨_, found⟩ | ⟨above', braces, search⟩
      · exact ⟨1, found⟩
      · obtain ⟨m, further⟩ := ih braces closed
        exact ⟨m + 1, by rw [search, further, Option.map_some]⟩

structure Closing (s : Bytes) (p : Progress) (rest : Bytes) : Prop extends Tracked s p rest where
  closed : (passing p rest []).braces = []

theorem Closing.step {s rest : Bytes} {p : Progress} {c : UInt8}
    (closing : Closing s p (c :: rest)) : Closing s (p.step c rest) rest where
  toTracked := closing.toTracked.step
  closed := by
    have closed := closing.closed
    rwa [passing, List.append_nil] at closed

/-- Every block that starts in a settled text ends in it. -/
theorem exists_block_of_settled {a : Bytes} (settled : Settled a) : ∀ anchor ∈ anchors a, ∀ b,
    anchor.brace = some b → ∃ n, blockLength? b.text = some n ∧ b.start + n ≤ a.length := by
  intro anchor member b brace
  have start : Closing a .start a := ⟨tracked_start a, settled.2⟩
  obtain ⟨p, rest, closing, rfl, _⟩ := exists_point Closing.step a start anchor member
  have kept := List.mem_of_head? brace
  obtain ⟨outer, split⟩ := List.head?_eq_some_iff.mp brace
  have innermost : p.braces = [] ++ b :: outer := split
  obtain ⟨m, found⟩ := closing_of_passing rest innermost closing.closed
  have length := closing.search [] b outer innermost
  rw [show ([] : List Brace).length + 1 = 1 from rfl] at found length
  rw [found, Option.map_some] at length
  refine ⟨_, length, ?_⟩
  have bounds := (closingFrom_bounds b.text length).2
  have before := closing.before b kept
  rw [closing.text b kept, List.length_drop] at bounds
  omega

theorem block?_extended {t : Bytes} {a : Anchor}
    (closes : ∀ b, a.brace = some b → ∃ n, blockLength? b.text = some n) :
    (a.extended t).block? = a.block? := by
  rw [Anchor.block?, Anchor.block?, Anchor.extended]
  cases brace : a.brace with
  | none => rfl
  | some b =>
      obtain ⟨n, found⟩ := closes b brace
      have longer : blockLength? (b.text ++ t) = some n := closingFrom_append t b.text found
      have inside := (closingFrom_bounds b.text found).2
      simp [Brace.extended, found, longer, List.take_append_of_le_length inside]

theorem report_extended {t : Bytes} (as : List Anchor)
    (closes : ∀ a ∈ as, ∀ b, a.brace = some b → ∃ n, blockLength? b.text = some n) :
    ∀ cursor, report cursor (as.map (Anchor.extended t)) = report cursor as := by
  induction as with
  | nil => exact fun _ => rfl
  | cons a as ih =>
      intro cursor
      obtain ⟨first, more⟩ := List.forall_mem_cons.mp closes
      have same : (a.extended t).position = a.position := rfl
      rw [List.map_cons, report_cons, report_cons, block?_extended first, same]
      simp only [ih more]

/-! ## Concatenation -/

def Brace.behind (k : Nat) (b : Brace) : Brace := { b with start := b.start + k }

def Anchor.behind (k : Nat) (a : Anchor) : Anchor :=
  ⟨a.position + k, a.brace.map (Brace.behind k)⟩

def Progress.behind (before : Bytes) (p : Progress) : Progress :=
  ⟨p.quoting, p.braces.map (Brace.behind (before.length + 1)),
    p.passed ++ Ascii.lineFeed :: before.reverse, p.position + (before.length + 1)⟩

def moved (k : Nat) (span : Nat × Bytes) : Nat × Bytes := (span.1 + k, span.2)

theorem isAssignment_line (w before : Bytes) :
    isAssignment (w ++ Ascii.lineFeed :: before) = isAssignment w := by
  match w with
  | [] => rfl
  | [c] => rfl
  | c :: d :: w => rfl

theorem step_behind (before : Bytes) (p : Progress) (c : UInt8) (rest : Bytes) :
    (p.behind before).step c rest = (p.step c rest).behind before := by
  have quoting : (p.behind before).quoting = p.quoting := rfl
  have next : p.position + (before.length + 1) + 1 = p.position + 1 + (before.length + 1) := by
    omega
  by_cases outside : p.quoting = .outside
  · by_cases opening : c = Ascii.openBrace
    · subst opening
      rw [step_openBrace outside, step_openBrace (quoting.trans outside)]
      simp [Progress.behind, Progress.past, Brace.behind, isAssignment_line, next]
    · by_cases closing : c = Ascii.closeBrace
      · subst closing
        rw [step_closeBrace outside, step_closeBrace (quoting.trans outside)]
        simp [Progress.behind, Progress.past, next]
      · simp [Progress.step, Progress.behind, outside, opening, closing, next]
  · rw [step_quoted outside, step_quoted fun plain => outside (quoting.symm.trans plain)]
    simp [Progress.behind, Progress.past, next]

theorem anchorsFrom_behind (before w : Bytes) : ∀ p : Progress,
    anchorsFrom (p.behind before) w =
      (anchorsFrom p w).map (Anchor.behind (before.length + 1)) := by
  induction w with
  | nil => exact fun _ => rfl
  | cons c w ih =>
      intro p
      have innermost : (p.behind before).braces.head? =
          p.braces.head?.map (Brace.behind (before.length + 1)) := List.head?_map
      rw [anchorsFrom, anchorsFrom, step_behind, ih, innermost]
      split <;> rfl

theorem block?_behind (k : Nat) (a : Anchor) :
    (a.behind k).block? = a.block?.map (moved k) := by
  rw [Anchor.block?, Anchor.block?, Anchor.behind]
  cases a.brace with
  | none => rfl
  | some b =>
      cases assigned : b.assigned with
      | true => simp [Brace.behind, assigned]
      | false =>
          cases block : blockLength? b.text <;> simp [Brace.behind, assigned, block, moved]

theorem finish_moved (k : Nat) (span : Nat × Bytes) : finish (moved k span) = finish span + k := by
  simp only [finish, moved]
  omega

theorem report_behind (k : Nat) (as : List Anchor) : ∀ cursor,
    report (cursor + k) (as.map (Anchor.behind k)) = (report cursor as).map (moved k) := by
  induction as with
  | nil => exact fun _ => rfl
  | cons a as ih =>
      intro cursor
      have position : (a.behind k).position = a.position + k := rfl
      rw [List.map_cons, report_cons, report_cons, block?_behind, position]
      by_cases hidden : a.position < cursor
      · rw [if_pos (by omega), if_pos hidden, ih]
      · rw [if_neg (by omega), if_neg hidden]
        cases a.block? with
        | none => exact ih cursor
        | some span =>
            rw [Option.map_some]
            dsimp only
            rw [finish_moved, ih, List.map_cons]

/-! ## Two texts -/

theorem passing_line {a : Bytes} (settled : Settled a) (b : Bytes) :
    (passing .start a (Ascii.lineFeed :: b)).step Ascii.lineFeed b = Progress.start.behind a := by
  obtain ⟨outside, closed⟩ := settled
  have passed := passed_passing a [] .start
  have position := position_passing a [] .start
  have goesOn : passing .start a (Ascii.lineFeed :: b) =
      (passing .start a []).extended (Ascii.lineFeed :: b) :=
    passing_extended (Ascii.lineFeed :: b) a .start
  rw [goesOn]
  generalize passing .start a [] = p at outside closed passed position
  obtain ⟨quoting, braces, before, place⟩ := p
  subst outside closed passed position
  rw [step_ordinary rfl (by decide)]
  simp [Progress.extended, Progress.past, Progress.behind, Progress.start]

/-- If the first of two texts is settled, then joined by a line break they report their own
snippets. -/
theorem located_append_line {a : Bytes} (settled : Settled a) (b : Bytes) :
    located (a ++ Ascii.lineFeed :: b) = located a ++ (located b).map (moved (a.length + 1)) := by
  have closes := exists_block_of_settled settled
  have first : anchorsWithin .start a (Ascii.lineFeed :: b) =
      (anchors a).map (Anchor.extended (Ascii.lineFeed :: b)) := anchorsWithin_line b a .start
  have second : anchorsFrom (passing .start a (Ascii.lineFeed :: b)) (Ascii.lineFeed :: b) =
      (anchors b).map (Anchor.behind (a.length + 1)) := by
    rw [Literal.anchorsFrom_cons _ (by decide), passing_line settled, anchorsFrom_behind]
    rfl
  have ends : ∀ anchor ∈ (anchors a).map (Anchor.extended (Ascii.lineFeed :: b)), ∀ span,
      anchor.block? = some span → finish span ≤ a.length := by
    intro anchor member span block
    obtain ⟨original, inside, rfl⟩ := List.mem_map.mp member
    have ending : ∀ b', original.brace = some b' → ∃ n, blockLength? b'.text = some n :=
      fun b' brace => (closes original inside b' brace).imp fun _ found => found.1
    rw [block?_extended ending, Anchor.block?] at block
    obtain ⟨b', brace, chosen⟩ := Option.bind_eq_some_iff.mp block
    obtain ⟨n, found, within⟩ := closes original inside b' brace
    rw [found, Option.map_some] at chosen
    split at chosen
    · cases chosen
    · rw [← Option.some.inj chosen, finish_block found]
      exact within
  obtain ⟨next, within, parts⟩ := report_append _ (Nat.zero_le a.length) ends
  have later : ∀ anchor ∈ (anchors b).map (Anchor.behind (a.length + 1)),
      a.length + 1 ≤ anchor.position := by
    intro anchor member
    obtain ⟨original, _, rfl⟩ := List.mem_map.mp member
    exact Nat.le_add_left _ _
  calc located (a ++ Ascii.lineFeed :: b)
      = report 0 ((anchors a).map (Anchor.extended (Ascii.lineFeed :: b)) ++
          (anchors b).map (Anchor.behind (a.length + 1))) := by
        rw [located, anchors, anchorsFrom_append, first, second]
    _ = report 0 (anchors a) ++ report next ((anchors b).map (Anchor.behind (a.length + 1))) := by
        rw [parts, report_extended _ fun anchor inside b' brace =>
          (closes anchor inside b' brace).imp fun _ found => found.1]
    _ = report 0 (anchors a) ++
          report (0 + (a.length + 1)) ((anchors b).map (Anchor.behind (a.length + 1))) := by
        rw [Nat.zero_add, report_before (by omega) _ later]
    _ = located a ++ (located b).map (moved (a.length + 1)) := by
        rw [report_behind]
        rfl

end Snippet

open Snippet

theorem snippets_append_line {a : Bytes} (settled : Settled a) (b : Bytes) :
    snippets (a ++ Ascii.lineFeed :: b) = snippets a ++ snippets b := by
  rw [snippets, located_append_line settled, List.map_append, List.map_map]
  rfl

/-- The records of a settled text followed by a line break and any text are those of the two texts.
-/
theorem records_append_line {a : Bytes} (settled : Settled a) (b : Bytes) :
    snippets (a ++ Ascii.lineFeed :: b) = snippets a ++ snippets b ∧
      records (a ++ Ascii.lineFeed :: b) = records a ++ records b := by
  have texts := snippets_append_line settled b
  refine ⟨texts, ?_⟩
  rw [records, texts, List.filterMap_append]
  rfl

theorem records_append_line_strayed :
    Settled (text "'\x7b' \x7bid=1,s='\x7d'\x7d \x7d id") ∧
      snippets (text "'\x7b' \x7bid=1,s='\x7d'\x7d \x7d id\n=\x7bid=2\x7d \x7bid=3\x7d") =
        [text "\x7bid=1,s='\x7d'\x7d", text "\x7bid=3\x7d"] := by
  have settled : Settled (text "'\x7b' \x7bid=1,s='\x7d'\x7d \x7d id") := by decide
  have both := (records_append_line settled (text "=\x7bid=2\x7d \x7bid=3\x7d")).1
  refine ⟨settled, both.trans ?_⟩
  decide

theorem snippets_lines (texts : List Bytes) (settled : ∀ a ∈ texts, Settled a) :
    snippets (texts.flatMap (· ++ [Ascii.lineFeed])) = texts.flatMap snippets := by
  induction texts with
  | nil => rfl
  | cons a texts ih =>
      obtain ⟨first, more⟩ := List.forall_mem_cons.mp settled
      rw [List.flatMap_cons, List.flatMap_cons, List.append_assoc, List.singleton_append,
        snippets_append_line first, ih more]

end LuaAsset
