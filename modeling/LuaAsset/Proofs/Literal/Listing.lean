import Mathlib
import LuaAsset.Proofs.Literal.Balance
import LuaAsset.Proofs.Literal.RoundTrip
import LuaAsset.Records

/-! # The records of a listing

A listing assigns one table to a name, with one record per line.  Each record is a balanced block
that opens with an anchor, so it is reported as a whole (`report_block`), and no anchor lies between
records (`records_listing`). -/

set_option autoImplicit false

namespace LuaAsset

open Literal

namespace Snippet

/-! ## Anchors of a part -/

/-- The anchors that begin in a text, given the bytes after it. -/
def anchorsWithin (p : Progress) : Bytes → Bytes → List Anchor
  | [], _ => []
  | c :: w, rest =>
      let later := anchorsWithin (p.step c (w ++ rest)) w rest
      if anchorText.isPrefixOf (c :: (w ++ rest)) then ⟨p.position, p.braces.head?⟩ :: later
      else later

theorem anchorsFrom_append (p : Progress) (w rest : Bytes) :
    anchorsFrom p (w ++ rest) = anchorsWithin p w rest ++ anchorsFrom (passing p w rest) rest := by
  induction w generalizing p with
  | nil => rfl
  | cons c w ih =>
      rw [List.cons_append, anchorsFrom, anchorsWithin, passing, ih]
      split <;> rfl

theorem mem_anchorsWithin_cons {p : Progress} {c : UInt8} {w rest : Bytes} {a : Anchor}
    (member : a ∈ anchorsWithin p (c :: w) rest) :
    a = ⟨p.position, p.braces.head?⟩ ∨ a ∈ anchorsWithin (p.step c (w ++ rest)) w rest := by
  rw [anchorsWithin] at member
  split at member
  · exact List.mem_cons.mp member
  · exact .inr member

theorem position_lt (w rest : Bytes) : ∀ (p : Progress), ∀ a ∈ anchorsWithin p w rest,
    a.position < p.position + w.length := by
  induction w with
  | nil =>
      intro p a member
      cases member
  | cons c w ih =>
      intro p a member
      rw [List.length_cons]
      obtain rfl | later := mem_anchorsWithin_cons member
      · exact Nat.lt_add_of_pos_right (Nat.succ_pos _)
      · have bound := ih _ a later
        rw [show (p.step c (w ++ rest)).position = p.position + 1 from rfl] at bound
        omega

theorem anchorsWithin_eq_nil {w : Bytes} (free : 0x69 ∉ w) (rest : Bytes) :
    ∀ p, anchorsWithin p w rest = [] := by
  induction w with
  | nil => exact fun _ => rfl
  | cons c w ih =>
      intro p
      obtain ⟨first, more⟩ := List.ne_and_not_mem_of_not_mem_cons free
      rw [anchorsWithin, if_neg (by simp [anchorText, first])]
      exact ih more _

theorem brace_eq_none {w : Bytes} (free : Ascii.openBrace ∉ w) (rest : Bytes) :
    ∀ p : Progress, p.braces = [] → ∀ a ∈ anchorsWithin p w rest, a.brace = none := by
  induction w with
  | nil =>
      intro p _ a member
      cases member
  | cons c w ih =>
      intro p none a member
      obtain ⟨first, more⟩ := List.ne_and_not_mem_of_not_mem_cons free
      obtain rfl | later := mem_anchorsWithin_cons member
      · simp [none]
      · refine ih more _ ?_ a later
        simp [Progress.step, first.symm, none]

/-! ## Reports -/

theorem report_hidden {cursor : Nat} {hidden : List Anchor}
    (all : ∀ a ∈ hidden, a.position < cursor) (later : List Anchor) :
    report cursor (hidden ++ later) = report cursor later := by
  induction hidden with
  | nil => rfl
  | cons a hidden ih =>
      obtain ⟨first, more⟩ := List.forall_mem_cons.mp all
      rw [List.cons_append, report, if_pos first, ih more]

theorem report_unbraced (cursor : Nat) {bare : List Anchor} (all : ∀ a ∈ bare, a.brace = none)
    (later : List Anchor) : report cursor (bare ++ later) = report cursor later := by
  induction bare with
  | nil => rfl
  | cons a bare ih =>
      obtain ⟨first, more⟩ := List.forall_mem_cons.mp all
      rw [List.cons_append, report, first]
      split <;> exact ih more

theorem report_gap {w : Bytes} (balanced : Balanced w) (free : 0x69 ∉ w) {p : Progress}
    (outside : p.quoting = .outside) (cursor : Nat) (rest : Bytes) :
    report cursor (anchorsFrom p (w ++ rest)) = report cursor (anchorsFrom (p.past w) rest) := by
  rw [anchorsFrom_append, anchorsWithin_eq_nil free, List.nil_append,
    restores_of_balanced balanced p rest outside]

theorem anchorsWithin_braced {inner more : Bytes} (anchored : inner = anchorText ++ more)
    {p : Progress} (outside : p.quoting = .outside) (rest : Bytes) :
    ∃ later, anchorsWithin p (braced inner) rest =
      ⟨p.position + 1,
        some ⟨p.position, isAssignment p.passed, braced inner ++ rest⟩⟩ :: later := by
  obtain ⟨w, shape, start⟩ : ∃ w, braced inner = Ascii.openBrace :: 0x69 :: w ∧
      anchorText.isPrefixOf (0x69 :: (w ++ rest)) = true := by
    rw [anchored]
    exact ⟨_, rfl, by simp [anchorText]⟩
  have none : ¬anchorText.isPrefixOf (Ascii.openBrace :: (0x69 :: w ++ rest)) = true := by
    simp [anchorText]
  rw [shape, anchorsWithin, if_neg none, anchorsWithin, if_pos start, step_openBrace outside]
  exact ⟨_, rfl⟩

theorem report_block {inner more : Bytes} (balanced : Balanced inner)
    (anchored : inner = anchorText ++ more) {p : Progress} (outside : p.quoting = .outside)
    (free : isAssignment p.passed = false) {cursor : Nat} (behind : cursor ≤ p.position)
    (rest : Bytes) :
    report cursor (anchorsFrom p (braced inner ++ rest)) =
      (p.position, braced inner) :: report (p.position + (braced inner).length)
        (anchorsFrom (p.past (braced inner)) rest) := by
  have restores := (restores_of_balanced balanced).braced p rest outside
  have bounds := position_lt (braced inner) rest p
  obtain ⟨later, found⟩ := anchorsWithin_braced anchored outside rest
  rw [found] at bounds
  -- All other anchors of the block lie before its end, where the cursor is put.
  have hidden := (List.forall_mem_cons.mp bounds).2
  rw [anchorsFrom_append, found, restores, List.cons_append, report,
    if_neg (Nat.not_lt.mpr (Nat.le_succ_of_le behind))]
  dsimp only
  rw [free, if_neg Bool.false_ne_true, blockLength?_of_passes (passes_of_balanced balanced)]
  dsimp only
  rw [List.take_left, report_hidden hidden]

end Snippet

namespace Literal

/-! ## Listings -/

def idName : Name := ⟨text "id", by decide⟩

structure Row where
  key : Int
  number : Int
  fields : List (Name × Term)

/-- The table of a record; its number comes first. -/
def Row.term (r : Row) : Term :=
  .table 1 ((.name idName, .scalar (.integer r.number)) ::
    r.fields.map fun field => (.name field.1, field.2))

def Row.lead (r : Row) : Bytes := text "  [" ++ decimalInt r.key ++ text "] = "

def Row.written (r : Row) : Bytes := r.lead ++ (r.term.written ++ text ",\n")

def listing (name : Name) (rows : List Row) : Bytes :=
  name.bytes ++ text " = \x7b\n" ++ rows.flatMap Row.written ++
    text "\x7d\nreturn " ++ name.bytes ++ text "\n"

theorem separated_cons (gap : Nat) (part : Bytes) (parts : List Bytes) :
    ∃ tail, separated gap (part :: parts) = part ++ tail := by
  cases parts with
  | nil => exact ⟨[], (List.append_nil part).symm⟩
  | cons next parts => exact ⟨_, rfl⟩

theorem Row.exists_anchored (r : Row) : ∃ inner more, r.term.written = braced inner ∧
    Balanced inner ∧ inner = Snippet.anchorText ++ more := by
  let fields := (Key.name idName, Term.scalar (.integer r.number)) ::
    r.fields.map fun field => (Key.name field.1, field.2)
  have balanced : Balanced (separated 1 (writtenFields fields)) :=
    balanced_separated 1 (balanced_writtenFields fun field _ => field.2.balanced)
  obtain ⟨tail, first⟩ := separated_cons 1 (Key.written (.name idName) ++ decimalInt r.number)
    (writtenFields (r.fields.map fun field => (Key.name field.1, field.2)))
  refine ⟨_, decimalInt r.number ++ tail, rfl, balanced, ?_⟩
  rw [← List.append_assoc]
  exact first

theorem Row.balanced_lead (r : Row) : Balanced r.lead :=
  ((balanced_of_ordinary (by decide)).append (balanced_decimalInt r.key)).append
    (balanced_of_ordinary (by decide))

theorem Row.lead_free (r : Row) : 0x69 ∉ r.lead := by
  rw [Row.lead, List.mem_append, List.mem_append]
  rintro ((opening | key) | closing)
  · exact absurd opening (by decide)
  · obtain digit | minus := mem_decimalInt key
    · exact absurd digit (by decide)
    · exact absurd minus (by decide)
  · exact absurd closing (by decide)

open Snippet

theorem Row.unassigned (r : Row) (p : Progress) : isAssignment (p.past r.lead).passed = false := by
  rw [Progress.past, Row.lead, List.reverse_append]
  rfl

/-- A record line is reported verbatim, and the cursor stays within its line. -/
theorem report_row (r : Row) {p : Progress} (outside : p.quoting = .outside) {cursor : Nat}
    (behind : cursor ≤ p.position) (rest : Bytes) :
    ∃ start next, next ≤ (p.past r.written).position ∧
      report cursor (anchorsFrom p (r.written ++ rest)) =
        (start, r.term.written) :: report next (anchorsFrom (p.past r.written) rest) := by
  obtain ⟨inner, more, block, balanced, anchored⟩ := r.exists_anchored
  let p₁ := p.past r.lead
  let p₂ := p₁.past (braced inner)
  have reached : cursor ≤ p₁.position := Nat.le_trans behind (Nat.le_add_right _ _)
  have whole : p₂.past (text ",\n") = p.past (r.lead ++ (braced inner ++ text ",\n")) := by
    rw [past_past, past_past]
  have lead : report cursor (anchorsFrom p (r.lead ++ (braced inner ++ (text ",\n" ++ rest)))) =
      report cursor (anchorsFrom p₁ (braced inner ++ (text ",\n" ++ rest))) :=
    report_gap r.balanced_lead r.lead_free outside cursor _
  have record := report_block balanced anchored (p := p₁) outside (r.unassigned p) reached
    (text ",\n" ++ rest)
  have comma := report_gap (balanced_of_ordinary (by decide)) (w := text ",\n") (by decide)
    (p := p₂) outside (p₁.position + (braced inner).length) rest
  refine ⟨p₁.position, p₁.position + (braced inner).length, ?_, ?_⟩
  · rw [Row.written, block, ← whole]
    exact Nat.le_add_right _ _
  · rw [Row.written, block, List.append_assoc, List.append_assoc, lead, record, comma, whole]

/-- Run lemma for `report_row`. -/
theorem report_rows (rows : List Row) : ∀ {p : Progress}, p.quoting = .outside →
    ∀ {cursor : Nat}, cursor ≤ p.position → ∀ rest : Bytes, ∃ next,
      (report cursor (anchorsFrom p (rows.flatMap Row.written ++ rest))).map Prod.snd =
        rows.map (fun r => r.term.written) ++
          (report next (anchorsFrom (p.past (rows.flatMap Row.written)) rest)).map Prod.snd := by
  induction rows with
  | nil => exact fun _ cursor _ rest => ⟨cursor, rfl⟩
  | cons r rows ih =>
      intro p outside cursor behind rest
      obtain ⟨start, next, reached, first⟩ :=
        report_row r outside behind (rows.flatMap Row.written ++ rest)
      obtain ⟨last, more⟩ := ih (p := p.past r.written) outside reached rest
      refine ⟨last, ?_⟩
      rw [List.flatMap_cons, List.append_assoc, first, List.map_cons, more, past_past]
      rfl

theorem anchorsFrom_cons (p : Progress) {c : UInt8} (free : c ≠ 0x69) (rest : Bytes) :
    anchorsFrom p (c :: rest) = anchorsFrom (p.step c rest) rest := by
  rw [anchorsFrom, if_neg (by simp [anchorText, Ne.symm free])]

theorem Name.free (f : Name) : Ascii.openBrace ∉ f.bytes := fun member =>
  absurd (f.forall_nameByte _ member) (by decide)

theorem report_head {head : Bytes} (balanced : Balanced head)
    (free : Ascii.openBrace ∉ head) (rest : Bytes) :
    report 0 (anchors (head ++ rest)) = report 0 (anchorsFrom (Progress.start.past head) rest) := by
  rw [anchors, anchorsFrom_append, restores_of_balanced balanced .start rest rfl]
  exact report_unbraced 0 (brace_eq_none free rest .start rfl) _

theorem report_foot {foot : Bytes} (free : Ascii.openBrace ∉ foot) {p : Progress}
    (closed : p.braces = []) (cursor : Nat) : report cursor (anchorsFrom p foot) = [] := by
  have parts := anchorsFrom_append p foot []
  rw [List.append_nil] at parts
  rw [parts]
  exact report_unbraced cursor (brace_eq_none free [] p closed) []

theorem snippets_listing (name : Name) (rows : List Row) :
    snippets (listing name rows) = rows.map fun r => r.term.written := by
  let head := name.bytes ++ text " = "
  let foot := text "\nreturn " ++ name.bytes ++ text "\n"
  let lines := rows.flatMap Row.written
  have shape : listing name rows = head ++ Ascii.openBrace ::
      (text "\n" ++ (lines ++ Ascii.closeBrace :: foot)) := by
    have opening : text " = \x7b\n" = text " = " ++ Ascii.openBrace :: text "\n" := rfl
    have closing : text "\x7d\nreturn " = Ascii.closeBrace :: text "\nreturn " := rfl
    simp only [listing, opening, closing, head, foot, lines, List.append_assoc, List.cons_append]
  have headFree : Ascii.openBrace ∉ head :=
    List.not_mem_append name.free (by decide)
  have footFree : Ascii.openBrace ∉ foot :=
    List.not_mem_append (List.not_mem_append (by decide) name.free) (by decide)
  have headBalanced : Balanced head := name.balanced.append (balanced_of_ordinary (by decide))
  have lineBreak : Balanced (text "\n") := balanced_of_ordinary (by decide)
  -- The brace of the table is open over all lines, and the last of them closes it.
  let opened := (Progress.start.past head).step Ascii.openBrace
    (text "\n" ++ (lines ++ Ascii.closeBrace :: foot))
  have outside : opened.quoting = .outside := rfl
  obtain ⟨next, reported⟩ := report_rows rows (p := opened.past (text "\n")) outside
    (Nat.zero_le _) (Ascii.closeBrace :: foot)
  have nothing := report_foot footFree
    (p := ((opened.past (text "\n")).past lines).step Ascii.closeBrace foot) rfl next
  rw [snippets, located, shape, report_head headBalanced headFree,
    anchorsFrom_cons _ (by decide), report_gap lineBreak (by decide) outside, reported,
    anchorsFrom_cons _ (by decide), nothing, List.map_nil, List.append_nil]

/-- The records of a listing are the written ones, one for each line and in order. -/
theorem records_listing (name : Name) (rows : List Row)
    (shallow : ∀ r ∈ rows, r.term.depth ≤ nestingLimit) :
    records (listing name rows) = rows.map fun r => r.term.value := by
  rw [records, snippets_listing, List.filterMap_map]
  induction rows with
  | nil => rfl
  | cons r rows ih =>
      obtain ⟨first, more⟩ := List.forall_mem_cons.mp shallow
      rw [List.filterMap_cons, Function.comp_apply, decodeLiteral_written _ first, List.map_cons,
        ← ih more]
      rfl

def tricky : List Row :=
  [⟨1, 7, [(⟨text "note", by decide⟩, .scalar (.string (text "\x7d'\x7bid=1\\\n")))]⟩,
    ⟨-2, 2 ^ 63 - 1, [(⟨text "sub", by decide⟩,
      .table 0 [(.position, .nil), (.position, .scalar (.bool true)),
        (.bracketed (.integer 3), .table 2 [])])]⟩]

theorem records_listing_tricky :
    (∀ r ∈ tricky, r.term.depth ≤ nestingLimit) ∧
      records (text "Set = \x7b\n" ++
          text "  [1] = \x7bid=7, note='\x7d\\'\x7bid=1\\\\\\n'\x7d,\n" ++
          text "  [-2] = \x7bid=9223372036854775807, sub=\x7bnil,true,[3]=\x7b\x7d\x7d\x7d,\n" ++
          text "\x7d\nreturn Set\n") =
        [.object [(text "id", .integer 7), (text "note", .string (text "\x7d'\x7bid=1\\\n"))],
          .object [(text "id", .integer 9223372036854775807),
            (text "sub", .object [(text "2", .bool true), (text "3", .object [])])]] := by
  have shallow : ∀ r ∈ tricky, r.term.depth ≤ nestingLimit := by decide
  have read := records_listing ⟨text "Set", by decide⟩ tricky shallow
  refine ⟨shallow, (congrArg records ?written).trans (read.trans ?values)⟩
  case written => cbv
  case values => cbv

end Literal

end LuaAsset
