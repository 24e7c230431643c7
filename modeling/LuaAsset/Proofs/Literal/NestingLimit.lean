import Mathlib
import LuaAsset.Proofs.Literal.RoundTrip

/-! # The nesting limit

A literal within the limit is read from each of its spellings, and a deeper one from none
(`decodeLiteral_spelled`).  The fields before the first one that nests too deep are read as usual.
-/

set_option autoImplicit false

namespace LuaAsset

namespace Literal

/-- Reading fails at a brace of the text for nesting too deep, whatever surrounds the text. -/
def Refuses (value : ValueReader) (s : Bytes) : Prop :=
  ∀ rest, Closed rest → ∃ before after, s = before ++ Ascii.openBrace :: after ∧
    value (s ++ rest) = fail .nestingTooDeep (Ascii.openBrace :: (after ++ rest))

theorem readFieldsWithin_refused {value : ValueReader} (scalars : ReadsScalars value) (key : Key)
    {v : Term} {s : Bytes} (spelled : Spells v s) (refuses : Refuses value s) (fuel : Nat)
    (t : TableDraft) {rest : Bytes} (closed : Closed rest) :
    ∃ before after, key.written ++ s = before ++ Ascii.openBrace :: after ∧
      readFieldsWithin value (fuel + 1) t (key.written ++ s ++ rest) =
        fail .nestingTooDeep (Ascii.openBrace :: (after ++ rest)) := by
  obtain ⟨before, after, split, refused⟩ := refuses rest closed
  refine ⟨key.written ++ before, after, by rw [split, List.append_assoc], ?_⟩
  rw [readFieldsWithin_field scalars key spelled fuel t closed, refused]
  rfl

/-- Fields that nest deeper than the reader allows are refused at one of their braces. -/
theorem readFieldsWithin_deep {value : ValueReader} (scalars : ReadsScalars value) (levels : Nat)
    (rest : Bytes) {fields : List (Key × Term)} {inner : Bytes}
    (texts : FieldTexts Spells fields inner) :
    (∀ field ∈ fields, ∀ s, Spells field.2 s →
      (field.2.depth ≤ levels → Reads value field.2 s) ∧
        (levels < field.2.depth → Refuses value s)) →
      levels < deepest fields → ∀ (fuel : Nat) (t : TableDraft), fields.length < fuel →
      ∃ before after, inner = before ++ Ascii.openBrace :: after ∧
        readFieldsWithin value fuel t (inner ++ Ascii.closeBrace :: rest) =
          fail .nestingTooDeep (Ascii.openBrace :: (after ++ Ascii.closeBrace :: rest)) := by
  induction texts with
  | none => exact fun _ deep => absurd deep (Nat.not_lt_zero _)
  | last key spelled =>
      intro each deep fuel t enough
      obtain ⟨fuel, rfl⟩ := Nat.exists_eq_succ_of_ne_zero (Nat.ne_zero_of_lt enough)
      rw [deepest, deepest, Nat.max_zero] at deep
      have refuses := (each _ List.mem_cons_self _ spelled).2 deep
      exact readFieldsWithin_refused scalars key spelled refuses fuel t
        (closed_cons (by decide) rest)
  | @more key v s spelled d separator gap fields inner later ih =>
      intro each deep fuel t enough
      obtain ⟨fuel, rfl⟩ := Nat.exists_eq_succ_of_ne_zero (Nat.ne_zero_of_lt enough)
      obtain ⟨first, others⟩ := List.forall_mem_cons.mp each
      rw [more_append]
      by_cases shallow : v.depth ≤ levels
      · have enoughLater := Nat.lt_of_succ_lt_succ enough
        obtain ⟨fuel, rfl⟩ := Nat.exists_eq_succ_of_ne_zero (Nat.ne_zero_of_lt enoughLater)
        have deepLater : levels < deepest fields := by
          rw [deepest] at deep
          omega
        obtain ⟨before, after, split, refused⟩ := ih others deepLater (fuel + 1)
          (stored t (key, v.value)) enoughLater
        refine ⟨key.written ++ s ++ d :: (List.replicate gap Ascii.space ++ before), after, ?_, ?_⟩
        · simp only [split, List.append_assoc, List.cons_append]
        · rw [readFieldsWithin_separator scalars key spelled ((first s spelled).1 shallow) _ t
            separator, readFieldsWithin_spaces, refused]
      · have refuses := (first s spelled).2 (Nat.lt_of_not_le shallow)
        obtain ⟨before, after, split, refused⟩ := readFieldsWithin_refused scalars key spelled
          refuses fuel t (closed_separator separator (List.replicate gap Ascii.space ++
            (inner ++ Ascii.closeBrace :: rest)))
        refine ⟨before, after ++ d :: (List.replicate gap Ascii.space ++ inner), ?_, ?_⟩
        · rw [split, List.append_assoc before, List.cons_append]
        · rw [refused]
          simp only [List.append_assoc, List.cons_append]

/-- A reader with fewer levels than the depth of a literal refuses all its spellings. -/
theorem Term.refuses (v : Term) : ∀ levels, levels < v.depth → ∀ s, Spells v s →
    Refuses (readValue levels) s := by
  induction v using Term.induction with
  | nil => exact fun levels deep => absurd deep (Nat.not_lt_zero _)
  | scalar a => exact fun levels deep => absurd deep (Nat.not_lt_zero _)
  | table gap fields ih =>
      intro levels deep s spelled rest _
      cases spelled with
      | @table gap fields inner texts =>
          cases levels with
          | zero =>
              refine ⟨[], inner ++ [Ascii.closeBrace], rfl, ?_⟩
              rw [readValue, readWith_braced]
              rfl
          | succ levels =>
              have each : ∀ field ∈ fields, ∀ s, Spells field.2 s →
                  (field.2.depth ≤ levels → Reads (readValue levels) field.2 s) ∧
                    (levels < field.2.depth → Refuses (readValue levels) s) :=
                fun field member s spelled =>
                  ⟨fun shallow => field.2.reads levels shallow s spelled,
                    fun deep => ih field member levels deep s spelled⟩
              obtain ⟨before, after, split, refused⟩ := readFieldsWithin_deep
                (readsScalars_readValue levels) levels rest texts each
                (Nat.lt_of_succ_lt_succ deep) _ .empty (texts.rounds rest)
              refine ⟨Ascii.openBrace :: before, after ++ [Ascii.closeBrace], ?_, ?_⟩
              · rw [braced, split, List.append_assoc, List.cons_append, List.cons_append]
              · rw [readValue, readWith_braced, readTable_braced, refused, List.append_assoc,
                  List.singleton_append]

theorem decodeLiteral_refused {v : Term} {s : Bytes} (spelled : Spells v s)
    (deep : nestingLimit < v.depth) : ∃ before after, s = before ++ Ascii.openBrace :: after ∧
      decodeLiteral s = .error (.literal .nestingTooDeep before.length) := by
  obtain ⟨before, after, split, refused⟩ := v.refuses nestingLimit deep s spelled [] closed_nil
  rw [List.append_nil, List.append_nil] at refused
  refine ⟨before, after, split, ?_⟩
  have offset : s.length - (Ascii.openBrace :: after).length = before.length := by
    rw [split, List.length_append, Nat.add_sub_cancel]
  rw [decodeLiteral, readDocument, refused, ← offset]
  rfl

/-- A spelling of a literal is read as the value of the literal if that nests within the limit, and
is a format failure at one of its braces otherwise. -/
theorem decodeLiteral_spelled {v : Term} {s : Bytes} (spelled : Spells v s) :
    (v.depth ≤ nestingLimit → decodeLiteral s = .ok v.value) ∧
      (nestingLimit < v.depth → ∃ before after, s = before ++ Ascii.openBrace :: after ∧
        decodeLiteral s = .error (.literal .nestingTooDeep before.length) ∧
        (Failure.literal .nestingTooDeep before.length).kind = .format) := by
  refine ⟨decodeLiteral_of_spells spelled, fun deep => ?_⟩
  obtain ⟨before, after, split, refused⟩ := decodeLiteral_refused spelled deep
  exact ⟨before, after, split, refused, rfl⟩

def nested : Nat → Term
  | 0 => .nil
  | levels + 1 => .table 0 [(.position, .nil), (.position, nested levels)]

theorem depth_nested (levels : Nat) : (nested levels).depth = levels := by
  induction levels with
  | zero => rfl
  | succ levels ih => simp [nested, Term.depth, deepest, ih]

def mixed : Term :=
  .table 0 [(.position, .nil), (.position, .scalar (.string (text "it's\\\n"))),
    (.name ⟨text "tag", by decide⟩, .table 0 [(.position, .scalar (.bool true))]),
    (.bracketed (.string (text "]")), .scalar (.integer (-2 ^ 63)))]

def mixedText : Bytes :=
  text "\x7bnil;'it\\'s\\\\\\n',  tag=\x7btrue,\x7d; [']']=-9223372036854775808;\x7d"

theorem spells_mixed : Spells mixed mixedText := by
  have comma : Ascii.comma ∈ separators := by decide
  have semicolon : Ascii.semicolon ∈ separators := by decide
  have inner := FieldTexts.more .position (Spells.scalar (.bool true)) comma 0 .none
  have fourth := FieldTexts.more (.bracketed (.string (text "]")))
    (Spells.scalar (.integer (-2 ^ 63))) semicolon 0 .none
  have third := FieldTexts.more (.name ⟨text "tag", by decide⟩) (Spells.table 0 inner) semicolon 1
    fourth
  have second := FieldTexts.more .position (Spells.scalar (.string (text "it's\\\n"))) comma 2 third
  have whole := Spells.table 0 (.more .position .nil semicolon 0 second)
  refine (congrArg (Spells mixed) ?_).mp whole
  cbv

theorem decodeLiteral_spelled_mixed :
    Spells mixed mixedText ∧
      decodeLiteral mixedText =
        .ok (.object [(text "2", .string (text "it's\\\n")), (text "]", .integer (-2 ^ 63)),
          (text "tag", .array [.bool true])]) ∧
      Spells (nested 201) (nested 201).written ∧ nestingLimit < (nested 201).depth ∧
      ∃ before after, (nested 201).written = before ++ Ascii.openBrace :: after ∧
        decodeLiteral (nested 201).written = .error (.literal .nestingTooDeep before.length) := by
  have deep : nestingLimit < (nested 201).depth := by
    rw [depth_nested]
    decide
  have shallow : mixed.depth ≤ nestingLimit := by decide
  have value : mixed.value = .object [(text "2", .string (text "it's\\\n")),
      (text "]", .integer (-2 ^ 63)), (text "tag", .array [.bool true])] := by
    cbv
  have spelled := spells_written (nested 201)
  obtain ⟨before, after, split, refused, _⟩ := (decodeLiteral_spelled spelled).2 deep
  refine ⟨spells_mixed, ?_, spelled, deep, before, after, split, refused⟩
  rw [← value]
  exact (decodeLiteral_spelled spells_mixed).1 shallow

end Literal

end LuaAsset
