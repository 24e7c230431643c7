import LuaAsset.Proofs.Literal.Listing
import LuaAsset.Proofs.Literal.Readings

/-! # The scanner and the reader agree

The scanner knows only single-quoted strings and braces.  In a text without double quotes, comments
and long brackets it passes over whatever the reader consumes (`Passed`, by cases on the reading),
so a record accepted by the reader is the only snippet of its text (`records_decoded`). -/

set_option autoImplicit false

namespace LuaAsset

namespace Literal

open Snippet

structure Unadorned (s : Bytes) : Prop where
  single : Ascii.doubleQuote ∉ s
  uncommented : ¬[Ascii.minus, Ascii.minus] <:+: s
  short : ¬[Ascii.openBracket, Ascii.openBracket] <:+: s ∧ ¬[Ascii.openBracket, Ascii.equals] <:+: s

theorem Unadorned.suffix {s rest : Bytes} (unadorned : Unadorned s) (suffix : rest <:+ s) :
    Unadorned rest where
  single member := unadorned.single (suffix.mem member)
  uncommented inside := unadorned.uncommented (inside.trans suffix.isInfix)
  short := ⟨fun inside => unadorned.short.1 (inside.trans suffix.isInfix),
    fun inside => unadorned.short.2 (inside.trans suffix.isInfix)⟩

def Passed (s rest : Bytes) : Prop := ∃ w, s = w ++ rest ∧ Passes w

theorem passes_nil : Passes [] := passes_of_balanced .nil

theorem Passed.refl (s : Bytes) : Passed s s := ⟨[], rfl, passes_nil⟩

theorem Passed.trans {s rest left : Bytes} (first : Passed s rest) (second : Passed rest left) :
    Passed s left := by
  obtain ⟨v, rfl, passesFirst⟩ := first
  obtain ⟨w, rfl, passesSecond⟩ := second
  exact ⟨v ++ w, (List.append_assoc v w left).symm, passesFirst.append passesSecond⟩

theorem Passed.suffix {s rest : Bytes} (passed : Passed s rest) : rest <:+ s := by
  obtain ⟨w, rfl, _⟩ := passed
  exact List.suffix_append w rest

theorem Passed.unadorned {s rest : Bytes} (passed : Passed s rest) (unadorned : Unadorned s) :
    Unadorned rest :=
  unadorned.suffix passed.suffix

theorem passed_of_ordinary {w : Bytes} (all : ∀ c ∈ w, isOrdinary c = true) (rest : Bytes) :
    Passed (w ++ rest) rest :=
  ⟨w, rfl, passes_of_balanced (balanced_of_ordinary (List.all_eq_true.mpr all))⟩

theorem passed_cons {c : UInt8} (ordinary : isOrdinary c = true) (rest : Bytes) :
    Passed (c :: rest) rest :=
  passed_of_ordinary (w := [c]) (by simpa using ordinary) rest

theorem passed_dropWhile {p : UInt8 → Bool} (ordinary : ∀ c, p c = true → isOrdinary c = true)
    (s : Bytes) : Passed s (s.dropWhile p) := by
  have passed := passed_of_ordinary (w := s.takeWhile p)
    (fun c member => ordinary c (List.mem_takeWhile_imp member)) (s.dropWhile p)
  rwa [List.takeWhile_append_dropWhile] at passed

/-! ## Blanks -/

theorem isOrdinary_of_isBlank : ∀ c : UInt8, Ascii.isBlank c = true → isOrdinary c = true :=
  forall_byte (by decide +kernel)

theorem skipBlanksWithin_unadorned (s : Bytes) : ∀ fuel, s.length ≤ fuel → Unadorned s →
    skipBlanksWithin fuel s = .ok (s.dropWhile Ascii.isBlank) := by
  induction s with
  | nil =>
      intro fuel _ _
      cases fuel <;> rfl
  | cons c rest ih =>
      intro fuel enough unadorned
      obtain ⟨fuel, rfl⟩ := Nat.exists_eq_add_of_le' (Nat.le_of_add_left_le enough)
      have uncommented : ¬(c = Ascii.minus ∧ rest.head? = some Ascii.minus) := by
        rintro ⟨rfl, second⟩
        obtain ⟨rest, rfl⟩ := List.head?_eq_some_iff.mp second
        exact unadorned.uncommented (List.prefix_append [_, _] rest).isInfix
      by_cases blank : Ascii.isBlank c = true
      · rw [skipBlanksWithin, if_pos blank, List.dropWhile_cons_of_pos blank]
        exact ih fuel (Nat.le_of_succ_le_succ enough) (unadorned.suffix (List.suffix_cons c rest))
      · rw [skipBlanksWithin, if_neg blank, if_neg uncommented, List.dropWhile_cons_of_neg blank]

theorem skipBlanks_unadorned {s : Bytes} (unadorned : Unadorned s) :
    skipBlanks s = .ok (s.dropWhile Ascii.isBlank) :=
  skipBlanksWithin_unadorned s _ (Nat.le_refl _) unadorned

theorem passed_skipBlanks {s rest : Bytes} (unadorned : Unadorned s)
    (skipped : skipBlanks s = .ok rest) : Passed s rest := by
  rw [skipBlanks_unadorned unadorned] at skipped
  cases skipped
  exact passed_dropWhile isOrdinary_of_isBlank s

/-! ## Numbers -/

theorem passed_readSignsWithin (fuel : Nat) : ∀ {negative result : Bool} {s rest : Bytes},
    Unadorned s → readSignsWithin fuel negative s = .ok (result, rest) → Passed s rest := by
  induction fuel with
  | zero =>
      rintro negative result s rest _ ⟨⟩
      exact .refl s
  | succ fuel ih =>
      intro negative result s rest unadorned read
      cases s with
      | nil =>
          cases read
          exact .refl []
      | cons c s =>
          rw [readSignsWithin] at read
          split at read
          · rename_i sign
            have ordinary : isOrdinary c = true := by obtain rfl | rfl := sign <;> decide
            have first := passed_cons ordinary s
            split at read
            · rename_i after skipped
              have blanks := passed_skipBlanks (first.unadorned unadorned) skipped
              have both := first.trans blanks
              exact both.trans (ih (both.unadorned unadorned) read)
            · cases read
          · cases read
            exact .refl _

theorem spanNumeral_split {isDigit isMark : UInt8 → Bool}
    (digit : ∀ c, isDigit c = true → isOrdinary c = true)
    (mark : ∀ c, isMark c = true → isOrdinary c = true) (s : Bytes) :
    Passed s (spanNumeral isDigit isMark s).2 := by
  have dot : ∀ c, (isDigit c || c == Ascii.dot) = true → isOrdinary c = true := by
    intro c either
    obtain found | found := Bool.or_eq_true_iff.mp either
    · exact digit c found
    · rw [beq_iff_eq.mp found]
      decide
  fun_induction spanNumeral isDigit isMark s with
  | case1 => exact .refl []
  | case2 c taken =>
      obtain found | found := Bool.or_eq_true_iff.mp taken
      · exact passed_cons (dot c found) []
      · exact passed_cons (mark c found) []
  | case3 c => exact .refl [c]
  | case4 c d rest taken token after split ih =>
      rw [split] at ih
      exact (passed_cons (dot c taken) _).trans ih
  | case5 c d rest _ marked sign token after split ih =>
      rw [split] at ih
      have ordinary : isOrdinary d = true := by obtain rfl | rfl := sign <;> decide
      exact ((passed_cons (mark c marked) _).trans (passed_cons ordinary _)).trans ih
  | case6 c d rest _ marked _ token after split ih =>
      rw [split] at ih
      exact (passed_cons (mark c marked) _).trans ih
  | case7 c d rest => exact .refl _

theorem isOrdinary_of_isHexDigit : ∀ c : UInt8, Ascii.isHexDigit c = true → isOrdinary c = true :=
  forall_byte (by decide +kernel)

theorem isOrdinary_of_mark : ∀ c : UInt8,
    (isDecimalMark c = true → isOrdinary c = true) ∧
      (isHexadecimalMark c = true → isOrdinary c = true) :=
  forall_byte (by decide +kernel)

theorem passed_hexadecimal {s : Bytes} (hexadecimal : isHexadecimal s = true) :
    Passed s (s.drop 2) := by
  match s, hexadecimal with
  | c :: d :: s, hexadecimal =>
      simp only [isHexadecimal, Bool.and_eq_true, Bool.or_eq_true, beq_iff_eq] at hexadecimal
      obtain ⟨rfl, either⟩ := hexadecimal
      have ordinary : isOrdinary d = true := by obtain rfl | rfl := either <;> decide
      exact (passed_cons (by decide) (d :: s)).trans (passed_cons ordinary s)

theorem passed_readNumber {s rest : Bytes} {v : Value} (unadorned : Unadorned s)
    (read : readNumber s = .ok (v, rest)) : Passed s rest := by
  obtain ⟨_, after, signs, unsigned⟩ := unsignedRead_of_readNumber read
  refine (passed_readSignsWithin _ unadorned signs).trans ?_
  cases unsigned with
  | hexadecimal marked _ =>
      exact (passed_hexadecimal marked).trans (spanNumeral_split isOrdinary_of_isHexDigit
        (fun c => (isOrdinary_of_mark c).2) (after.drop 2))
  | decimal _ =>
      exact spanNumeral_split isOrdinary_of_isDigit (fun c => (isOrdinary_of_mark c).1) after

/-! ## Strings -/

theorem passed_readQuoted {more bytes rest : Bytes}
    (read : readQuoted Ascii.singleQuote more = .ok (bytes, rest)) :
    Passed (Ascii.singleQuote :: more) rest := by
  obtain ⟨body, rfl, isBody, _⟩ := readQuoted_body (.inr rfl) read
  exact ⟨Ascii.singleQuote :: (body ++ [Ascii.singleQuote]), by simp, passes_body isBody⟩

/-! ## Values and fields -/

theorem longBracketLevel?_unadorned {s : Bytes} (unadorned : Unadorned s) :
    longBracketLevel? s = none := by
  match s with
  | [] => rfl
  | [c] => simp [longBracketLevel?]
  | c :: d :: rest =>
      by_cases opens : c = Ascii.openBracket
      · subst opens
        have bracket : d ≠ Ascii.openBracket := by
          rintro rfl
          exact unadorned.short.1 (List.prefix_append [_, _] rest).isInfix
        have equals : d ≠ Ascii.equals := by
          rintro rfl
          exact unadorned.short.2 (List.prefix_append [_, _] rest).isInfix
        simp [longBracketLevel?, bracket, equals]
      · simp [longBracketLevel?, opens]

/-- The scanner passes over whatever a reader consumes of an unadorned text. -/
def Steady (value : ValueReader) : Prop :=
  ∀ {s rest : Bytes} {v : Value}, Unadorned s → value s = .ok (v, rest) → Passed s rest

theorem steady_readWith {table : ValueReader}
    (steady : ∀ {more rest : Bytes} {v : Value}, Unadorned (Ascii.openBrace :: more) →
      table (Ascii.openBrace :: more) = .ok (v, rest) → Passed (Ascii.openBrace :: more) rest) :
    Steady (readWith table) := by
  intro s rest v unadorned read
  have clear : ∀ {after : Bytes}, skipBlanks s = .ok after → Passed s after ∧ Unadorned after := by
    intro after skipped
    have passed := passed_skipBlanks unadorned skipped
    exact ⟨passed, passed.unadorned unadorned⟩
  cases valueRead_of_readWith read with
  | table skipped read =>
      obtain ⟨blanks, left⟩ := clear skipped
      exact blanks.trans (steady left read)
  | quoted skipped either read =>
      obtain ⟨blanks, left⟩ := clear skipped
      obtain rfl | rfl := either
      · exact absurd List.mem_cons_self left.single
      · exact blanks.trans (passed_readQuoted read)
  | bracketed skipped opening _ =>
      obtain ⟨_, left⟩ := clear skipped
      rw [longBracketLevel?_unadorned left] at opening
      cases opening
  | number skipped _ read =>
      obtain ⟨blanks, left⟩ := clear skipped
      exact blanks.trans (passed_readNumber left read)
  | word skipped _ =>
      obtain ⟨blanks, _⟩ := clear skipped
      exact blanks.trans (passed_dropWhile isOrdinary_of_isNameByte _)

theorem passed_skipped {c : UInt8} {s rest : Bytes} (unadorned : Unadorned s)
    (skipped : skipBlanks s = .ok (c :: rest)) (ordinary : isOrdinary c = true) :
    Passed s rest ∧ Unadorned rest := by
  have passed := (passed_skipBlanks unadorned skipped).trans (passed_cons ordinary rest)
  exact ⟨passed, passed.unadorned unadorned⟩

theorem passed_field {value : ValueReader} (steady : Steady value) {t t' : TableDraft}
    {s rest : Bytes} (unadorned : Unadorned s) (field : FieldRead value t s t' rest) :
    Passed s rest := by
  cases field with
  | keyed opens readKey closed assigned read _ =>
      obtain ⟨more, rfl⟩ := List.head?_eq_some_iff.mp opens.1
      have bracket := passed_cons (c := Ascii.openBracket) (by decide) more
      have key := bracket.trans (steady (bracket.unadorned unadorned) readKey)
      obtain ⟨close, left₂⟩ := passed_skipped (key.unadorned unadorned) closed (by decide)
      obtain ⟨equals, left₃⟩ := passed_skipped left₂ assigned (by decide)
      exact ((key.trans close).trans equals).trans (steady left₃ read)
  | named _ _ assigned read =>
      have name := passed_dropWhile isOrdinary_of_isNameByte s
      obtain ⟨equals, left₁⟩ := passed_skipped (name.unadorned unadorned) assigned (by decide)
      exact (name.trans equals).trans (steady left₁ read)
  | positional _ _ read => exact steady unadorned read

/-- The reader and the scanner agree on the closing brace of a table. -/
theorem fieldsRead_split {value : ValueReader} (steady : Steady value) {n : Nat} {t : TableDraft}
    {s rest : Bytes} {v : Value} (rounds : FieldsRead value n t s v rest)
    (unadorned : Unadorned s) : Passed s (Ascii.closeBrace :: rest) := by
  induction rounds with
  | closed skipped => exact passed_skipBlanks unadorned skipped
  | last skipped _ field closed =>
      have front := passed_skipBlanks unadorned skipped
      have read := front.trans (passed_field steady (front.unadorned unadorned) field)
      exact read.trans (passed_skipBlanks (read.unadorned unadorned) closed)
  | more skipped _ field again separator _ ih =>
      have front := passed_skipBlanks unadorned skipped
      have read := front.trans (passed_field steady (front.unadorned unadorned) field)
      obtain ⟨mark, left⟩ := passed_skipped (read.unadorned unadorned) again
        (by obtain rfl | rfl := separator <;> decide)
      exact (read.trans mark).trans (ih left)

theorem readTable_split {value : ValueReader} (steady : Steady value) {more rest : Bytes}
    {v : Value} (unadorned : Unadorned (Ascii.openBrace :: more))
    (read : readTable value (Ascii.openBrace :: more) = .ok (v, rest)) :
    ∃ inner, Ascii.openBrace :: more = braced inner ++ rest ∧ Passes inner := by
  obtain ⟨n, _, rounds⟩ := fieldsRead_of_readFieldsWithin _ read
  obtain ⟨inner, split, passes⟩ :=
    fieldsRead_split steady rounds (unadorned.suffix (List.suffix_cons _ more))
  refine ⟨inner, ?_, passes⟩
  rw [braced, List.cons_append, List.append_assoc]
  exact congrArg _ split

theorem steady_readValue (levels : Nat) : Steady (readValue levels) := by
  induction levels with
  | zero =>
      apply steady_readWith
      intro more rest v _ read
      cases read
  | succ levels ih =>
      apply steady_readWith
      intro more rest v unadorned read
      obtain ⟨inner, split, passes⟩ := readTable_split ih unadorned read
      exact ⟨braced inner, split, passes.braced⟩

/-! ## Records -/

/-- A readable text that starts and ends with a brace is a single table. -/
theorem exists_braced {t : Bytes} {v : Value} (opens : [Ascii.openBrace] <+: t)
    (closes : [Ascii.closeBrace] <:+ t) (unadorned : Unadorned t) (read : decodeLiteral t = .ok v) :
    ∃ inner, t = braced inner ∧ Passes inner := by
  obtain ⟨more, rfl⟩ := opens
  rw [decodeLiteral_eq_ok, readDocument_eq_ok] at read
  obtain ⟨rest, readValue, skipped⟩ := read
  -- the first byte is a brace, so the value is a table
  have table : readTable (Literal.readValue 199) (Ascii.openBrace :: more) = .ok (v, rest) := by
    rwa [show nestingLimit = 199 + 1 from rfl, Literal.readValue, List.singleton_append,
      readWith_brace] at readValue
  obtain ⟨inner, split, passes⟩ := readTable_split (steady_readValue 199) unadorned table
  have suffix : rest <:+ Ascii.openBrace :: more := ⟨_, split.symm⟩
  rw [skipBlanks_unadorned (unadorned.suffix suffix)] at skipped
  have blank : rest.dropWhile Ascii.isBlank = [] := Except.ok.inj skipped
  have nothing : rest = [] := by
    by_contra something
    have last : [Ascii.closeBrace] <:+ rest :=
      List.suffix_of_suffix_length_le closes suffix (List.length_pos_of_ne_nil something)
    have solid := List.dropWhile_eq_nil_iff.mp blank _ (last.mem List.mem_cons_self)
    exact absurd solid (by decide)
  exact ⟨inner, by rw [nothing, List.append_nil] at split; exact split, passes⟩

/-- A block that starts with an anchor is the only snippet of its text. -/
theorem located_braced {inner : Bytes} (passes : Passes inner) (anchored : anchorText <+: inner) :
    located (braced inner) = [(0, braced inner)] := by
  obtain ⟨more, anchored⟩ := anchored
  have bounds := position_lt (braced inner) [] .start
  obtain ⟨later, found⟩ := anchorsWithin_braced anchored.symm (p := .start) rfl []
  have whole := anchorsFrom_append .start (braced inner) []
  have length := blockLength?_of_passes passes []
  rw [found] at bounds
  have hidden := (List.forall_mem_cons.mp bounds).2
  rw [List.append_nil, found, show anchorsFrom _ [] = [] from rfl, List.append_nil] at whole
  rw [List.append_nil] at length
  rw [located, anchors, whole, report, if_neg (Nat.not_lt_zero _)]
  dsimp only
  rw [List.append_nil, if_neg (by simp [Progress.start, isAssignment]), length]
  dsimp only
  rw [List.take_length, ← List.append_nil later, report_hidden hidden]
  rfl

/-- A record accepted by the reader is the only snippet of its text and gives the only record. -/
theorem records_decoded {t : Bytes} {v : Value} (opens : text "\x7bid=" <+: t)
    (closes : [Ascii.closeBrace] <:+ t) (unadorned : Unadorned t) (read : decodeLiteral t = .ok v) :
    snippets t = [t] ∧ records t = [v] := by
  have brace : [Ascii.openBrace] <+: text "\x7bid=" := ⟨anchorText, rfl⟩
  obtain ⟨inner, rfl, passes⟩ := exists_braced (brace.trans opens) closes unadorned read
  have anchored : anchorText <+: inner := by
    obtain ⟨more, same⟩ := opens
    have tail : anchorText ++ more = inner ++ [Ascii.closeBrace] := (List.cons.inj same).2
    -- the anchor ends before the brace, which it does not have
    refine List.prefix_of_prefix_length_le ⟨more, tail⟩ (List.prefix_append inner _) ?_
    by_contra short
    have lengths := congrArg List.length tail
    rw [List.length_append, List.length_append, List.length_singleton] at lengths
    have none : more = [] := List.length_eq_zero_iff.mp (by omega)
    rw [none, List.append_nil] at tail
    have last := congrArg List.getLast? tail
    rw [List.getLast?_append, List.getLast?_singleton] at last
    cases last
  have one : snippets (braced inner) = [braced inner] := by
    rw [snippets, located_braced passes anchored]
    rfl
  refine ⟨one, ?_⟩
  rw [records, one, List.filterMap_cons, read]
  rfl

def braceful : Bytes := text "\x7bid=7,s='\\u\x7b7b\x7d\\z \\'\x7d',\x7b'\\125'\x7d\x7d"

theorem records_decoded_braceful :
    (text "\x7bid=" <+: braceful ∧ [Ascii.closeBrace] <:+ braceful ∧ Unadorned braceful) ∧
      snippets braceful = [braceful] ∧
      records braceful = [.object [(text "1", .array [.string (text "\x7d")]),
        (text "id", .integer 7), (text "s", .string (text "\x7b'\x7d"))]] := by
  have opens : text "\x7bid=" <+: braceful := by decide
  have closes : [Ascii.closeBrace] <:+ braceful := by decide
  have unadorned : Unadorned braceful := ⟨by decide, by decide, by decide⟩
  have read : decodeLiteral braceful = .ok (.object [(text "1", .array [.string (text "\x7d")]),
      (text "id", .integer 7), (text "s", .string (text "\x7b'\x7d"))]) := by
    set_option maxRecDepth 2000 in cbv
  exact ⟨⟨opens, closes, unadorned⟩, records_decoded opens closes unadorned read⟩

end Literal

end LuaAsset
