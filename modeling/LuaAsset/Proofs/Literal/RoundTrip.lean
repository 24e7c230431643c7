import LuaAsset.Proofs.Literal.Readings
import LuaAsset.Proofs.Literal.Spelling

/-! # Canonical literals are read back

Every spelling of a literal is read as the literal by readers with enough levels (`Term.reads`), in
particular that of the canonical writer (`decodeLiteral_written`).  The induction is on the literal.
-/

set_option autoImplicit false

namespace LuaAsset

namespace Literal

/-- A reader is exact on a text of a literal, whatever follows the text. -/
def Reads (value : ValueReader) (v : Term) (s : Bytes) : Prop :=
  ∀ rest, Closed rest → value (s ++ rest) = .ok (v.value, rest)

def ReadsScalars (value : ValueReader) : Prop := ∀ a, Reads value (.scalar a) a.written

/-! ## The first byte of a literal -/

structure Opening (c : UInt8) (more : Bytes) : Prop where
  skipped : ∀ rest, skipBlanks (c :: (more ++ rest)) = .ok (c :: (more ++ rest))
  unbarred : c ∉ bars

theorem opening_of_ne {c : UInt8} (solid : Ascii.isBlank c = false) (code : c ≠ Ascii.minus)
    (unbarred : c ∉ bars) (more : Bytes) : Opening c more where
  skipped _ := skipBlanks_of_ne solid code _
  unbarred := unbarred

theorem decimalInt_cons (n : Int) : ∃ c more, decimalInt n = c :: more ∧
    (Ascii.isDigit c = true ∨ c = Ascii.minus) ∧ Opening c more := by
  cases n with
  | ofNat n =>
      obtain ⟨d, more, digits, digit⟩ := decimal_cons n
      obtain ⟨solid, code, unbarred, _⟩ := isDigit_apart d digit
      exact ⟨d, more, digits, .inl digit, opening_of_ne solid code unbarred more⟩
  | negSucc n =>
      obtain ⟨d, more, digits, digit⟩ := decimal_cons (n + 1)
      obtain ⟨_, notMinus, _⟩ := isDigit_apart d digit
      refine ⟨Ascii.minus, decimal (n + 1), rfl, .inr rfl, fun rest => ?_, by decide⟩
      refine skipBlanks_cons (by decide) fun _ => ?_
      rw [digits, List.cons_append, List.head?_cons]
      exact fun same => notMinus (Option.some.inj same)

theorem Scalar.opening (a : Scalar) : ∃ c more, a.written = c :: more ∧ Opening c more := by
  cases a with
  | bool b =>
      cases b with
      | false => exact ⟨_, _, rfl, opening_of_ne (by decide) (by decide) (by decide) _⟩
      | true => exact ⟨_, _, rfl, opening_of_ne (by decide) (by decide) (by decide) _⟩
  | integer n =>
      obtain ⟨c, more, same, _, opening⟩ := decimalInt_cons n
      exact ⟨c, more, same, opening⟩
  | string s => exact ⟨_, _, rfl, opening_of_ne (by decide) (by decide) (by decide) _⟩

theorem Spells.opening {v : Term} {s : Bytes} (spelled : Spells v s) :
    ∃ c more, s = c :: more ∧ Opening c more := by
  cases spelled with
  | nil => exact ⟨_, _, rfl, opening_of_ne (by decide) (by decide) (by decide) _⟩
  | scalar a => exact a.opening
  | table gap texts => exact ⟨_, _, rfl, opening_of_ne (by decide) (by decide) (by decide) _⟩

/-! ## Scalars -/

theorem readWith_word (table : ValueReader) {c : UInt8} {more rest : Bytes}
    (start : isNameStart c = true) (all : (c :: more).all isNameByte = true)
    (stop : ∀ d ∈ rest.head?, isNameByte d = false) :
    readWith table (c :: more ++ rest) = .ok (wordValue (c :: more), rest) := by
  obtain ⟨solid, code, unbarred, brace, quote, double, digit, plus, dot⟩ :=
    isNameStart_apart c start
  have bracket : c ≠ Ascii.openBracket := (ne_of_mem_of_not_mem (by decide) unbarred).symm
  obtain ⟨taken, left⟩ := span_append (List.all_eq_true.mp all) stop
  rw [List.cons_append] at taken left
  rw [readWith, List.cons_append, skipBlanks_of_ne solid code]
  dsimp only
  rw [if_neg brace, if_neg (by simp [quote, double]), if_neg bracket,
    if_neg (by simp [digit, code, plus, dot]), if_pos start, taken, left]

theorem readWith_number (table : ValueReader) {c : UInt8} {more : Bytes}
    (skipped : skipBlanks (c :: more) = .ok (c :: more))
    (numeric : Ascii.isDigit c = true ∨ c = Ascii.minus ∨ c = Ascii.plus) :
    readWith table (c :: more) = readNumber (c :: more) := by
  have starts : (Ascii.isDigit c || c == Ascii.minus || c == Ascii.plus
      || (c == Ascii.dot && more.head?.any Ascii.isDigit)) = true := by
    obtain digit | rfl | rfl := numeric
    · rw [digit]
      rfl
    · rfl
    · rfl
  have apart : c ≠ Ascii.openBrace ∧ c ≠ Ascii.singleQuote ∧ c ≠ Ascii.doubleQuote ∧
      c ≠ Ascii.openBracket := by
    obtain digit | rfl | rfl := numeric
    · obtain ⟨_, _, unbarred, brace, quote, double, _⟩ := isDigit_apart c digit
      exact ⟨brace, quote, double, (ne_of_mem_of_not_mem (by decide) unbarred).symm⟩
    · decide
    · decide
  obtain ⟨brace, quote, double, bracket⟩ := apart
  rw [readWith, skipped]
  dsimp only
  rw [if_neg brace, if_neg (by simp [quote, double]), if_neg bracket, if_pos starts]

theorem readWith_brace (table : ValueReader) (rest : Bytes) :
    readWith table (Ascii.openBrace :: rest) = table (Ascii.openBrace :: rest) := by
  rw [readWith, skipBlanks_of_ne (by decide) (by decide)]
  dsimp only
  rw [if_pos rfl]

theorem readWith_braced (table : ValueReader) (inner rest : Bytes) :
    readWith table (braced inner ++ rest) = table (braced inner ++ rest) :=
  readWith_brace table _

theorem reads_nil (table : ValueReader) : Reads (readWith table) .nil (text "nil") :=
  fun _ closed => readWith_word table (by decide) (by decide) closed.detached.nameless

theorem readsScalars (table : ValueReader) : ReadsScalars (readWith table) := by
  intro a rest closed
  cases a with
  | bool b =>
      cases b with
      | false => exact readWith_word table (by decide) (by decide) closed.detached.nameless
      | true => exact readWith_word table (by decide) (by decide) closed.detached.nameless
  | integer n =>
      have read := readNumber_decimalInt closed n
      obtain ⟨c, more, same, numeric, opening⟩ := decimalInt_cons n
      rw [Scalar.written, same, List.cons_append,
        readWith_number table (opening.skipped rest) (numeric.imp_right .inl), ← List.cons_append, ← same]
      exact read
  | string s =>
      have enough : s.length < (s.flatMap escaped ++ Ascii.singleQuote :: rest).length + 1 := by
        have longer := length_le_flatMap_escaped s
        rw [List.length_append]
        omega
      rw [Scalar.written, quoted, List.cons_append, List.append_assoc, List.singleton_append,
        readWith_quote table (.inr rfl), readQuoted, readQuoted_escaped s rest _ enough]
      rfl

/-! ## Fields -/

def stored (t : TableDraft) (field : Key × Value) : TableDraft :=
  addField { t with handedOut := field.1.taken t.handedOut } (field.1.address t.handedOut) field.2

theorem isNull_scalar (a : Scalar) : a.value.isNull = false := by
  cases a with
  | integer n =>
      rw [Scalar.value, integerValue]
      split <;> rfl
  | _ => rfl

theorem expectAssignment_equals (s : Bytes) : expectAssignment (Ascii.equals :: s) = .ok s := by
  rw [expectAssignment, skipBlanks_of_ne (by decide) (by decide)]
  rfl

theorem isNamedField_word {word rest : Bytes} (all : word.all isNameByte = true)
    (closed : Closed rest) : isNamedField (word ++ rest) = false := by
  rw [isNamedField, (span_append (List.all_eq_true.mp all) closed.detached.nameless).2]
  cases rest with
  | nil => rfl
  | cons c rest => obtain rfl | rfl | rfl | rfl := closed.head <;> rfl

theorem Spells.not_named {v : Term} {s : Bytes} (spelled : Spells v s) {rest : Bytes}
    (closed : Closed rest) :
    ¬((s ++ rest).head?.any isNameStart = true ∧ isNamedField (s ++ rest) = true) := by
  rintro ⟨start, named⟩
  have word : ∀ word : Bytes, word.all isNameByte = true → s = word → False := by
    intro word all same
    rw [same, isNamedField_word all closed] at named
    cases named
  cases spelled with
  | nil => exact word (text "nil") (by decide) rfl
  | scalar a =>
      cases a with
      | bool b =>
          cases b with
          | false => exact word (text "false") (by decide) rfl
          | true => exact word (text "true") (by decide) rfl
      | integer n =>
          obtain ⟨c, more, same, numeric, _⟩ := decimalInt_cons n
          rw [Scalar.written, same] at start
          obtain digit | minus := numeric
          · obtain ⟨_, _, _, _, _, _, noName, _⟩ := isDigit_apart c digit
            exact absurd start (by simp [noName])
          · rw [minus] at start
            exact absurd start (show ¬isNameStart Ascii.minus = true by decide)
      | string s => exact absurd start (show ¬isNameStart Ascii.singleQuote = true by decide)
  | table gap texts => exact absurd start (show ¬isNameStart Ascii.openBrace = true by decide)

theorem isNamedField_name (f : Name) {c : UInt8} (single : c ≠ Ascii.equals) (rest : Bytes) :
    isNamedField (f.bytes ++ Ascii.equals :: c :: rest) = true := by
  rw [isNamedField, List.dropWhile_append_of_pos f.forall_nameByte,
    List.dropWhile_cons_of_neg (by decide), List.dropWhile_cons_of_neg (by decide)]
  simp [single]

theorem longBracketLevel?_key {c : UInt8} (bracket : c ≠ Ascii.openBracket)
    (single : c ≠ Ascii.equals) (rest : Bytes) :
    longBracketLevel? (Ascii.openBracket :: c :: rest) = none := by
  rw [longBracketLevel?, if_pos rfl, List.dropWhile_cons_of_neg (by simp [single]),
    if_neg (by simp [bracket])]

theorem Name.readNamedField (value : ValueReader) (f : Name) (t : TableDraft) (s : Bytes) :
    readNamedField value t (f.bytes ++ Ascii.equals :: s) =
      (value s).map fun read => (addField t (.string f.bytes) read.1, read.2) := by
  have never : isNameByte Ascii.equals = false := by decide
  rw [Literal.readNamedField, List.takeWhile_append_of_pos f.forall_nameByte,
    List.dropWhile_append_of_pos f.forall_nameByte, List.takeWhile_cons_of_neg (by simp [never]),
    List.dropWhile_cons_of_neg (by simp [never]), List.append_nil]
  simp only [expectAssignment_equals, bind, Except.bind]
  cases value s <;> rfl

theorem Scalar.readKeyedField {value : ValueReader} (scalars : ReadsScalars value) (a : Scalar)
    (t : TableDraft) (s : Bytes) :
    readKeyedField value t (a.written ++ Ascii.closeBracket :: Ascii.equals :: s) =
      (value s).map fun read => (addField t (normalKey a.value) read.1, read.2) := by
  have key : value (a.written ++ Ascii.closeBracket :: Ascii.equals :: s) =
      .ok (a.value, Ascii.closeBracket :: Ascii.equals :: s) :=
    scalars a _ (closed_cons (by decide) _)
  rw [Literal.readKeyedField]
  simp only [key, skipBlanks_of_ne (show Ascii.isBlank Ascii.closeBracket = false by decide)
    (show Ascii.closeBracket ≠ Ascii.minus by decide), bind, Except.bind, List.head?_cons,
    List.drop_one, List.tail_cons, expectAssignment_equals]
  rw [if_neg (by simp)]
  cases value s with
  | error flaw => rfl
  | ok read =>
      dsimp only
      rw [if_neg (by simp [isNull_scalar a])]
      rfl

theorem readField_spelled {value : ValueReader} (scalars : ReadsScalars value) (key : Key)
    {v : Term} {s : Bytes} (spelled : Spells v s) (t : TableDraft) {rest : Bytes}
    (closed : Closed rest) :
    readField value t (key.written ++ s ++ rest) =
      (value (s ++ rest)).map fun read => (stored t (key, read.1), read.2) := by
  -- A bracket could also open a long string, and a name could be a value or be compared.
  obtain ⟨c, more, same, opening⟩ := spelled.opening
  have bracket : c ≠ Ascii.openBracket :=
    (ne_of_mem_of_not_mem (by decide) opening.unbarred).symm
  have single : c ≠ Ascii.equals :=
    (ne_of_mem_of_not_mem (by decide) opening.unbarred).symm
  cases key with
  | position =>
      rw [Key.written, List.nil_append, readField,
        if_neg (by rw [same]; simp [bracket]), if_neg (spelled.not_named closed),
        readPositionalField]
      cases value (s ++ rest) <;> rfl
  | name f =>
      obtain ⟨d, letters, whole, start, _⟩ := f.exists_cons
      obtain ⟨_, _, unbarred, _⟩ := isNameStart_apart d start
      have noBracket : d ≠ Ascii.openBracket := (ne_of_mem_of_not_mem (by decide) unbarred).symm
      have named : isNamedField (f.bytes ++ Ascii.equals :: (s ++ rest)) = true := by
        rw [same]
        exact isNamedField_name f single (more ++ rest)
      have first : (f.bytes ++ Ascii.equals :: (s ++ rest)).head? = some d := by
        rw [whole]
        rfl
      rw [Key.written, List.append_assoc, List.append_assoc, List.singleton_append, readField,
        if_neg (by simp [first, noBracket]), if_pos ⟨by simp [first, start], named⟩]
      exact f.readNamedField value t (s ++ rest)
  | bracketed a =>
      obtain ⟨d, digits, whole, keyOpening⟩ := a.opening
      have noBracket : d ≠ Ascii.openBracket :=
        (ne_of_mem_of_not_mem (by decide) keyOpening.unbarred).symm
      have noEquals : d ≠ Ascii.equals :=
        (ne_of_mem_of_not_mem (by decide) keyOpening.unbarred).symm
      have short : longBracketLevel? (Ascii.openBracket ::
          (a.written ++ Ascii.closeBracket :: Ascii.equals :: (s ++ rest))) = none := by
        rw [whole]
        exact longBracketLevel?_key noBracket noEquals _
      have shape : (Key.bracketed a).written ++ s ++ rest = Ascii.openBracket ::
          (a.written ++ Ascii.closeBracket :: Ascii.equals :: (s ++ rest)) := by
        simp [Key.written]
      rw [shape, readField, if_pos ⟨rfl, short⟩, List.drop_one, List.tail_cons]
      exact a.readKeyedField scalars t (s ++ rest)

/-! ## Tables -/

theorem field_opening (key : Key) {v : Term} {s : Bytes} (spelled : Spells v s) :
    ∃ c more, key.written ++ s = c :: more ∧ c ≠ Ascii.closeBrace ∧
      ∀ rest, skipBlanks (c :: (more ++ rest)) = .ok (c :: (more ++ rest)) := by
  cases key with
  | position =>
      obtain ⟨c, more, same, opening⟩ := spelled.opening
      exact ⟨c, more, same, (ne_of_mem_of_not_mem (by decide) opening.unbarred).symm,
        opening.skipped⟩
  | name f =>
      obtain ⟨c, more, same, start, _⟩ := f.exists_cons
      obtain ⟨solid, code, unbarred, _⟩ := isNameStart_apart c start
      refine ⟨c, more ++ Ascii.equals :: s, ?_,
        (ne_of_mem_of_not_mem (by decide) unbarred).symm, fun rest => skipBlanks_of_ne solid code _⟩
      rw [Key.written, same, List.append_assoc, List.singleton_append, List.cons_append]
  | bracketed a =>
      exact ⟨Ascii.openBracket, _, rfl, by decide,
        fun rest => skipBlanks_of_ne (by decide) (by decide) _⟩

/-- One round over a field, given what its value is read as. -/
theorem readFieldsWithin_field {value : ValueReader} (scalars : ReadsScalars value) (key : Key)
    {v : Term} {s : Bytes} (spelled : Spells v s) (fuel : Nat) (t : TableDraft) {rest : Bytes}
    (closed : Closed rest) :
    readFieldsWithin value (fuel + 1) t (key.written ++ s ++ rest) =
      ((value (s ++ rest)).bind fun read => (skipBlanks read.2).bind fun
        | [] => fail .expectedSeparator []
        | d :: after =>
            if d = Ascii.comma ∨ d = Ascii.semicolon then
              readFieldsWithin value fuel (stored t (key, read.1)) after
            else if d = Ascii.closeBrace then .ok ((stored t (key, read.1)).build, after)
            else fail .expectedSeparator (d :: after)) := by
  obtain ⟨c, more, same, noBrace, skipped⟩ := field_opening key spelled
  have field := readField_spelled scalars key spelled t closed
  rw [same, List.cons_append] at field ⊢
  rw [readFieldsWithin]
  simp only [skipped, field, bind, Except.bind, if_neg noBrace]
  cases value (s ++ rest) <;> rfl

theorem mem_separators {d : UInt8} : d ∈ separators ↔ d = Ascii.comma ∨ d = Ascii.semicolon := by
  simp [separators]

theorem closed_separator {d : UInt8} (separator : d ∈ separators) (rest : Bytes) :
    Closed (d :: rest) := by
  refine closed_cons ?_ rest
  obtain rfl | rfl := mem_separators.mp separator
  · decide
  · decide

theorem readFieldsWithin_separator {value : ValueReader} (scalars : ReadsScalars value) (key : Key)
    {v : Term} {s : Bytes} (spelled : Spells v s) (reads : Reads value v s) (fuel : Nat)
    (t : TableDraft) {d : UInt8} (separator : d ∈ separators) (after : Bytes) :
    readFieldsWithin value (fuel + 1) t (key.written ++ s ++ d :: after) =
      readFieldsWithin value fuel (stored t (key, v.value)) after := by
  have closed := closed_separator separator after
  rw [readFieldsWithin_field scalars key spelled fuel t closed, reads _ closed]
  simp only [Except.bind, closed.skipBlanks, if_pos (mem_separators.mp separator)]

theorem readFieldsWithin_last {value : ValueReader} (scalars : ReadsScalars value) (key : Key)
    {v : Term} {s : Bytes} (spelled : Spells v s) (reads : Reads value v s) (fuel : Nat)
    (t : TableDraft) (after : Bytes) :
    readFieldsWithin value (fuel + 1) t (key.written ++ s ++ Ascii.closeBrace :: after) =
      .ok ((stored t (key, v.value)).build, after) := by
  have closed : Closed (Ascii.closeBrace :: after) := closed_cons (by decide) after
  rw [readFieldsWithin_field scalars key spelled fuel t closed, reads _ closed]
  simp only [Except.bind, closed.skipBlanks]
  rfl

theorem readFieldsWithin_spaces (value : ValueReader) (fuel gap : Nat) (t : TableDraft)
    (s : Bytes) : readFieldsWithin value (fuel + 1) t (List.replicate gap Ascii.space ++ s) =
      readFieldsWithin value (fuel + 1) t s := by
  rw [readFieldsWithin, skipBlanks_spaces, readFieldsWithin]

theorem more_append (field : Bytes) (d : UInt8) (gap : Nat) (inner rest : Bytes) :
    field ++ d :: (List.replicate gap Ascii.space ++ inner) ++ rest =
      field ++ d :: (List.replicate gap Ascii.space ++ (inner ++ rest)) := by
  simp only [List.append_assoc, List.cons_append]

theorem readFieldsWithin_texts {value : ValueReader} (scalars : ReadsScalars value) (rest : Bytes)
    {fields : List (Key × Term)} {inner : Bytes} (texts : FieldTexts Spells fields inner) :
    (∀ field ∈ fields, ∀ s, Spells field.2 s → Reads value field.2 s) →
      ∀ (fuel : Nat) (t : TableDraft), fields.length < fuel →
      readFieldsWithin value fuel t (inner ++ Ascii.closeBrace :: rest) =
        .ok (((fieldValues fields).foldl stored t).build, rest) := by
  induction texts with
  | none =>
      intro _ fuel t enough
      obtain ⟨fuel, rfl⟩ := Nat.exists_eq_succ_of_ne_zero (Nat.ne_zero_of_lt enough)
      rw [List.nil_append, readFieldsWithin, skipBlanks_of_ne (by decide) (by decide)]
      rfl
  | last key spelled =>
      intro all fuel t enough
      obtain ⟨fuel, rfl⟩ := Nat.exists_eq_succ_of_ne_zero (Nat.ne_zero_of_lt enough)
      have reads := all _ List.mem_cons_self _ spelled
      rw [readFieldsWithin_last scalars key spelled reads]
      rfl
  | @more key v s spelled d separator gap fields inner later ih =>
      intro all fuel t enough
      obtain ⟨fuel, rfl⟩ := Nat.exists_eq_succ_of_ne_zero (Nat.ne_zero_of_lt enough)
      obtain ⟨first, others⟩ := List.forall_mem_cons.mp all
      have enoughLater := Nat.lt_of_succ_lt_succ enough
      obtain ⟨fuel, rfl⟩ := Nat.exists_eq_succ_of_ne_zero (Nat.ne_zero_of_lt enoughLater)
      -- the spaces after the separator are skipped by the round of the next field
      rw [more_append, readFieldsWithin_separator scalars key spelled (first _ spelled) _ t separator,
        readFieldsWithin_spaces, ih others _ _ enoughLater]
      rfl

theorem FieldTexts.rounds {fields : List (Key × Term)} {inner : Bytes}
    (texts : FieldTexts Spells fields inner) (rest : Bytes) :
    fields.length < (braced inner ++ rest).length := by
  have count := texts.length_le
  rw [braced, List.length_append, List.length_cons, List.length_append, List.length_singleton]
  omega

theorem readTable_braced (value : ValueReader) (inner rest : Bytes) :
    readTable value (braced inner ++ rest) =
      readFieldsWithin value (braced inner ++ rest).length .empty
        (inner ++ Ascii.closeBrace :: rest) := by
  rw [readTable, braced, List.cons_append, List.drop_one, List.tail_cons, List.append_assoc,
    List.singleton_append]

/-! ## Stored fields -/

structure SamePairs (t u : TableDraft) : Prop where
  positional : t.positional = u.positional
  keyed : t.keyed = u.keyed

theorem SamePairs.add {t u : TableDraft} (same : SamePairs t u) (key value : Value) :
    SamePairs (t.add key value) (u.add key value) := by
  rw [TableDraft.add, TableDraft.add]
  split
  · exact same
  · split
    · exact ⟨congrArg (place _ value) same.positional, same.keyed⟩
    · exact ⟨same.positional, congrArg (· ++ _) same.keyed⟩

theorem SamePairs.build {t u : TableDraft} (same : SamePairs t u) : t.build = u.build := by
  obtain ⟨positional, keyed, handedOut⟩ := t
  obtain ⟨positional', keyed', handedOut'⟩ := u
  obtain ⟨rfl, rfl⟩ := same
  rfl

theorem handedOut_add (t : TableDraft) (key value : Value) :
    (t.add key value).handedOut = t.handedOut := by
  rw [TableDraft.add]
  split
  · rfl
  · split <;> rfl

theorem handedOut_stored (t : TableDraft) (key : Key) (value : Value) :
    (stored t (key, value)).handedOut = key.taken t.handedOut := by
  rw [stored, addField]
  split
  · rfl
  · rw [handedOut_add]

theorem foldl_stored (fields : List (Key × Value)) : ∀ t u : TableDraft, SamePairs t u →
    SamePairs (fields.foldl stored t)
      (((pairs t.handedOut fields).filter fun pair => !pair.2.isNull).foldl
        (fun u pair => u.add pair.1 pair.2) u) := by
  induction fields with
  | nil => exact fun _ _ same => same
  | cons field fields ih =>
      obtain ⟨key, value⟩ := field
      intro t u same
      have counted : SamePairs { t with handedOut := key.taken t.handedOut } u :=
        ⟨same.positional, same.keyed⟩
      rw [List.foldl_cons, pairs, ← handedOut_stored t key value]
      cases null : value.isNull with
      | true =>
          rw [List.filter_cons_of_neg (by simp [null])]
          refine ih _ _ ?_
          rw [stored, addField, if_pos null]
          exact counted
      | false =>
          rw [List.filter_cons_of_pos (by simp [null]), List.foldl_cons]
          refine ih _ _ ?_
          rw [stored, addField, if_neg (by simp [null])]
          exact counted.add _ _

theorem tableValue_eq (fields : List (Key × Value)) :
    (fields.foldl stored .empty).build = tableValue fields :=
  (foldl_stored fields .empty .empty ⟨rfl, rfl⟩).build

/-! ## Literals -/

theorem depth_le_deepest {fields : List (Key × Term)} {field : Key × Term}
    (member : field ∈ fields) : field.2.depth ≤ deepest fields := by
  induction fields with
  | nil => cases member
  | cons first fields ih =>
      rw [deepest]
      obtain rfl | member := List.mem_cons.mp member
      · exact Nat.le_max_left _ _
      · exact Nat.le_trans (ih member) (Nat.le_max_right _ _)

theorem readsScalars_readValue (levels : Nat) : ReadsScalars (readValue levels) := by
  cases levels with
  | zero => exact readsScalars _
  | succ levels => exact readsScalars _

/-- Readers with enough levels read every text of a literal. -/
theorem Term.reads (v : Term) : ∀ levels, v.depth ≤ levels → ∀ s, Spells v s →
    Reads (readValue levels) v s := by
  induction v using Term.induction with
  | nil =>
      intro levels _ s spelled
      cases spelled
      cases levels with
      | zero => exact reads_nil _
      | succ levels => exact reads_nil _
  | scalar a =>
      intro levels _ s spelled
      cases spelled
      exact readsScalars_readValue levels a
  | table gap fields ih =>
      intro levels shallow s spelled rest _
      obtain ⟨levels, rfl⟩ := Nat.exists_eq_succ_of_ne_zero
        (Nat.ne_zero_of_lt (Nat.lt_of_lt_of_le (Nat.succ_pos _) shallow))
      have inner : deepest fields ≤ levels := Nat.le_of_succ_le_succ shallow
      cases spelled with
      | table gap texts =>
          have all : ∀ field ∈ fields, ∀ s, Spells field.2 s →
              Reads (readValue levels) field.2 s := fun field member =>
            ih field member levels (Nat.le_trans (depth_le_deepest member) inner)
          rw [readValue, readWith_braced, readTable_braced,
            readFieldsWithin_texts (readsScalars_readValue levels) rest texts all _ _
              (texts.rounds rest), tableValue_eq]
          rfl

theorem decodeLiteral_of_spells {v : Term} {s : Bytes} (spelled : Spells v s)
    (shallow : v.depth ≤ nestingLimit) : decodeLiteral s = .ok v.value := by
  have read := v.reads nestingLimit shallow s spelled [] closed_nil
  rw [List.append_nil] at read
  rw [decodeLiteral, readDocument, read]
  rfl

theorem decodeLiteral_written (v : Term) (shallow : v.depth ≤ nestingLimit) :
    decodeLiteral v.written = .ok v.value :=
  decodeLiteral_of_spells (spells_written v) shallow

end Literal

end LuaAsset
