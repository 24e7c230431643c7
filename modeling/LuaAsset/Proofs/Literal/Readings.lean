import LuaAsset.Proofs.Literal.Tokens

/-! # Successful readings

Inversion of the readers: `UnsignedRead` and `ValueRead` for scalars and values, and `FieldRead` and
`FieldsRead`, which are equivalent to the readers of fields. -/

set_option autoImplicit false

namespace LuaAsset

namespace Literal

theorem expectAssignment_eq_ok {s rest : Bytes} :
    expectAssignment s = .ok rest ↔ skipBlanks s = .ok (Ascii.equals :: rest) := by
  rw [expectAssignment]
  cases skipped : skipBlanks s with
  | error flaw => simp
  | ok after =>
      cases after with
      | nil => simp
      | cons c more =>
          by_cases equals : c = Ascii.equals
          · simp [equals]
          · simp [equals]

/-! ## Numbers -/

inductive NumberValue : Value → Prop
  | integer (n : Int64) : NumberValue (.integer n)
  | float {token : Bytes} {x : Binary64} (negative : Bool)
      (found : Numeral.hexadecimal? token = some x ∨ Numeral.decimal? token = some x) :
      NumberValue (.float (if negative then x.negate else x))

inductive UnsignedRead (s : Bytes) : Value → Bytes → Prop
  | hexadecimal {v : Value} (marked : isHexadecimal s = true) (value : NumberValue v) :
      UnsignedRead s v (spanNumeral Ascii.isHexDigit isHexadecimalMark (s.drop 2)).2
  | decimal {v : Value} (value : NumberValue v) :
      UnsignedRead s v (spanNumeral Ascii.isDigit isDecimalMark s).2

theorem floatValue_ok {negative : Bool} {x? : Option Binary64} {token s rest : Bytes}
    {v : Value} (read : floatValue negative x? token s = .ok (v, rest)) :
    s = rest ∧ ∃ x, x? = some x ∧ v = .float (if negative then x.negate else x) := by
  cases x? with
  | none => cases read
  | some x =>
      cases read
      exact ⟨rfl, x, rfl, rfl⟩

theorem unsignedRead_of_readUnsigned {negative : Bool} {s rest : Bytes} {v : Value}
    (read : readUnsigned negative s = .ok (v, rest)) : UnsignedRead s v rest := by
  rw [readUnsigned] at read
  split at read
  · rename_i marked
    dsimp only at read
    split at read
    · cases read
    · split at read
      · cases read
        exact .hexadecimal marked (.integer _)
      · obtain ⟨rfl, x, found, rfl⟩ := floatValue_ok read
        exact .hexadecimal marked (.float negative (.inl found))
  · dsimp only at read
    split at read
    · cases read
    · split at read
      · split at read
        · cases read
          exact .decimal (.integer _)
        · obtain ⟨rfl, x, found, rfl⟩ := floatValue_ok read
          exact .decimal (.float negative (.inr found))
      · obtain ⟨rfl, x, found, rfl⟩ := floatValue_ok read
        exact .decimal (.float negative (.inr found))

theorem unsignedRead_of_readNumber {s rest : Bytes} {v : Value}
    (read : readNumber s = .ok (v, rest)) :
    ∃ negative after, readSigns s = .ok (negative, after) ∧ UnsignedRead after v rest := by
  rw [readNumber] at read
  split at read
  · rename_i negative after signs
    exact ⟨negative, after, signs, unsignedRead_of_readUnsigned read⟩
  · cases read

/-! ## Values -/

def startsNumber (c : UInt8) (more : Bytes) : Bool :=
  Ascii.isDigit c || c == Ascii.minus || c == Ascii.plus
    || (c == Ascii.dot && more.head?.any Ascii.isDigit)

inductive ValueRead (table : ValueReader) (s : Bytes) : Value → Bytes → Prop
  | table {more rest : Bytes} {v : Value} (skipped : skipBlanks s = .ok (Ascii.openBrace :: more))
      (read : table (Ascii.openBrace :: more) = .ok (v, rest)) : ValueRead table s v rest
  | quoted {quote : UInt8} {more bytes rest : Bytes} (skipped : skipBlanks s = .ok (quote :: more))
      (either : quote = Ascii.doubleQuote ∨ quote = Ascii.singleQuote)
      (read : readQuoted quote more = .ok (bytes, rest)) : ValueRead table s (.string bytes) rest
  | bracketed {level : Nat} {more bytes rest : Bytes}
      (skipped : skipBlanks s = .ok (Ascii.openBracket :: more))
      (opening : longBracketLevel? (Ascii.openBracket :: more) = some level)
      (read : readLongBracket level (Ascii.openBracket :: more) = .ok (bytes, rest)) :
      ValueRead table s (.string bytes) rest
  | number {c : UInt8} {more rest : Bytes} {v : Value} (skipped : skipBlanks s = .ok (c :: more))
      (starts : startsNumber c more = true) (read : readNumber (c :: more) = .ok (v, rest)) :
      ValueRead table s v rest
  | word {c : UInt8} {more : Bytes} (skipped : skipBlanks s = .ok (c :: more))
      (starts : isNameStart c = true) :
      ValueRead table s (wordValue ((c :: more).takeWhile isNameByte))
        ((c :: more).dropWhile isNameByte)

theorem valueRead_of_readWith {table : ValueReader} {s rest : Bytes} {v : Value}
    (read : readWith table s = .ok (v, rest)) : ValueRead table s v rest := by
  rw [readWith] at read
  cases skipped : skipBlanks s with
  | error flaw =>
      rw [skipped] at read
      cases read
  | ok after =>
      rw [skipped] at read
      cases after with
      | nil => cases read
      | cons c more =>
          dsimp only at read
          split at read
          · rename_i brace
            subst brace
            exact .table skipped read
          · split at read
            · rename_i either
              obtain ⟨found, readQuoted, same⟩ := map_ok read
              cases same
              exact .quoted skipped either readQuoted
            · split at read
              · rename_i bracket
                subst bracket
                split at read
                · rename_i level opening
                  obtain ⟨found, readBracket, same⟩ := map_ok read
                  cases same
                  exact .bracketed skipped opening readBracket
                · cases read
              · split at read
                · rename_i starts
                  exact .number skipped starts read
                · split at read
                  · rename_i starts
                    cases read
                    exact .word skipped starts
                  · cases read

/-! ## Fields -/

def OpensKey (s : Bytes) : Prop :=
  s.head? = some Ascii.openBracket ∧ longBracketLevel? s = none

def OpensName (s : Bytes) : Prop := s.head?.any isNameStart = true ∧ isNamedField s = true

/-- The bytes that the search for the assignment of a name skips. -/
def isNarrow (c : UInt8) : Bool :=
  c == Ascii.space || c == Ascii.tab || c == Ascii.carriageReturn || c == Ascii.lineFeed

theorem isNamedField_eq (s : Bytes) :
    isNamedField s = match (s.dropWhile isNameByte).dropWhile isNarrow with
      | c :: rest => c == Ascii.equals && rest.head? != some Ascii.equals
      | [] => false :=
  rfl

inductive FieldRead (value : ValueReader) (t : TableDraft) (s : Bytes) : TableDraft → Bytes → Prop
  | keyed {key v : Value} {s₁ s₂ s₃ rest : Bytes} (opens : OpensKey s)
      (readKey : value (s.drop 1) = .ok (key, s₁))
      (closed : skipBlanks s₁ = .ok (Ascii.closeBracket :: s₂))
      (assigned : skipBlanks s₂ = .ok (Ascii.equals :: s₃))
      (read : value s₃ = .ok (v, rest)) (something : key.isNull = false) :
      FieldRead value t s (addField t (normalKey key) v) rest
  | named {v : Value} {s₁ rest : Bytes} (bare : ¬OpensKey s) (opens : OpensName s)
      (assigned : skipBlanks (s.dropWhile isNameByte) = .ok (Ascii.equals :: s₁))
      (read : value s₁ = .ok (v, rest)) :
      FieldRead value t s (addField t (.string (s.takeWhile isNameByte)) v) rest
  | positional {v : Value} {rest : Bytes} (bare : ¬OpensKey s) (nameless : ¬OpensName s)
      (read : value s = .ok (v, rest)) :
      FieldRead value t s
        (addField t.nextPosition.2 (.integer (Int64.ofNat t.nextPosition.1)) v) rest

theorem readKeyedField_eq_ok {value : ValueReader} {t t' : TableDraft} {s rest : Bytes} :
    readKeyedField value t s = .ok (t', rest) ↔
      ∃ key v s₁ s₂ s₃, value s = .ok (key, s₁) ∧
        skipBlanks s₁ = .ok (Ascii.closeBracket :: s₂) ∧
        skipBlanks s₂ = .ok (Ascii.equals :: s₃) ∧ value s₃ = .ok (v, rest) ∧
        key.isNull = false ∧ t' = addField t (normalKey key) v := by
  constructor
  · intro read
    obtain ⟨⟨key, s₁⟩, readKey, read⟩ := bind_ok read
    obtain ⟨after, skipped, read⟩ := bind_ok read
    cases after with
    | nil => cases read
    | cons c s₂ =>
        by_cases closes : c = Ascii.closeBracket
        · subst closes
          rw [if_neg (by simp)] at read
          obtain ⟨s₃, assigned, read⟩ := bind_ok read
          obtain ⟨⟨v, s₄⟩, readValue, read⟩ := bind_ok read
          dsimp only at read
          split at read
          · cases read
          · rename_i something
            cases read
            exact ⟨key, v, s₁, s₂, s₃, readKey, skipped, expectAssignment_eq_ok.mp assigned,
              readValue, by simpa using something, rfl⟩
        · rw [if_pos (by simp [closes])] at read
          cases read
  · rintro ⟨key, v, s₁, s₂, s₃, readKey, closed, assigned, read, something, rfl⟩
    have assignment := expectAssignment_eq_ok.mpr assigned
    simp [readKeyedField, bind, Except.bind, pure, Except.pure, readKey, closed, assignment, read,
      something]

theorem readNamedField_eq_ok {value : ValueReader} {t t' : TableDraft} {s rest : Bytes} :
    readNamedField value t s = .ok (t', rest) ↔
      ∃ v s₁, skipBlanks (s.dropWhile isNameByte) = .ok (Ascii.equals :: s₁) ∧
        value s₁ = .ok (v, rest) ∧ t' = addField t (.string (s.takeWhile isNameByte)) v := by
  constructor
  · intro read
    obtain ⟨s₁, assigned, read⟩ := bind_ok read
    obtain ⟨⟨v, s₂⟩, readValue, read⟩ := bind_ok read
    cases read
    exact ⟨v, s₁, expectAssignment_eq_ok.mp assigned, readValue, rfl⟩
  · rintro ⟨v, s₁, assigned, read, rfl⟩
    have assignment := expectAssignment_eq_ok.mpr assigned
    simp [readNamedField, bind, Except.bind, pure, Except.pure, assignment, read]

theorem readPositionalField_eq_ok {value : ValueReader} {t t' : TableDraft} {s rest : Bytes} :
    readPositionalField value t s = .ok (t', rest) ↔
      ∃ v, value s = .ok (v, rest) ∧
        t' = addField t.nextPosition.2 (.integer (Int64.ofNat t.nextPosition.1)) v := by
  constructor
  · intro read
    obtain ⟨⟨v, s₁⟩, readValue, read⟩ := bind_ok read
    cases read
    exact ⟨v, readValue, rfl⟩
  · rintro ⟨v, read, rfl⟩
    simp [readPositionalField, bind, Except.bind, pure, Except.pure, read]

theorem readField_keyed {value : ValueReader} (t : TableDraft) {s : Bytes} (opens : OpensKey s) :
    readField value t s = readKeyedField value t (s.drop 1) :=
  if_pos opens

theorem readField_named {value : ValueReader} (t : TableDraft) {s : Bytes} (bare : ¬OpensKey s)
    (opens : OpensName s) : readField value t s = readNamedField value t s :=
  (if_neg bare).trans (if_pos opens)

theorem readField_positional {value : ValueReader} (t : TableDraft) {s : Bytes}
    (bare : ¬OpensKey s) (nameless : ¬OpensName s) :
    readField value t s = readPositionalField value t s :=
  (if_neg bare).trans (if_neg nameless)

theorem readField_eq_ok {value : ValueReader} {t t' : TableDraft} {s rest : Bytes} :
    readField value t s = .ok (t', rest) ↔ FieldRead value t s t' rest := by
  constructor
  · intro read
    by_cases key : OpensKey s
    · rw [readField_keyed t key, readKeyedField_eq_ok] at read
      obtain ⟨_, _, _, _, _, readKey, closed, assigned, read, something, rfl⟩ := read
      exact .keyed key readKey closed assigned read something
    · by_cases name : OpensName s
      · rw [readField_named t key name, readNamedField_eq_ok] at read
        obtain ⟨_, _, assigned, read, rfl⟩ := read
        exact .named key name assigned read
      · rw [readField_positional t key name, readPositionalField_eq_ok] at read
        obtain ⟨_, read, rfl⟩ := read
        exact .positional key name read
  · intro field
    cases field with
    | keyed opens readKey closed assigned read something =>
        rw [readField_keyed t opens, readKeyedField_eq_ok]
        exact ⟨_, _, _, _, _, readKey, closed, assigned, read, something, rfl⟩
    | named bare opens assigned read =>
        rw [readField_named t bare opens, readNamedField_eq_ok]
        exact ⟨_, _, assigned, read, rfl⟩
    | positional bare nameless read =>
        rw [readField_positional t bare nameless, readPositionalField_eq_ok]
        exact ⟨_, read, rfl⟩

/-! ## Rounds -/

inductive FieldsRead (value : ValueReader) : Nat → TableDraft → Bytes → Value → Bytes → Prop
  | closed {t : TableDraft} {s rest : Bytes}
      (skipped : skipBlanks s = .ok (Ascii.closeBrace :: rest)) :
      FieldsRead value 1 t s t.build rest
  | last {t t' : TableDraft} {s s' more rest : Bytes} {c : UInt8}
      (skipped : skipBlanks s = .ok (c :: more)) (further : c ≠ Ascii.closeBrace)
      (field : FieldRead value t (c :: more) t' s')
      (closed : skipBlanks s' = .ok (Ascii.closeBrace :: rest)) :
      FieldsRead value 1 t s t'.build rest
  | more {n : Nat} {t t' : TableDraft} {s s' more after rest : Bytes} {c d : UInt8} {v : Value}
      (skipped : skipBlanks s = .ok (c :: more)) (further : c ≠ Ascii.closeBrace)
      (field : FieldRead value t (c :: more) t' s') (again : skipBlanks s' = .ok (d :: after))
      (separator : d = Ascii.comma ∨ d = Ascii.semicolon)
      (later : FieldsRead value n t' after v rest) : FieldsRead value (n + 1) t s v rest

theorem fieldsRead_of_readFieldsWithin {value : ValueReader} (fuel : Nat) :
    ∀ {t : TableDraft} {s rest : Bytes} {v : Value},
      readFieldsWithin value fuel t s = .ok (v, rest) →
      ∃ n, n ≤ fuel ∧ FieldsRead value n t s v rest := by
  induction fuel with
  | zero =>
      intro t s rest v read
      cases read
  | succ fuel ih =>
      intro t s rest v read
      rw [readFieldsWithin] at read
      obtain ⟨after, skipped, read⟩ := bind_ok read
      cases after with
      | nil => cases read
      | cons c more =>
          dsimp only at read
          split at read
          · rename_i closes
            subst closes
            cases read
            exact ⟨1, Nat.le_add_left 1 fuel, .closed skipped⟩
          · rename_i further
            obtain ⟨⟨t', s'⟩, field, read⟩ := bind_ok read
            obtain ⟨following, again, read⟩ := bind_ok read
            rw [readField_eq_ok] at field
            cases following with
            | nil => cases read
            | cons d following =>
                dsimp only at read
                split at read
                · rename_i separator
                  obtain ⟨n, within, later⟩ := ih read
                  exact ⟨n + 1, Nat.succ_le_succ within,
                    .more skipped further field again separator later⟩
                · split at read
                  · rename_i closes
                    subst closes
                    cases read
                    exact ⟨1, Nat.le_add_left 1 fuel, .last skipped further field again⟩
                  · cases read

theorem FieldsRead.readFieldsWithin {value : ValueReader} {n : Nat} {t : TableDraft}
    {s rest : Bytes} {v : Value} (rounds : FieldsRead value n t s v rest) :
    ∀ fuel, n ≤ fuel → readFieldsWithin value fuel t s = .ok (v, rest) := by
  induction rounds with
  | closed skipped =>
      intro fuel within
      obtain ⟨fuel, rfl⟩ := Nat.exists_eq_add_of_le' within
      simp [Literal.readFieldsWithin, bind, Except.bind, pure, Except.pure, skipped]
  | last skipped further field closed =>
      intro fuel within
      obtain ⟨fuel, rfl⟩ := Nat.exists_eq_add_of_le' within
      rw [← readField_eq_ok] at field
      have bar : ¬(Ascii.closeBrace = Ascii.comma ∨ Ascii.closeBrace = Ascii.semicolon) := by decide
      simp [Literal.readFieldsWithin, bind, Except.bind, pure, Except.pure, skipped, further, field,
        closed, bar]
  | @more n t t' s s' more after rest c d v skipped further field again separator _ ih =>
      intro fuel within
      obtain ⟨fuel, rfl⟩ := Nat.exists_eq_add_of_le' (Nat.le_of_add_left_le within)
      rw [← readField_eq_ok] at field
      have later := ih fuel (Nat.le_of_succ_le_succ within)
      simp [Literal.readFieldsWithin, bind, Except.bind, skipped, further, field, again, separator,
        later]

/-! ## Whole texts -/

theorem readDocument_eq_ok {s : Bytes} {v : Value} : readDocument s = .ok v ↔
    ∃ rest, readValue nestingLimit s = .ok (v, rest) ∧ skipBlanks rest = .ok [] := by
  constructor
  · intro read
    obtain ⟨⟨found, rest⟩, value, read⟩ := bind_ok read
    obtain ⟨left, skipped, read⟩ := bind_ok read
    split at read
    · rename_i empty
      cases read
      rw [List.isEmpty_iff.mp empty] at skipped
      exact ⟨rest, value, skipped⟩
    · cases read
  · rintro ⟨rest, value, skipped⟩
    simp only [readDocument, bind, Except.bind, value, skipped]
    rfl

theorem decodeLiteral_eq_ok {s : Bytes} {v : Value} :
    decodeLiteral s = .ok v ↔ readDocument s = .ok v := by
  rw [decodeLiteral]
  cases readDocument s with
  | ok value => simp
  | error flaw => simp

/-! ## Quoted strings as whole texts -/

theorem readWith_quote (table : ValueReader) {quote : UInt8}
    (either : quote = Ascii.doubleQuote ∨ quote = Ascii.singleQuote) (rest : Bytes) :
    readWith table (quote :: rest) =
      (readQuoted quote rest).map fun read => (.string read.1, read.2) := by
  have apart : Ascii.isBlank quote = false ∧ quote ≠ Ascii.minus ∧ quote ≠ Ascii.openBrace := by
    obtain rfl | rfl := either <;> decide
  rw [readWith, skipBlanks_of_ne apart.1 apart.2.1]
  dsimp only
  rw [if_neg apart.2.2, if_pos either]

section Quoted

variable {quote : UInt8} (either : quote = Ascii.doubleQuote ∨ quote = Ascii.singleQuote)
include either

theorem readValue_quote (rest : Bytes) : readValue nestingLimit (quote :: rest) =
    (readQuoted quote rest).map fun read => (.string read.1, read.2) := by
  rw [show nestingLimit = 199 + 1 from rfl, readValue, readWith_quote _ either]

theorem decodeLiteral_of_readQuoted {s w : Bytes} (read : readQuoted quote w = .ok (s, [])) :
    decodeLiteral (quote :: w) = .ok (.string s) := by
  rw [decodeLiteral_eq_ok, readDocument_eq_ok]
  refine ⟨[], ?_, rfl⟩
  rw [readValue_quote either, read]
  rfl

end Quoted

end Literal

end LuaAsset
