import LuaAsset.Proofs.Literal.Cursor.InBounds
import LuaAsset.Proofs.Literal.Readings
import LuaAsset.Proofs.Literal.RoundTrip
import LuaAsset.Proofs.Table.Assignment

/-! # Table constructors as assignments

`Constructs` relates the fields of a constructor to assignments: a field without a key assigns to
the next position, and an integral float key is the integer.  The table read is the result of the
assignments without those of `nil` (`decodeLiteral_constructor`), which unlike them would remove an
earlier value (`decodeLiteral_removed`). -/

set_option autoImplicit false

namespace LuaAsset

namespace Literal

open TableDraft

/-! ## Values of texts -/

def IsWritten : Value → Prop
  | .natural _ => False
  | .float x => x.IsNumber
  | _ => True

theorem NumberValue.isWritten {v : Value} (value : NumberValue v) : IsWritten v := by
  cases value with
  | integer n => exact trivial
  | float negative found =>
      have number := found.elim Numeral.isNumber_of_hexadecimal? Numeral.isNumber_of_decimal?
      cases negative with
      | false => exact number
      | true => exact number.negate

theorem UnsignedRead.isWritten {s rest : Bytes} {v : Value} (read : UnsignedRead s v rest) :
    IsWritten v := by
  cases read with
  | hexadecimal _ value => exact value.isWritten
  | decimal value => exact value.isWritten

theorem isWritten_wordValue (word : Bytes) : IsWritten (wordValue word) := by
  rw [wordValue]
  split
  · exact trivial
  · split
    · exact trivial
    · split <;> exact trivial

theorem isWritten_build (t : TableDraft) : IsWritten t.build := by
  obtain ⟨items, array⟩ | ⟨fields, object⟩ := build_cases t
  · rw [array]
    exact trivial
  · rw [object]
    exact trivial

theorem FieldsRead.isWritten {value : ValueReader} {n : Nat} {t : TableDraft} {s rest : Bytes}
    {v : Value} (rounds : FieldsRead value n t s v rest) : IsWritten v := by
  induction rounds with
  | closed => exact isWritten_build _
  | last => exact isWritten_build _
  | more _ _ _ _ _ _ ih => exact ih

theorem isWritten_readWith {table : ValueReader} {s rest : Bytes} {v : Value}
    (tables : ∀ {s rest : Bytes} {v : Value}, table s = .ok (v, rest) → IsWritten v)
    (read : readWith table s = .ok (v, rest)) : IsWritten v := by
  cases valueRead_of_readWith read with
  | table _ read => exact tables read
  | quoted => exact trivial
  | bracketed => exact trivial
  | number _ _ read =>
      obtain ⟨_, _, _, unsigned⟩ := unsignedRead_of_readNumber read
      exact unsigned.isWritten
  | word => exact isWritten_wordValue _

theorem isWritten_readValue {levels : Nat} {s rest : Bytes} {v : Value}
    (read : readValue levels s = .ok (v, rest)) : IsWritten v := by
  cases levels with
  | zero => exact isWritten_readWith (fun {_ _ _} refused => by cases refused) read
  | succ levels =>
      refine isWritten_readWith (fun {s rest v} read => ?_) read
      obtain ⟨n, _, rounds⟩ := fieldsRead_of_readFieldsWithin _ read
      exact rounds.isWritten

theorem isSlot_normalKey {key : Value} (written : IsWritten key) (something : key.isNull = false) :
    (normalKey key).IsSlot := by
  cases key with
  | null => cases something
  | natural n => exact written.elim
  | float x =>
      rw [normalKey]
      cases whole : x.toInteger? with
      | none => exact ⟨written, whole⟩
      | some n => exact trivial
  | _ => exact trivial

/-! ## Constructors -/

/-- A field as an assignment, given the number of fields without a key before it; also that number
after the field, and the rest of the text. -/
inductive Assigns (value : Bytes → Value → Bytes → Prop) (count : Nat) (s : Bytes) :
    Value × Value → Nat → Bytes → Prop
  | keyed {key v : Value} {s₁ s₂ s₃ rest : Bytes} (opens : OpensKey s)
      (readKey : value (s.drop 1) key s₁)
      (closed : skipBlanks s₁ = .ok (Ascii.closeBracket :: s₂))
      (assigned : skipBlanks s₂ = .ok (Ascii.equals :: s₃)) (read : value s₃ v rest)
      (something : key.isNull = false) : Assigns value count s (normalKey key, v) count rest
  | named {v : Value} {s₁ rest : Bytes} (bare : ¬OpensKey s) (opens : OpensName s)
      (assigned : skipBlanks (s.dropWhile isNameByte) = .ok (Ascii.equals :: s₁))
      (read : value s₁ v rest) :
      Assigns value count s (.string (s.takeWhile isNameByte), v) count rest
  | positional {v : Value} {rest : Bytes} (bare : ¬OpensKey s) (nameless : ¬OpensName s)
      (read : value s v rest) :
      Assigns value count s (.integer (Int64.ofNat (count + 1)), v) (count + 1) rest

/-- The fields up to a closing brace as assignments, in textual order. -/
inductive Constructs (value : Bytes → Value → Bytes → Prop) :
    Nat → Bytes → List (Value × Value) → Bytes → Prop
  | closed {count : Nat} {s rest : Bytes}
      (skipped : skipBlanks s = .ok (Ascii.closeBrace :: rest)) : Constructs value count s [] rest
  | last {count count' : Nat} {s s' more rest : Bytes} {c : UInt8} {pair : Value × Value}
      (skipped : skipBlanks s = .ok (c :: more)) (further : c ≠ Ascii.closeBrace)
      (field : Assigns value count (c :: more) pair count' s')
      (closed : skipBlanks s' = .ok (Ascii.closeBrace :: rest)) :
      Constructs value count s [pair] rest
  | more {count count' : Nat} {s s' more after rest : Bytes} {c d : UInt8} {pair : Value × Value}
      {pairs : List (Value × Value)} (skipped : skipBlanks s = .ok (c :: more))
      (further : c ≠ Ascii.closeBrace) (field : Assigns value count (c :: more) pair count' s')
      (again : skipBlanks s' = .ok (d :: after))
      (separator : d = Ascii.comma ∨ d = Ascii.semicolon)
      (later : Constructs value count' after pairs rest) :
      Constructs value count s (pair :: pairs) rest

def assignsSomething (pair : Value × Value) : Bool := !pair.2.isNull

/-- The meaning of a text whose tables nest within the limit: a scalar, or the table that its
assignments make. -/
def Denotes : Nat → Bytes → Value → Bytes → Prop
  | 0, s, v, rest => readValue 0 s = .ok (v, rest)
  | levels + 1, s, v, rest => readValue 0 s = .ok (v, rest) ∨
      ∃ more pairs, skipBlanks s = .ok (Ascii.openBrace :: more) ∧
        Constructs (Denotes levels) 0 more pairs rest ∧
        v = (ofPairs (performed (pairs.filter assignsSomething))).build

/-! ## Readers and constructors -/

def Reading (value : ValueReader) (s : Bytes) (v : Value) (rest : Bytes) : Prop :=
  value s = .ok (v, rest)

theorem fieldRead_iff {value : ValueReader} {t t' : TableDraft} {s rest : Bytes} :
    FieldRead value t s t' rest ↔ ∃ pair count,
      Assigns (Reading value) t.handedOut s pair count rest ∧
        t' = addField { t with handedOut := count } pair.1 pair.2 := by
  constructor
  · intro field
    cases field with
    | keyed opens readKey closed assigned read something =>
        exact ⟨_, _, .keyed opens readKey closed assigned read something, rfl⟩
    | named bare opens assigned read => exact ⟨_, _, .named bare opens assigned read, rfl⟩
    | positional bare nameless read => exact ⟨_, _, .positional bare nameless read, rfl⟩
  · rintro ⟨pair, count, field, rfl⟩
    cases field with
    | keyed opens readKey closed assigned read something =>
        exact .keyed opens readKey closed assigned read something
    | named bare opens assigned read => exact .named bare opens assigned read
    | positional bare nameless read => exact .positional bare nameless read

def addFields (pairs : List (Value × Value)) (t : TableDraft) : TableDraft :=
  pairs.foldl (fun t pair => addField t pair.1 pair.2) t

theorem addFields_empty (pairs : List (Value × Value)) :
    addFields pairs .empty = ofPairs (pairs.filter assignsSomething) := by
  rw [ofPairs, List.foldl_filter, addFields]
  congr 1
  funext t pair
  cases null : pair.2.isNull <;> simp [addField, assignsSomething, null]

theorem SamePairs.addField {t u : TableDraft} (same : SamePairs t u) (key value : Value) :
    SamePairs (addField t key value) (addField u key value) := by
  rw [Literal.addField, Literal.addField]
  split
  · exact same
  · exact same.add key value

theorem handedOut_addField (t : TableDraft) (key value : Value) :
    (addField t key value).handedOut = t.handedOut := by
  rw [addField]
  split
  · rfl
  · exact handedOut_add t key value

section Rounds

variable {value : ValueReader}

theorem FieldsRead.constructs {n : Nat} {t : TableDraft} {s rest : Bytes} {v : Value}
    (rounds : FieldsRead value n t s v rest) : ∀ u, SamePairs t u →
      ∃ pairs, Constructs (Reading value) t.handedOut s pairs rest ∧
        v = (addFields pairs u).build := by
  induction rounds with
  | closed skipped => exact fun u same => ⟨[], .closed skipped, same.build⟩
  | @last t t' s s' more rest c skipped further field closed =>
      intro u same
      obtain ⟨pair, count, assigns, rfl⟩ := fieldRead_iff.mp field
      have counted : SamePairs { t with handedOut := count } u := ⟨same.positional, same.keyed⟩
      exact ⟨[pair], .last skipped further assigns closed, (counted.addField _ _).build⟩
  | @more n t t' s s' more after rest c d v skipped further field again separator _ ih =>
      intro u same
      obtain ⟨pair, count, assigns, rfl⟩ := fieldRead_iff.mp field
      have counted : SamePairs { t with handedOut := count } u := ⟨same.positional, same.keyed⟩
      obtain ⟨pairs, later, result⟩ := ih _ (counted.addField pair.1 pair.2)
      rw [handedOut_addField] at later
      exact ⟨pair :: pairs, .more skipped further assigns again separator later, result⟩

def Shrinks (value : ValueReader) : Prop :=
  ∀ {s rest : Bytes} {v : Value}, value s = .ok (v, rest) → rest.length ≤ s.length

theorem skipBlanks_shrinks {s rest : Bytes} (skipped : skipBlanks s = .ok rest) :
    rest.length ≤ s.length := by
  have runs : Cursor.Runs s Cursor.skipSpace s ((skipBlanks s).map fun rest => ((), rest)) :=
    Cursor.runs_skipSpace (Nat.le_refl _)
  rw [skipped] at runs
  exact (runs (List.suffix_refl s)).1.length_le

theorem shrinks_readValue (levels : Nat) : Shrinks (readValue levels) := by
  intro s rest v read
  have runs := Cursor.runs_readValue levels s (List.suffix_refl s)
  rw [read] at runs
  exact runs.1.length_le

theorem Assigns.length_le (shrinks : Shrinks value) {count count' : Nat} {s rest : Bytes}
    {pair : Value × Value} (field : Assigns (Reading value) count s pair count' rest) :
    rest.length ≤ s.length := by
  cases field with
  | @keyed key v s₁ s₂ s₃ _ opens readKey closed assigned read =>
      have first : s₁.length ≤ s.length :=
        Nat.le_trans (shrinks readKey) (List.drop_suffix 1 s).length_le
      have second := skipBlanks_shrinks closed
      have third := skipBlanks_shrinks assigned
      have fourth : rest.length ≤ s₃.length := shrinks read
      simp only [List.length_cons] at second third
      omega
  | @named v s₁ _ bare opens assigned read =>
      have first := (List.dropWhile_suffix (p := isNameByte) (l := s)).length_le
      have second := skipBlanks_shrinks assigned
      have third : rest.length ≤ s₁.length := shrinks read
      rw [List.length_cons] at second
      omega
  | positional bare nameless read => exact shrinks read

/-- A constructor is read in at most as many rounds as it has bytes. -/
theorem Constructs.fieldsRead (shrinks : Shrinks value) {count : Nat} {s rest : Bytes}
    {pairs : List (Value × Value)} (constructs : Constructs (Reading value) count s pairs rest) :
    ∀ t u : TableDraft, t.handedOut = count → SamePairs t u →
      ∃ n, n ≤ s.length ∧ FieldsRead value n t s (addFields pairs u).build rest := by
  induction constructs with
  | closed skipped =>
      intro t u _ same
      have length := skipBlanks_shrinks skipped
      rw [List.length_cons] at length
      refine ⟨1, by omega, ?_⟩
      rw [show (addFields [] u).build = t.build from same.build.symm]
      exact .closed skipped
  | @last count count' s s' more rest c pair skipped further field closed =>
      intro t u counts same
      have length := skipBlanks_shrinks skipped
      rw [List.length_cons] at length
      have counted : SamePairs { t with handedOut := count' } u := ⟨same.positional, same.keyed⟩
      have stored := (counted.addField pair.1 pair.2).build
      have read : FieldRead value t (c :: more) _ s' :=
        fieldRead_iff.mpr ⟨pair, count', counts ▸ field, rfl⟩
      refine ⟨1, by omega, ?_⟩
      rw [show (addFields [pair] u).build = _ from stored.symm]
      exact .last skipped further read closed
  | @more count count' s s' more after rest c d pair pairs skipped further field again separator
      _ ih =>
      intro t u counts same
      have counted : SamePairs { t with handedOut := count' } u := ⟨same.positional, same.keyed⟩
      have read : FieldRead value t (c :: more) _ s' :=
        fieldRead_iff.mpr ⟨pair, count', counts ▸ field, rfl⟩
      obtain ⟨n, within, later⟩ := ih (addField { t with handedOut := count' } pair.1 pair.2)
        (addField u pair.1 pair.2) (handedOut_addField _ _ _) (counted.addField _ _)
      have first := skipBlanks_shrinks skipped
      have second := field.length_le shrinks
      have third := skipBlanks_shrinks again
      rw [List.length_cons] at first second third
      exact ⟨n + 1, by omega, .more skipped further read again separator later⟩

theorem readTable_eq_ok (shrinks : Shrinks value) {more rest : Bytes} {v : Value} :
    readTable value (Ascii.openBrace :: more) = .ok (v, rest) ↔ ∃ pairs,
      Constructs (Reading value) 0 more pairs rest ∧
        v = (ofPairs (pairs.filter assignsSomething)).build := by
  have sameEmpty : SamePairs TableDraft.empty .empty := ⟨rfl, rfl⟩
  constructor
  · intro read
    obtain ⟨n, _, rounds⟩ := fieldsRead_of_readFieldsWithin _ read
    obtain ⟨pairs, constructs, result⟩ := rounds.constructs .empty sameEmpty
    exact ⟨pairs, constructs, by rw [result, addFields_empty]⟩
  · rintro ⟨pairs, constructs, rfl⟩
    obtain ⟨n, within, rounds⟩ := constructs.fieldsRead shrinks .empty .empty rfl sameEmpty
    rw [addFields_empty] at rounds
    exact rounds.readFieldsWithin _ (Nat.le_succ_of_le within)

end Rounds

theorem readWith_eq_ok {table : ValueReader} {s rest : Bytes} {v : Value} :
    readWith table s = .ok (v, rest) ↔ readValue 0 s = .ok (v, rest) ∨
      ∃ more, skipBlanks s = .ok (Ascii.openBrace :: more) ∧
        table (Ascii.openBrace :: more) = .ok (v, rest) := by
  rw [readValue, readWith, readWith]
  cases skipped : skipBlanks s with
  | error flaw => simp
  | ok after =>
      cases after with
      | nil => simp [fail]
      | cons c more =>
          by_cases brace : c = Ascii.openBrace
          · simp [brace, fail]
          · simp [brace]

/-! ## Keys -/

section Keys

variable {value : Bytes → Value → Bytes → Prop}

theorem Assigns.isSlot (written : ∀ {s v rest}, value s v rest → IsWritten v) {count count' : Nat}
    {s rest : Bytes} {pair : Value × Value} (field : Assigns value count s pair count' rest) :
    pair.1.IsSlot := by
  cases field with
  | keyed opens readKey closed assigned read something =>
      exact isSlot_normalKey (written readKey) something
  | named => exact trivial
  | positional => exact trivial

theorem Constructs.isSlot (written : ∀ {s v rest}, value s v rest → IsWritten v) {count : Nat}
    {s rest : Bytes} {pairs : List (Value × Value)}
    (constructs : Constructs value count s pairs rest) : ∀ pair ∈ pairs, pair.1.IsSlot := by
  induction constructs with
  | closed => exact fun pair member => nomatch member
  | last _ _ field => exact List.forall_mem_singleton.mpr (field.isSlot written)
  | more _ _ field _ _ _ ih => exact List.forall_mem_cons.mpr ⟨field.isSlot written, ih⟩

end Keys

/-- The table built from the fields is the one that their assignments make. -/
theorem Constructs.build_performed {levels count : Nat} {s rest : Bytes}
    {pairs : List (Value × Value)}
    (constructs : Constructs (Reading (readValue levels)) count s pairs rest) :
    (ofPairs (performed (pairs.filter assignsSomething))).build =
      (ofPairs (pairs.filter assignsSomething)).build := by
  have slots := constructs.isSlot isWritten_readValue
  refine TableDraft.build_performed (fun pair member => ?_) fun pair member => ?_
  · exact slots pair (List.mem_filter.mp member).1
  · have something := (List.mem_filter.mp member).2
    simpa [assignsSomething] using something

/-! ## Texts -/

theorem reading_eq_denotes (levels : Nat) : Reading (readValue levels) = Denotes levels := by
  induction levels with
  | zero => rfl
  | succ levels ih =>
      funext s v rest
      refine propext ?_
      rw [Reading, readValue, readWith_eq_ok, Denotes, ← ih]
      refine or_congr_right ?_
      constructor
      · rintro ⟨more, skipped, read⟩
        obtain ⟨pairs, constructs, rfl⟩ := (readTable_eq_ok (shrinks_readValue levels)).mp read
        exact ⟨more, pairs, skipped, constructs, constructs.build_performed.symm⟩
      · rintro ⟨more, pairs, skipped, constructs, rfl⟩
        refine ⟨more, skipped, (readTable_eq_ok (shrinks_readValue levels)).mpr ?_⟩
        exact ⟨pairs, constructs, constructs.build_performed⟩

theorem decodeLiteral_iff_denotes {s : Bytes} {v : Value} : decodeLiteral s = .ok v ↔
    ∃ rest, Denotes nestingLimit s v rest ∧ skipBlanks rest = .ok [] := by
  rw [decodeLiteral_eq_ok, readDocument_eq_ok, ← reading_eq_denotes]
  rfl

/-- A table constructor is read as the result of its fields as assignments in textual order, where a
field with value `nil` assigns nothing.  If no such field follows one with the same key, this is the
result of all the assignments. -/
theorem decodeLiteral_constructor {s more : Bytes}
    (opens : skipBlanks s = .ok (Ascii.openBrace :: more)) (v : Value) :
    decodeLiteral s = .ok v ↔ ∃ pairs rest,
      Constructs (Denotes (nestingLimit - 1)) 0 more pairs rest ∧ skipBlanks rest = .ok [] ∧
        v = (ofPairs (performed (pairs.filter assignsSomething))).build ∧
        (Unremoved pairs → v = (ofPairs (performed pairs)).build) := by
  have table : readValue 0 s = readWith (fail .nestingTooDeep) s := rfl
  have refused : ∀ rest, readValue 0 s ≠ .ok (v, rest) := by
    intro rest read
    rw [table, readWith, opens] at read
    cases read
  rw [decodeLiteral_iff_denotes]
  constructor
  · rintro ⟨rest, scalar | ⟨more', pairs, skipped, constructs, result⟩, ends⟩
    · exact absurd scalar (refused rest)
    · obtain rfl : more' = more := by
        rw [opens] at skipped
        simpa using skipped.symm
      refine ⟨pairs, rest, constructs, ends, result, fun unremoved => ?_⟩
      rw [result, ← performed_filter unremoved]
      rfl
  · rintro ⟨pairs, rest, constructs, ends, result, _⟩
    exact ⟨rest, .inr ⟨more, pairs, opens, constructs, result⟩, ends⟩

theorem not_opensKey {s : Bytes} (other : s.head? ≠ some Ascii.openBracket) : ¬OpensKey s :=
  fun opens => other opens.1

theorem not_opensName {s : Bytes} (other : isNamedField s = false) : ¬OpensName s :=
  fun opens => absurd (other.symm.trans opens.2) Bool.false_ne_true

def reassigned : Bytes := text "'a',x=1,[1.0]=x,x=2,nil\x7d"

theorem constructs_reassigned (levels : Nat) : Constructs (Denotes (levels + 1)) 0 reassigned
    [(.integer 1, .string (text "a")), (.string (text "x"), .integer 1),
      (.integer 1, .string (text "x")), (.string (text "x"), .integer 2), (.integer 2, .null)]
    [] := by
  refine .more rfl (by decide) (.positional (not_opensKey (by decide)) (not_opensName (by decide))
    (.inl rfl)) rfl (.inl rfl) ?_
  refine .more rfl (by decide) (.named (not_opensKey (by decide)) ⟨by decide, by decide⟩ rfl
    (.inl rfl)) rfl (.inl rfl) ?_
  have one : normalKey (.float ⟨0x3ff0000000000000⟩) = .integer 1 := by decide
  have read : readValue 0 (text "1.0]=x,x=2,nil\x7d") =
      .ok (.float ⟨0x3ff0000000000000⟩, text "]=x,x=2,nil\x7d") := by cbv
  rw [← one]
  refine .more rfl (by decide) (.keyed ⟨by decide, by decide⟩ (.inl read) rfl rfl (.inl rfl) rfl)
    rfl (.inl rfl) ?_
  refine .more rfl (by decide) (.named (not_opensKey (by decide)) ⟨by decide, by decide⟩ rfl
    (.inl rfl)) rfl (.inl rfl) ?_
  exact .last rfl (by decide) (.positional (not_opensKey (by decide)) (not_opensName (by decide))
    (.inl rfl)) rfl

theorem decodeLiteral_constructor_reassigned :
    skipBlanks (Ascii.openBrace :: reassigned) = .ok (Ascii.openBrace :: reassigned) ∧
      decodeLiteral (Ascii.openBrace :: reassigned) =
        .ok (.object [(text "1", .string (text "x")), (text "x", .integer 2)]) := by
  have opens : skipBlanks (Ascii.openBrace :: reassigned) = .ok (Ascii.openBrace :: reassigned) :=
    rfl
  refine ⟨opens, (decodeLiteral_constructor opens _).mpr
    ⟨_, [], constructs_reassigned 198, rfl, ?_, fun _ => ?_⟩⟩
  · cbv
  · cbv

def removed : Bytes := text "a=1,a=nil\x7d"

theorem constructs_removed (levels : Nat) : Constructs (Denotes (levels + 1)) 0 removed
    [(.string (text "a"), .integer 1), (.string (text "a"), .null)] [] := by
  refine .more rfl (by decide) (.named (not_opensKey (by decide)) ⟨by decide, by decide⟩ rfl
    (.inl rfl)) rfl (.inl rfl) ?_
  exact .last rfl (by decide) (.named (not_opensKey (by decide)) ⟨by decide, by decide⟩ rfl
    (.inl rfl)) rfl

/-- A field with value `nil` does not remove the earlier value of its key. -/
theorem decodeLiteral_removed :
    decodeLiteral (Ascii.openBrace :: removed) = .ok (.object [(text "a", .integer 1)]) ∧
      ¬∀ (s more : Bytes) (v : Value), skipBlanks s = .ok (Ascii.openBrace :: more) →
        decodeLiteral s = .ok v → ∀ pairs rest,
          Constructs (Denotes (nestingLimit - 1)) 0 more pairs rest → skipBlanks rest = .ok [] →
            v = (ofPairs (performed pairs)).build := by
  have read : decodeLiteral (Ascii.openBrace :: removed) =
      .ok (.object [(text "a", .integer 1)]) := by
    set_option maxRecDepth 2000 in cbv
  refine ⟨read, fun all => ?_⟩
  have left : performed [(.string (text "a"), .integer 1), (.string (text "a"), .null)] = [] := by
    decide
  have empty : (ofPairs []).build = .object [] := by
    set_option maxRecDepth 2000 in cbv
  have same := all _ removed _ rfl read _ [] (constructs_removed 198) rfl
  rw [left, empty] at same
  cases same

end Literal

end LuaAsset
