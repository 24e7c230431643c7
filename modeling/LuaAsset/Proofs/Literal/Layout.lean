import Mathlib.Data.List.Chain
import LuaAsset.Proofs.Literal.Readings
import LuaAsset.Proofs.Literal.RoundTrip
import LuaAsset.Proofs.Literal.Strings

/-! # Layouts

A layout is the tokens of a literal with a gap before each, where tokens stay apart and the gap
between a name and its equals sign is narrow (`Laid`).  What starts at a place is determined by the
tokens (`opensKey_iff`, `opensName_iff`, `Token.readWith_ok`). -/

set_option autoImplicit false

namespace LuaAsset

namespace Literal

/-! ## Tokens -/

def marks : Bytes :=
  [Ascii.openBrace, Ascii.closeBrace, Ascii.openBracket, Ascii.closeBracket, Ascii.comma,
    Ascii.semicolon, Ascii.equals]

inductive Token where
  | mark (c : UInt8) (known : c ∈ marks)
  | name (f : Name)
  | integer (sign : Sign) (digits : Bytes) (nonempty : digits ≠ [])
      (all : digits.all Ascii.isDigit = true)
  | string (body : Bytes) (isBody : QuotedBody Ascii.singleQuote body)

def Token.text : Token → Bytes
  | .mark c _ => [c]
  | .name f => f.bytes
  | .integer sign digits _ _ => sign.text ++ digits
  | .string body _ => Ascii.singleQuote :: (body ++ [Ascii.singleQuote])

def Token.isName : Token → Bool
  | .name _ => true
  | _ => false

/-- Whether a byte right after a token would be read as part of it. -/
def Token.continues : Token → UInt8 → Bool
  | .mark c _, d =>
      (c == Ascii.openBracket && (d == Ascii.openBracket || d == Ascii.equals))
        || (c == Ascii.equals && d == Ascii.equals)
  | .name _, d => isNameByte d
  | .integer .., d => isNameByte d || d == Ascii.dot
  | .string .., _ => false

def Token.Apart (t : Token) (rest : Bytes) : Prop := ∀ c ∈ rest.head?, t.continues c = false

instance (t : Token) (rest : Bytes) : Decidable (t.Apart rest) :=
  match rest with
  | [] => isTrue (by rintro c ⟨⟩)
  | c :: _ => decidable_of_iff (t.continues c = false)
      ⟨fun apart => by rintro d ⟨⟩; exact apart, fun apart => apart c rfl⟩

theorem marks_apart : ∀ c : UInt8, c ∈ marks → Ascii.isBlank c = false ∧ c ≠ Ascii.minus ∧
    c ≠ Ascii.doubleQuote ∧ c ≠ Ascii.singleQuote ∧ Ascii.isDigit c = false ∧ c ≠ Ascii.plus ∧
    c ≠ Ascii.dot ∧ isNameStart c = false :=
  forall_byte (by decide +kernel)

theorem isNameStart_unmarked : ∀ c : UInt8, isNameStart c = true → c ∉ marks :=
  forall_byte (by decide +kernel)

theorem isDigit_unmarked : ∀ c : UInt8, Ascii.isDigit c = true → c ∉ marks :=
  forall_byte (by decide +kernel)

structure Token.Head (t : Token) (c : UInt8) (more : Bytes) : Prop where
  text : t.text = c :: more
  solid : Ascii.isBlank c = false
  uncommented : c = Ascii.minus → ∀ rest, (more ++ rest).head? ≠ some Ascii.minus
  mark : c ∈ marks → ∃ known, t = .mark c known
  name : isNameStart c = true → t.isName = true

theorem Token.exists_head (t : Token) : ∃ c more, t.Head c more := by
  cases t with
  | mark c known =>
      obtain ⟨solid, code, _, _, _, _, _, nameless⟩ := marks_apart c known
      exact ⟨c, [], rfl, solid, fun hyphen => absurd hyphen code, fun _ => ⟨known, rfl⟩,
        fun start => absurd start (by simp [nameless])⟩
  | name f =>
      obtain ⟨c, more, same, start, _⟩ := f.exists_cons
      obtain ⟨solid, code, _⟩ := isNameStart_apart c start
      exact ⟨c, more, same, solid, fun hyphen => absurd hyphen code,
        fun mark => absurd mark (isNameStart_unmarked c start), fun _ => rfl⟩
  | integer sign digits nonempty all =>
      obtain ⟨d, more, rfl⟩ := List.exists_cons_of_ne_nil nonempty
      have digit := List.all_eq_true.mp all d List.mem_cons_self
      obtain ⟨solid, code, _, _, _, _, nameless, _⟩ := isDigit_apart d digit
      cases sign with
      | none =>
          exact ⟨d, more, rfl, solid, fun hyphen => absurd hyphen code,
            fun mark => absurd mark (isDigit_unmarked d digit),
            fun start => absurd start (by simp [nameless])⟩
      | plus =>
          exact ⟨Ascii.plus, d :: more, rfl, by decide, fun hyphen => absurd hyphen (by decide),
            fun mark => absurd mark (by decide), fun start => absurd start (by decide)⟩
      | minus =>
          exact ⟨Ascii.minus, d :: more, rfl, by decide, fun _ rest => by simp [code],
            fun mark => absurd mark (by decide), fun start => absurd start (by decide)⟩
  | string body isBody =>
      exact ⟨Ascii.singleQuote, _, rfl, by decide, fun hyphen => absurd hyphen (by decide),
        fun mark => absurd mark (by decide), fun start => absurd start (by decide)⟩

theorem Token.skipBlanks_text (t : Token) (rest : Bytes) :
    skipBlanks (t.text ++ rest) = .ok (t.text ++ rest) := by
  obtain ⟨c, more, head⟩ := t.exists_head
  rw [head.text]
  exact skipBlanks_cons head.solid fun hyphen => head.uncommented hyphen rest

theorem Token.text_of_mark {t : Token} {c : UInt8} {rest s : Bytes} (mark : c ∈ marks)
    (starts : t.text ++ rest = c :: s) : t.text = [c] ∧ rest = s := by
  obtain ⟨d, more, head⟩ := t.exists_head
  rw [head.text, List.cons_append] at starts
  obtain ⟨rfl, _⟩ := List.cons.inj starts
  obtain ⟨known, rfl⟩ := head.mark mark
  obtain ⟨_, none⟩ := List.cons.inj head.text
  subst none
  exact ⟨rfl, (List.cons.inj starts).2⟩

theorem Token.eq_mark {t : Token} {c : UInt8} (mark : c ∈ marks) (text : t.text = [c]) :
    ∃ known, t = .mark c known := by
  obtain ⟨d, more, head⟩ := t.exists_head
  rw [head.text] at text
  obtain ⟨rfl, _⟩ := List.cons.inj text
  exact head.mark mark

theorem Token.exists_name {t : Token} (isName : t.isName = true) : ∃ f, t = .name f := by
  cases t with
  | name f => exact ⟨f, rfl⟩
  | mark | integer | string => cases isName

theorem Token.apart_of_gap (t : Token) {c : UInt8}
    (gap : Ascii.isBlank c = true ∨ c = Ascii.minus) : t.continues c = false := by
  have all : ∀ c : UInt8, Ascii.isBlank c = true ∨ c = Ascii.minus → isNameByte c = false ∧
      c ≠ Ascii.dot ∧ c ≠ Ascii.openBracket ∧ c ≠ Ascii.equals :=
    forall_byte (by decide +kernel)
  obtain ⟨name, dot, bracket, equals⟩ := all c gap
  cases t <;> simp [Token.continues, name, dot, bracket, equals]

/-! ## Values -/

theorem readDigits_ok {negative : Bool} {digits r rest : Bytes} {v : Value}
    (read : readDigits negative digits r = .ok (v, rest)) :
    rest = r ∧ ∀ r', readDigits negative digits r' = .ok (v, r') := by
  rw [readDigits] at read
  cases decided : decimalInteger? negative (decimalValue digits) with
  | some n =>
      rw [decided] at read
      cases read
      exact ⟨rfl, fun r' => by rw [readDigits, decided]⟩
  | none =>
      rw [decided] at read
      cases decimal : Numeral.decimal? digits with
      | none =>
          rw [decimal] at read
          cases read
      | some x =>
          rw [decimal] at read
          cases read
          exact ⟨rfl, fun r' => by rw [readDigits, decided, decimal]; rfl⟩

theorem readWith_mark {table : ValueReader} {c : UInt8} {r rest : Bytes} {v : Value}
    (mark : c ∈ marks) (short : c = Ascii.openBracket → longBracketLevel? (c :: r) = none)
    (read : readWith table (c :: r) = .ok (v, rest)) : c = Ascii.openBrace := by
  obtain ⟨solid, code, double, single, digit, plus, dot, nameless⟩ := marks_apart c mark
  by_contra brace
  rw [readWith, skipBlanks_of_ne solid code] at read
  dsimp only at read
  rw [if_neg brace, if_neg (by simp [double, single])] at read
  by_cases bracket : c = Ascii.openBracket
  · rw [if_pos bracket, short bracket] at read
    cases read
  · simp [bracket, digit, code, plus, dot, nameless, fail] at read

theorem Token.longBracketLevel? {t : Token} {r : Bytes} (bracket : t.text = [Ascii.openBracket])
    (apart : t.Apart r) : longBracketLevel? (Ascii.openBracket :: r) = none := by
  obtain ⟨known, rfl⟩ := Token.eq_mark (by decide) bracket
  cases r with
  | nil => rfl
  | cons d r =>
      have continues := apart d rfl
      simp only [Token.continues, beq_self_eq_true, Bool.true_and, Bool.or_eq_false_iff,
        beq_eq_false_iff_ne] at continues
      exact longBracketLevel?_key continues.1.1 continues.1.2 r

/-- The value of a token that opens no table does not depend on the text after it. -/
theorem Token.readWith_ok {t : Token} {table : ValueReader} {r rest : Bytes} {v : Value}
    (apart : t.Apart r) (read : readWith table (t.text ++ r) = .ok (v, rest)) :
    (t.text = [Ascii.openBrace] ∧ table (Ascii.openBrace :: r) = .ok (v, rest)) ∨
      (rest = r ∧ ∀ r', t.Apart r' → readWith table (t.text ++ r') = .ok (v, r')) := by
  cases t with
  | mark c known =>
      have short : c = Ascii.openBracket → Literal.longBracketLevel? (c :: r) = none := by
        rintro rfl
        exact Token.longBracketLevel? rfl apart
      obtain rfl := readWith_mark known short read
      rw [Token.text, List.singleton_append, readWith_brace] at read
      exact .inl ⟨rfl, read⟩
  | name f =>
      obtain ⟨c, more, same, start, all⟩ := f.exists_cons
      have word : ∀ {r : Bytes}, (Token.name f).Apart r →
          readWith table (f.bytes ++ r) = .ok (wordValue f.bytes, r) := by
        intro r stop
        rw [same]
        exact readWith_word table start (List.all_eq_true.mpr all) stop
      rw [Token.text, word apart] at read
      cases read
      exact .inr ⟨rfl, fun r' stop => word stop⟩
  | integer sign digits nonempty all =>
      have number : ∀ {r : Bytes}, (Token.integer sign digits nonempty all).Apart r →
          readWith table (sign.text ++ digits ++ r) = readDigits sign.negative digits r := by
        intro r stop
        have detached : Detached r := fun c first => by simpa [Token.continues] using stop c first
        have skipped := (Token.integer sign digits nonempty all).skipBlanks_text r
        obtain ⟨d, more, split⟩ := List.exists_cons_of_ne_nil nonempty
        have digit := List.all_eq_true.mp all d (by simp [split])
        rw [← readNumber_signed sign nonempty (List.all_eq_true.mp all) detached,
          ← List.append_assoc]
        rw [Token.text] at skipped
        cases sign with
        | none =>
            rw [split] at skipped ⊢
            exact readWith_number table skipped (.inl digit)
        | plus => exact readWith_number table skipped (.inr (.inr rfl))
        | minus => exact readWith_number table skipped (.inr (.inl rfl))
      rw [Token.text, number apart] at read
      obtain ⟨rfl, again⟩ := readDigits_ok read
      exact .inr ⟨rfl, fun r' stop => (number stop).trans (again r')⟩
  | string body isBody =>
      have quoted : ∀ r : Bytes, (Token.string body isBody).text ++ r =
          Ascii.singleQuote :: (body ++ Ascii.singleQuote :: r) := by
        intro r
        simp [Token.text]
      rw [quoted, readWith_quote _ (.inr rfl)] at read
      obtain ⟨⟨bytes, left⟩, string, same⟩ := map_ok read
      cases same
      obtain ⟨body', split, isBody', again⟩ := readQuoted_body (.inr rfl) string
      obtain ⟨rfl, rfl⟩ := isBody.unique isBody' (by decide) split
      refine .inr ⟨rfl, fun r' _ => ?_⟩
      rw [quoted, readWith_quote _ (.inr rfl), again]
      rfl

/-! ## Layouts -/

structure Piece where
  gap : Bytes
  token : Token

def layout (gap : Piece → Bytes) (ps : List Piece) : Bytes :=
  ps.flatMap fun p => gap p ++ p.token.text

def solid (gap : Piece → Bytes) : List Piece → Bytes
  | [] => []
  | p :: ps => p.token.text ++ layout gap ps

structure Follows (gap : Piece → Bytes) (p next : Piece) : Prop where
  apart : p.token.Apart next.token.text
  narrow : p.token.isName = true → next.token.text = [Ascii.equals] →
    ∀ c ∈ gap next, isNarrow c = true

instance (gap : Piece → Bytes) (p next : Piece) : Decidable (Follows gap p next) :=
  decidable_of_iff
    (p.token.Apart next.token.text ∧ (p.token.isName = true →
      next.token.text = [Ascii.equals] → (gap next).all isNarrow = true))
    ⟨fun both => ⟨both.1, fun isName equals => List.all_eq_true.mp (both.2 isName equals)⟩,
      fun follows => ⟨follows.apart,
        fun isName equals => List.all_eq_true.mpr (follows.narrow isName equals)⟩⟩

structure Laid (gap : Piece → Bytes) (ps : List Piece) : Prop where
  gaps : ∀ p ∈ ps, Gap (gap p)
  follow : ps.IsChain (Follows gap)

section

variable {gap : Piece → Bytes} {p : Piece} {ps ps' : List Piece}

theorem layout_cons (gap : Piece → Bytes) (p : Piece) (ps : List Piece) :
    layout gap (p :: ps) = gap p ++ solid gap (p :: ps) := by
  rw [layout, List.flatMap_cons, List.append_assoc]
  rfl

theorem Laid.suffix (laid : Laid gap ps) (suffix : ps' <:+ ps) : Laid gap ps' where
  gaps p member := laid.gaps p (suffix.mem member)
  follow := laid.follow.suffix suffix

theorem Laid.tail (laid : Laid gap (p :: ps)) : Laid gap ps := laid.suffix (List.suffix_cons p ps)

theorem Laid.apart (laid : Laid gap (p :: ps)) : p.token.Apart (layout gap ps) := by
  cases ps with
  | nil =>
      intro c first
      cases first
  | cons q ps =>
      have between := laid.gaps q (by simp)
      intro c first
      rw [layout_cons] at first
      cases start : gap q with
      | nil =>
          obtain ⟨follows, _⟩ := List.isChain_cons_cons.mp laid.follow
          obtain ⟨d, more, head⟩ := q.token.exists_head
          refine follows.apart c ?_
          rw [start, List.nil_append, solid, head.text] at first
          rw [head.text]
          exact first
      | cons d more =>
          rw [start] at first between
          cases first
          exact p.token.apart_of_gap (between.head _ rfl)

theorem skipBlanks_solid (gap : Piece → Bytes) (ps : List Piece) :
    skipBlanks (solid gap ps) = .ok (solid gap ps) := by
  cases ps with
  | nil => rfl
  | cons p ps => exact p.token.skipBlanks_text _

theorem Laid.skipBlanks (laid : Laid gap ps) :
    skipBlanks (layout gap ps) = .ok (solid gap ps) := by
  cases ps with
  | nil => rfl
  | cons p ps =>
      rw [layout_cons, skipBlanks_gap (laid.gaps p List.mem_cons_self)]
      exact skipBlanks_solid gap (p :: ps)

theorem solid_mark {c : UInt8} {s : Bytes} (mark : c ∈ marks) (starts : solid gap ps = c :: s) :
    ∃ p ps', ps = p :: ps' ∧ p.token.text = [c] ∧ s = layout gap ps' := by
  cases ps with
  | nil => cases starts
  | cons p ps =>
      obtain ⟨same, rest⟩ := Token.text_of_mark mark starts
      exact ⟨p, ps, rfl, same, rest.symm⟩

theorem Laid.mark {c : UInt8} {s : Bytes} (laid : Laid gap ps)
    (skipped : Literal.skipBlanks (layout gap ps) = .ok (c :: s)) (mark : c ∈ marks) :
    ∃ p ps', ps = p :: ps' ∧ p.token.text = [c] ∧ s = layout gap ps' := by
  rw [laid.skipBlanks] at skipped
  exact solid_mark mark (Except.ok.inj skipped)

theorem Laid.skipBlanks_mark {c : UInt8} (laid : Laid gap (p :: ps)) (mark : p.token.text = [c]) :
    Literal.skipBlanks (layout gap (p :: ps)) = .ok (c :: layout gap ps) := by
  rw [laid.skipBlanks, solid, mark]
  rfl

theorem length_le_layout (gap : Piece → Bytes) (ps : List Piece) :
    ps.length ≤ (layout gap ps).length := by
  induction ps with
  | nil => exact Nat.le_refl 0
  | cons p ps ih =>
      obtain ⟨c, more, head⟩ := p.token.exists_head
      rw [layout_cons, solid, head.text]
      simp only [List.length_cons, List.length_append]
      omega

/-! ## Fields -/

theorem opensKey_iff (laid : Laid gap ps) :
    OpensKey (solid gap ps) ↔ ∃ p ps', ps = p :: ps' ∧ p.token.text = [Ascii.openBracket] := by
  constructor
  · rintro ⟨first, _⟩
    obtain ⟨s, starts⟩ := List.head?_eq_some_iff.mp first
    obtain ⟨p, ps', split, bracket, _⟩ := solid_mark (by decide) starts
    exact ⟨p, ps', split, bracket⟩
  · rintro ⟨p, ps', rfl, bracket⟩
    rw [solid, bracket]
    exact ⟨rfl, Token.longBracketLevel? bracket laid.apart⟩

theorem Gap.dropWhile {w : Bytes} (between : Gap w) : Gap (w.dropWhile isNarrow) := by
  cases between with
  | nil => exact .nil
  | @blank c w blank more =>
      by_cases narrow : isNarrow c = true
      · rw [List.dropWhile_cons_of_pos narrow]
        exact Gap.dropWhile more
      · rw [List.dropWhile_cons_of_neg narrow]
        exact .blank blank more
  | line ends short more =>
      rw [List.dropWhile_cons_of_neg (by decide)]
      exact .line ends short more
  | long kept first more =>
      rw [List.dropWhile_cons_of_neg (by decide)]
      exact .long kept first more

theorem isNarrow_of_solid : ∀ c : UInt8, Ascii.isBlank c = false → isNarrow c = false :=
  forall_byte (by decide +kernel)

/-- The equals sign found by the search for an assignment is the next token. -/
theorem Laid.equals_of_dropWhile {s : Bytes} (laid : Laid gap ps)
    (found : (layout gap ps).dropWhile isNarrow = Ascii.equals :: s) :
    ∃ q ps', ps = q :: ps' ∧ q.token.text = [Ascii.equals] := by
  cases ps with
  | nil => cases found
  | cons q ps =>
      have between := (laid.gaps q List.mem_cons_self).dropWhile
      obtain ⟨c, more, head⟩ := q.token.exists_head
      have wide := isNarrow_of_solid c head.solid
      rw [layout_cons, List.dropWhile_append] at found
      cases left : (gap q).dropWhile isNarrow with
      | nil =>
          rw [left, List.isEmpty_nil, if_pos rfl, solid, head.text, List.cons_append,
            List.dropWhile_cons_of_neg (by simp [wide]), ← List.cons_append, ← head.text] at found
          exact ⟨q, ps, rfl, (Token.text_of_mark (by decide) found).1⟩
      | cons d later =>
          rw [left, List.isEmpty_cons, if_neg Bool.false_ne_true] at found
          rw [left] at between
          cases (List.cons.inj found).1
          exact absurd (between.head _ rfl) (by decide)

theorem isNamedField_layout {f : Name} (name : p.token = .name f) (laid : Laid gap (p :: ps)) :
    isNamedField (f.bytes ++ layout gap ps) = true ↔
      ∃ q ps', ps = q :: ps' ∧ q.token.text = [Ascii.equals] := by
  have nameless : ∀ c ∈ (layout gap ps).head?, isNameByte c = false := by
    intro c first
    have apart := laid.apart c first
    rwa [name] at apart
  rw [isNamedField_eq, (span_append f.forall_nameByte nameless).2]
  constructor
  · intro found
    cases search : (layout gap ps).dropWhile isNarrow with
    | nil => simp [search] at found
    | cons c s =>
        simp only [search, Bool.and_eq_true, beq_iff_eq] at found
        rw [found.1] at search
        exact laid.tail.equals_of_dropWhile search
  · rintro ⟨q, ps', rfl, equals⟩
    obtain ⟨follows, _⟩ := List.isChain_cons_cons.mp laid.follow
    have narrow := follows.narrow (by rw [name]; rfl) equals
    have single : (layout gap ps').head? ≠ some Ascii.equals := by
      intro first
      obtain ⟨known, mark⟩ := Token.eq_mark (by decide) equals
      have apart := laid.tail.apart Ascii.equals first
      rw [mark] at apart
      cases apart
    have stop : ∀ c ∈ (Ascii.equals :: layout gap ps').head?, isNarrow c = false := by
      rintro c ⟨⟩
      decide
    have search := (span_append narrow stop).2
    rw [layout_cons, solid, equals, List.singleton_append, search]
    simp [single]

theorem opensName_iff (laid : Laid gap ps) : OpensName (solid gap ps) ↔
    ∃ p q ps', ps = p :: q :: ps' ∧ p.token.isName = true ∧ q.token.text = [Ascii.equals] := by
  constructor
  · rintro ⟨first, named⟩
    cases ps with
    | nil => cases first
    | cons p ps =>
        obtain ⟨c, more, head⟩ := p.token.exists_head
        rw [solid, head.text] at first
        have isName := head.name first
        obtain ⟨f, name⟩ := Token.exists_name isName
        rw [solid, name] at named
        obtain ⟨q, ps', rfl, equals⟩ := (isNamedField_layout name laid).mp named
        exact ⟨p, q, ps', rfl, isName, equals⟩
  · rintro ⟨p, q, ps', rfl, isName, equals⟩
    obtain ⟨f, name⟩ := Token.exists_name isName
    obtain ⟨c, more, same, start, _⟩ := f.exists_cons
    refine ⟨?_, ?_⟩
    · rw [solid, name, Token.text, same]
      exact start
    · rw [solid, name]
      exact (isNamedField_layout name laid).mpr ⟨q, ps', rfl, equals⟩

end

end Literal

end LuaAsset
