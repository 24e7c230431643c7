import LuaAsset.Proofs.Literal.Gaps
import LuaAsset.Proofs.Literal.Writing
import LuaAsset.Proofs.Number.Decimal

/-! # Canonical tokens are read back

The readers of tokens are exact on canonical tokens if the text after them is `Closed` or
`Detached`. -/

set_option autoImplicit false

namespace LuaAsset

namespace Literal

/-! ## Ends of values -/

def closers : Bytes := [Ascii.comma, Ascii.semicolon, Ascii.closeBrace, Ascii.closeBracket]

/-- Bytes that start no value: they end a table, start a key, or follow one. -/
def bars : Bytes := [Ascii.closeBrace, Ascii.openBracket, Ascii.equals]

/-- Empty, or starting with a byte that may follow a value. -/
def Closed (rest : Bytes) : Prop := ∀ c ∈ rest.head?, c ∈ closers

theorem closed_nil : Closed [] := by simp [Closed]

theorem closed_cons {c : UInt8} (closer : c ∈ closers) (rest : Bytes) : Closed (c :: rest) := by
  intro d first
  rw [List.head?_cons, Option.mem_some_iff] at first
  rw [← first]
  exact closer

theorem Closed.head {c : UInt8} {rest : Bytes} (closed : Closed (c :: rest)) :
    c = Ascii.comma ∨ c = Ascii.semicolon ∨ c = Ascii.closeBrace ∨ c = Ascii.closeBracket := by
  simpa [closers] using closed c rfl

theorem span_append {p : UInt8 → Bool} {s rest : Bytes} (all : ∀ c ∈ s, p c = true)
    (stop : ∀ c ∈ rest.head?, p c = false) :
    (s ++ rest).takeWhile p = s ∧ (s ++ rest).dropWhile p = rest := by
  rw [List.takeWhile_append_of_pos all, List.dropWhile_append_of_pos all]
  cases rest with
  | nil => simp
  | cons c rest =>
      have outside := stop c rfl
      simp [outside]

/-- Empty, or starting with a byte that continues neither a name nor a numeral. -/
def Detached (rest : Bytes) : Prop := ∀ c ∈ rest.head?, isNameByte c = false ∧ c ≠ Ascii.dot

theorem Closed.detached {rest : Bytes} (closed : Closed rest) : Detached rest := by
  have all : closers.all (fun c => !isNameByte c && c != Ascii.dot) = true := by decide
  intro c first
  simpa using List.all_eq_true.mp all c (closed c first)

theorem Detached.nameless {rest : Bytes} (detached : Detached rest) :
    ∀ c ∈ rest.head?, isNameByte c = false :=
  fun c first => (detached c first).1

/-! ## Blanks -/

theorem skipBlanks_spaces (gap : Nat) (s : Bytes) :
    skipBlanks (List.replicate gap Ascii.space ++ s) = skipBlanks s := by
  induction gap with
  | zero => rfl
  | succ gap ih => rw [List.replicate_succ, List.cons_append, skipBlanks_blank (by decide), ih]

theorem skipBlanks_cons {c : UInt8} {rest : Bytes} (solid : Ascii.isBlank c = false)
    (code : c = Ascii.minus → rest.head? ≠ some Ascii.minus) :
    skipBlanks (c :: rest) = .ok (c :: rest) := by
  rw [skipBlanks, List.length_cons, skipBlanksWithin, if_neg (by simp [solid]),
    if_neg fun comment => code comment.1 comment.2]

theorem skipBlanks_of_ne {c : UInt8} (solid : Ascii.isBlank c = false) (code : c ≠ Ascii.minus)
    (rest : Bytes) : skipBlanks (c :: rest) = .ok (c :: rest) :=
  skipBlanks_cons solid fun hyphen => absurd hyphen code

theorem Closed.skipBlanks {rest : Bytes} (closed : Closed rest) :
    skipBlanks rest = .ok rest := by
  cases rest with
  | nil => rfl
  | cons c rest =>
      obtain rfl | rfl | rfl | rfl := closed.head <;>
        exact skipBlanks_of_ne (by decide) (by decide) rest

/-! ## Names -/

theorem Name.exists_cons (f : Name) :
    ∃ c rest, f.bytes = c :: rest ∧ isNameStart c = true ∧
      ∀ d ∈ c :: rest, isNameByte d = true := by
  obtain ⟨bytes, proper⟩ := f
  cases bytes with
  | nil => cases proper
  | cons c rest =>
      rw [isName, Bool.and_eq_true] at proper
      refine ⟨c, rest, rfl, proper.1, List.forall_mem_cons.mpr ⟨?_, List.all_eq_true.mp proper.2⟩⟩
      rw [isNameByte, proper.1, Bool.true_or]

theorem Name.forall_nameByte (f : Name) : ∀ c ∈ f.bytes, isNameByte c = true := by
  obtain ⟨c, rest, same, _, all⟩ := f.exists_cons
  rw [same]
  exact all

theorem isNameStart_apart : ∀ c : UInt8, isNameStart c = true →
    Ascii.isBlank c = false ∧ c ≠ Ascii.minus ∧ c ∉ bars ∧ c ≠ Ascii.openBrace ∧
      c ≠ Ascii.singleQuote ∧ c ≠ Ascii.doubleQuote ∧ Ascii.isDigit c = false ∧ c ≠ Ascii.plus ∧
      c ≠ Ascii.dot :=
  forall_byte (by decide +kernel)

/-! ## Numbers -/

theorem isDigit_apart : ∀ c : UInt8, Ascii.isDigit c = true →
    Ascii.isBlank c = false ∧ c ≠ Ascii.minus ∧ c ∉ bars ∧ c ≠ Ascii.openBrace ∧
      c ≠ Ascii.singleQuote ∧ c ≠ Ascii.doubleQuote ∧ isNameStart c = false ∧ c ≠ Ascii.plus ∧
      c ≠ 0x78 ∧ c ≠ 0x58 :=
  forall_byte (by decide +kernel)

theorem spanNumeral_digit {isDigit isMark : UInt8 → Bool} {c : UInt8} (digit : isDigit c = true)
    (s : Bytes) :
    spanNumeral isDigit isMark (c :: s) =
      (c :: (spanNumeral isDigit isMark s).1, (spanNumeral isDigit isMark s).2) := by
  cases s with
  | nil => simp [spanNumeral, digit]
  | cons d s => simp [spanNumeral, digit]

theorem isNameByte_of_isDigit : ∀ c : UInt8, Ascii.isDigit c = true ∨ isDecimalMark c = true ∨
    c = 0x78 ∨ c = 0x58 → isNameByte c = true :=
  forall_byte (by decide +kernel)

theorem Detached.spanNumeral {rest : Bytes} (detached : Detached rest) :
    spanNumeral Ascii.isDigit isDecimalMark rest = ([], rest) := by
  cases rest with
  | nil => rfl
  | cons c rest =>
      obtain ⟨nameless, dot⟩ := detached c rfl
      have digit : Ascii.isDigit c = false := by
        by_contra digit
        simp [isNameByte_of_isDigit c (.inl (by simpa using digit))] at nameless
      have mark : isDecimalMark c = false := by
        by_contra mark
        simp [isNameByte_of_isDigit c (.inr (.inl (by simpa using mark)))] at nameless
      cases rest with
      | nil => simp [Literal.spanNumeral, digit, mark, dot]
      | cons d rest => simp [Literal.spanNumeral, digit, mark, dot]

theorem spanNumeral_digits {rest : Bytes} (detached : Detached rest) {digits : Bytes}
    (all : ∀ c ∈ digits, Ascii.isDigit c = true) :
    spanNumeral Ascii.isDigit isDecimalMark (digits ++ rest) = (digits, rest) := by
  induction digits with
  | nil => exact detached.spanNumeral
  | cons c digits ih =>
      obtain ⟨digit, more⟩ := List.forall_mem_cons.mp all
      rw [List.cons_append, spanNumeral_digit digit, ih more]

theorem isHexadecimal_digits {rest : Bytes} (detached : Detached rest) {digits : Bytes}
    (nonempty : digits ≠ []) (all : ∀ c ∈ digits, Ascii.isDigit c = true) :
    isHexadecimal (digits ++ rest) = false := by
  match digits, nonempty with
  | [c], _ =>
      cases rest with
      | nil => rfl
      | cons d rest =>
          have nameless := detached.nameless d rfl
          have small : d ≠ 0x78 := fun same =>
            absurd (isNameByte_of_isDigit d (.inr (.inr (.inl same)))) (by simp [nameless])
          have capital : d ≠ 0x58 := fun same =>
            absurd (isNameByte_of_isDigit d (.inr (.inr (.inr same)))) (by simp [nameless])
          simp [isHexadecimal, small, capital]
  | c :: d :: digits, _ =>
      -- the byte after the first one is a digit, so it is no x
      obtain ⟨_, _, _, _, _, _, _, _, small, capital⟩ := isDigit_apart d (all d (by simp))
      simp [isHexadecimal, small, capital]

theorem decimal_cons (n : Nat) : ∃ d more, decimal n = d :: more ∧ Ascii.isDigit d = true := by
  cases digits : decimal n with
  | nil => exact absurd digits (decimal_ne_nil n)
  | cons d more =>
      exact ⟨d, more, rfl, isDigit_of_mem_decimal n d (by rw [digits]; exact List.mem_cons_self)⟩

def signed (negative : Bool) (n : Nat) : Int := if negative then -(n : Int) else n

theorem decimalInteger?_eq (negative : Bool) (n : Nat) :
    decimalInteger? negative n =
      if -2 ^ 63 ≤ signed negative n ∧ signed negative n < 2 ^ 63 then
        some (Int64.ofInt (signed negative n))
      else none := by
  cases negative with
  | false =>
      rw [show signed false n = n from rfl]
      by_cases small : n < 2 ^ 63
      · rw [decimalInteger?, if_pos small, if_neg Bool.false_ne_true, if_pos (by omega)]
      · rw [decimalInteger?, if_neg small, if_neg (by simp), if_neg (by omega)]
  | true =>
      rw [show signed true n = -(n : Int) from rfl]
      by_cases small : n < 2 ^ 63
      · rw [decimalInteger?, if_pos small, if_pos (rfl : true = true), if_pos (by omega)]
      · by_cases least : n = 2 ^ 63
        · rw [decimalInteger?, if_neg small, if_pos ⟨rfl, least⟩, if_pos (by omega)]
        · rw [decimalInteger?, if_neg small, if_neg (by simp [least]), if_neg (by omega)]

def readDigits (negative : Bool) (digits rest : Bytes) : Except Flaw (Value × Bytes) :=
  match decimalInteger? negative (decimalValue digits) with
  | some n => .ok (.integer n, rest)
  | none => floatValue negative (Numeral.decimal? digits) digits rest

theorem readUnsigned_digits {rest : Bytes} (detached : Detached rest) (negative : Bool)
    {digits : Bytes} (nonempty : digits ≠ []) (all : ∀ c ∈ digits, Ascii.isDigit c = true) :
    readUnsigned negative (digits ++ rest) = readDigits negative digits rest := by
  have token : ¬(digits.isEmpty = true ∨ digits = [Ascii.dot]) := by
    rintro (empty | rfl)
    · exact nonempty (List.isEmpty_iff.mp empty)
    · exact absurd (all Ascii.dot List.mem_cons_self) (by decide)
  rw [readUnsigned, if_neg (by simp [isHexadecimal_digits detached nonempty all]),
    spanNumeral_digits detached all]
  dsimp only
  rw [if_neg token, if_pos (List.all_eq_true.mpr all)]
  rfl

theorem readDigits_value (negative : Bool) {digits : Bytes}
    (all : ∀ c ∈ digits, Ascii.isDigit c = true) (rest : Bytes) :
    readDigits negative digits rest =
      .ok (integerValue (signed negative (decimalValue digits)), rest) := by
  rw [readDigits, decimalInteger?_eq, integerValue]
  by_cases inside : -2 ^ 63 ≤ signed negative (decimalValue digits) ∧
      signed negative (decimalValue digits) < 2 ^ 63
  · rw [if_pos inside, if_pos inside]
  · have positive : decimalValue digits ≠ 0 := by
      intro zero
      have nothing : signed negative 0 = 0 := by cases negative <;> rfl
      rw [zero, nothing] at inside
      omega
    rw [if_neg inside, if_neg inside, Numeral.decimal?_digits all positive]
    dsimp only
    rw [floatValue]
    cases negative with
    | false => rw [if_neg Bool.false_ne_true, signed, if_neg Bool.false_ne_true]
    | true => rw [if_pos rfl, signed, if_pos rfl, Binary64.ofInt_neg positive]

inductive Sign where
  | none
  | plus
  | minus

def Sign.text : Sign → Bytes
  | .none => []
  | .plus => [Ascii.plus]
  | .minus => [Ascii.minus]

def Sign.negative : Sign → Bool
  | .none | .plus => false
  | .minus => true

theorem readSigns_digits {rest digits : Bytes} (nonempty : digits ≠ [])
    (all : ∀ c ∈ digits, Ascii.isDigit c = true) (fuel : Nat) (negative : Bool) :
    readSignsWithin fuel negative (digits ++ rest) = .ok (negative, digits ++ rest) := by
  match digits, nonempty with
  | c :: digits, _ =>
      obtain ⟨_, notMinus, _, _, _, _, _, notPlus, _⟩ := isDigit_apart c (all c List.mem_cons_self)
      cases fuel with
      | zero => rfl
      | succ fuel =>
          rw [List.cons_append, readSignsWithin, if_neg (by simp [notMinus, notPlus])]

theorem skipBlanks_digits {digits : Bytes} (nonempty : digits ≠ [])
    (all : ∀ c ∈ digits, Ascii.isDigit c = true) (rest : Bytes) :
    skipBlanks (digits ++ rest) = .ok (digits ++ rest) := by
  match digits, nonempty with
  | c :: digits, _ =>
      obtain ⟨solid, code, _⟩ := isDigit_apart c (all c List.mem_cons_self)
      exact skipBlanks_of_ne solid code _

theorem readSigns_sign (sign : Sign) {digits : Bytes} (nonempty : digits ≠ [])
    (all : ∀ c ∈ digits, Ascii.isDigit c = true) (rest : Bytes) :
    readSigns (sign.text ++ (digits ++ rest)) = .ok (sign.negative, digits ++ rest) := by
  have skipped := skipBlanks_digits nonempty all rest
  cases sign with
  | none => exact readSigns_digits nonempty all _ _
  | plus =>
      rw [readSigns, Sign.text, List.singleton_append, List.length_cons, readSignsWithin,
        if_pos (.inr rfl), skipped]
      exact readSigns_digits nonempty all _ _
  | minus =>
      rw [readSigns, Sign.text, List.singleton_append, List.length_cons, readSignsWithin,
        if_pos (.inl rfl), skipped]
      exact readSigns_digits nonempty all _ _

theorem readNumber_signed (sign : Sign) {digits rest : Bytes} (nonempty : digits ≠ [])
    (all : ∀ c ∈ digits, Ascii.isDigit c = true) (detached : Detached rest) :
    readNumber (sign.text ++ (digits ++ rest)) = readDigits sign.negative digits rest := by
  rw [readNumber, readSigns_sign sign nonempty all]
  exact readUnsigned_digits detached _ nonempty all

theorem readNumber_decimalInt {rest : Bytes} (closed : Closed rest) (n : Int) :
    readNumber (decimalInt n ++ rest) = .ok (integerValue n, rest) := by
  cases n with
  | ofNat n =>
      have digits := isDigit_of_mem_decimal n
      have read := readNumber_signed .none (decimal_ne_nil n) digits closed.detached
      rw [readDigits_value _ digits, decimalValue_decimal] at read
      exact read
  | negSucc n =>
      have digits := isDigit_of_mem_decimal (n + 1)
      have read := readNumber_signed .minus (decimal_ne_nil (n + 1)) digits closed.detached
      rw [readDigits_value _ digits, decimalValue_decimal] at read
      exact read

/-! ## Strings -/

theorem readEscape_letter {c byte : UInt8} (known : letterEscape? c = some byte) (rest : Bytes) :
    readEscape (c :: rest) = .ok ([byte], rest) := by
  rw [readEscape.eq_def]
  dsimp only
  rw [known]

theorem escaped_cases (c : UInt8) :
    (∃ letter, escaped c = [Ascii.backslash, letter] ∧ letterEscape? letter = some c) ∨
      (escaped c = [c] ∧ c ≠ Ascii.backslash ∧ c ≠ Ascii.singleQuote ∧ c ≠ Ascii.lineFeed) := by
  rw [escaped]
  by_cases special : c = Ascii.backslash ∨ c = Ascii.singleQuote
  · rw [if_pos special]
    obtain rfl | rfl := special <;> exact .inl ⟨_, rfl, rfl⟩
  · rw [if_neg special]
    obtain ⟨slash, quote⟩ := not_or.mp special
    by_cases line : c = Ascii.lineFeed
    · rw [if_pos line, line]
      exact .inl ⟨0x6e, rfl, rfl⟩
    · rw [if_neg line]
      exact .inr ⟨rfl, slash, quote, line⟩

theorem length_le_flatMap_escaped (s : Bytes) : s.length ≤ (s.flatMap escaped).length := by
  induction s with
  | nil => exact Nat.le_refl _
  | cons c s ih =>
      have some_ : 1 ≤ (escaped c).length := by
        obtain ⟨letter, written, _⟩ | ⟨written, _⟩ := escaped_cases c
        · rw [written]
          exact Nat.le_add_left 1 1
        · rw [written]
          exact Nat.le_refl 1
      rw [List.flatMap_cons, List.length_append, List.length_cons]
      omega

theorem readQuoted_escaped (s rest : Bytes) : ∀ fuel, s.length < fuel →
    readQuotedWithin Ascii.singleQuote fuel (s.flatMap escaped ++ Ascii.singleQuote :: rest) =
      .ok (s, rest) := by
  induction s with
  | nil =>
      intro fuel enough
      obtain ⟨fuel, rfl⟩ := Nat.exists_eq_succ_of_ne_zero (Nat.ne_zero_of_lt enough)
      rw [List.flatMap_nil, List.nil_append, readQuotedWithin, if_pos rfl]
  | cons c s ih =>
      intro fuel enough
      obtain ⟨fuel, rfl⟩ := Nat.exists_eq_succ_of_ne_zero (Nat.ne_zero_of_lt enough)
      have later := ih fuel (Nat.lt_of_succ_lt_succ enough)
      rw [List.flatMap_cons, List.append_assoc]
      obtain ⟨letter, written, known⟩ | ⟨written, slash, quote, line⟩ := escaped_cases c
      · rw [written, List.cons_append, List.singleton_append, readQuotedWithin,
          if_neg (by decide), if_neg (by decide), if_pos rfl, readEscape_letter known]
        dsimp only
        rw [later]
        rfl
      · rw [written, List.singleton_append, readQuotedWithin, if_neg quote, if_neg line,
          if_neg slash, later]
        rfl

end Literal

end LuaAsset
