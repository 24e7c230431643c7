import LuaAsset.Proofs.Literal.Readings
import LuaAsset.Proofs.Literal.Strings

/-! # Spellings of quoted strings

`Writes` relates a byte string to the texts that write it between quotes: plain bytes, letter,
hexadecimal and decimal escapes, and skipped blanks, in any mixture.  Each of these texts is read
back (`decodeLiteral_written_string`). -/

set_option autoImplicit false

namespace LuaAsset

namespace Literal

/-! ## Spellings -/

def letters : List (UInt8 × UInt8) :=
  [(0x6e, Ascii.lineFeed), (0x74, Ascii.tab), (0x72, Ascii.carriageReturn), (0x61, 0x07),
    (0x62, 0x08), (0x66, Ascii.formFeed), (0x76, Ascii.verticalTab),
    (Ascii.backslash, Ascii.backslash), (Ascii.doubleQuote, Ascii.doubleQuote),
    (Ascii.singleQuote, Ascii.singleQuote)]

/-- A byte string and a text that writes it between two quotes. -/
inductive Writes (quote : UInt8) : Bytes → Bytes → Prop
  | nil : Writes quote [] []
  | itself {c : UInt8} {s w : Bytes} (other : c ≠ quote) (slash : c ≠ Ascii.backslash)
      (line : c ≠ Ascii.lineFeed) (later : Writes quote s w) : Writes quote (c :: s) (c :: w)
  | letter {letter c : UInt8} {s w : Bytes} (known : (letter, c) ∈ letters)
      (later : Writes quote s w) : Writes quote (c :: s) (Ascii.backslash :: letter :: w)
  | hexadecimal {c high low : UInt8} {s w : Bytes} (first : Ascii.isHexDigit high = true)
      (second : Ascii.isHexDigit low = true) (value : hexadecimalValue [high, low] = c.toNat)
      (later : Writes quote s w) :
      Writes quote (c :: s) (Ascii.backslash :: 0x78 :: high :: low :: w)
  | decimal {c : UInt8} {digits s w : Bytes} (nonempty : digits ≠ []) (few : digits.length ≤ 3)
      (all : ∀ d ∈ digits, Ascii.isDigit d = true) (value : decimalValue digits = c.toNat)
      (apart : digits.length < 3 → ∀ d ∈ w.head?, Ascii.isDigit d = false)
      (later : Writes quote s w) : Writes quote (c :: s) (Ascii.backslash :: (digits ++ w))
  -- unlike a carriage return, a line break after a backslash takes no second byte with it
  | lineBreak {s w : Bytes} (later : Writes quote s w) :
      Writes quote (Ascii.lineFeed :: s) (Ascii.backslash :: Ascii.lineFeed :: w)
  | skipped {blanks s w : Bytes} (all : ∀ d ∈ blanks, Ascii.isBlank d = true)
      (solid : ∀ d ∈ w.head?, Ascii.isBlank d = false) (later : Writes quote s w) :
      Writes quote s (Ascii.backslash :: 0x7a :: (blanks ++ w))

theorem hexadecimalValue_hexByte : ∀ c : UInt8,
    (hexByte c).all Ascii.isHexDigit = true ∧ hexadecimalValue (hexByte c) = c.toNat :=
  forall_byte (by decide +kernel)

/-- Every byte string has a spelling, as hexadecimal escapes write every byte. -/
theorem exists_writes (quote : UInt8) (s : Bytes) : ∃ w, Writes quote s w := by
  induction s with
  | nil => exact ⟨[], .nil⟩
  | cons c s ih =>
      obtain ⟨w, later⟩ := ih
      obtain ⟨digits, value⟩ := hexadecimalValue_hexByte c
      have digit := List.all_eq_true.mp digits
      exact ⟨_, .hexadecimal (digit _ (by simp [hexByte])) (digit _ (by simp [hexByte])) value
        later⟩

/-! ## Escapes are read back -/

theorem letterEscape?_of_mem {letter c : UInt8} (known : (letter, c) ∈ letters) :
    letterEscape? letter = some c := by
  have all : letters.all (fun p => letterEscape? p.1 = some p.2) = true := by decide
  simpa using List.all_eq_true.mp all (letter, c) known

theorem readEscape_hexadecimal {c high low : UInt8} (first : Ascii.isHexDigit high = true)
    (second : Ascii.isHexDigit low = true) (value : hexadecimalValue [high, low] = c.toNat)
    (rest : Bytes) : readEscape (0x78 :: high :: low :: rest) = .ok ([c], rest) := by
  have step : readEscape (0x78 :: high :: low :: rest) =
      if Ascii.isHexDigit high && Ascii.isHexDigit low then
        .ok ([UInt8.ofNat (Ascii.hexValue high * 16 + Ascii.hexValue low)], rest)
      else fail .hexDigitExpected (high :: low :: rest) := rfl
  have same : Ascii.hexValue high * 16 + Ascii.hexValue low = c.toNat := by
    rw [← value]
    simp [hexadecimalValue]
  rw [step, first, second, same, UInt8.ofNat_toNat]
  rfl

theorem takeWhile_digits {more rest : Bytes} (few : more.length ≤ 2)
    (all : ∀ d ∈ more, Ascii.isDigit d = true)
    (apart : more.length < 2 → ∀ d ∈ rest.head?, Ascii.isDigit d = false) :
    ((more ++ rest).take 2).takeWhile Ascii.isDigit = more := by
  by_cases full : more.length = 2
  · rw [List.take_left' full]
    exact List.takeWhile_eq_self_iff.mpr all
  · have short : more.length < 2 := by omega
    have stop : ∀ d ∈ (rest.take (2 - more.length)).head?, Ascii.isDigit d = false := by
      intro d first
      apply apart short d
      rwa [List.head?_take, if_neg (by omega)] at first
    rw [List.take_append, List.take_of_length_le few]
    exact (span_append all stop).1

theorem readEscape_decimal {c : UInt8} {digits rest : Bytes} (nonempty : digits ≠ [])
    (few : digits.length ≤ 3) (all : ∀ d ∈ digits, Ascii.isDigit d = true)
    (value : decimalValue digits = c.toNat)
    (apart : digits.length < 3 → ∀ d ∈ rest.head?, Ascii.isDigit d = false) :
    readEscape (digits ++ rest) = .ok ([c], rest) := by
  cases digits with
  | nil => exact absurd rfl nonempty
  | cons first more =>
      obtain ⟨digit, others⟩ := List.forall_mem_cons.mp all
      rw [List.length_cons] at few apart
      have taken : ((more ++ rest).take 2).takeWhile Ascii.isDigit = more :=
        takeWhile_digits (by omega) others fun short => apart (by omega)
      have small := c.toNat_lt
      rw [List.cons_append, readEscape_digit digit, readDecimalEscape, taken, value,
        if_neg (by omega), List.drop_left, UInt8.ofNat_toNat]

theorem readEscape_skipped {blanks rest : Bytes} (all : ∀ d ∈ blanks, Ascii.isBlank d = true)
    (solid : ∀ d ∈ rest.head?, Ascii.isBlank d = false) :
    readEscape (0x7a :: (blanks ++ rest)) = .ok ([], rest) := by
  have step : readEscape (0x7a :: (blanks ++ rest)) =
      .ok ([], (blanks ++ rest).dropWhile Ascii.isBlank) := rfl
  rw [step, (span_append all solid).2]

/-! ## Strings are read back -/

/-- The byte after a part of the text, which may be the closing quote. -/
theorem head_before_quote {p : UInt8 → Bool} {quote : UInt8} (ends : p quote = false) {w : Bytes}
    (apart : ∀ d ∈ w.head?, p d = false) (rest : Bytes) :
    ∀ d ∈ (w ++ quote :: rest).head?, p d = false := by
  cases w with
  | nil =>
      intro d first
      rw [List.nil_append, List.head?_cons, Option.mem_some_iff] at first
      rw [← first]
      exact ends
  | cons c w => exact apart

/-- The bytes of an escape precede those that are read after it. -/
theorem readQuotedWithin_behind {quote : UInt8} (slash : quote ≠ Ascii.backslash)
    {escape bytes s w rest : Bytes}
    (read : readEscape (escape ++ (w ++ quote :: rest)) = .ok (bytes, w ++ quote :: rest))
    (later : ∀ fuel, w.length < fuel →
      readQuotedWithin quote fuel (w ++ quote :: rest) = .ok (s, rest)) :
    ∀ fuel, (Ascii.backslash :: (escape ++ w)).length < fuel →
      readQuotedWithin quote fuel (Ascii.backslash :: (escape ++ w) ++ quote :: rest) =
        .ok (bytes ++ s, rest) := by
  intro fuel enough
  obtain ⟨fuel, rfl⟩ := Nat.exists_eq_succ_of_ne_zero (Nat.ne_zero_of_lt enough)
  rw [List.length_cons, List.length_append] at enough
  rw [List.cons_append, List.append_assoc, readQuotedWithin_escape slash read,
    later fuel (by omega)]
  rfl

theorem Writes.readQuotedWithin {quote : UInt8}
    (either : quote = Ascii.doubleQuote ∨ quote = Ascii.singleQuote) {s w : Bytes}
    (writes : Writes quote s w) (rest : Bytes) : ∀ fuel, w.length < fuel →
      readQuotedWithin quote fuel (w ++ quote :: rest) = .ok (s, rest) := by
  have apart : quote ≠ Ascii.backslash ∧ Ascii.isDigit quote = false ∧
      Ascii.isBlank quote = false := by
    rcases either with rfl | rfl <;> decide
  obtain ⟨slash, digit, blank⟩ := apart
  induction writes with
  | nil =>
      intro fuel enough
      obtain ⟨fuel, rfl⟩ := Nat.exists_eq_succ_of_ne_zero (Nat.ne_zero_of_lt enough)
      exact readQuotedWithin_quote quote fuel rest
  | itself other plain line _ ih =>
      intro fuel enough
      obtain ⟨fuel, rfl⟩ := Nat.exists_eq_succ_of_ne_zero (Nat.ne_zero_of_lt enough)
      rw [List.length_cons] at enough
      rw [List.cons_append, readQuotedWithin_plain other line plain, ih fuel (by omega)]
      rfl
  | @letter mark c s w known _ ih =>
      have escape : readEscape ([mark] ++ (w ++ quote :: rest)) = .ok ([c], w ++ quote :: rest) :=
        readEscape_letter (letterEscape?_of_mem known) _
      exact readQuotedWithin_behind slash escape ih
  | @hexadecimal c high low s w first second value _ ih =>
      have escape : readEscape ([0x78, high, low] ++ (w ++ quote :: rest)) =
          .ok ([c], w ++ quote :: rest) := readEscape_hexadecimal first second value _
      exact readQuotedWithin_behind slash escape ih
  | @decimal c digits s w nonempty few all value apart _ ih =>
      have ends : digits.length < 3 →
          ∀ d ∈ (w ++ quote :: rest).head?, Ascii.isDigit d = false :=
        fun short => head_before_quote digit (apart short) rest
      exact readQuotedWithin_behind slash (readEscape_decimal nonempty few all value ends) ih
  | @lineBreak s w _ ih =>
      have escape : readEscape ([Ascii.lineFeed] ++ (w ++ quote :: rest)) =
          .ok ([Ascii.lineFeed], w ++ quote :: rest) := rfl
      exact readQuotedWithin_behind slash escape ih
  | @skipped blanks s w all solid _ ih =>
      have escape : readEscape ((0x7a :: blanks) ++ (w ++ quote :: rest)) =
          .ok ([], w ++ quote :: rest) :=
        readEscape_skipped all (head_before_quote blank solid rest)
      exact readQuotedWithin_behind slash escape ih

/-- Every byte string has a quoted spelling, and every quoted spelling is read as its byte string.
-/
theorem decodeLiteral_written_string {quote : UInt8}
    (either : quote = Ascii.doubleQuote ∨ quote = Ascii.singleQuote) (s : Bytes) :
    (∃ w, Writes quote s w) ∧
      ∀ w, Writes quote s w → decodeLiteral (quote :: (w ++ [quote])) = .ok (.string s) := by
  refine ⟨exists_writes quote s, ?_⟩
  intro w writes
  apply decodeLiteral_of_readQuoted either
  apply writes.readQuotedWithin either
  rw [List.length_append]
  omega

theorem decodeLiteral_written_string_mixed :
    Writes Ascii.singleQuote [0, 0x61, 0xff, 0x01, 0x37, 0x22, 0x0a]
        (text "\\0a\\xFf\\0017\"\\\n\\z \n\t") ∧
      decodeLiteral (text "'\\0a\\xFf\\0017\"\\\n\\z \n\t'") =
        .ok (.string [0, 0x61, 0xff, 0x01, 0x37, 0x22, 0x0a]) := by
  have blanks : (text " \n\t").all Ascii.isBlank = true := by decide
  have ending : Writes Ascii.singleQuote [] (text "\\z \n\t") :=
    .skipped (List.all_eq_true.mp blanks) (by simp) .nil
  have marks : Writes Ascii.singleQuote [0x37, 0x22, 0x0a] (text "7\"\\\n\\z \n\t") :=
    .itself (by decide) (by decide) (by decide)
      (.itself (by decide) (by decide) (by decide) (.lineBreak ending))
  have one : (text "001").all Ascii.isDigit = true := by decide
  have number : Writes Ascii.singleQuote [0x01, 0x37, 0x22, 0x0a]
      (text "\\0017\"\\\n\\z \n\t") :=
    .decimal (by decide) (by decide) (List.all_eq_true.mp one) rfl
      (fun short => absurd short (by decide)) marks
  have high : Writes Ascii.singleQuote [0x61, 0xff, 0x01, 0x37, 0x22, 0x0a]
      (text "a\\xFf\\0017\"\\\n\\z \n\t") :=
    .itself (by decide) (by decide) (by decide) (.hexadecimal rfl rfl rfl number)
  have zero : (text "0").all Ascii.isDigit = true := by decide
  have whole : Writes Ascii.singleQuote [0, 0x61, 0xff, 0x01, 0x37, 0x22, 0x0a]
      (text "\\0a\\xFf\\0017\"\\\n\\z \n\t") := by
    refine .decimal (by decide) (by decide) (List.all_eq_true.mp zero) rfl ?_ high
    rintro _ d ⟨⟩
    rfl
  exact ⟨whole, (decodeLiteral_written_string (.inr rfl) _).2 _ whole⟩

end Literal

end LuaAsset
