import LuaAsset.Proofs.Literal.Readings
import LuaAsset.Proofs.Literal.Strings
import LuaAsset.Proofs.Number.Hexadecimal
import LuaAsset.Proofs.Text.Sequences

/-! # Code points by their digits

The accumulator of a code point has 32 bits and is checked against 31.  A digit is refused iff the
digit with seven digits after it exceeds `7` (`Fits`), which bounds the number only if it has at
most 32 bits (`decodeLiteral_codePoint`).  Numbers of at most 21 bits are written as their UTF-8
sequences (`readEscape_codePoint`). -/

set_option autoImplicit false

namespace LuaAsset

namespace Literal

/-! ## Digits -/

/-- No digit followed by seven or more digits exceeds `7`. -/
def Fits (digits : Bytes) : Prop :=
  ∀ c ∈ digits.take (digits.length - 7), Ascii.hexValue c ≤ 7

instance (digits : Bytes) : Decidable (Fits digits) :=
  decidable_of_iff ((digits.take (digits.length - 7)).all (Ascii.hexValue · ≤ 7) = true)
    (by simp [Fits])

theorem fits_of_length_le {digits : Bytes} (short : digits.length ≤ 7) : Fits digits := by
  rw [Fits, Nat.sub_eq_zero_of_le short]
  simp

theorem fits_nil : Fits [] := fits_of_length_le (by decide)

theorem Fits.front {s t : Bytes} (fits : Fits (s ++ t)) : Fits s := by
  intro c member
  refine fits c ?_
  have before : s.length - 7 ≤ (s ++ t).length - 7 := by
    rw [List.length_append]
    omega
  have inFront : s.take (s.length - 7) <+: (s ++ t).take ((s ++ t).length - 7) := by
    rw [show s.take (s.length - 7) = (s ++ t).take (s.length - 7) from
      (List.take_append_of_le_length (Nat.sub_le _ _)).symm]
    exact List.take_prefix_take_left before
  exact inFront.mem member

theorem exists_seventh {s : Bytes} (long : 7 ≤ s.length) :
    ∃ front d six, s = front ++ d :: six ∧ six.length = 6 := by
  have enough : s.length - 7 < s.length := by omega
  refine ⟨s.take (s.length - 7), s[s.length - 7], s.drop (s.length - 7 + 1), ?_, ?_⟩
  · rw [← List.drop_eq_getElem_cons enough, List.take_append_drop]
  · rw [List.length_drop]
    omega

/-- Appending a digit keeps the accumulator within 31 bits iff the digit that now has seven after it
leaves bit 31 clear. -/
theorem fits_concat {s : Bytes} {c : UInt8} (all : ∀ d ∈ s ++ [c], Ascii.isHexDigit d = true) :
    Fits (s ++ [c]) ↔ Fits s ∧ hexadecimalValue (s ++ [c]) % 2 ^ 32 ≤ 0x7fffffff := by
  by_cases short : s.length < 7
  · have length : (s ++ [c]).length ≤ 7 := by
      rw [List.length_append, List.length_singleton]
      omega
    have bound : hexadecimalValue (s ++ [c]) < 16 ^ 7 :=
      Nat.lt_of_lt_of_le (hexadecimalValue_lt all) (Nat.pow_le_pow_right (by decide) length)
    have few := fits_of_length_le length
    exact iff_of_true few ⟨few.front, by omega⟩
  · obtain ⟨front, d, six, rfl, sixLong⟩ := exists_seventh (Nat.le_of_not_lt short)
    have behind : (six ++ [c]).length = 7 := by
      rw [List.length_append, sixLong, List.length_singleton]
    have shape : front ++ d :: six ++ [c] = (front ++ [d]) ++ (six ++ [c]) := by simp
    have tested : Fits (front ++ d :: six) ↔ ∀ e ∈ front, Ascii.hexValue e ≤ 7 := by
      have count : (front ++ d :: six).length - 7 = front.length := by
        rw [List.length_append, List.length_cons, sixLong]
        omega
      rw [Fits, count, List.take_left]
    have testedNext : Fits (front ++ d :: six ++ [c]) ↔
        ∀ e ∈ front ++ [d], Ascii.hexValue e ≤ 7 := by
      have count : (front ++ d :: six ++ [c]).length - 7 = (front ++ [d]).length := by
        rw [shape, List.length_append, behind, Nat.add_sub_cancel]
      rw [Fits, count, shape, List.take_left]
    have kept : hexadecimalValue (front ++ d :: six ++ [c]) % 2 ^ 32 ≤ 0x7fffffff ↔
        Ascii.hexValue d ≤ 7 := by
      rw [shape] at all ⊢
      obtain ⟨_, last⟩ := List.forall_mem_append.mp all
      have digit : Ascii.hexValue d < 16 := hexValue_lt d (all d (by simp))
      have low := hexadecimalValue_lt last
      rw [behind] at low
      rw [hexadecimalValue_append, hexadecimalValue_concat, behind]
      omega
    rw [tested, testedNext, kept, List.forall_mem_append, List.forall_mem_singleton]

theorem fits_iff {s : Bytes} (all : ∀ c ∈ s, Ascii.isHexDigit c = true)
    (small : hexadecimalValue s < 2 ^ 32) : Fits s ↔ hexadecimalValue s ≤ 0x7fffffff := by
  induction s using List.reverseRecOn with
  | nil => exact iff_of_true fits_nil (Nat.zero_le _)
  | append_singleton s c ih =>
      rw [fits_concat all, Nat.mod_eq_of_lt small, and_iff_right_iff_imp]
      intro within
      have front := (List.forall_mem_append.mp all).1
      have value := hexadecimalValue_concat s c
      exact (ih front (by omega)).mpr (by omega)

/-! ## The reader -/

theorem readCodePoint_digit {done : Bytes} {c : UInt8}
    (all : ∀ d ∈ done ++ [c], Ascii.isHexDigit d = true) (fits : Fits done) (any : Bool)
    (rest : Bytes) :
    readCodePoint (hexadecimalValue done % 2 ^ 32) any (c :: rest) =
      if Fits (done ++ [c]) then
        readCodePoint (hexadecimalValue (done ++ [c]) % 2 ^ 32) true rest
      else fail .codePointTooLarge (c :: rest) := by
  have digit : Ascii.isHexDigit c = true := all c (by simp)
  have next : (hexadecimalValue done % 2 ^ 32 * 16 + Ascii.hexValue c) % 2 ^ 32 =
      hexadecimalValue (done ++ [c]) % 2 ^ 32 := by
    rw [hexadecimalValue_concat]
    omega
  have step := fits_concat all
  rw [readCodePoint, if_pos digit]
  dsimp only
  rw [next]
  by_cases within : Fits (done ++ [c])
  · rw [if_pos within, if_neg (Nat.not_lt.mpr (step.mp within).2)]
  · have exceeds : ¬hexadecimalValue (done ++ [c]) % 2 ^ 32 ≤ 0x7fffffff :=
      fun small => within (step.mpr ⟨fits, small⟩)
    rw [if_neg within, if_pos (Nat.lt_of_not_le exceeds)]

theorem readCodePoint_fits (s : Bytes) : ∀ (done : Bytes) (any : Bool) (rest : Bytes),
    (∀ c ∈ done ++ s, Ascii.isHexDigit c = true) → Fits (done ++ s) →
    readCodePoint (hexadecimalValue done % 2 ^ 32) any (s ++ rest) =
      readCodePoint (hexadecimalValue (done ++ s) % 2 ^ 32) (any || !s.isEmpty) rest := by
  induction s with
  | nil =>
      intro done any rest _ _
      rw [List.append_nil, List.isEmpty_nil, Bool.not_true, Bool.or_false]
      rfl
  | cons c s ih =>
      intro done any rest all fits
      rw [show done ++ c :: s = (done ++ [c]) ++ s by simp] at all fits ⊢
      have front := (List.forall_mem_append.mp all).1
      rw [List.cons_append, readCodePoint_digit front fits.front.front any, if_pos fits.front,
        ih _ true rest all fits]
      simp

/-- Digits that do not fit are read up to the first one that overflows. -/
theorem readCodePoint_exceeds (s : Bytes) : ∀ (done : Bytes) (any : Bool) (rest : Bytes),
    (∀ c ∈ done ++ s, Ascii.isHexDigit c = true) → Fits done → ¬Fits (done ++ s) →
    ∃ read c more, s = read ++ c :: more ∧ Fits (done ++ read) ∧
      ¬Fits (done ++ (read ++ [c])) ∧
      readCodePoint (hexadecimalValue done % 2 ^ 32) any (s ++ rest) =
        fail .codePointTooLarge (c :: (more ++ rest)) := by
  induction s with
  | nil =>
      intro done any rest _ fits exceeds
      rw [List.append_nil] at exceeds
      exact absurd fits exceeds
  | cons c s ih =>
      intro done any rest all fits exceeds
      rw [List.append_cons] at all exceeds
      have step := readCodePoint_digit (List.forall_mem_append.mp all).1 fits any (s ++ rest)
      by_cases within : Fits (done ++ [c])
      · obtain ⟨read, d, more, rfl, inside, outside, refused⟩ := ih _ true rest all within exceeds
        rw [List.append_assoc, List.singleton_append] at inside outside
        refine ⟨c :: read, d, more, rfl, inside, outside, ?_⟩
        rw [List.cons_append, step, if_pos within, refused]
      · refine ⟨[], c, s, rfl, ?_, ?_, ?_⟩
        · rwa [List.append_nil]
        · rwa [List.nil_append]
        · rw [List.cons_append, step, if_neg within]

/-! ## The escape -/

def pointEscape (digits : Bytes) : Bytes :=
  0x75 :: Ascii.openBrace :: (digits ++ [Ascii.closeBrace])

theorem readEscape_point (digits rest : Bytes) : readEscape (pointEscape digits ++ rest) =
    (readCodePoint 0 false (digits ++ Ascii.closeBrace :: rest)).map
      fun found => (Utf8.encodeScalar found.1, found.2) := by
  rw [pointEscape, List.cons_append, List.cons_append, readEscape_brace, if_pos rfl,
    List.append_assoc, List.singleton_append]

theorem readEscape_fits {digits : Bytes} (nonempty : digits ≠ [])
    (all : ∀ c ∈ digits, Ascii.isHexDigit c = true) (fits : Fits digits) (rest : Bytes) :
    readEscape (pointEscape digits ++ rest) =
      .ok (Utf8.encodeScalar (hexadecimalValue digits % 2 ^ 32), rest) := by
  have read := readCodePoint_fits digits [] false (Ascii.closeBrace :: rest) all fits
  have some : (false || !digits.isEmpty) = true := by simp [nonempty]
  have closes : readCodePoint (hexadecimalValue digits % 2 ^ 32) true (Ascii.closeBrace :: rest) =
      .ok (hexadecimalValue digits % 2 ^ 32, rest) := rfl
  rw [some, List.nil_append, closes] at read
  rw [readEscape_point, show (0 : Nat) = hexadecimalValue [] % 2 ^ 32 from rfl, read]
  rfl

theorem readEscape_exceeds {digits : Bytes} (all : ∀ c ∈ digits, Ascii.isHexDigit c = true)
    (exceeds : ¬Fits digits) (rest : Bytes) :
    ∃ read c more, digits = read ++ c :: more ∧ Fits read ∧ ¬Fits (read ++ [c]) ∧
      readEscape (pointEscape digits ++ rest) =
        fail .codePointTooLarge (c :: (more ++ Ascii.closeBrace :: rest)) := by
  obtain ⟨read, c, more, split, inside, outside, refused⟩ :=
    readCodePoint_exceeds digits [] false (Ascii.closeBrace :: rest) all fits_nil exceeds
  refine ⟨read, c, more, split, inside, outside, ?_⟩
  rw [readEscape_point, show (0 : Nat) = hexadecimalValue [] % 2 ^ 32 from rfl, refused]
  rfl

theorem readEscape_empty (rest : Bytes) : readEscape (pointEscape [] ++ rest) =
    fail .malformedCodePoint (Ascii.closeBrace :: rest) := by
  rw [readEscape_point]
  rfl

/-! ## Whole texts -/

def quotedPoint (quote : UInt8) (digits : Bytes) : Bytes :=
  quote :: Ascii.backslash :: (pointEscape digits ++ [quote])

section QuotedPoint

variable {quote : UInt8} {digits : Bytes}

theorem decodeLiteral_quotedPoint
    (either : quote = Ascii.doubleQuote ∨ quote = Ascii.singleQuote) {bytes : Bytes}
    (read : readEscape (pointEscape digits ++ [quote]) = .ok (bytes, [quote])) :
    decodeLiteral (quotedPoint quote digits) = .ok (.string bytes) := by
  have slash : quote ≠ Ascii.backslash := by
    obtain rfl | rfl := either <;> decide
  apply decodeLiteral_of_readQuoted either
  rw [readQuoted, List.length_cons, readQuotedWithin_escape slash read, readQuotedWithin_quote]
  simp [Except.map]

theorem decodeLiteral_quotedPoint_error
    (either : quote = Ascii.doubleQuote ∨ quote = Ascii.singleQuote) {flaw : Flaw}
    (read : readEscape (pointEscape digits ++ [quote]) = .error flaw) :
    decodeLiteral (quotedPoint quote digits) =
      .error (.literal flaw.1 ((quotedPoint quote digits).length - flaw.2)) := by
  have slash : quote ≠ Ascii.backslash := by
    obtain rfl | rfl := either <;> decide
  have refused : readQuoted quote (Ascii.backslash :: (pointEscape digits ++ [quote])) =
      .error flaw := by
    rw [readQuoted, List.length_cons, readQuotedWithin, if_neg slash.symm, if_neg (by decide),
      if_pos rfl, read]
  rw [decodeLiteral, readDocument, quotedPoint, readValue_quote either, refused]
  rfl

end QuotedPoint

theorem length_quotedPoint (quote : UInt8) (digits : Bytes) :
    (quotedPoint quote digits).length = digits.length + 6 := by
  simp [quotedPoint, pointEscape]

/-- An escaped code point is read iff it has digits and they fit; otherwise it is refused at the
first digit that overflows.  A number of up to 32 bits fits iff it has at most 31 bits. -/
theorem decodeLiteral_codePoint {quote : UInt8}
    (either : quote = Ascii.doubleQuote ∨ quote = Ascii.singleQuote) {digits : Bytes}
    (all : ∀ c ∈ digits, Ascii.isHexDigit c = true) :
    (∀ v, decodeLiteral (quotedPoint quote digits) = .ok v ↔ digits ≠ [] ∧ Fits digits ∧
      v = .string (Utf8.encodeScalar (hexadecimalValue digits % 2 ^ 32))) ∧
    (¬Fits digits → ∃ read c more, digits = read ++ c :: more ∧ Fits read ∧ ¬Fits (read ++ [c]) ∧
      decodeLiteral (quotedPoint quote digits) =
        .error (.literal .codePointTooLarge (4 + read.length))) ∧
    (hexadecimalValue digits < 2 ^ 32 → (Fits digits ↔ hexadecimalValue digits ≤ 0x7fffffff)) := by
  have refused : ¬Fits digits → ∃ read c more, digits = read ++ c :: more ∧ Fits read ∧
      ¬Fits (read ++ [c]) ∧ decodeLiteral (quotedPoint quote digits) =
        .error (.literal .codePointTooLarge (4 + read.length)) := by
    intro exceeds
    obtain ⟨read, c, more, split, inside, outside, failed⟩ :=
      readEscape_exceeds all exceeds [quote]
    refine ⟨read, c, more, split, inside, outside, ?_⟩
    rw [decodeLiteral_quotedPoint_error either failed, length_quotedPoint, split]
    simp only [List.length_append, List.length_cons, List.length_nil]
    congr 2
    omega
  refine ⟨fun v => ?_, refused, fits_iff all⟩
  by_cases empty : digits = []
  · subst empty
    rw [decodeLiteral_quotedPoint_error either (readEscape_empty [quote])]
    simp
  · by_cases fits : Fits digits
    · rw [decodeLiteral_quotedPoint either (readEscape_fits empty all fits [quote])]
      simp [empty, fits, eq_comm]
    · obtain ⟨_, _, _, _, _, _, failed⟩ := refused fits
      rw [failed]
      simp [fits]

theorem decodeLiteral_codePoint_limits :
    decodeLiteral (quotedPoint Ascii.singleQuote (text "07fffffff")) =
      .ok (.string (Utf8.encodeScalar 0x7fffffff)) ∧
    decodeLiteral (quotedPoint Ascii.doubleQuote (text "80000000")) =
      .error (.literal .codePointTooLarge 11) ∧
    (¬∃ v, decodeLiteral (quotedPoint Ascii.singleQuote (text "fffffffff")) = .ok v) := by
  have largest : (text "07fffffff").all Ascii.isHexDigit = true := by decide
  have next : (text "80000000").all Ascii.isHexDigit = true := by decide
  have long : (text "fffffffff").all Ascii.isHexDigit = true := by decide
  have accepted := (decodeLiteral_codePoint (.inr rfl) (List.all_eq_true.mp largest)).1
  have refused := (decodeLiteral_codePoint (.inl rfl) (List.all_eq_true.mp next)).2.1
  have beyond := (decodeLiteral_codePoint (.inr rfl) (List.all_eq_true.mp long)).1
  refine ⟨(accepted _).mpr ⟨by decide, by decide, rfl⟩, ?_, ?_⟩
  · obtain ⟨read, c, more, split, _, outside, failed⟩ := refused (by decide)
    have lengths := congrArg List.length split
    have many : ¬(read ++ [c]).length ≤ 7 := fun few => outside (fits_of_length_le few)
    have whole : (text "80000000").length = 8 := rfl
    have seven : read.length = 7 := by
      rw [List.length_append, List.length_singleton] at many
      rw [whole, List.length_append, List.length_cons] at lengths
      omega
    rw [failed, seven]
  · rintro ⟨v, read⟩
    exact absurd ((beyond v).mp read).2.1 (by decide)

/-- The code point `2 ^ 32` is read as zero. -/
theorem decodeLiteral_codePoint_wrapped :
    ¬ ∀ digits : Bytes, (∀ c ∈ digits, Ascii.isHexDigit c = true) → ∀ v,
      decodeLiteral (quotedPoint Ascii.singleQuote digits) = .ok v →
        hexadecimalValue digits ≤ 0x7fffffff := by
  intro bounded
  have digits : (text "100000000").all Ascii.isHexDigit = true := by decide
  have read : decodeLiteral (quotedPoint Ascii.singleQuote (text "100000000")) =
      .ok (.string [0]) :=
    decodeLiteral_quotedPoint (.inr rfl)
      (readEscape_fits (by decide) (List.all_eq_true.mp digits) (by decide) [Ascii.singleQuote])
  exact absurd (bounded _ (List.all_eq_true.mp digits) _ read) (by decide)

/-! ## The sequence of a code point -/

/-- Numbers of at most 21 bits are written as their own sequences of bytes, which differ for
different numbers.  Larger numbers of up to 31 bits are accepted too, but not written as sequences
that encode them. -/
theorem readEscape_codePoint {u v : Bytes} (nonemptyU : u ≠ []) (nonemptyV : v ≠ [])
    (allU : ∀ c ∈ u, Ascii.isHexDigit c = true) (allV : ∀ c ∈ v, Ascii.isHexDigit c = true)
    (withinU : hexadecimalValue u ≤ 0x7fffffff) (withinV : hexadecimalValue v ≤ 0x7fffffff) :
    ∃ s t, (∀ rest, readEscape (pointEscape u ++ rest) = .ok (s, rest)) ∧
      (∀ rest, readEscape (pointEscape v ++ rest) = .ok (t, rest)) ∧
      (Utf8.IsSequence (hexadecimalValue u) s ↔ hexadecimalValue u ≤ 0x1fffff) ∧
      (Utf8.IsSequence (hexadecimalValue v) t ↔ hexadecimalValue v ≤ 0x1fffff) ∧
      (hexadecimalValue u ≤ 0x1fffff → hexadecimalValue v ≤ 0x1fffff →
        hexadecimalValue u ≠ hexadecimalValue v → s ≠ t) := by
  have reads : ∀ {digits : Bytes}, digits ≠ [] → (∀ c ∈ digits, Ascii.isHexDigit c = true) →
      hexadecimalValue digits ≤ 0x7fffffff → ∀ rest, readEscape (pointEscape digits ++ rest) =
        .ok (Utf8.encodeScalar (hexadecimalValue digits), rest) := by
    intro digits nonempty all within rest
    have small : hexadecimalValue digits < 2 ^ 32 := by omega
    have read := readEscape_fits nonempty all ((fits_iff all small).mpr within) rest
    rwa [Nat.mod_eq_of_lt small] at read
  have sequence : ∀ n, Utf8.IsSequence n (Utf8.encodeScalar n) ↔ n ≤ 0x1fffff :=
    fun n => Utf8.isSequence_encodeScalar_iff.trans Nat.lt_succ_iff
  refine ⟨_, _, reads nonemptyU allU withinU, reads nonemptyV allV withinV, sequence _, sequence _,
    fun smallU smallV different same => different ?_⟩
  have second := (sequence _).mpr smallV
  rw [← same] at second
  exact ((sequence _).mpr smallU).unique second

theorem readEscape_codePoint_widest :
    ∃ s t, (∀ rest, readEscape (pointEscape (text "20ac") ++ rest) = .ok (s, rest)) ∧
      (∀ rest, readEscape (pointEscape (text "1fffff") ++ rest) = .ok (t, rest)) ∧
      Utf8.IsSequence 0x20ac s ∧ Utf8.IsSequence 0x1fffff t ∧ s ≠ t := by
  have euro : (text "20ac").all Ascii.isHexDigit = true := by decide
  have widest : (text "1fffff").all Ascii.isHexDigit = true := by decide
  obtain ⟨s, t, readS, readT, first, second, apart⟩ := readEscape_codePoint (u := text "20ac")
    (v := text "1fffff") (by decide) (by decide) (List.all_eq_true.mp euro)
    (List.all_eq_true.mp widest) (by decide) (by decide)
  exact ⟨s, t, readS, readT, first.mpr (by decide), second.mpr (by decide),
    apart (by decide) (by decide) (by decide)⟩

/-- Two numbers that differ in a bit above the 21 that four bytes carry. -/
theorem readEscape_codePoint_alike :
    ¬ ∀ u v : Bytes, ∀ s t : Bytes,
      readEscape (pointEscape u) = .ok (s, []) → readEscape (pointEscape v) = .ok (t, []) →
        (hexadecimalValue u ≠ hexadecimalValue v → s ≠ t) ∧
          Utf8.IsSequence (hexadecimalValue u) s ∧ Utf8.IsSequence (hexadecimalValue v) t := by
  intro faithful
  obtain ⟨apart, _, _⟩ := faithful (text "10000") (text "410000") [0xf0, 0x90, 0x80, 0x80]
    [0xf0, 0x90, 0x80, 0x80] (by decide) (by decide)
  exact apart (by decide) rfl

end Literal

end LuaAsset
