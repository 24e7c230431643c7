import LuaAsset.Proofs.Literal.Tokens

/-! # Quoted strings

A quoted string ends at its first quote that is not escaped (`readQuotedWithin_body`). -/

set_option autoImplicit false

namespace LuaAsset

namespace Literal

/-! ## Between two quotes -/

inductive QuotedBody (quote : UInt8) : Bytes → Prop
  | nil : QuotedBody quote []
  | plain {c : UInt8} {w : Bytes} (unescaped : c ≠ Ascii.backslash) (other : c ≠ quote)
      (later : QuotedBody quote w) : QuotedBody quote (c :: w)
  | escaped (c : UInt8) {w : Bytes} (later : QuotedBody quote w) :
      QuotedBody quote (Ascii.backslash :: c :: w)

theorem QuotedBody.append {quote : UInt8} {v w : Bytes} (first : QuotedBody quote v)
    (second : QuotedBody quote w) : QuotedBody quote (v ++ w) := by
  induction first with
  | nil => exact second
  | plain unescaped other _ ih => exact .plain unescaped other ih
  | escaped c _ ih => exact .escaped c ih

/-- Whether a byte has no meaning inside a quoted string. -/
def isInert (c : UInt8) : Bool :=
  c != Ascii.backslash && c != Ascii.singleQuote && c != Ascii.doubleQuote

theorem quotedBody_of_inert {quote : UInt8}
    (either : quote = Ascii.doubleQuote ∨ quote = Ascii.singleQuote) {w : Bytes}
    (inert : ∀ c ∈ w, isInert c = true) : QuotedBody quote w := by
  induction w with
  | nil => exact .nil
  | cons c w ih =>
      obtain ⟨first, more⟩ := List.forall_mem_cons.mp inert
      simp only [isInert, Bool.and_eq_true, bne_iff_ne] at first
      obtain ⟨⟨slash, single⟩, double⟩ := first
      refine .plain slash ?_ (ih more)
      obtain rfl | rfl := either
      · exact double
      · exact single

theorem QuotedBody.unique {quote : UInt8} {v : Bytes} (body : QuotedBody quote v) :
    ∀ {w r s : Bytes}, QuotedBody quote w → quote ≠ Ascii.backslash →
      v ++ quote :: r = w ++ quote :: s → v = w ∧ r = s := by
  induction body with
  | nil =>
      intro w r s other slash same
      cases other with
      | nil => exact ⟨rfl, (List.cons.inj same).2⟩
      | plain _ different => exact absurd (List.cons.inj same).1.symm different
      | escaped => exact absurd (List.cons.inj same).1 slash
  | @plain c v unescaped different _ ih =>
      intro w r s other slash same
      cases other with
      | nil => exact absurd (List.cons.inj same).1 different
      | plain _ _ later =>
          obtain ⟨rfl, tail⟩ := List.cons.inj same
          obtain ⟨rfl, rfl⟩ := ih later slash tail
          exact ⟨rfl, rfl⟩
      | escaped => exact absurd (List.cons.inj same).1 unescaped
  | escaped c _ ih =>
      intro w r s other slash same
      cases other with
      | nil => exact absurd (List.cons.inj same).1.symm slash
      | plain unescaped => exact absurd (List.cons.inj same).1.symm unescaped
      | escaped d later =>
          obtain ⟨rfl, tail⟩ := List.cons.inj (List.cons.inj same).2
          obtain ⟨rfl, rfl⟩ := ih later slash tail
          exact ⟨rfl, rfl⟩

theorem quotedBody_escaped (s : Bytes) : QuotedBody Ascii.singleQuote (s.flatMap escaped) := by
  induction s with
  | nil => exact .nil
  | cons c s ih =>
      rw [List.flatMap_cons]
      obtain ⟨letter, written, _⟩ | ⟨written, slash, quote, _⟩ := escaped_cases c
      · rw [written]
        exact .escaped letter ih
      · rw [written]
        exact .plain slash quote ih

/-! ## Escapes -/

theorem isInert_of_isHexDigit : ∀ c : UInt8, Ascii.isHexDigit c = true → isInert c = true :=
  forall_byte (by decide +kernel)

theorem isInert_of_isDigit : ∀ c : UInt8, Ascii.isDigit c = true → isInert c = true :=
  forall_byte (by decide +kernel)

theorem isInert_of_isBlank : ∀ c : UInt8, Ascii.isBlank c = true → isInert c = true :=
  forall_byte (by decide +kernel)

structure EscapeRead (c : UInt8) (x bytes after : Bytes) : Prop where
  inert : ∀ d ∈ x, isInert d = true
  nearby : ∀ z : Bytes, z.head? = after.head? → readEscape (c :: (x ++ z)) = .ok (bytes, z)

theorem readCodePoint_read (s : Bytes) : ∀ {point : Nat} {any : Bool} {found : Nat} {after : Bytes},
    readCodePoint point any s = .ok (found, after) →
    ∃ x, s = x ++ after ∧ (∀ d ∈ x, isInert d = true) ∧
      ∀ z, readCodePoint point any (x ++ z) = .ok (found, z) := by
  induction s with
  | nil =>
      intro point any found after read
      cases read
  | cons c rest ih =>
      intro point any found after read
      rw [readCodePoint] at read
      split at read
      · rename_i digit
        dsimp only at read
        split at read
        · cases read
        · rename_i small
          obtain ⟨x, rfl, inert, again⟩ := ih read
          refine ⟨c :: x, rfl, List.forall_mem_cons.mpr ⟨isInert_of_isHexDigit c digit, inert⟩, ?_⟩
          intro z
          rw [List.cons_append, readCodePoint, if_pos digit]
          dsimp only
          rw [if_neg small, again]
      · rename_i other
        split at read
        · rename_i closes
          cases read
          refine ⟨[c], rfl, ?_, fun z => ?_⟩
          · rw [closes.2]
            exact List.forall_mem_singleton.mpr (by decide)
          · rw [List.singleton_append, readCodePoint, if_neg other, if_pos closes]
        · cases read

theorem head_dropWhile {p : UInt8 → Bool} (s : Bytes) :
    ∀ c ∈ (s.dropWhile p).head?, p c = false := by
  intro c first
  have found := List.head?_dropWhile_not p s
  rw [first] at found
  exact found

theorem readEscape_digit {c : UInt8} (digit : Ascii.isDigit c = true) (rest : Bytes) :
    readEscape (c :: rest) = readDecimalEscape c rest := by
  have apart : ∀ c : UInt8, Ascii.isDigit c = true → letterEscape? c = none ∧
      c ≠ Ascii.carriageReturn ∧ c ≠ 0x78 ∧ c ≠ 0x7a ∧ c ≠ 0x75 :=
    forall_byte (by decide +kernel)
  obtain ⟨letter, line, hexadecimal, blanks, point⟩ := apart c digit
  rw [readEscape.eq_def]
  dsimp only
  rw [letter]
  dsimp only
  rw [if_neg line, if_neg hexadecimal, if_neg blanks, if_neg point, if_pos digit]

theorem escapeRead_line (rest : Bytes) :
    ∃ x after, rest = x ++ after ∧ readEscape (Ascii.carriageReturn :: rest) =
      .ok ([Ascii.lineFeed], after) ∧
        EscapeRead Ascii.carriageReturn x [Ascii.lineFeed] after := by
  have step : ∀ rest, readEscape (Ascii.carriageReturn :: rest) = .ok ([Ascii.lineFeed],
      if rest.head? = some Ascii.lineFeed then rest.drop 1 else rest) := fun _ => rfl
  by_cases feed : rest.head? = some Ascii.lineFeed
  · obtain ⟨after, rfl⟩ := List.head?_eq_some_iff.mp feed
    refine ⟨[Ascii.lineFeed], after, rfl, by rw [step, if_pos feed]; rfl,
      List.forall_mem_singleton.mpr (by decide), fun z _ => ?_⟩
    rw [List.singleton_append, step]
    rfl
  · refine ⟨[], rest, rfl, by rw [step, if_neg feed], by simp, fun z same => ?_⟩
    rw [List.nil_append, step, if_neg (by rw [same]; exact feed)]

theorem escapeRead_blanks (rest : Bytes) :
    ∃ x after, rest = x ++ after ∧ readEscape (0x7a :: rest) = .ok ([], after) ∧
      EscapeRead 0x7a x [] after := by
  have step : ∀ rest, readEscape (0x7a :: rest) = .ok ([], rest.dropWhile Ascii.isBlank) :=
    fun _ => rfl
  have blank : ∀ c ∈ rest.takeWhile Ascii.isBlank, Ascii.isBlank c = true :=
    fun c member => List.mem_takeWhile_imp member
  refine ⟨_, _, (List.takeWhile_append_dropWhile).symm, step rest,
    fun c member => isInert_of_isBlank c (blank c member), fun z same => ?_⟩
  rw [step, (span_append blank fun c first => head_dropWhile rest c (same ▸ first)).2]

theorem escapeRead_hexadecimal {rest bytes after : Bytes}
    (read : readEscape (0x78 :: rest) = .ok (bytes, after)) :
    ∃ x, rest = x ++ after ∧ EscapeRead 0x78 x bytes after := by
  match rest, read with
  | [], read => cases read
  | [_], read => cases read
  | high :: low :: rest, read =>
      have step : ∀ rest, readEscape (0x78 :: high :: low :: rest) =
          if Ascii.isHexDigit high && Ascii.isHexDigit low then
            .ok ([UInt8.ofNat (Ascii.hexValue high * 16 + Ascii.hexValue low)], rest)
          else fail .hexDigitExpected (high :: low :: rest) := fun _ => rfl
      rw [step] at read
      split at read
      · rename_i digits
        cases read
        obtain ⟨first, second⟩ := Bool.and_eq_true_iff.mp digits
        refine ⟨[high, low], rfl, ?_, fun z _ => ?_⟩
        · simp [isInert_of_isHexDigit, first, second]
        · rw [List.cons_append, List.singleton_append, step, if_pos digits]
      · cases read

theorem readEscape_brace (brace : UInt8) (digits : Bytes) :
    readEscape (0x75 :: brace :: digits) =
      if brace = Ascii.openBrace then
        (readCodePoint 0 false digits).map fun found => (Utf8.encodeScalar found.1, found.2)
      else fail .missingBrace (brace :: digits) := by
  have letter : letterEscape? 0x75 = none := rfl
  cases found : readCodePoint 0 false digits <;>
    simp [readEscape, letter, found, Except.map, Ascii.carriageReturn]

theorem escapeRead_point {rest bytes after : Bytes}
    (read : readEscape (0x75 :: rest) = .ok (bytes, after)) :
    ∃ x, rest = x ++ after ∧ EscapeRead 0x75 x bytes after := by
  cases rest with
  | nil => cases read
  | cons brace digits =>
      rw [readEscape_brace] at read
      split at read
      · rename_i opening
        subst opening
        obtain ⟨found, point, same⟩ := map_ok read
        cases same
        obtain ⟨x, rfl, inert, again⟩ := readCodePoint_read digits point
        refine ⟨Ascii.openBrace :: x, rfl,
          List.forall_mem_cons.mpr ⟨by decide, inert⟩, fun z _ => ?_⟩
        rw [List.cons_append, readEscape_brace, if_pos rfl, again]
        rfl
      · cases read

theorem takeWhile_take_append {p : UInt8 → Bool} (n : Nat) : ∀ s z : Bytes,
    z.head? = (s.drop ((s.take n).takeWhile p).length).head? →
    (((s.take n).takeWhile p ++ z).take n).takeWhile p = (s.take n).takeWhile p := by
  induction n with
  | zero => simp
  | succ n ih =>
      intro s z same
      cases s with
      | nil =>
          have empty : z = [] := List.head?_eq_none_iff.mp (by simpa using same)
          simp [empty]
      | cons c s =>
          by_cases holds : p c = true
          · rw [List.take_succ_cons, List.takeWhile_cons_of_pos holds] at same ⊢
            rw [List.cons_append, List.take_succ_cons, List.takeWhile_cons_of_pos holds]
            rw [ih s z (by simpa using same)]
          · rw [List.take_succ_cons, List.takeWhile_cons_of_neg holds] at same ⊢
            obtain ⟨z, rfl⟩ := List.head?_eq_some_iff.mp same
            rw [List.nil_append, List.take_succ_cons, List.takeWhile_cons_of_neg holds]

theorem escapeRead_digits {c : UInt8} (digit : Ascii.isDigit c = true) {rest bytes after : Bytes}
    (read : readEscape (c :: rest) = .ok (bytes, after)) :
    ∃ x, rest = x ++ after ∧ EscapeRead c x bytes after := by
  rw [readEscape_digit digit, readDecimalEscape] at read
  split at read
  · cases read
  · rename_i small
    cases read
    let more := (rest.take 2).takeWhile Ascii.isDigit
    have begins : more <+: rest := (List.takeWhile_prefix _).trans (List.take_prefix 2 rest)
    refine ⟨more, (List.prefix_iff_eq_append.mp begins).symm, fun d member => ?_, fun z same => ?_⟩
    · exact isInert_of_isDigit d (List.mem_takeWhile_imp member)
    · rw [readEscape_digit digit, readDecimalEscape]
      rw [takeWhile_take_append 2 rest z same, if_neg small, List.drop_left]

theorem readEscape_cases {s bytes after : Bytes} (read : readEscape s = .ok (bytes, after)) :
    ∃ c x, s = c :: (x ++ after) ∧ EscapeRead c x bytes after := by
  cases s with
  | nil => cases read
  | cons c rest =>
      suffices found : ∃ x, rest = x ++ after ∧ EscapeRead c x bytes after by
        obtain ⟨x, rfl, escape⟩ := found
        exact ⟨c, x, rfl, escape⟩
      by_cases digit : Ascii.isDigit c = true
      · exact escapeRead_digits digit read
      · by_cases line : c = Ascii.carriageReturn
        · subst line
          obtain ⟨x, left, split, whole, escape⟩ := escapeRead_line rest
          cases read.symm.trans whole
          exact ⟨x, split, escape⟩
        · by_cases hexadecimal : c = 0x78
          · subst hexadecimal
            exact escapeRead_hexadecimal read
          · by_cases blanks : c = 0x7a
            · subst blanks
              obtain ⟨x, left, split, whole, escape⟩ := escapeRead_blanks rest
              cases read.symm.trans whole
              exact ⟨x, split, escape⟩
            · by_cases point : c = 0x75
              · subst point
                exact escapeRead_point read
              · cases letter : letterEscape? c with
                | some byte =>
                    rw [readEscape_letter letter] at read
                    cases read
                    exact ⟨[], rfl, by simp, fun z _ => readEscape_letter letter z⟩
                | none =>
                    rw [readEscape.eq_def] at read
                    simp [letter, line, hexadecimal, blanks, point, digit, fail] at read

/-! ## Strings -/

theorem readQuotedWithin_quote (quote : UInt8) (fuel : Nat) (rest : Bytes) :
    readQuotedWithin quote (fuel + 1) (quote :: rest) = .ok ([], rest) := by
  rw [readQuotedWithin, if_pos rfl]

theorem readQuotedWithin_plain {quote c : UInt8} (other : c ≠ quote) (line : c ≠ Ascii.lineFeed)
    (slash : c ≠ Ascii.backslash) (fuel : Nat) (rest : Bytes) :
    readQuotedWithin quote (fuel + 1) (c :: rest) =
      (readQuotedWithin quote fuel rest).map fun tail => (c :: tail.1, tail.2) := by
  rw [readQuotedWithin, if_neg other, if_neg line, if_neg slash]

theorem readQuotedWithin_escape {quote : UInt8} (slash : quote ≠ Ascii.backslash)
    {s bytes after : Bytes} (read : readEscape s = .ok (bytes, after)) (fuel : Nat) :
    readQuotedWithin quote (fuel + 1) (Ascii.backslash :: s) =
      (readQuotedWithin quote fuel after).map fun tail => (bytes ++ tail.1, tail.2) := by
  rw [readQuotedWithin, if_neg slash.symm, if_neg (by decide), if_pos rfl, read]

inductive QuotedRead (quote : UInt8) (fuel : Nat) : Bytes → Bytes → Bytes → Prop
  | closed (rest : Bytes) : QuotedRead quote fuel (quote :: rest) [] rest
  | plain {c : UInt8} {s bytes rest : Bytes} (other : c ≠ quote) (line : c ≠ Ascii.lineFeed)
      (slash : c ≠ Ascii.backslash) (later : readQuotedWithin quote fuel s = .ok (bytes, rest)) :
      QuotedRead quote fuel (c :: s) (c :: bytes) rest
  | escaped {s first after bytes rest : Bytes} (read : readEscape s = .ok (first, after))
      (later : readQuotedWithin quote fuel after = .ok (bytes, rest)) :
      QuotedRead quote fuel (Ascii.backslash :: s) (first ++ bytes) rest

theorem quotedRead_of_readQuotedWithin {quote : UInt8} {fuel : Nat} {s bytes rest : Bytes}
    (read : readQuotedWithin quote (fuel + 1) s = .ok (bytes, rest)) :
    QuotedRead quote fuel s bytes rest := by
  cases s with
  | nil => cases read
  | cons c s =>
      rw [readQuotedWithin] at read
      split at read
      · rename_i closes
        subst closes
        cases read
        exact .closed _
      · rename_i other
        split at read
        · cases read
        · rename_i line
          split at read
          · rename_i slash
            subst slash
            split at read
            · rename_i first after escaped
              obtain ⟨tail, later, same⟩ := map_ok read
              cases same
              exact .escaped escaped later
            · cases read
          · rename_i slash
            obtain ⟨tail, later, same⟩ := map_ok read
            cases same
            exact .plain other line slash later

/-- A quoted string ends at the first quote that is not escaped, whatever follows it. -/
theorem readQuotedWithin_body {quote : UInt8}
    (either : quote = Ascii.doubleQuote ∨ quote = Ascii.singleQuote) (fuel : Nat) :
    ∀ {s bytes rest : Bytes}, readQuotedWithin quote fuel s = .ok (bytes, rest) →
      ∃ body, s = body ++ quote :: rest ∧ QuotedBody quote body ∧
        ∀ rest' fuel', body.length < fuel' →
          readQuotedWithin quote fuel' (body ++ quote :: rest') = .ok (bytes, rest') := by
  induction fuel with
  | zero =>
      intro s bytes rest read
      cases read
  | succ fuel ih =>
      intro s bytes rest read
      cases quotedRead_of_readQuotedWithin read with
      | closed =>
          refine ⟨[], rfl, .nil, fun rest' fuel' enough => ?_⟩
          obtain ⟨n, rfl⟩ := Nat.exists_eq_succ_of_ne_zero (Nat.ne_zero_of_lt enough)
          exact readQuotedWithin_quote quote n rest'
      | @plain c s bytes _ other line slash later =>
          obtain ⟨body, rfl, isBody, again⟩ := ih later
          refine ⟨c :: body, rfl, .plain slash other isBody, fun rest' fuel' enough => ?_⟩
          obtain ⟨n, rfl⟩ := Nat.exists_eq_succ_of_ne_zero (Nat.ne_zero_of_lt enough)
          have more := again rest' n (Nat.lt_of_succ_lt_succ enough)
          rw [List.cons_append, readQuotedWithin_plain other line slash, more]
          rfl
      | @escaped s first after bytes _ escape later =>
          obtain ⟨c, x, rfl, escapeRead⟩ := readEscape_cases escape
          obtain ⟨body, rfl, isBody, again⟩ := ih later
          have whole := (quotedBody_of_inert either escapeRead.inert).append isBody
          refine ⟨Ascii.backslash :: c :: (x ++ body), by simp, .escaped c whole, ?_⟩
          intro rest' fuel' enough
          obtain ⟨n, rfl⟩ := Nat.exists_eq_succ_of_ne_zero (Nat.ne_zero_of_lt enough)
          simp only [List.length_cons, List.length_append] at enough
          have more := again rest' n (by omega)
          -- the escape is followed by the same byte, of the body or the quote itself
          have first : (body ++ quote :: rest').head? = (body ++ quote :: rest).head? := by
            cases body <;> rfl
          have slash : quote ≠ Ascii.backslash := by
            obtain rfl | rfl := either <;> decide
          have escape' := escapeRead.nearby _ first
          rw [List.cons_append, List.cons_append, List.append_assoc,
            readQuotedWithin_escape slash escape', more]
          rfl

theorem readQuoted_body {quote : UInt8}
    (either : quote = Ascii.doubleQuote ∨ quote = Ascii.singleQuote) {s bytes rest : Bytes}
    (read : readQuoted quote s = .ok (bytes, rest)) :
    ∃ body, s = body ++ quote :: rest ∧ QuotedBody quote body ∧
      ∀ rest', readQuoted quote (body ++ quote :: rest') = .ok (bytes, rest') := by
  obtain ⟨body, split, isBody, again⟩ := readQuotedWithin_body either _ read
  refine ⟨body, split, isBody, fun rest' => again rest' _ ?_⟩
  rw [List.length_append]
  omega

end Literal

end LuaAsset
