import LuaAsset.Proofs.Literal.Cursor.Steps
import LuaAsset.Records

/-! # The cursor stays within the text

Each cursor reader simulates the reader of the remaining text, which terminates and has no offset;
so the cursor terminates and never leaves the text (`decode_in_bounds`). -/

set_option autoImplicit false

namespace LuaAsset

namespace Literal

namespace Cursor

section

variable {α β : Type} {t s : Bytes}

/-! ## Tokens -/

theorem Runs.map {m : Reader α} {read : Except Flaw (α × Bytes)} (runs : Runs t m s read)
    (f : α → β) :
    Runs t (m >>= fun a => pure (f a)) s (read.map fun found => (f found.1, found.2)) := by
  cases read with
  | error flaw => exact runs.stop _
  | ok found => exact runs.then fun _ => runs_pure _

theorem runs_readIdentifier (s : Bytes) :
    Runs t readIdentifier s (.ok (s.takeWhile isNameByte, s.dropWhile isNameByte)) := by
  refine .of fun within => ?_
  unfold readIdentifier
  refine runs_get.then fun _ => (runs_skipWhile isNameByte s).then fun _ => runs_get.then fun _ => ?_
  have split := List.takeWhile_append_dropWhile (p := isNameByte) (l := s)
  have whole := runs_part (t := t) (s := s.dropWhile isNameByte) (split ▸ within)
  rwa [split] at whole

theorem runs_readSigns {fuel : Nat} {s : Bytes} (negative : Bool) (short : s.length ≤ fuel) :
    Runs t (readSigns negative) s (readSignsWithin fuel negative s) := by
  induction fuel generalizing s negative with
    (rw [readSigns, loop_eq]; simp only [bind_assoc, ite_bind, pure_bind, resume])
  | zero =>
      rw [List.length_eq_zero_iff.mp (Nat.le_zero.mp short)]
      exact .front (runs_pure negative)
  | succ fuel ih =>
      cases s with
      | nil => exact .front (runs_pure negative)
      | cons c s =>
          refine .here ?_
          rw [readSignsWithin]
          refine .ite (fun _ => .step ?_) fun _ => runs_pure negative
          refine .skip (fun flaw skipped => by rw [skipped]) fun after suffix skipped => ?_
          rw [skipped]
          exact ih _ (Nat.le_trans suffix.length_le (Nat.le_of_succ_le_succ short))

theorem runs_skipNumeral (isDigit isMark : UInt8 → Bool) (s : Bytes) :
    Runs t (skipNumeral isDigit isMark) s (.ok ((), (spanNumeral isDigit isMark s).2)) := by
  have again : skipNumeral isDigit isMark = _ := loop_eq _ _
  simp only [bind_assoc, ite_bind, pure_bind, resume] at again
  have ended : Runs t (skipNumeral isDigit isMark) [] (.ok ((), [])) := by
    rw [again]
    exact .ended (runs_pure ())
  fun_induction spanNumeral isDigit isMark s with
  | case1 => exact ended
  | case2 c taken =>
      rw [again]
      refine .started (.here ?_)
      by_cases plain : (isDigit c || c == Ascii.dot) = true
      · rw [if_pos plain]
        exact .step ended
      · rw [if_neg plain, if_pos ((Bool.or_eq_true_iff.mp taken).resolve_left plain)]
        exact .step (.front ended)
  | case3 c refused =>
      rw [again]
      refine .started (.here ?_)
      rw [Bool.or_eq_true, not_or] at refused
      rw [if_neg refused.1, if_neg refused.2]
      exact runs_pure ()
  | case4 c d rest taken token after split ih =>
      rw [again]
      refine .started (.here ?_)
      rw [if_pos taken]
      rw [split] at ih
      exact .step ih
  | case5 c d rest other marked sign token after split ih =>
      rw [again]
      refine .started (.here ?_)
      rw [if_neg other, if_pos marked]
      rw [split] at ih
      refine .step (.here ?_)
      rw [if_pos sign]
      exact .step ih
  | case6 c d rest other marked unsigned token after split ih =>
      rw [again]
      refine .started (.here ?_)
      rw [if_neg other, if_pos marked]
      rw [split] at ih
      refine .step (.here ?_)
      rw [if_neg unsigned]
      exact ih
  | case7 c d rest other unmarked =>
      rw [again]
      refine .started (.here ?_)
      rw [if_neg other, if_neg unmarked]
      exact runs_pure ()

theorem spanNumeral_append (isDigit isMark : UInt8 → Bool) (s : Bytes) :
    (spanNumeral isDigit isMark s).1 ++ (spanNumeral isDigit isMark s).2 = s := by
  fun_induction spanNumeral isDigit isMark s with
  | case1 | case2 | case3 | case7 => rfl
  | case4 c d rest taken token after split ih | case6 c d rest _ _ _ token after split ih =>
      rw [split] at ih
      rw [List.cons_append, ih]
  | case5 c d rest _ _ _ token after split ih =>
      rw [split] at ih
      rw [List.cons_append, List.cons_append, ih]

def numeral (s : Bytes) : Bytes × Bytes :=
  if isHexadecimal s then
    (s.take 2 ++ (spanNumeral Ascii.isHexDigit isHexadecimalMark (s.drop 2)).1,
      (spanNumeral Ascii.isHexDigit isHexadecimalMark (s.drop 2)).2)
  else spanNumeral Ascii.isDigit isDecimalMark s

theorem numeral_append (s : Bytes) : (numeral s).1 ++ (numeral s).2 = s := by
  rw [numeral]
  split
  · rw [List.append_assoc, spanNumeral_append, List.take_append_drop]
  · exact spanNumeral_append _ _ s

theorem floatValue_eq (negative : Bool) (x? : Option Binary64) (token rest : Bytes) :
    floatValue negative x? token rest = match signedFloat negative token x? with
      | .ok v => .ok (v, rest)
      | .error fault => .error (fault, rest.length) := by
  cases x? <;> rfl

theorem two_le_of_isHexadecimal (hexadecimal : isHexadecimal s = true) : 2 ≤ s.length := by
  match s, hexadecimal with
  | c :: d :: s, _ => exact Nat.le_add_left 2 s.length

theorem readUnsigned_eq (negative : Bool) (s : Bytes) :
    readUnsigned negative s = match numberValue negative (isHexadecimal s) (numeral s).1 with
      | .ok v => .ok (v, (numeral s).2)
      | .error fault => .error (fault, (numeral s).2.length) := by
  rw [readUnsigned, numeral, numberValue]
  by_cases hexadecimal : isHexadecimal s = true
  · have length : (s.take 2).length = 2 :=
      List.length_take_of_le (two_le_of_isHexadecimal hexadecimal)
    rw [if_pos hexadecimal, if_pos hexadecimal, if_pos hexadecimal]
    generalize spanNumeral Ascii.isHexDigit isHexadecimalMark (s.drop 2) = parts
    dsimp only
    rw [List.drop_left' length, floatValue_eq]
    split
    · rfl
    · split <;> rfl
  · rw [if_neg hexadecimal, if_neg hexadecimal, if_neg hexadecimal]
    generalize spanNumeral Ascii.isDigit isDecimalMark s = parts
    dsimp only
    rw [floatValue_eq]
    split
    · rfl
    · split
      · cases decimalInteger? negative (decimalValue parts.1) <;> rfl
      · rfl

theorem runs_skipToken (s : Bytes) :
    Runs t (skipToken (isHexadecimal s)) s (.ok ((), (numeral s).2)) := by
  rw [skipToken, numeral]
  by_cases hexadecimal : isHexadecimal s = true
  · rw [if_pos hexadecimal, if_pos hexadecimal]
    exact (runs_advance (two_le_of_isHexadecimal hexadecimal)).then fun _ => runs_skipNumeral _ _ _
  · rw [if_neg hexadecimal, if_neg hexadecimal]
    exact runs_skipNumeral _ _ s

theorem isHexadecimal_eq (s : Bytes) :
    (s[0]?.getD 0 == Ascii.zero && (s[1]?.getD 0 == 0x78 || s[1]?.getD 0 == 0x58)) =
      isHexadecimal s := by
  match s with
  | [] => rfl
  | [c] => exact Bool.and_false _
  | c :: d :: s => rfl

theorem runs_readNumber (s : Bytes) : Runs t readNumber s (Literal.readNumber s) := by
  unfold readNumber
  rw [Literal.readNumber, Literal.readSigns]
  refine (runs_readSigns false (Nat.le_refl s.length)).onward
    (fun flaw failed => by rw [failed]) fun negative s' _ found => .of fun within => ?_
  rw [found]
  refine runs_get.then fun _ => (runs_peek 0).then fun _ => (runs_peek 1).then fun _ => ?_
  rw [isHexadecimal_eq]
  refine (runs_skipToken s').then fun _ => runs_get.then fun _ => ?_
  have whole := runs_part (t := t) (s := (numeral s').2) (numeral_append s' ▸ within)
  rw [numeral_append] at whole
  refine whole.then fun _ => ?_
  dsimp only
  rw [readUnsigned_eq]
  cases numberValue negative (isHexadecimal s') (numeral s').1 with
  | ok v => exact runs_pure v
  | error fault => exact runs_fail fault

/-! ## Strings -/

theorem runs_readCodePoint (s : Bytes) (point : Nat) (any : Bool) :
    Runs t (readCodePoint (point, any)) s (Literal.readCodePoint point any s) := by
  induction s generalizing point any with
    (rw [readCodePoint, loop_eq]; simp only [bind_assoc, ite_bind, pure_bind, resume, fail_bind])
  | nil =>
      refine .front ?_
      rw [if_neg (by decide), if_neg fun closes => absurd closes.2 (by decide)]
      exact runs_fail _
  | cons c s ih =>
      rw [Literal.readCodePoint]
      refine .here (.ite (fun _ => .ite (fun _ => ?_) fun _ => ?_) fun _ =>
        .ite (fun _ => ?_) fun _ => ?_)
      · exact runs_fail _
      · exact .step (ih _ _)
      · exact .step (runs_pure point)
      · exact runs_fail _

theorem runs_readDigits (most : Nat) : ∀ {s : Bytes} (n : Nat), Runs t (readDigits most n) s
    (.ok (((s.take most).takeWhile Ascii.isDigit).foldl (fun n c => n * 10 + (c.toNat - 48)) n,
      s.drop ((s.take most).takeWhile Ascii.isDigit).length)) := by
  induction most with
  | zero =>
      intro s n
      exact runs_pure n
  | succ most ih =>
      intro s n
      rw [readDigits]
      cases s with
      | nil => exact .front (runs_pure n)
      | cons c s =>
          refine .here ?_
          rw [List.take_succ_cons]
          by_cases digit : Ascii.isDigit c = true
          · rw [if_pos digit, List.takeWhile_cons_of_pos digit]
            exact .step (ih _)
          · rw [if_neg digit, List.takeWhile_cons_of_neg digit]
            exact runs_pure n

theorem runs_skipByte {c : UInt8} (nonzero : c ≠ 0) (s : Bytes) : Runs t (skipByte c) s
    (.ok ((), if s.head? = some c then s.drop 1 else s)) := by
  unfold skipByte
  refine .front ?_
  by_cases first : s.head? = some c
  · obtain ⟨s, rfl⟩ := List.head?_eq_some_iff.mp first
    rw [if_pos first, if_pos ((getD_head nonzero _).mpr first)]
    exact runs_advance (s := c :: s) (Nat.le_add_left 1 s.length)
  · rw [if_neg first, if_neg fun same => first ((getD_head nonzero s).mp same)]
    exact runs_pure ()

theorem runs_readHexadecimal (s : Bytes) : Runs t readHexadecimal s
    (match s with
      | high :: low :: after =>
          if Ascii.isHexDigit high && Ascii.isHexDigit low then
            .ok ([UInt8.ofNat (Ascii.hexValue high * 16 + Ascii.hexValue low)], after)
          else Literal.fail .hexDigitExpected s
      | _ => Literal.fail .hexDigitExpected s) := by
  unfold readHexadecimal
  refine (runs_peek 0).then fun _ => (runs_peek 1).then fun _ => ?_
  match s with
  | [] => exact runs_fail _
  | [high] =>
      have refused : ¬(Ascii.isHexDigit high && Ascii.isHexDigit 0) = true := by
        rw [Bool.and_eq_true_iff]
        exact fun both => absurd both.2 (by decide)
      change Runs t (if (Ascii.isHexDigit high && Ascii.isHexDigit 0) = true then _ else _) _ _
      rw [if_neg refused]
      exact runs_fail _
  | high :: low :: after =>
      refine .ite (fun _ => ?_) fun _ => runs_fail _
      exact (runs_advance (s := high :: low :: after) (Nat.le_add_left 2 _)).then fun _ => runs_pure _

theorem runs_readEscape (s : Bytes) : Runs t readEscape s (Literal.readEscape s) := by
  unfold readEscape
  cases s with
  | nil => exact .ended (runs_fail _)
  | cons c s =>
      refine .started (.here (.step ?_))
      rw [Literal.readEscape.eq_def]
      dsimp only
      cases letter : letterEscape? c with
      | some byte => exact runs_pure [byte]
      | none =>
          refine .ite (fun _ => ?_) fun _ => .ite (fun _ => ?_) fun _ => .ite (fun _ => ?_) fun _ =>
            .ite (fun _ => ?_) fun _ => .ite (fun _ => ?_) fun _ => runs_fail _
          · exact (runs_skipByte (by decide) s).then fun _ => runs_pure _
          · exact runs_readHexadecimal s
          · exact (runs_skipWhile _ s).then fun _ => runs_pure _
          · cases s with
            | nil => exact .front (runs_fail _)
            | cons brace digits =>
                refine .here (.ite (fun _ => .step ?_) fun _ => runs_fail _)
                refine (runs_readCodePoint digits 0 false).onward
                  (fun flaw failed => by rw [failed]) fun point rest _ found => ?_
                rw [found]
                exact runs_pure _
          · rw [readDecimalEscape]
            refine (runs_readDigits 2 (decimalValue [c])).then fun _ => ?_
            exact .ite (fun _ => runs_fail _) fun _ => runs_pure _

def behind (bytes : Bytes) (found : Bytes × Bytes) : Bytes × Bytes := (bytes ++ found.1, found.2)

theorem map_behind (bytes more : Bytes) (read : Except Flaw (Bytes × Bytes)) :
    (read.map (behind more)).map (behind bytes) = read.map (behind (bytes ++ more)) := by
  cases read with
  | error flaw => rfl
  | ok found => simp [Except.map, behind]

theorem runs_readString {quote : UInt8} {fuel : Nat} {s : Bytes} (bytes : Bytes)
    (short : s.length < fuel) : Runs t (readString quote bytes) s
      ((readQuotedWithin quote fuel s).map (behind bytes)) := by
  induction fuel generalizing s bytes with
    (rw [readString, loop_eq]; simp only [bind_assoc, ite_bind, pure_bind, resume, fail_bind])
  | zero => exact absurd short (Nat.not_lt_zero _)
  | succ fuel ih =>
      cases s with
      | nil => exact .ended (runs_fail _)
      | cons c s =>
          have fewer : s.length < fuel := Nat.lt_of_succ_lt_succ short
          rw [readQuotedWithin]
          simp only [apply_ite (Except.map (behind bytes))]
          refine .started (.here (.ite (fun _ => .step ?_) fun _ =>
            .ite (fun _ => runs_fail _) fun _ => .ite (fun _ => .step ?_) fun _ => .step ?_))
          · have whole : behind bytes ([], s) = (bytes, s) := by rw [behind, List.append_nil]
            rw [Except.map, whole]
            exact runs_pure bytes
          · refine (runs_readEscape s).onward (fun flaw failed => by rw [failed]; rfl)
              fun escaped after suffix found => ?_
            have more := ih (bytes ++ escaped) (Nat.lt_of_le_of_lt suffix.length_le fewer)
            rw [← map_behind] at more
            rwa [found]
          · have more := ih (bytes ++ [c]) fewer
            rwa [← map_behind] at more

theorem runs_readQuoted (quote : UInt8) (s : Bytes) :
    Runs t (readString quote []) s (readQuoted quote s) := by
  have nothing : behind [] = id := rfl
  have whole : Runs t (readString quote []) s _ :=
    runs_readString [] (Nat.lt_succ_self s.length)
  rwa [nothing, Except.map_id] at whole

/-! ## Values -/

theorem runs_expectAssignment (s : Bytes) : Runs t expectAssignment s
    ((Literal.expectAssignment s).map fun rest => ((), rest)) := by
  unfold expectAssignment
  rw [Literal.expectAssignment]
  refine .skip (fun flaw skipped => by rw [skipped]; rfl) fun after _ skipped => ?_
  rw [skipped]
  dsimp only
  refine .front ?_
  by_cases equals : after.head? = some Ascii.equals
  · obtain ⟨rest, rfl⟩ := List.head?_eq_some_iff.mp equals
    rw [if_pos equals]
    exact runs_advance (s := Ascii.equals :: rest) (Nat.le_add_left 1 _)
  · rw [if_neg equals, if_neg fun same => equals ((getD_head (by decide) after).mp same)]
    exact runs_fail _

theorem drop_takeWhile (p : UInt8 → Bool) (s : Bytes) :
    s.drop (s.takeWhile p).length = s.dropWhile p := by
  have split := List.takeWhile_append_dropWhile (p := p) (l := s)
  have behind := congrArg (List.drop (s.takeWhile p).length) split
  rw [List.drop_left] at behind
  exact behind.symm

theorem single_sign (s : Bytes) (n : Nat) :
    (s[n]?.getD 0 == Ascii.equals && s[n + 1]?.getD 0 != Ascii.equals) =
      match s.drop n with
      | c :: rest => c == Ascii.equals && rest.head? != some Ascii.equals
      | [] => false := by
  have first : s[n]? = (s.drop n)[0]? := by rw [List.getElem?_drop, Nat.add_zero]
  have second : s[n + 1]? = (s.drop n)[1]? := by rw [List.getElem?_drop]
  rw [first, second]
  generalize s.drop n = w
  match w with
  | [] => rfl
  | [c] => rfl
  | c :: d :: rest => rfl

theorem runs_isNamedField (s : Bytes) :
    Runs t isNamedField s (.ok (Literal.isNamedField s, s)) := by
  let name := s.takeWhile isNameByte
  let left := s.dropWhile isNameByte
  let sign := name.length + (left.takeWhile isNarrow).length
  have short : name.length ≤ s.length := (List.takeWhile_prefix isNameByte).length_le
  have behind : s.drop sign = left.dropWhile isNarrow := by
    rw [← List.drop_drop, drop_takeWhile, drop_takeWhile]
  have names : Runs t (reach isNameByte 0) s (.ok (name.length, s)) := by
    have reached := runs_reach (t := t) isNameByte (w := s) rfl (Nat.zero_le _)
    rwa [Nat.zero_add] at reached
  have gaps := runs_reach (t := t) isNarrow (w := left) (drop_takeWhile isNameByte s) short
  unfold isNamedField
  refine names.then fun _ => gaps.then fun _ => (runs_peek sign).then fun _ =>
    (runs_peek (sign + 1)).then fun _ => ?_
  rw [single_sign, behind]
  exact runs_pure _

theorem any_head {p : UInt8 → Bool} (zero : p 0 = false) (s : Bytes) :
    s.head?.any p = p (s.head?.getD 0) := by
  cases s with
  | nil => exact zero.symm
  | cons c s => rfl

theorem runs_readWith {m : Reader Value} {table : ValueReader}
    (tables : ∀ s, Runs t m (Ascii.openBrace :: s) (table (Ascii.openBrace :: s))) (s : Bytes) :
    Runs t (readWith m) s (Literal.readWith table s) := by
  rw [readWith, Literal.readWith]
  refine .skip (fun flaw skipped => by rw [skipped]) fun after _ skipped => ?_
  rw [skipped]
  cases after with
  | nil => exact .ended (runs_fail _)
  | cons c rest =>
      dsimp only
      rw [any_head (p := Ascii.isDigit) (by decide)]
      refine .started (.here (.next ?_))
      refine .ite (fun brace => ?_) fun _ => .ite (fun _ => .step ?_) fun _ =>
        .ite (fun _ => ?_) fun _ => .ite (fun _ => ?_) fun _ => .ite (fun _ => ?_) fun _ => runs_fail _
      · rw [brace]
        exact tables rest
      · exact (runs_readQuoted c rest).map Value.string
      · refine (runs_longBracketLevel (c :: rest)).then fun _ => ?_
        cases opening : longBracketLevel? (c :: rest) with
        | none => exact runs_fail _
        | some level => exact (runs_readLongBracket opening).map Value.string
      · exact runs_readNumber (c :: rest)
      · exact (runs_readIdentifier (c :: rest)).map wordValue

section

variable {m : Reader Value} {value : ValueReader} (values : ∀ s, Runs t m s (value s))

include values

theorem runs_readField (draft : TableDraft) (s : Bytes) :
    Runs t (readField m draft) s (Literal.readField value draft s) := by
  have bracket : Ascii.openBracket ≠ 0 := by decide
  rw [readField, Literal.readField]
  refine .front ((runs_longBracketLevel s).then fun _ => (runs_isNamedField s).then fun _ => ?_)
  rw [any_head (p := isNameStart) (by decide)]
  by_cases key : s.head? = some Ascii.openBracket ∧ longBracketLevel? s = none
  · rw [if_pos key, if_pos ⟨(getD_head bracket s).mpr key.1, key.2⟩]
    obtain ⟨s, rfl⟩ := List.head?_eq_some_iff.mp key.1
    rw [readKeyedField]
    refine .step ((values s).bind fun found s₁ _ _ => ?_)
    dsimp only
    refine .skip (fun flaw skipped => by rw [skipped]; rfl) fun s₂ _ skipped => ?_
    rw [skipped, ok_then]
    refine .front ?_
    by_cases closes : s₂.head? = some Ascii.closeBracket
    · rw [if_neg (not_not.mpr closes),
        if_neg (not_not.mpr ((getD_head (by decide) s₂).mpr closes))]
      obtain ⟨s₃, rfl⟩ := List.head?_eq_some_iff.mp closes
      refine .step (.over (runs_expectAssignment s₃)
        (fun flaw refused => by rw [List.drop_one, List.tail_cons, refused]; rfl)
        fun s₄ _ assigned => ?_)
      rw [List.drop_one, List.tail_cons, assigned, ok_then]
      refine (values s₄).bind fun v s₅ _ _ => ?_
      exact .ite (fun _ => runs_fail _) fun _ => runs_pure _
    · rw [if_pos closes, if_pos fun same => closes ((getD_head (by decide) s₂).mp same)]
      exact runs_fail _
  · rw [if_neg key, if_neg fun both => key ⟨(getD_head bracket s).mp both.1, both.2⟩]
    refine .ite (fun _ => ?_) fun _ => ?_
    · rw [readNamedField]
      refine (runs_readIdentifier s).then fun _ => ?_
      refine .over (runs_expectAssignment _) (fun flaw refused => by rw [refused]; rfl)
        fun s₁ _ assigned => ?_
      rw [assigned, ok_then]
      exact (values s₁).bind fun v s₂ _ _ => runs_pure _
    · rw [readPositionalField]
      exact (values s).bind fun v s₁ _ _ => runs_pure _

theorem runs_readFields {fuel : Nat} {s : Bytes} (draft : TableDraft) (short : s.length < fuel) :
    Runs t (readFields m draft) s (readFieldsWithin value fuel draft s) := by
  induction fuel generalizing s draft with
    (rw [readFields, loop_eq]; simp only [bind_assoc, ite_bind, pure_bind, resume, fail_bind])
  | zero => exact absurd short (Nat.not_lt_zero _)
  | succ fuel ih =>
      rw [readFieldsWithin]
      refine .skip (fun flaw skipped => by rw [skipped]; rfl) fun s₁ first skipped => ?_
      rw [skipped, ok_then]
      cases s₁ with
      | nil => exact .ended (runs_fail _)
      | cons c rest =>
          refine .started (.here (.ite (fun _ => .step (runs_pure _)) fun _ => ?_))
          refine (runs_readField values draft (c :: rest)).bind fun draft' s₂ second _ => ?_
          dsimp only
          refine .skip (fun flaw skipped => by rw [skipped]; rfl) fun s₃ third skipped => ?_
          rw [skipped, ok_then]
          cases s₃ with
          | nil => exact .front (runs_fail _)
          | cons d after =>
              refine .here (.ite (fun _ => .step (ih draft' ?_)) fun _ =>
                .ite (fun _ => .step (runs_pure _)) fun _ => runs_fail _)
              have shorter := ((third.trans second).trans first).length_le
              rw [List.length_cons] at shorter
              omega

end

theorem runs_readValue (levels : Nat) (s : Bytes) :
    Runs t (readValue levels) s (Literal.readValue levels s) := by
  induction levels generalizing s with
  | zero => exact runs_readWith (fun _ => runs_fail _) s
  | succ levels ih =>
      exact runs_readWith (fun _ => .step (runs_readFields ih _ (Nat.lt_succ_self _))) s

/-! ## Whole texts -/

theorem runs_readDocument (t : Bytes) :
    Runs t readDocument t ((Literal.readDocument t).map fun v => (v, [])) := by
  unfold readDocument Literal.readDocument
  refine (runs_readValue nestingLimit t).onward (fun flaw failed => by rw [failed]; rfl)
    fun v rest _ found => ?_
  rw [found, ok_then]
  dsimp only
  refine .skip (fun flaw skipped => by rw [skipped]; rfl) fun left _ skipped => .of fun within => ?_
  rw [skipped, ok_then]
  refine runs_get.then fun _ => runs_read.then fun _ => ?_
  have shorter := within.length_le
  cases left with
  | nil =>
      rw [if_pos (by rw [place]; rfl)]
      exact runs_pure v
  | cons c left =>
      rw [List.length_cons] at shorter
      rw [if_neg (by rw [place, List.length_cons]; omega)]
      exact runs_fail _

theorem decode_eq (t : Bytes) :
    (∃ v, decode t = .some (.ok v) ∧ decodeLiteral t = .ok v) ∨
      ∃ fault offset, offset ≤ t.length ∧ decode t = .some (.error (.flaw fault offset)) ∧
        decodeLiteral t = .error (.literal fault offset) := by
  have start : place t t = 0 := Nat.sub_self _
  have runs := runs_readDocument t (List.suffix_refl t)
  rw [start] at runs
  rw [decode, decodeLiteral]
  cases found : Literal.readDocument t with
  | ok v =>
      rw [found] at runs
      refine .inl ⟨v, ?_, rfl⟩
      rw [runs.2, Part.map_some]
      rfl
  | error flaw =>
      obtain ⟨fault, left⟩ := flaw
      rw [found] at runs
      refine .inr ⟨fault, t.length - left, Nat.sub_le _ _, ?_, rfl⟩
      rw [runs.2, Part.map_some]
      rfl

/-- The cursor reader terminates, with a value or a flaw at an offset within the text, and never
accesses a position outside the text.  A flaw is a format failure that carries the offset, so the
records of every text exist. -/
theorem decode_in_bounds (t : Bytes) :
    ((∃ v, decode t = .some (.ok v) ∧ decodeLiteral t = .ok v) ∨
      ∃ fault offset failure, offset ≤ t.length ∧ decode t = .some (.error (.flaw fault offset)) ∧
        decodeLiteral t = .error failure ∧ failure.kind = .format ∧
        failure.wording =
          text "Lua literal: " ++ fault.wording ++ text " at offset " ++ decimal offset) ∧
      records t = .some (.ok (LuaAsset.records t)) := by
  constructor
  · obtain read | ⟨fault, offset, bound, stopped, failed⟩ := decode_eq t
    · exact .inl read
    · exact .inr ⟨fault, offset, _, bound, stopped, failed, rfl, rfl⟩
  · unfold records LuaAsset.records
    induction snippets t with
    | nil => rfl
    | cons snippet later ih =>
        rw [List.foldr_cons, ih, List.filterMap_cons]
        obtain ⟨v, read, value⟩ | ⟨fault, offset, _, stopped, failed⟩ := decode_eq snippet
        · rw [read, value, Part.bind_some]
          exact Part.map_some _ _
        · rw [stopped, failed, Part.bind_some]
          rfl

end

end Cursor

end Literal

end LuaAsset
