import LuaAsset.Literal.Reader
import LuaAsset.Proofs.Payload.Signature

/-! # Gaps

Blanks, line comments and long comments between tokens.  `skipBlanks` drops a gap as a whole
(`skipBlanks_gap`), and its fuel always suffices (`skipBlanksWithin_enough`). -/

set_option autoImplicit false

namespace LuaAsset

namespace Literal

/-! ## Steps in a row -/

theorem bind_ok {α β : Type} {first : Except Flaw α} {next : α → Except Flaw β} {b : β}
    (ok : (first >>= next) = .ok b) : ∃ a, first = .ok a ∧ next a = .ok b := by
  cases first with
  | error flaw => cases ok
  | ok a => exact ⟨a, rfl, ok⟩

theorem map_ok {α β : Type} {first : Except Flaw α} {f : α → β} {b : β}
    (ok : first.map f = .ok b) : ∃ a, first = .ok a ∧ f a = b := by
  cases first with
  | error flaw => cases ok
  | ok a => exact ⟨a, rfl, Except.ok.inj ok⟩

/-! ## Comments -/

theorem dropLineBreak_suffix (s : Bytes) : dropLineBreak s <:+ s := by
  match s with
  | [] => exact List.suffix_refl _
  | [c] =>
      rw [dropLineBreak]
      split
      · exact List.nil_suffix
      · exact List.suffix_refl _
  | c :: d :: s =>
      rw [dropLineBreak]
      have two : s <:+ c :: d :: s := List.suffix_append [c, d] s
      have one : d :: s <:+ c :: d :: s := List.suffix_cons c _
      split
      · split
        · exact two
        · exact one
      · exact List.suffix_refl _

theorem readLongBracket_suffix {level : Nat} {s contents rest : Bytes}
    (read : readLongBracket level s = .ok (contents, rest)) : rest <:+ s := by
  rw [readLongBracket] at read
  split at read
  · rename_i found
    cases read
    have inner := splitAtFirst_eq _ _ _ _ found
    have behind : rest <:+ dropLineBreak (s.drop (level + 2)) := ⟨_, inner.symm⟩
    exact (behind.trans (dropLineBreak_suffix _)).trans (List.drop_suffix _ s)
  · cases read

theorem dropComment_suffix {s rest : Bytes} (dropped : dropComment s = .ok rest) : rest <:+ s := by
  rw [dropComment] at dropped
  split at dropped
  · obtain ⟨found, read, rfl⟩ := map_ok dropped
    exact readLongBracket_suffix read
  · cases dropped
    exact List.dropWhile_suffix _

/-! ## Skipping -/

theorem skipBlanksWithin_agree (bound : Nat) : ∀ {s : Bytes}, s.length ≤ bound → ∀ fuel,
    s.length ≤ fuel → skipBlanksWithin bound s = skipBlanksWithin fuel s := by
  induction bound with
  | zero =>
      intro s short fuel _
      have empty : s = [] := List.length_eq_zero_iff.mp (Nat.le_zero.mp short)
      subst empty
      cases fuel <;> rfl
  | succ bound ih =>
      intro s short fuel enough
      cases s with
      | nil => cases fuel <;> rfl
      | cons c rest =>
          obtain ⟨fuel, rfl⟩ := Nat.exists_eq_add_of_le' (Nat.le_of_add_left_le enough)
          have short : rest.length ≤ bound := Nat.le_of_succ_le_succ short
          have enough : rest.length ≤ fuel := Nat.le_of_succ_le_succ enough
          rw [skipBlanksWithin, skipBlanksWithin]
          split
          · exact ih short fuel enough
          · split
            · cases dropped : dropComment (rest.drop 1) with
              | error flaw => rfl
              | ok after =>
                  have suffix := (dropComment_suffix dropped).trans (List.drop_suffix 1 rest)
                  have shorter := suffix.length_le
                  exact ih (Nat.le_trans shorter short) fuel (Nat.le_trans shorter enough)
            · rfl

theorem skipBlanksWithin_enough {s : Bytes} {fuel : Nat} (enough : s.length ≤ fuel) :
    skipBlanksWithin fuel s = skipBlanks s :=
  (skipBlanksWithin_agree s.length (Nat.le_refl _) fuel enough).symm

theorem skipBlanks_blank {c : UInt8} (blank : Ascii.isBlank c = true) (s : Bytes) :
    skipBlanks (c :: s) = skipBlanks s := by
  rw [skipBlanks, List.length_cons, skipBlanksWithin, if_pos blank]
  rfl

theorem skipBlanks_comment (s : Bytes) :
    skipBlanks (Ascii.minus :: Ascii.minus :: s) = (dropComment s).bind skipBlanks := by
  rw [skipBlanks, List.length_cons, skipBlanksWithin, if_neg (by decide), if_pos ⟨rfl, rfl⟩,
    List.drop_one, List.tail_cons]
  cases dropped : dropComment s with
  | error flaw => rfl
  | ok rest =>
      have shorter := (dropComment_suffix dropped).length_le
      exact skipBlanksWithin_enough (by rw [List.length_cons]; omega)

/-! ## Gaps -/

def openingBracket (level : Nat) : Bytes :=
  Ascii.openBracket :: List.replicate level Ascii.equals ++ [Ascii.openBracket]

theorem length_openingBracket (level : Nat) : (openingBracket level).length = level + 2 := by
  simp [openingBracket]

def longComment (level : Nat) (contents : Bytes) : Bytes :=
  openingBracket level ++ (contents ++ closingBracket level)

inductive Gap : Bytes → Prop
  | nil : Gap []
  | blank {c : UInt8} {w : Bytes} (blank : Ascii.isBlank c = true) (more : Gap w) : Gap (c :: w)
  | line {body w : Bytes} (ends : Ascii.lineFeed ∉ body) (short : longBracketLevel? body = none)
      (more : Gap w) : Gap (Ascii.minus :: Ascii.minus :: (body ++ Ascii.lineFeed :: w))
  | long {level : Nat} (kept : level < 2 ^ 31) {contents w : Bytes}
      (first : ∀ i < contents.length,
        ¬closingBracket level <+: (contents ++ closingBracket level).drop i)
      (more : Gap w) : Gap (Ascii.minus :: Ascii.minus :: (longComment level contents ++ w))

theorem Gap.head {w : Bytes} (gap : Gap w) :
    ∀ c ∈ w.head?, Ascii.isBlank c = true ∨ c = Ascii.minus := by
  cases gap with
  | nil => simp
  | blank blank _ => simp [blank]
  | line | long => simp

theorem longBracketLevel?_line {body : Bytes} (short : longBracketLevel? body = none)
    (rest : Bytes) : longBracketLevel? (body ++ Ascii.lineFeed :: rest) = none := by
  cases body with
  | nil => rfl
  | cons c body =>
      by_cases opens : c = Ascii.openBracket
      · have apart : (Ascii.lineFeed == Ascii.equals) = false := by decide
        have other : Ascii.lineFeed ≠ Ascii.openBracket := by decide
        rw [longBracketLevel?, if_pos opens] at short
        rw [List.cons_append, longBracketLevel?, if_pos opens]
        cases left : body.dropWhile (· == Ascii.equals) with
        | nil =>
            -- the equals signs reach the line break, which ends them
            rw [List.dropWhile_append, left]
            simp [apart, other]
        | cons d more =>
            have further := congrArg List.length
              (List.takeWhile_append_dropWhile (p := (· == Ascii.equals)) (l := body))
            rw [left, List.length_append, List.length_cons] at further
            have signs : (body ++ Ascii.lineFeed :: rest).takeWhile (· == Ascii.equals) =
                body.takeWhile (· == Ascii.equals) := by
              rw [List.takeWhile_append, if_neg (by omega)]
            rw [List.dropWhile_append, signs, left]
            rwa [left] at short
      · rw [List.cons_append, longBracketLevel?, if_neg opens]

theorem dropComment_line {body : Bytes} (ends : Ascii.lineFeed ∉ body)
    (short : longBracketLevel? body = none) (rest : Bytes) :
    dropComment (body ++ Ascii.lineFeed :: rest) = .ok (Ascii.lineFeed :: rest) := by
  have all : ∀ c ∈ body, (c != Ascii.lineFeed) = true := by
    intro c member
    rw [bne_iff_ne]
    rintro rfl
    exact ends member
  rw [dropComment, longBracketLevel?_line short]
  dsimp only
  rw [List.dropWhile_append_of_pos all, List.dropWhile_cons_of_neg (by simp)]

theorem longBracketLevel?_opening (level : Nat) (rest : Bytes) :
    longBracketLevel? (openingBracket level ++ rest) = keptLevel? level := by
  have all : ∀ c ∈ List.replicate level Ascii.equals, (c == Ascii.equals) = true := by
    intro c member
    rw [List.eq_of_mem_replicate member]
    rfl
  have stop : (Ascii.openBracket == Ascii.equals) = false := by decide
  have shape : openingBracket level ++ rest =
      Ascii.openBracket :: (List.replicate level Ascii.equals ++ Ascii.openBracket :: rest) := by
    simp [openingBracket]
  rw [shape, longBracketLevel?, if_pos rfl, List.dropWhile_append_of_pos all,
    List.takeWhile_append_of_pos all]
  simp [stop]

theorem dropLineBreak_append {closing : Bytes} {c : UInt8}
    (solid : c ≠ Ascii.carriageReturn ∧ c ≠ Ascii.lineFeed) (s : Bytes) :
    dropLineBreak (s ++ c :: closing) = dropLineBreak s ++ c :: closing := by
  match s with
  | [] => simp [dropLineBreak, solid]
  | [d] =>
      rw [List.singleton_append, dropLineBreak, dropLineBreak]
      split
      · simp [solid]
      · rfl
  | d :: e :: s =>
      rw [List.cons_append, List.cons_append, dropLineBreak, dropLineBreak]
      split
      · split <;> rfl
      · rfl

/-- Contents in which no closing bracket of the level starts, even one that would end after them. -/
def Unclosed (level : Nat) (contents : Bytes) : Prop :=
  ∀ i < contents.length, ¬closingBracket level <+: (contents ++ closingBracket level).drop i

theorem Unclosed.suffix {level : Nat} {s t : Bytes} (unclosed : Unclosed level t) (suffix : s <:+ t) :
    Unclosed level s := by
  obtain ⟨front, rfl⟩ := suffix
  intro i inside starts
  apply unclosed (front.length + i) (by rw [List.length_append]; omega)
  rwa [List.append_assoc, List.drop_append, Nat.add_sub_cancel_left,
    List.drop_eq_nil_of_le (Nat.le_add_right _ _), List.nil_append]

theorem Unclosed.splitAtFirst {level : Nat} {s : Bytes} (unclosed : Unclosed level s)
    (rest : Bytes) : splitAtFirst (closingBracket level) (s ++ (closingBracket level ++ rest)) =
      some (s, rest) := by
  apply splitAtFirst_of_first (closingBracket level) rest (by simp [closingBracket])
  intro i inside starts
  apply unclosed i inside
  rw [← List.append_assoc, List.drop_append_of_le_length (by rw [List.length_append]; omega)]
    at starts
  apply List.prefix_of_prefix_length_le starts (List.prefix_append _ rest)
  rw [List.length_drop, List.length_append]
  omega

theorem readLongBracket_eq_ok {level : Nat} {s contents rest : Bytes} :
    readLongBracket level (openingBracket level ++ s) = .ok (contents, rest) ↔
      splitAtFirst (closingBracket level) (dropLineBreak s) = some (contents, rest) := by
  have behind : (openingBracket level ++ s).drop (level + 2) = s :=
    List.drop_left' (length_openingBracket level)
  rw [readLongBracket, behind]
  cases splitAtFirst (closingBracket level) (dropLineBreak s) with
  | none => simp [fail]
  | some found => simp [Prod.ext_iff]

theorem dropComment_long {level : Nat} (kept : level < 2 ^ 31) {contents : Bytes}
    (first : ∀ i < contents.length,
      ¬closingBracket level <+: (contents ++ closingBracket level).drop i) (rest : Bytes) :
    dropComment (longComment level contents ++ rest) = .ok rest := by
  have shape : longComment level contents ++ rest =
      openingBracket level ++ (contents ++ (closingBracket level ++ rest)) := by
    simp [longComment]
  have inner : dropLineBreak (contents ++ (closingBracket level ++ rest)) =
      dropLineBreak contents ++ (closingBracket level ++ rest) :=
    dropLineBreak_append (by decide) contents
  have unclosed : Unclosed level (dropLineBreak contents) :=
    Unclosed.suffix first (dropLineBreak_suffix contents)
  have cut := unclosed.splitAtFirst rest
  rw [← inner] at cut
  rw [shape, dropComment, longBracketLevel?_opening, keptLevel?_of_lt kept]
  dsimp only
  rw [readLongBracket_eq_ok.mpr cut]
  rfl

/-- A gap is dropped as a whole by `skipBlanks`. -/
theorem skipBlanks_gap {w : Bytes} (gap : Gap w) (s : Bytes) :
    skipBlanks (w ++ s) = skipBlanks s := by
  induction gap with
  | nil => rfl
  | blank blank _ ih => rw [List.cons_append, skipBlanks_blank blank, ih]
  | @line body w ends short _ ih =>
      have dropped := dropComment_line ends short (w ++ s)
      rw [List.cons_append, List.cons_append, List.append_assoc, List.cons_append,
        skipBlanks_comment, dropped, Except.bind, skipBlanks_blank (by decide), ih]
  | @long level kept contents w first _ ih =>
      have dropped := dropComment_long kept first (w ++ s)
      rw [List.cons_append, List.cons_append, List.append_assoc, skipBlanks_comment, dropped,
        Except.bind, ih]

end Literal

end LuaAsset
