import LuaAsset.Proofs.Literal.Balance
import LuaAsset.Proofs.Literal.Spans

/-! # Snippets are blocks

`quotingAt` and `nesting` define open and matching braces from the start of the text.  The pass
keeps the braces that are open in this sense (`Counted`), and a search started at a brace finds its
matching brace (`closingFrom_counted`).  So every snippet is a block with an anchor directly inside
it (`snippet_block`). -/

set_option autoImplicit false

namespace LuaAsset

namespace Snippet

/-! ## Places in a text -/

/-- The quoting state after the first bytes of a text. -/
def quotingAt (s : Bytes) (i : Nat) : Quoting := (s.take i).foldl Quoting.next .outside

def Stands (c : UInt8) (s : Bytes) (i : Nat) : Prop := s[i]? = some c ∧ quotingAt s i = .outside

instance (c : UInt8) (s : Bytes) (i : Nat) : Decidable (Stands c s i) :=
  inferInstanceAs (Decidable (_ ∧ _))

def count (c : UInt8) (s : Bytes) (i : Nat) : Nat :=
  (List.range i).countP fun j => decide (Stands c s j)

/-- The number of opening braces less that of closing braces before a place. -/
def nesting (s : Bytes) (i : Nat) : Int :=
  count Ascii.openBrace s i - count Ascii.closeBrace s i

structure Open (s : Bytes) (b i : Nat) : Prop where
  opens : Stands Ascii.openBrace s b
  before : b < i
  above : ∀ j, b < j → j ≤ i → nesting s b < nesting s j

def Innermost (s : Bytes) (b i : Nat) : Prop := Open s b i ∧ ∀ b', Open s b' i → b' ≤ b

/-- A brace and its matching brace: the first place after which the nesting is back to its value
before the opening brace. -/
structure Block (s : Bytes) (start stop : Nat) : Prop where
  opens : Stands Ascii.openBrace s start
  closes : Stands Ascii.closeBrace s (stop - 1)
  before : start < stop
  level : nesting s stop = nesting s start
  above : ∀ j, start < j → j < stop → nesting s start < nesting s j

variable {s : Bytes} {i : Nat} {c : UInt8}

theorem quotingAt_succ (here : s[i]? = some c) :
    quotingAt s (i + 1) = (quotingAt s i).next c := by
  simp [quotingAt, List.take_add_one, here]

theorem count_succ (c : UInt8) (s : Bytes) (i : Nat) :
    count c s (i + 1) = count c s i + if Stands c s i then 1 else 0 := by
  simp [count, List.range_succ, List.countP_append]

theorem Stands.unique {d : UInt8} (first : Stands c s i) (second : Stands d s i) : c = d :=
  Option.some.inj (first.1.symm.trans second.1)

theorem nesting_opened (opens : Stands Ascii.openBrace s i) :
    nesting s (i + 1) = nesting s i + 1 := by
  have other : ¬Stands Ascii.closeBrace s i := fun closes =>
    absurd (opens.unique closes) (by decide)
  simp only [nesting, count_succ, opens, other, if_true, if_false]
  omega

theorem nesting_closed (closes : Stands Ascii.closeBrace s i) :
    nesting s (i + 1) = nesting s i - 1 := by
  have other : ¬Stands Ascii.openBrace s i := fun opens =>
    absurd (opens.unique closes) (by decide)
  simp only [nesting, count_succ, closes, other, if_true, if_false]
  omega

theorem nesting_kept (noOpening : ¬Stands Ascii.openBrace s i)
    (noClosing : ¬Stands Ascii.closeBrace s i) : nesting s (i + 1) = nesting s i := by
  simp [nesting, count_succ, noOpening, noClosing]

theorem Open.further {b : Nat} (still : Open s b i) (above : nesting s b < nesting s (i + 1)) :
    Open s b (i + 1) where
  opens := still.opens
  before := Nat.lt_succ_of_lt still.before
  above j behind upTo := by
    rcases Nat.lt_or_eq_of_le upTo with inside | rfl
    · exact still.above j behind (Nat.le_of_lt_succ inside)
    · exact above

theorem open_here (opens : Stands Ascii.openBrace s i) : Open s i (i + 1) where
  opens := opens
  before := Nat.lt_succ_self i
  above j behind upTo := by
    have here : j = i + 1 := by omega
    rw [here, nesting_opened opens]
    omega

theorem Open.innermost {b : Nat} (here : Open s b i) (level : nesting s i = nesting s b + 1) :
    Innermost s b i := by
  refine ⟨here, fun b' other => Nat.le_of_not_lt fun inside => ?_⟩
  have outer := here.above b' inside (Nat.le_of_lt other.before)
  have inner := other.above i other.before (Nat.le_refl i)
  omega

theorem nesting_cases (here : s[i]? = some c) :
    (c = Ascii.openBrace ∧ Stands Ascii.openBrace s i ∧ nesting s (i + 1) = nesting s i + 1) ∨
    (c = Ascii.closeBrace ∧ Stands Ascii.closeBrace s i ∧ nesting s (i + 1) = nesting s i - 1) ∨
    ((quotingAt s i = .outside → c ≠ Ascii.openBrace ∧ c ≠ Ascii.closeBrace) ∧
      nesting s (i + 1) = nesting s i) := by
  have byte : ∀ {d : UInt8}, Stands d s i → c = d := fun stands =>
    Option.some.inj (here.symm.trans stands.1)
  by_cases opens : Stands Ascii.openBrace s i
  · exact .inl ⟨byte opens, opens, nesting_opened opens⟩
  · by_cases closes : Stands Ascii.closeBrace s i
    · exact .inr (.inl ⟨byte closes, closes, nesting_closed closes⟩)
    · refine .inr (.inr ⟨fun outside => ⟨?_, ?_⟩, nesting_kept opens closes⟩)
      · rintro rfl
        exact opens ⟨here, outside⟩
      · rintro rfl
        exact closes ⟨here, outside⟩

/-! ## The pass over a text -/

structure Counted (s : Bytes) (p : Progress) (rest : Bytes) : Prop extends Tracked s p rest where
  quoting : p.quoting = quotingAt s p.position
  passed : p.passed = (s.take p.position).reverse
  assigned : ∀ b ∈ p.braces, b.assigned = isAssignment (s.take b.start).reverse
  opened : ∀ b ∈ p.braces, Open s b.start p.position
  level : ∀ above b outer, p.braces = above ++ b :: outer →
    nesting s p.position = nesting s b.start + above.length + 1

theorem counted_start (s : Bytes) : Counted s .start s where
  toTracked := tracked_start s
  quoting := rfl
  passed := rfl
  assigned := by simp [Progress.start]
  opened := by simp [Progress.start]
  level := by simp [Progress.start]

section Step

variable {p : Progress} {rest : Bytes}

theorem Counted.here (counted : Counted s p (c :: rest)) : s[p.position]? = some c :=
  (byte_at counted.left).1

theorem Counted.further (counted : Counted s p (c :: rest))
    (assigned : ∀ b ∈ (p.step c rest).braces,
      b.assigned = isAssignment (s.take b.start).reverse)
    (opened : ∀ b ∈ (p.step c rest).braces, Open s b.start (p.position + 1))
    (level : ∀ above b outer, (p.step c rest).braces = above ++ b :: outer →
      nesting s (p.position + 1) = nesting s b.start + above.length + 1) :
    Counted s (p.step c rest) rest where
  toTracked := counted.toTracked.step
  quoting := by
    have next := quotingAt_succ counted.here
    rw [← counted.quoting] at next
    exact next.symm
  passed := by
    have longer : s.take (p.position + 1) = s.take p.position ++ [c] := by
      rw [List.take_add_one, counted.here]
      rfl
    change c :: p.passed = (s.take (p.position + 1)).reverse
    rw [longer, List.reverse_append, counted.passed]
    rfl
  assigned := assigned
  opened := opened
  level := level

theorem Counted.step_opened (counted : Counted s p (c :: rest))
    (opens : Stands Ascii.openBrace s p.position)
    (braces : (p.step c rest).braces =
      ⟨p.position, isAssignment p.passed, c :: rest⟩ :: p.braces) :
    Counted s (p.step c rest) rest := by
  have nested := nesting_opened opens
  apply counted.further <;> rw [braces]
  · refine List.forall_mem_cons.mpr ⟨?_, counted.assigned⟩
    rw [counted.passed]
  · refine List.forall_mem_cons.mpr ⟨open_here opens, fun b member => ?_⟩
    have still := counted.opened b member
    have above := still.above p.position still.before (Nat.le_refl _)
    exact still.further (by omega)
  · intro above b outer split
    cases above with
    | nil =>
        obtain ⟨rfl, rfl⟩ := List.cons.inj split
        simpa using nested
    | cons new above =>
        have old := counted.level above b outer (List.cons.inj split).2
        rw [nested, old, List.length_cons]
        omega

theorem Counted.step_closed (counted : Counted s p (c :: rest))
    (closes : Stands Ascii.closeBrace s p.position)
    (braces : (p.step c rest).braces = p.braces.drop 1) : Counted s (p.step c rest) rest := by
  have nested := nesting_closed closes
  -- a brace that stays has the one that is closed above it
  have level : ∀ above b outer, p.braces.drop 1 = above ++ b :: outer →
      nesting s (p.position + 1) = nesting s b.start + above.length + 1 := by
    intro above b outer split
    cases whole : p.braces with
    | nil => simp [whole] at split
    | cons closed others =>
        rw [whole, List.drop_one, List.tail_cons] at split
        have full : p.braces = (closed :: above) ++ b :: outer := by rw [whole, split]; rfl
        have old := counted.level _ b outer full
        rw [nested, old, List.length_cons]
        omega
  apply counted.further <;> rw [braces]
  · exact fun b member => counted.assigned b (List.mem_of_mem_drop member)
  · intro b member
    obtain ⟨above, outer, split⟩ := List.append_of_mem member
    have lower := level above b outer split
    exact (counted.opened b (List.mem_of_mem_drop member)).further (by omega)
  · exact level

theorem Counted.step_kept (counted : Counted s p (c :: rest))
    (nested : nesting s (p.position + 1) = nesting s p.position)
    (braces : (p.step c rest).braces = p.braces) : Counted s (p.step c rest) rest := by
  apply counted.further <;> rw [braces]
  · exact counted.assigned
  · intro b member
    have still := counted.opened b member
    have above := still.above p.position still.before (Nat.le_refl _)
    exact still.further (by omega)
  · intro above b outer split
    exact nested.trans (counted.level above b outer split)

theorem Counted.step (counted : Counted s p (c :: rest)) : Counted s (p.step c rest) rest := by
  rcases nesting_cases counted.here with ⟨rfl, opens, _⟩ | ⟨rfl, closes, _⟩ | ⟨other, nested⟩
  · have outside := counted.quoting.trans opens.2
    exact counted.step_opened opens (by rw [step_openBrace outside])
  · have outside := counted.quoting.trans closes.2
    exact counted.step_closed closes (by rw [step_closeBrace outside])
  · apply counted.step_kept nested
    by_cases outside : p.quoting = .outside
    · obtain ⟨opening, closing⟩ := other (counted.quoting.symm.trans outside)
      simp [Progress.step, opening, closing]
    · rw [step_quoted outside]
      rfl

end Step

/-! ## The search for the closing brace -/

theorem closingFrom_further {depth : Nat} (here : s[i]? = some c) (positive : 0 < depth)
    (goesOn : ¬(quotingAt s i = .outside ∧ c = Ascii.closeBrace ∧ depth = 1)) (rest : Bytes) :
    ∃ inner : Nat, 0 < inner ∧ nesting s (i + 1) - inner = nesting s i - depth ∧
      closingFrom (quotingAt s i) depth (c :: rest) =
        (closingFrom (quotingAt s (i + 1)) inner rest).map (· + 1) := by
  rw [quotingAt_succ here]
  rcases nesting_cases here with ⟨rfl, opens, nested⟩ | ⟨rfl, closes, nested⟩ | ⟨other, nested⟩
  · refine ⟨depth + 1, Nat.succ_pos depth, by omega, ?_⟩
    rw [opens.2, closingFrom_openBrace]
    rfl
  · have deeper : depth ≠ 1 := fun last => goesOn ⟨closes.2, rfl, last⟩
    obtain ⟨inner, rfl⟩ : ∃ inner, depth = inner + 2 := ⟨depth - 2, by omega⟩
    refine ⟨inner + 1, Nat.succ_pos inner, by omega, ?_⟩
    rw [closes.2, closingFrom_closeBrace]
    rfl
  · refine ⟨depth, positive, by rw [nested], ?_⟩
    by_cases outside : quotingAt s i = .outside
    · obtain ⟨opening, closing⟩ := other outside
      simp [closingFrom, opening, closing]
    · exact closingFrom_quoted outside depth c rest

/-- The search stops at the first place where the nesting has dropped by its depth. -/
theorem closingFrom_counted (w : Bytes) : ∀ {depth n i : Nat}, w = s.drop i → 0 < depth →
    closingFrom (quotingAt s i) depth w = some n →
    Stands Ascii.closeBrace s (i + n - 1) ∧ nesting s (i + n) = nesting s i - depth ∧
      ∀ j, i ≤ j → j < i + n → nesting s i - depth < nesting s j := by
  induction w with
  | nil =>
      intro depth n i _ _ found
      cases found
  | cons c rest ih =>
      intro depth n i left positive found
      obtain ⟨here, next⟩ := byte_at left
      by_cases ends : quotingAt s i = .outside ∧ c = Ascii.closeBrace ∧ depth = 1
      · rw [closingFrom, if_pos ends] at found
        obtain ⟨outside, rfl, rfl⟩ := ends
        obtain rfl : 1 = n := Option.some.inj found
        have closes : Stands Ascii.closeBrace s i := ⟨here, outside⟩
        have nested := nesting_closed closes
        refine ⟨closes, by omega, fun j from_ upTo => ?_⟩
        have same : j = i := by omega
        rw [same]
        omega
      · obtain ⟨inner, above, same, search⟩ := closingFrom_further here positive ends rest
        rw [search] at found
        obtain ⟨m, further, rfl⟩ := Option.map_eq_some_iff.mp found
        obtain ⟨closes, level, between⟩ := ih next above further
        have place : i + 1 + m = i + (m + 1) := by omega
        rw [place] at closes level between
        refine ⟨closes, by omega, fun j from_ upTo => ?_⟩
        rcases Nat.lt_or_eq_of_le from_ with behind | rfl
        · have bound := between j behind upTo
          omega
        · omega

theorem block_of_length {start n : Nat} (opens : Stands Ascii.openBrace s start)
    (found : blockLength? (s.drop start) = some n) : Block s start (start + n) := by
  have shape : s.drop start = Ascii.openBrace :: s.drop (start + 1) := by
    rw [List.drop_eq_getElem?_toList_append, opens.1]
    rfl
  have nested := nesting_opened opens
  rw [blockLength?, shape, closingFrom_openBrace] at found
  obtain ⟨m, further, rfl⟩ := Option.map_eq_some_iff.mp found
  have outside : quotingAt s (start + 1) = .outside := by
    rw [quotingAt_succ opens.1, opens.2]
    decide
  rw [← outside] at further
  obtain ⟨closes, level, between⟩ :=
    closingFrom_counted (s.drop (start + 1)) rfl Nat.one_pos further
  have place : start + 1 + m = start + (m + 1) := by omega
  rw [place] at closes level between
  refine ⟨opens, closes, by omega, by omega, fun j behind upTo => ?_⟩
  have bound := between j behind upTo
  omega

/-! ## Snippets -/

/-- A brace is taken as assigned iff an equals sign precedes it, or precedes a brace right before
it. -/
theorem isAssignment_reverse_eq_false_iff (w : Bytes) :
    isAssignment w.reverse = false ↔
      ¬[Ascii.equals] <:+ w ∧ ¬[Ascii.equals, Ascii.openBrace] <:+ w := by
  have turned : ∀ r : Bytes, isAssignment r = false ↔
      ¬[Ascii.equals] <+: r ∧ ¬[Ascii.openBrace, Ascii.equals] <+: r := by
    intro r
    match r with
    | [] => simp [isAssignment]
    | [c] => simp [isAssignment, @eq_comm _ c]
    | c :: d :: rest => simp [isAssignment, @eq_comm _ c, @eq_comm _ d]
  rw [turned, ← List.reverse_prefix, ← List.reverse_prefix]
  rfl

theorem anchor_le {stop : Nat} (begins : anchorText <+: s.drop i)
    (closes : Stands Ascii.closeBrace s (stop - 1)) (before : i < stop) :
    i + anchorText.length ≤ stop := by
  obtain ⟨rest, shape⟩ := begins
  have bytes : ∀ k < 3, s[i + k]? = anchorText[k]? := by
    intro k small
    rw [← List.getElem?_drop, ← shape, List.getElem?_append_left (by exact small)]
  refine Nat.le_of_not_lt fun inside => ?_
  change stop < i + 3 at inside
  have apart := bytes (stop - 1 - i) (by omega)
  rw [show i + (stop - 1 - i) = stop - 1 by omega, closes.1] at apart
  have none : ∀ k < 3, anchorText[k]? ≠ some Ascii.closeBrace := by decide
  exact none _ (by omega) apart.symm

/-- Every snippet is a `Block` of its text whose brace is not assigned, and it contains an anchor
whose innermost open table it is. -/
theorem snippet_block {s snippet : Bytes} (member : snippet ∈ snippets s) :
    ∃ start stop, stop ≤ s.length ∧ snippet = (s.take stop).drop start ∧ Block s start stop ∧
      ¬[Ascii.equals] <:+ s.take start ∧ ¬[Ascii.equals, Ascii.openBrace] <:+ s.take start ∧
      ∃ i, anchorText <+: s.drop i ∧ i + anchorText.length ≤ stop ∧ Innermost s start i := by
  obtain ⟨span, reported, rfl⟩ := List.mem_map.mp member
  obtain ⟨a, among, _, b, n, brace, free, length, rfl⟩ :=
    mem_report _ (position_lt_block s) reported
  have inside := position_lt_block s a among b n brace length
  obtain ⟨p, rest, counted, rfl, begins⟩ := exists_point Counted.step s (counted_start s) a among
  have kept := List.mem_of_head? brace
  have text := counted.text b kept
  have still := counted.opened b kept
  obtain ⟨outer, split⟩ := List.head?_eq_some_iff.mp brace
  have level := counted.level [] b outer split
  have bounds := (closingFrom_bounds b.text length).2
  rw [text] at length bounds ⊢
  have block := block_of_length still.opens length
  have unassigned := (isAssignment_reverse_eq_false_iff _).mp
    ((counted.assigned b kept).symm.trans free)
  rw [counted.left] at begins
  refine ⟨b.start, b.start + n, ?_, ?_, block, unassigned.1, unassigned.2, p.position, begins,
    anchor_le begins block.closes inside, still.innermost ?_⟩
  · rw [List.length_drop] at bounds
    have opened : b.start < s.length := (List.getElem?_eq_some_iff.mp still.opens.1).1
    omega
  · rw [List.drop_take, Nat.add_sub_cancel_left]
  · simpa using level

def strayed : Bytes := text "'\x7b\\'' \x7d \x7ba=\x7bid=1\x7d,id=2,s='\x7d'\x7d \x7d"

theorem snippet_block_strayed :
    text "\x7ba=\x7bid=1\x7d,id=2,s='\x7d'\x7d" ∈ snippets strayed ∧
      ∃ start stop, stop ≤ strayed.length ∧
        text "\x7ba=\x7bid=1\x7d,id=2,s='\x7d'\x7d" = (strayed.take stop).drop start ∧
        Block strayed start stop ∧ ¬[Ascii.equals] <:+ strayed.take start ∧
        ¬[Ascii.equals, Ascii.openBrace] <:+ strayed.take start ∧
        ∃ i, anchorText <+: strayed.drop i ∧ i + anchorText.length ≤ stop ∧
          Innermost strayed start i := by
  have member : text "\x7ba=\x7bid=1\x7d,id=2,s='\x7d'\x7d" ∈ snippets strayed := by decide
  exact ⟨member, snippet_block member⟩

end Snippet

end LuaAsset
