import LuaAsset.Proofs.Literal.Readings
import Mathlib.Algebra.BigOperators.Intervals
import Mathlib.Order.Interval.Finset.Nat

/-! # Strings in long brackets

`longString level s` is read back as `s` iff the level is below `2 ^ 31`, `s` does not start with a
carriage return, and `s` is `Unclosed level`.  Closing brackets of different levels occupy different
bytes (`ClosesAt.apart`), so a string shorter than `2 ^ 61` bytes has such a level
(`exists_kept_level`). -/

set_option autoImplicit false

namespace LuaAsset

namespace Literal

def longString (level : Nat) (s : Bytes) : Bytes :=
  openingBracket level ++ Ascii.lineFeed :: (s ++ closingBracket level)

instance (level : Nat) (s : Bytes) : Decidable (Unclosed level s) :=
  inferInstanceAs (Decidable (∀ i < s.length, ¬_))

-- The end of a string may start a closing bracket that ends in the one after it.
example : ¬Unclosed 1 [Ascii.closeBracket, Ascii.equals] ∧
    Unclosed 2 [Ascii.closeBracket, Ascii.equals] := by decide

/-! ## A level for every string -/

structure ClosesAt (s : Bytes) (level place : Nat) : Prop where
  bracket : s[place]? = some Ascii.closeBracket
  signs : ∀ i < level, s[place + (i + 1)]? = some Ascii.equals
  stop : s[place + (level + 1)]? ≠ some Ascii.equals

theorem exists_closesAt {s : Bytes} {level : Nat} (closed : ¬Unclosed level s) :
    ∃ place, ClosesAt s level place := by
  obtain ⟨place, inside, tail, same⟩ : ∃ i < s.length,
      closingBracket level <+: (s ++ closingBracket level).drop i := by
    simpa [Unclosed] using closed
  have byte : ∀ i, (s ++ closingBracket level)[place + i]? = (closingBracket level ++ tail)[i]? := by
    intro i
    rw [same, List.getElem?_drop]
  have shape : closingBracket level ++ tail = Ascii.closeBracket ::
      (List.replicate level Ascii.equals ++ Ascii.closeBracket :: tail) := by
    simp [closingBracket]
  have sign : ∀ i < level, (s ++ closingBracket level)[place + (i + 1)]? = some Ascii.equals := by
    intro i small
    rw [byte, shape, List.getElem?_cons_succ,
      List.getElem?_append_left (by rwa [List.length_replicate]), List.getElem?_replicate,
      if_pos small]
  -- else an equals sign would stand where the bracket after the string starts
  have enough : place + level < s.length := by
    by_contra beyond
    obtain ⟨i, count⟩ := Nat.exists_eq_add_of_lt inside
    have first := sign i (by omega)
    rw [show place + (i + 1) = s.length by omega, List.getElem?_append_right (Nat.le_refl _),
      Nat.sub_self] at first
    cases first
  refine ⟨place, ?_, ?_, ?_⟩
  · have first := byte 0
    rwa [Nat.add_zero, List.getElem?_append_left inside, shape, List.getElem?_cons_zero] at first
  · intro i small
    have next := sign i small
    rwa [List.getElem?_append_left (by omega)] at next
  · intro further
    have last := byte (level + 1)
    have within := (List.getElem?_eq_some_iff.mp further).1
    rw [List.getElem?_append_left within, further, shape, List.getElem?_cons_succ,
      List.getElem?_append_right (by rw [List.length_replicate]), List.length_replicate,
      Nat.sub_self] at last
    cases last

section

variable {s : Bytes} {level other place further : Nat}

theorem ClosesAt.within (closes : ClosesAt s level place) : place + level < s.length := by
  cases level with
  | zero => exact (List.getElem?_eq_some_iff.mp closes.bracket).1
  | succ level =>
      exact (List.getElem?_eq_some_iff.mp (closes.signs level (Nat.lt_succ_self level))).1

theorem ClosesAt.apart (closes : ClosesAt s level place) (also : ClosesAt s other further)
    (differ : level ≠ other) : place + level < further ∨ further + other < place := by
  -- a bracket is no equals sign
  have behind : ∀ {level other place further : Nat}, ClosesAt s level place →
      ClosesAt s other further → place < further → place + level < further := by
    intro level other place further closes also before
    by_contra overlap
    obtain ⟨i, count⟩ := Nat.exists_eq_add_of_lt before
    have sign := closes.signs i (by omega)
    rw [show place + (i + 1) = further by omega, also.bracket] at sign
    cases sign
  obtain before | rfl | after := Nat.lt_trichotomy place further
  · exact .inl (behind closes also before)
  · obtain less | more := Nat.lt_or_gt_of_ne differ
    · exact absurd (also.signs level less) closes.stop
    · exact absurd (closes.signs other more) also.stop
  · exact .inr (behind also closes after)

end

theorem sum_levels_le {s : Bytes} {levels : Finset Nat} (closed : ∀ k ∈ levels, ¬Unclosed k s) :
    ∑ k ∈ levels, (k + 1) ≤ s.length := by
  choose! place closes using fun k member => exists_closesAt (closed k member)
  let slot (k : Nat) : Finset Nat := Finset.Ico (place k) (place k + (k + 1))
  have inside : levels.biUnion slot ⊆ Finset.range s.length := by
    intro i member
    obtain ⟨k, listed, here⟩ := Finset.mem_biUnion.mp member
    have within := (closes k listed).within
    have bounds := Finset.mem_Ico.mp here
    exact Finset.mem_range.mpr (by omega)
  have disjoint : ∀ j ∈ levels, ∀ k ∈ levels, j ≠ k → Disjoint (slot j) (slot k) := by
    intro j first k second differ
    have apart := (closes j first).apart (closes k second) differ
    refine Finset.disjoint_left.mpr fun i here there => ?_
    have bounds := Finset.mem_Ico.mp here
    have others := Finset.mem_Ico.mp there
    omega
  have room := Finset.card_le_card inside
  rw [Finset.card_biUnion disjoint, Finset.card_range] at room
  simpa [slot] using room

theorem exists_unclosed {s : Bytes} {n : Nat} (short : s.length * 2 < n * (n + 1)) :
    ∃ level < n, Unclosed level s := by
  by_contra none
  have closed : ∀ k ∈ Finset.range n, ¬Unclosed k s :=
    fun k below unclosed => none ⟨k, Finset.mem_range.mp below, unclosed⟩
  have room := sum_levels_le closed
  have total := Finset.sum_range_id_mul_two (n + 1)
  rw [Finset.sum_range_succ', Nat.add_zero, Nat.add_sub_cancel, Nat.mul_comm (n + 1)] at total
  omega

/-! ## The reader -/

theorem readWith_openingBracket (table : ValueReader) (level : Nat) (s : Bytes) :
    readWith table (openingBracket level ++ s) =
      (keptLevel? level).elim (fail .unexpectedBracket (openingBracket level ++ s)) fun kept =>
        (readLongBracket kept (openingBracket level ++ s)).map
          fun read => (.string read.1, read.2) := by
  have opens := longBracketLevel?_opening level s
  obtain ⟨more, shape⟩ : ∃ more, openingBracket level ++ s = Ascii.openBracket :: more :=
    ⟨_, List.cons_append⟩
  rw [← opens, shape, readWith, skipBlanks_of_ne (by decide) (by decide)]
  dsimp only
  rw [if_neg (by decide), if_neg (by decide), if_pos rfl]
  cases longBracketLevel? (Ascii.openBracket :: more) <;> rfl

theorem dropLineBreak_lineFeed {s : Bytes} (apart : s.head? ≠ some Ascii.carriageReturn) :
    dropLineBreak (Ascii.lineFeed :: s) = s := by
  cases s with
  | nil => rfl
  | cons c s =>
      have other : c ≠ Ascii.carriageReturn := fun same => apart (congrArg some same)
      rw [dropLineBreak, if_pos (.inr rfl), if_neg]
      rintro ⟨same | same, differs⟩
      · exact other same
      · exact differs same

theorem readLongBracket_longString {level : Nat} {s rest : Bytes} :
    readLongBracket level (longString level s) = .ok (s, rest) ↔
      s.head? ≠ some Ascii.carriageReturn ∧ Unclosed level s ∧ rest = [] := by
  rw [longString, readLongBracket_eq_ok]
  by_cases second : s.head? = some Ascii.carriageReturn
  · -- the carriage return belongs to the line break, so what is read is shorter
    obtain ⟨t, rfl⟩ := List.head?_eq_some_iff.mp second
    have dropped : dropLineBreak (Ascii.lineFeed ::
        (Ascii.carriageReturn :: t ++ closingBracket level)) = t ++ closingBracket level := rfl
    rw [dropped]
    constructor
    · intro cut
      have lengths := congrArg List.length (splitAtFirst_eq _ _ _ _ cut)
      simp only [List.length_append, List.length_cons] at lengths
      omega
    · rintro ⟨apart, _⟩
      exact absurd second apart
  · have apart : (s ++ closingBracket level).head? ≠ some Ascii.carriageReturn := by
      cases s with
      | nil =>
          have other : Ascii.closeBracket ≠ Ascii.carriageReturn := by decide
          simpa [closingBracket] using other
      | cons c s => exact second
    rw [dropLineBreak_lineFeed apart]
    constructor
    · intro cut
      have whole := splitAtFirst_eq _ _ _ _ cut
      have nothing : rest = [] := by
        have lengths := congrArg List.length whole
        simp only [List.length_append] at lengths
        exact List.length_eq_zero_iff.mp (by omega)
      exact ⟨second, not_prefix_of_splitAtFirst _ cut, nothing⟩
    · rintro ⟨_, unclosed, rfl⟩
      have cut := unclosed.splitAtFirst []
      rwa [List.append_nil] at cut

/-! ## Levels that are not kept -/

/-- A string `s` that is a prefix of `w ++ s` repeats `w`. -/
theorem not_mem_of_prefix_append {c : UInt8} {w s : Bytes} (starts : s <+: w ++ s) (solid : w ≠ [])
    (absent : c ∉ w) : c ∉ s := by
  have period : 0 < w.length := List.length_pos_iff.mpr solid
  have nowhere : ∀ i : Nat, s[i]? ≠ some c := by
    intro i
    induction i using Nat.strongRecOn with
    | _ i ih =>
        intro here
        obtain ⟨more, whole⟩ := starts
        have place := (List.getElem?_eq_some_iff.mp here).1
        have same : (w ++ s)[i]? = some c := by
          rw [← whole, List.getElem?_append_left place, here]
        by_cases inside : i < w.length
        · rw [List.getElem?_append_left inside] at same
          exact absent (List.mem_of_getElem? same)
        · rw [List.getElem?_append_right (by omega)] at same
          exact ih (i - w.length) (by omega) same
  intro member
  obtain ⟨i, here⟩ := List.mem_iff_getElem?.mp member
  exact nowhere i here

theorem append_cons_ne {c : UInt8} {w s x y : Bytes} (solid : w ≠ []) (absent : c ∉ w) :
    s ++ c :: x ≠ w ++ (s ++ y) := by
  intro whole
  rw [← List.append_assoc] at whole
  have starts : s <+: w ++ s :=
    List.prefix_of_prefix_length_le ⟨_, whole⟩ (List.prefix_append _ _)
      (by rw [List.length_append]; omega)
  have longer : s.length < (w ++ s).length := by
    have period := List.length_pos_iff.mpr solid
    rw [List.length_append]
    omega
  have closes : (w ++ s)[s.length]? = some c := by
    have here := congrArg (·[s.length]?) whole
    rwa [List.getElem?_append_left longer, List.getElem?_append_right (Nat.le_refl _),
      Nat.sub_self, List.getElem?_cons_zero, eq_comm] at here
  obtain inW | inS := List.mem_append.mp (List.mem_of_getElem? closes)
  · exact absent inW
  · exact not_mem_of_prefix_append starts solid absent inS

def surplus (level kept : Nat) : Bytes :=
  List.replicate (level - (kept + 1)) Ascii.equals ++ [Ascii.openBracket, Ascii.lineFeed]

theorem drop_longString {level kept : Nat} (lower : kept < level) (s : Bytes) :
    (longString level s).drop (kept + 2) = surplus level kept ++ (s ++ closingBracket level) := by
  have signs : List.replicate level Ascii.equals = List.replicate (kept + 1) Ascii.equals ++
      List.replicate (level - (kept + 1)) Ascii.equals := by
    rw [List.replicate_append_replicate, Nat.add_sub_of_le lower]
  have front : longString level s = Ascii.openBracket :: List.replicate (kept + 1) Ascii.equals ++
      (surplus level kept ++ (s ++ closingBracket level)) := by
    simp only [longString, openingBracket, signs, surplus, List.append_assoc, List.cons_append,
      List.nil_append]
  rw [front, List.drop_left' (by simp)]

theorem dropLineBreak_surplus (level kept : Nat) (s : Bytes) :
    dropLineBreak (surplus level kept ++ s) = surplus level kept ++ s := by
  have signs : Ascii.equals ≠ Ascii.carriageReturn ∧ Ascii.equals ≠ Ascii.lineFeed := by decide
  have opens : Ascii.openBracket ≠ Ascii.carriageReturn ∧ Ascii.openBracket ≠ Ascii.lineFeed := by
    decide
  cases count : level - (kept + 1) with
  | zero => simp [surplus, count, dropLineBreak, opens]
  | succ n => simp [surplus, count, List.replicate_succ, dropLineBreak, signs]

theorem closeBracket_notMem_surplus (level kept : Nat) :
    Ascii.closeBracket ∉ surplus level kept := by
  have signs : Ascii.closeBracket ≠ Ascii.equals := by decide
  have opens : Ascii.closeBracket ≠ Ascii.openBracket := by decide
  have breaks : Ascii.closeBracket ≠ Ascii.lineFeed := by decide
  simp [surplus, signs, opens, breaks]

/-- No lower level reads the string: its contents would start with the surplus equals signs. -/
theorem readLongBracket_lower {level kept : Nat} {s rest : Bytes} (lower : kept < level) :
    readLongBracket kept (longString level s) ≠ .ok (s, rest) := by
  intro read
  rw [readLongBracket, drop_longString lower, dropLineBreak_surplus] at read
  split at read
  · rename_i found
    cases read
    have whole := splitAtFirst_eq _ _ _ _ found
    rw [List.append_assoc] at whole
    exact append_cons_ne (by simp [surplus]) (closeBracket_notMem_surplus level kept) whole.symm
  · cases read

theorem readWith_longString (table : ValueReader) {level : Nat} {s rest : Bytes} :
    readWith table (longString level s) = .ok (.string s, rest) ↔
      level < 2 ^ 31 ∧ s.head? ≠ some Ascii.carriageReturn ∧ Unclosed level s ∧ rest = [] := by
  rw [longString, readWith_openingBracket, ← longString]
  constructor
  · intro read
    cases keeps : keptLevel? level with
    | none =>
        rw [keeps] at read
        cases read
    | some kept =>
        rw [keeps] at read
        obtain ⟨found, bracket, same⟩ := map_ok read
        cases same
        obtain ⟨small, bound⟩ := keptLevel?_le keeps
        obtain lower | rfl := Nat.lt_or_eq_of_le bound
        · exact absurd bracket (readLongBracket_lower lower)
        · exact ⟨small, readLongBracket_longString.mp bracket⟩
  · rintro ⟨small, read⟩
    rw [keptLevel?_of_lt small, Option.elim_some, readLongBracket_longString.mpr read]
    rfl

theorem exists_kept_level (s : Bytes) :
    ∃ level, Unclosed level s ∧ (s.length < 2 ^ 61 → level < 2 ^ 31) := by
  by_cases short : s.length < 2 ^ 61
  · obtain ⟨level, small, unclosed⟩ :=
      exists_unclosed (s := s) (show s.length * 2 < 2 ^ 31 * (2 ^ 31 + 1) by omega)
    exact ⟨level, unclosed, fun _ => small⟩
  · have many : s.length * 2 < (s.length + 1) * (s.length + 1 + 1) :=
      Nat.lt_of_lt_of_le (by omega : _ < (s.length + 1) * 2) (Nat.mul_le_mul_left _ (by omega))
    obtain ⟨level, _, unclosed⟩ := exists_unclosed many
    exact ⟨level, unclosed, fun brief => absurd brief short⟩

/-- A string after a line break between long brackets is read verbatim iff the level is below
`2 ^ 31`, the string does not start with a carriage return, and no closing bracket of the level
starts in it.  Every string has such a level, and one below `2 ^ 31` if it is shorter than `2 ^ 61`
bytes. -/
theorem decodeLiteral_longString (s : Bytes) :
    (∀ level, decodeLiteral (longString level s) = .ok (.string s) ↔
      level < 2 ^ 31 ∧ s.head? ≠ some Ascii.carriageReturn ∧ Unclosed level s) ∧
    ∃ level, Unclosed level s ∧ (s.length < 2 ^ 61 → level < 2 ^ 31) := by
  refine ⟨fun level => ?_, exists_kept_level s⟩
  obtain ⟨table, value⟩ : ∃ table, readValue nestingLimit (longString level s) =
      readWith table (longString level s) := ⟨_, rfl⟩
  rw [decodeLiteral_eq_ok, readDocument_eq_ok, value]
  constructor
  · rintro ⟨rest, read, _⟩
    obtain ⟨small, apart, unclosed, _⟩ := (readWith_longString table).mp read
    exact ⟨small, apart, unclosed⟩
  · rintro ⟨small, apart, unclosed⟩
    exact ⟨[], (readWith_longString table).mpr ⟨small, apart, unclosed, rfl⟩, rfl⟩

end Literal

end LuaAsset
