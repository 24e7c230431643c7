import LuaAsset.Host.Path

/-! # Paths from their parts

The file name and the parent of a path that ends in a proper name (`Path.Proper`). -/

set_option autoImplicit false

namespace LuaAsset

namespace Path

structure Proper (name : Bytes) : Prop where
  nonempty : name ≠ []
  slashless : Ascii.slash ∉ name
  zeroless : 0 ∉ name
  notDot : name ≠ dotName
  notDotDot : name ≠ dotDotName

structure Open (directory : Bytes) : Prop where
  nonempty : directory ≠ []
  zeroless : 0 ∉ directory
  unslashed : directory.getLast? ≠ some Ascii.slash

end Path

/-! ## Splitting -/

theorem splitOn_ne_nil (separator : UInt8) (s : Bytes) : splitOn separator s ≠ [] := by
  cases s with
  | nil => exact List.cons_ne_nil _ _
  | cons c rest =>
      rw [splitOn]
      split
      · exact List.cons_ne_nil _ _
      · split
        · exact List.cons_ne_nil _ _
        · exact List.cons_ne_nil _ _

theorem splitOn_append (separator : UInt8) (s t : Bytes) :
    splitOn separator (s ++ separator :: t) = splitOn separator s ++ splitOn separator t := by
  induction s with
  | nil => simp [splitOn]
  | cons c s ih =>
      rw [List.cons_append, splitOn, splitOn, ih]
      split
      · rfl
      · cases parts : splitOn separator s with
        | nil => exact absurd parts (splitOn_ne_nil separator s)
        | cons part rest => rfl

theorem splitOn_of_notMem {separator : UInt8} {s : Bytes} (without : separator ∉ s) :
    splitOn separator s = [s] := by
  induction s with
  | nil => rfl
  | cons c s ih =>
      obtain ⟨other, rest⟩ := not_or.mp (mt List.mem_cons.mpr without)
      rw [splitOn, if_neg (Ne.symm other), ih rest]

theorem getLast?_of_splitOn {separator : UInt8} {s : Bytes}
    (last : (splitOn separator s).getLast? = some []) : s = [] ∨ s.getLast? = some separator := by
  induction s with
  | nil => exact .inl rfl
  | cons c s ih =>
      refine .inr ?_
      cases parts : splitOn separator s with
      | nil => exact absurd parts (splitOn_ne_nil separator s)
      | cons part rest =>
          rw [splitOn, parts] at last
          rw [parts] at ih
          by_cases same : c = separator
          · rw [if_pos same, List.getLast?_cons_cons] at last
            obtain rfl | further := ih last
            · rw [same]
              rfl
            · rw [List.getLast?_cons, further]
              rfl
          · rw [if_neg same] at last
            cases rest with
            | nil => cases last
            | cons next rest =>
                rw [List.getLast?_cons_cons] at last
                obtain rfl | further := ih (by rw [List.getLast?_cons_cons, last])
                · cases parts
                · rw [List.getLast?_cons, further]
                  rfl

theorem mem_of_mem_splitOn {separator c : UInt8} {s piece : Bytes}
    (among : piece ∈ splitOn separator s) (inside : c ∈ piece) : c ∈ s ∧ c ≠ separator := by
  induction s generalizing piece with
  | nil =>
      obtain rfl := List.mem_singleton.mp among
      cases inside
  | cons first s ih =>
      rw [splitOn] at among
      split at among
      · obtain rfl | later := List.mem_cons.mp among
        · cases inside
        · exact ⟨List.mem_cons_of_mem _ (ih later inside).1, (ih later inside).2⟩
      · rename_i other
        split at among
        · rename_i none
          exact absurd none (splitOn_ne_nil separator s)
        · rename_i part parts cut
          obtain rfl | later := List.mem_cons.mp among
          · obtain rfl | within := List.mem_cons.mp inside
            · exact ⟨List.mem_cons_self, other⟩
            · have found := ih (cut ▸ List.mem_cons_self) within
              exact ⟨List.mem_cons_of_mem _ found.1, found.2⟩
          · have found := ih (cut ▸ List.mem_cons_of_mem _ later) inside
            exact ⟨List.mem_cons_of_mem _ found.1, found.2⟩

theorem upToZero_of_notMem {s : Bytes} (without : (0 : UInt8) ∉ s) : upToZero s = s := by
  rw [upToZero]
  induction s with
  | nil => rfl
  | cons c s ih =>
      obtain ⟨other, rest⟩ := not_or.mp (mt List.mem_cons.mpr without)
      rw [List.takeWhile_cons_of_pos (by simpa using Ne.symm other), ih rest]

namespace Path

/-! ## Names -/

theorem mem_of_mem_fileName {c : UInt8} {p : Bytes} (inside : c ∈ fileName p) :
    c ∈ p ∧ c ≠ Ascii.slash := by
  have pieces : ∀ piece ∈ names p, piece ∈ splitOn Ascii.slash p ∨ piece = [] := by
    intro piece among
    simp only [names] at among
    split at among
    · obtain inner | last := List.mem_append.mp among
      · exact .inl (List.mem_filter.mp inner).1
      · exact .inr (List.mem_singleton.mp last)
    · exact .inl (List.mem_filter.mp among).1
  cases last : (names p).getLast? with
  | none =>
      rw [fileName, last] at inside
      cases inside
  | some piece =>
      rw [fileName, last] at inside
      obtain split | rfl := pieces piece (List.mem_of_getLast? last)
      · exact mem_of_mem_splitOn split inside
      · cases inside

theorem mem_of_mem_stem {c : UInt8} {p : Bytes} (inside : c ∈ stem p) :
    c ∈ p ∧ c ≠ Ascii.slash :=
  mem_of_mem_fileName (List.mem_of_mem_take inside)

variable {directory name : Bytes}

theorem names_below (way : Open directory) (proper : Proper name) :
    names (directory ++ Ascii.slash :: name) = names directory ++ [name] := by
  have cut : splitOn Ascii.slash (directory ++ Ascii.slash :: name) =
      splitOn Ascii.slash directory ++ [name] := by
    rw [splitOn_append, splitOn_of_notMem proper.slashless]
  have ended : (splitOn Ascii.slash directory).getLast? ≠ some [] := by
    intro last
    obtain rfl | slash := getLast?_of_splitOn last
    · exact way.nonempty rfl
    · exact way.unslashed slash
  simp [names, cut, ended, proper.nonempty]

theorem fileName_below (way : Open directory) (proper : Proper name) :
    fileName (directory ++ Ascii.slash :: name) = name := by
  simp [fileName, names_below way proper]

theorem Open.unslashed_reverse (way : Open directory) :
    directory.reverse.dropWhile (· == Ascii.slash) = directory.reverse := by
  have last := way.unslashed
  rw [List.getLast?_eq_head?_reverse] at last
  cases reversed : directory.reverse with
  | nil => rfl
  | cons c rest =>
      have other : c ≠ Ascii.slash := by simpa [reversed] using last
      simp [other]

theorem parent_below (way : Open directory) (proper : Proper name) :
    parent (directory ++ Ascii.slash :: name) = directory := by
  have named : names (directory ++ Ascii.slash :: name) ≠ [] := by
    simp [names_below way proper]
  have cut : (directory ++ Ascii.slash :: name).reverse.dropWhile (· != Ascii.slash) =
      Ascii.slash :: directory.reverse := by
    rw [List.reverse_append, List.reverse_cons, List.append_assoc,
      List.dropWhile_append_of_pos]
    · rfl
    · intro c inside
      rw [List.mem_reverse] at inside
      simp only [bne_iff_ne]
      rintro rfl
      exact proper.slashless inside
  have bare : (Ascii.slash :: directory.reverse).dropWhile (· == Ascii.slash) =
      directory.reverse := by
    rw [List.dropWhile_cons_of_pos (by simp), way.unslashed_reverse]
  rw [parent]
  simp only [cut, bare]
  simp [named, way.nonempty]

theorem isAbsolute_below (way : Open directory) :
    isAbsolute (directory ++ Ascii.slash :: name) = isAbsolute directory := by
  obtain ⟨c, rest, rfl⟩ := List.exists_cons_of_ne_nil way.nonempty
  rfl

theorem relative_of_slashless (slashless : Ascii.slash ∉ name) : isAbsolute name = false := by
  cases name with
  | nil => rfl
  | cons c rest =>
      have other : c ≠ Ascii.slash := by
        rintro rfl
        exact slashless List.mem_cons_self
      simp [isAbsolute, other]

theorem join_inj {p q : Bytes} (first : isAbsolute p = false) (second : isAbsolute q = false) :
    join directory p = join directory q ↔ p = q := by
  rw [join, join, first, second]
  split
  · rfl
  · split
    · rw [List.append_right_inj]
    · rw [List.append_right_inj, List.cons_inj_right]

theorem join_below (way : Open directory) (proper : Proper name) :
    join directory name = directory ++ Ascii.slash :: name := by
  simp [join, relative_of_slashless proper.slashless, way.nonempty, way.unslashed]

theorem open_append (front : Bytes) (clean : (0 : UInt8) ∉ front) (proper : Proper name) :
    Open (front ++ name) where
  nonempty := by simp [proper.nonempty]
  zeroless := by simp [clean, proper.zeroless]
  unslashed := by
    have inner : name.getLast? = some (name.getLast proper.nonempty) :=
      List.getLast?_eq_some_getLast proper.nonempty
    intro last
    rw [List.getLast?_append, inner] at last
    have slash : name.getLast proper.nonempty = Ascii.slash := Option.some.inj last
    exact proper.slashless (slash ▸ List.getLast_mem proper.nonempty)

theorem Open.below (way : Open directory) (proper : Proper name) :
    Open (directory ++ Ascii.slash :: name) := by
  have clean : (0 : UInt8) ∉ directory ++ [Ascii.slash] := by
    simpa using ⟨way.zeroless, by decide⟩
  simpa using open_append _ clean proper

theorem open_join (clean : (0 : UInt8) ∉ directory) (proper : Proper name) :
    Open (join directory name) := by
  rw [join]
  split
  · exact open_append [] List.not_mem_nil proper
  · split
    · exact open_append _ clean proper
    · have clean : (0 : UInt8) ∉ directory ++ [Ascii.slash] := by
        simpa using ⟨clean, by decide⟩
      simpa using open_append _ clean proper

end Path

end LuaAsset
