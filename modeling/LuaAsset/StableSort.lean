/-! # Sorting by runs

A stable merge sort: each half is cut into runs of seven, which are sorted by insertion and merged,
and the two halves are merged last.  The scheme is fixed, so that the result is also determined for
a comparison that is no strict weak order. -/

set_option autoImplicit false

namespace LuaAsset

namespace StableSort

variable {α : Type}

def insertReversed (lt : α → α → Bool) (x : α) : List α → List α
  | [] => [x]
  | y :: ys => if lt x y then y :: insertReversed lt x ys else x :: y :: ys

/-- Inserts an element into a run: at the front if it is smaller than the first element, else after
the last element that it is not smaller than. -/
def insert (lt : α → α → Bool) (x : α) : List α → List α
  | [] => [x]
  | first :: rest =>
      if lt x first then x :: first :: rest
      else (insertReversed lt x (first :: rest).reverse).reverse

def insertionSort (lt : α → α → Bool) (xs : List α) : List α :=
  xs.foldl (fun run x => insert lt x run) []

/-- Merges from the front; of tied elements that of the first run comes first. -/
def merge (lt : α → α → Bool) (xs ys : List α) : List α := List.merge xs ys fun x y => !lt y x

/-- Merges from the back; of tied elements that of the second run comes last. -/
def mergeBack (lt : α → α → Bool) (xs ys : List α) : List α :=
  (List.merge ys.reverse xs.reverse fun y x => !lt y x).reverse

def runLength : Nat := 7

def runs (xs : List α) : List (List α) :=
  if xs.length ≤ runLength then [xs] else xs.take runLength :: runs (xs.drop runLength)
termination_by xs.length
decreasing_by simp only [List.length_drop, runLength] at *; omega

def mergePairs (lt : α → α → Bool) : List (List α) → List (List α)
  | a :: b :: rest => merge lt a b :: mergePairs lt rest
  | rest => rest

/-- Merges neighbouring runs until one is left; the number of runs suffices as fuel. -/
def mergeRounds (lt : α → α → Bool) : Nat → List (List α) → List α
  | 0, rs => rs.flatten
  | _ + 1, [] => []
  | _ + 1, [r] => r
  | n + 1, a :: b :: rest => mergeRounds lt n (mergePairs lt (a :: b :: rest))

def sortHalf (lt : α → α → Bool) (xs : List α) : List α :=
  let rs := (runs xs).map (insertionSort lt)
  mergeRounds lt rs.length rs

theorem insertReversed_perm (lt : α → α → Bool) (x : α) (ys : List α) :
    (insertReversed lt x ys).Perm (x :: ys) := by
  induction ys with
  | nil => rfl
  | cons y ys ih =>
      rw [insertReversed]
      split
      · exact (ih.cons y).trans (.swap x y ys)
      · rfl

theorem insert_perm (lt : α → α → Bool) (x : α) (ys : List α) :
    (insert lt x ys).Perm (x :: ys) := by
  cases ys with
  | nil => rfl
  | cons y ys =>
      rw [insert]
      split
      · rfl
      · exact (List.reverse_perm _).trans
          ((insertReversed_perm lt x _).trans ((List.reverse_perm (y :: ys)).cons x))

theorem insertionSort_perm (lt : α → α → Bool) (xs : List α) : (insertionSort lt xs).Perm xs := by
  have grown : ∀ (xs run : List α),
      (xs.foldl (fun run x => insert lt x run) run).Perm (run ++ xs) := by
    intro xs
    induction xs with
    | nil => intro run; simp
    | cons x xs ih =>
        intro run
        exact (ih _).trans (((insert_perm lt x run).append_right xs).trans List.perm_middle.symm)
  exact grown xs []

theorem mergePairs_perm (lt : α → α → Bool) (rs : List (List α)) :
    (mergePairs lt rs).flatten.Perm rs.flatten := by
  fun_induction mergePairs lt rs with
  | case1 a b rest ih =>
      simp only [List.flatten_cons, ← List.append_assoc]
      exact (List.merge_perm_append _).append ih
  | case2 rest => rfl

theorem mergeRounds_perm (lt : α → α → Bool) (n : Nat) (rs : List (List α)) :
    (mergeRounds lt n rs).Perm rs.flatten := by
  fun_induction mergeRounds lt n rs with
  | case1 => rfl
  | case2 => rfl
  | case3 => simp
  | case4 n a b rest ih => exact ih.trans (mergePairs_perm lt (a :: b :: rest))

theorem flatten_runs (xs : List α) : (runs xs).flatten = xs := by
  fun_induction runs xs with
  | case1 => simp
  | case2 xs h ih => simp [ih]

theorem sortHalf_perm (lt : α → α → Bool) (xs : List α) : (sortHalf lt xs).Perm xs := by
  have sorted : ∀ rs : List (List α), (rs.map (insertionSort lt)).flatten.Perm rs.flatten := by
    intro rs
    induction rs with
    | nil => rfl
    | cons r rs ih => exact (insertionSort_perm lt r).append ih
  refine (mergeRounds_perm lt _ _).trans ((sorted (runs xs)).trans ?_)
  rw [flatten_runs]

end StableSort

open StableSort in
/-- Sorts two halves by runs (the first takes the middle element) and merges them from the back. -/
def stableSort {α : Type} (lt : α → α → Bool) (xs : List α) : List α :=
  let middle := (xs.length + 1) / 2
  let front := sortHalf lt (xs.take middle)
  let back := sortHalf lt (xs.drop middle)
  if xs.length % 2 = 0 then merge lt front back else mergeBack lt front back

theorem stableSort_perm {α : Type} (lt : α → α → Bool) (xs : List α) :
    (stableSort lt xs).Perm xs := by
  have halves : (StableSort.sortHalf lt (xs.take ((xs.length + 1) / 2)) ++
      StableSort.sortHalf lt (xs.drop ((xs.length + 1) / 2))).Perm xs := by
    refine ((StableSort.sortHalf_perm lt _).append (StableSort.sortHalf_perm lt _)).trans ?_
    rw [List.take_append_drop]
  simp only [stableSort]
  split
  · exact (List.merge_perm_append _).trans halves
  · refine (List.reverse_perm _).trans ((List.merge_perm_append _).trans ?_)
    exact ((List.reverse_perm _).append (List.reverse_perm _)).trans
      (List.perm_append_comm.trans halves)

theorem mem_stableSort {α : Type} {lt : α → α → Bool} {z : α} (xs : List α) :
    z ∈ stableSort lt xs ↔ z ∈ xs := (stableSort_perm lt xs).mem_iff

end LuaAsset
