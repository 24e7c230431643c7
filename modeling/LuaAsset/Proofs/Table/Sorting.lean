import LuaAsset.StableSort

/-! # The result of the sort is sorted

For a comparison that is a strict weak order on the elements (`sorted_stableSort`).  The class of
elements is a parameter, since a comparison may be such an order on the keys of one table only. -/

set_option autoImplicit false

namespace LuaAsset

structure WeakOrderOn {α : Type} (P : α → Prop) (lt : α → α → Bool) : Prop where
  asymm : ∀ {a b}, P a → P b → lt a b = true → lt b a = false
  trans : ∀ {a b c}, P a → P b → P c → lt b a = false → lt c b = false → lt c a = false

def Sorted {α : Type} (lt : α → α → Bool) (xs : List α) : Prop :=
  xs.Pairwise fun a b => lt b a = false

theorem WeakOrderOn.swap {α : Type} {P : α → Prop} {lt : α → α → Bool}
    (order : WeakOrderOn P lt) : WeakOrderOn P fun a b => lt b a where
  asymm ha hb := order.asymm hb ha
  trans ha hb hc first second := order.trans hc hb ha second first

namespace StableSort

variable {α : Type} {P : α → Prop} {lt : α → α → Bool}

theorem sorted_reverse {xs : List α} : Sorted lt xs.reverse ↔ Sorted (fun a b => lt b a) xs :=
  List.pairwise_reverse

/-! ## Insertion -/

theorem sorted_insertReversed (order : WeakOrderOn P lt) {x : α} (hx : P x) {ys : List α}
    (all : ∀ y ∈ ys, P y) (sorted : Sorted (fun a b => lt b a) ys) :
    Sorted (fun a b => lt b a) (insertReversed lt x ys) := by
  induction ys with
  | nil => exact List.pairwise_singleton _ _
  | cons y ys ih =>
      obtain ⟨hy, more⟩ := List.forall_mem_cons.mp all
      obtain ⟨first, later⟩ := List.pairwise_cons.mp sorted
      rw [insertReversed]
      split
      · rename_i smaller
        refine List.pairwise_cons.mpr ⟨fun z member => ?_, ih more later⟩
        obtain rfl | member := List.mem_cons.mp ((insertReversed_perm lt x ys).mem_iff.mp member)
        · exact order.asymm hx hy smaller
        · exact first z member
      · rename_i notSmaller
        have atLeast : lt x y = false := Bool.eq_false_iff.mpr notSmaller
        refine List.pairwise_cons.mpr ⟨fun z member => ?_, sorted⟩
        obtain rfl | member := List.mem_cons.mp member
        · exact atLeast
        · exact order.trans (more z member) hy hx (first z member) atLeast

theorem sorted_insert (order : WeakOrderOn P lt) {x : α} (hx : P x) {ys : List α}
    (all : ∀ y ∈ ys, P y) (sorted : Sorted lt ys) : Sorted lt (insert lt x ys) := by
  cases ys with
  | nil => exact List.pairwise_singleton _ _
  | cons y ys =>
      obtain ⟨hy, more⟩ := List.forall_mem_cons.mp all
      rw [insert]
      split
      · rename_i smaller
        have before := order.asymm hx hy smaller
        refine List.pairwise_cons.mpr ⟨fun z member => ?_, sorted⟩
        obtain rfl | member := List.mem_cons.mp member
        · exact before
        · exact order.trans hx hy (more z member) before
            ((List.pairwise_cons.mp sorted).1 z member)
      · refine sorted_reverse.mpr (sorted_insertReversed order hx ?_ ?_)
        · exact fun z member => all z (List.mem_reverse.mp member)
        · exact sorted_reverse.mpr sorted

theorem sorted_insertAll (order : WeakOrderOn P lt) (xs : List α) : ∀ run : List α,
    (∀ x ∈ xs, P x) → (∀ x ∈ run, P x) → Sorted lt run →
    Sorted lt (xs.foldl (fun run x => insert lt x run) run) := by
  induction xs with
  | nil => exact fun _ _ _ sorted => sorted
  | cons x xs ih =>
      intro run all allRun sorted
      obtain ⟨hx, more⟩ := List.forall_mem_cons.mp all
      refine ih _ more (fun z member => ?_) (sorted_insert order hx allRun sorted)
      obtain rfl | member := List.mem_cons.mp ((insert_perm lt x run).mem_iff.mp member)
      · exact hx
      · exact allRun z member

theorem sorted_insertionSort (order : WeakOrderOn P lt) {xs : List α} (all : ∀ x ∈ xs, P x) :
    Sorted lt (insertionSort lt xs) :=
  sorted_insertAll order xs [] all (by simp) List.Pairwise.nil

/-! ## Merging -/

theorem sorted_merge (order : WeakOrderOn P lt) {xs ys : List α} (allLeft : ∀ x ∈ xs, P x)
    (allRight : ∀ y ∈ ys, P y) (left : Sorted lt xs) (right : Sorted lt ys) :
    Sorted lt (merge lt xs ys) := by
  rw [merge]
  induction xs, ys using List.merge.induct (fun x y => !lt y x) with
  | case1 ys => rwa [List.nil_merge]
  | case2 xs _ => rwa [List.merge_right]
  | case3 x xs y ys first ih =>
      obtain ⟨hx, moreLeft⟩ := List.forall_mem_cons.mp allLeft
      obtain ⟨leads, leftRest⟩ := List.pairwise_cons.mp left
      have before : lt y x = false := by simpa using first
      rw [List.cons_merge_cons, if_pos first]
      refine List.pairwise_cons.mpr ⟨fun z member => ?_, ih moreLeft allRight leftRest right⟩
      obtain member | member := List.mem_merge.mp member
      · exact leads z member
      · obtain rfl | later := List.mem_cons.mp member
        · exact before
        · exact order.trans hx (allRight y List.mem_cons_self) (allRight z member) before
            ((List.pairwise_cons.mp right).1 z later)
  | case4 x xs y ys second ih =>
      obtain ⟨hy, moreRight⟩ := List.forall_mem_cons.mp allRight
      obtain ⟨leads, rightRest⟩ := List.pairwise_cons.mp right
      have hx := allLeft x List.mem_cons_self
      have before : lt x y = false := order.asymm hy hx (by simpa using second)
      rw [List.cons_merge_cons, if_neg second]
      refine List.pairwise_cons.mpr ⟨fun z member => ?_, ih allLeft moreRight left rightRest⟩
      obtain member | member := List.mem_merge.mp member
      · obtain rfl | later := List.mem_cons.mp member
        · exact before
        · exact order.trans hy hx (allLeft z member) before
            ((List.pairwise_cons.mp left).1 z later)
      · exact leads z member

theorem sorted_mergeBack (order : WeakOrderOn P lt) {xs ys : List α} (allLeft : ∀ x ∈ xs, P x)
    (allRight : ∀ y ∈ ys, P y) (left : Sorted lt xs) (right : Sorted lt ys) :
    Sorted lt (mergeBack lt xs ys) := by
  refine sorted_reverse.mpr (sorted_merge order.swap ?_ ?_ ?_ ?_)
  · exact fun y member => allRight y (List.mem_reverse.mp member)
  · exact fun x member => allLeft x (List.mem_reverse.mp member)
  · exact sorted_reverse.mpr right
  · exact sorted_reverse.mpr left

theorem sorted_mergePairs (order : WeakOrderOn P lt) {rs : List (List α)}
    (all : ∀ r ∈ rs, ∀ x ∈ r, P x) (sorted : ∀ r ∈ rs, Sorted lt r) :
    ∀ r ∈ mergePairs lt rs, Sorted lt r := by
  fun_induction mergePairs lt rs with
  | case1 a b rest ih =>
      obtain ⟨allFirst, allMore⟩ := List.forall_mem_cons.mp all
      obtain ⟨allSecond, allRest⟩ := List.forall_mem_cons.mp allMore
      obtain ⟨first, more⟩ := List.forall_mem_cons.mp sorted
      obtain ⟨second, later⟩ := List.forall_mem_cons.mp more
      exact List.forall_mem_cons.mpr
        ⟨sorted_merge order allFirst allSecond first second, ih allRest later⟩
  | case2 rest => exact sorted

theorem length_mergePairs_le (lt : α → α → Bool) (rs : List (List α)) :
    2 * (mergePairs lt rs).length ≤ rs.length + 1 := by
  fun_induction mergePairs lt rs with
  | case1 a b rest ih =>
      simp only [List.length_cons]
      omega
  | case2 rest none =>
      obtain _ | ⟨a, _ | ⟨b, rest⟩⟩ := rest
      · exact Nat.zero_le _
      · exact Nat.le_refl _
      · exact absurd rfl (none a b rest)

theorem sorted_mergeRounds (order : WeakOrderOn P lt) (n : Nat) {rs : List (List α)}
    (few : rs.length ≤ n) (all : ∀ r ∈ rs, ∀ x ∈ r, P x) (sorted : ∀ r ∈ rs, Sorted lt r) :
    Sorted lt (mergeRounds lt n rs) := by
  fun_induction mergeRounds lt n rs with
  | case1 rs =>
      rw [List.length_eq_zero_iff.mp (Nat.le_zero.mp few)]
      exact List.Pairwise.nil
  | case2 => exact List.Pairwise.nil
  | case3 n r => exact sorted r (List.mem_singleton.mpr rfl)
  | case4 n a b rest ih =>
      have half := length_mergePairs_le lt (a :: b :: rest)
      refine ih ?_ (fun r member x inside => ?_) (sorted_mergePairs order all sorted)
      · simp only [List.length_cons] at few half
        omega
      · have among := (mergePairs_perm lt (a :: b :: rest)).mem_iff.mp
          (List.mem_flatten.mpr ⟨r, member, inside⟩)
        obtain ⟨r', member, inside⟩ := List.mem_flatten.mp among
        exact all r' member x inside

theorem sorted_sortHalf (order : WeakOrderOn P lt) {xs : List α} (all : ∀ x ∈ xs, P x) :
    Sorted lt (sortHalf lt xs) := by
  have allRuns : ∀ r ∈ runs xs, ∀ x ∈ r, P x := fun r member x inside =>
    all x (by rw [← flatten_runs xs]; exact List.mem_flatten.mpr ⟨r, member, inside⟩)
  refine sorted_mergeRounds order _ (Nat.le_refl _) (fun r member x inside => ?_)
    (fun r member => ?_)
  · obtain ⟨run, among, rfl⟩ := List.mem_map.mp member
    exact allRuns run among x ((insertionSort_perm lt run).mem_iff.mp inside)
  · obtain ⟨run, among, rfl⟩ := List.mem_map.mp member
    exact sorted_insertionSort order (allRuns run among)

end StableSort

open StableSort in
theorem sorted_stableSort {α : Type} {P : α → Prop} {lt : α → α → Bool} (order : WeakOrderOn P lt)
    {xs : List α} (all : ∀ x ∈ xs, P x) : Sorted lt (stableSort lt xs) := by
  have front : ∀ x ∈ sortHalf lt (xs.take ((xs.length + 1) / 2)), P x := fun x member =>
    all x (List.mem_of_mem_take ((sortHalf_perm lt _).mem_iff.mp member))
  have back : ∀ x ∈ sortHalf lt (xs.drop ((xs.length + 1) / 2)), P x := fun x member =>
    all x (List.mem_of_mem_drop ((sortHalf_perm lt _).mem_iff.mp member))
  have sortedFront := sorted_sortHalf order fun x (member : x ∈ xs.take ((xs.length + 1) / 2)) =>
    all x (List.mem_of_mem_take member)
  have sortedBack := sorted_sortHalf order fun x (member : x ∈ xs.drop ((xs.length + 1) / 2)) =>
    all x (List.mem_of_mem_drop member)
  simp only [stableSort]
  split
  · exact sorted_merge order front back sortedFront sortedBack
  · exact sorted_mergeBack order front back sortedFront sortedBack

theorem stableSort_eq_of_perm {α : Type} {P : α → Prop} {lt : α → α → Bool}
    (order : WeakOrderOn P lt) {xs ys : List α} (perm : xs.Perm ys) (all : ∀ x ∈ xs, P x)
    (untied : ∀ a ∈ xs, ∀ b ∈ xs, lt a b = false → lt b a = false → a = b) :
    stableSort lt xs = stableSort lt ys := by
  refine List.Perm.eq_of_pairwise (fun a b left right before after => ?_)
    (sorted_stableSort order all)
    (sorted_stableSort order fun y member => all y (perm.mem_iff.mpr member))
    ((stableSort_perm lt xs).trans (perm.trans (stableSort_perm lt ys).symm))
  exact untied a ((mem_stableSort xs).mp left) b
    (perm.mem_iff.mpr ((mem_stableSort ys).mp right)) after before

end LuaAsset
