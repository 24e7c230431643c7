import LuaAsset.Proofs.Table.Sorting
import Mathlib.Data.List.Nodup

/-! # Stability of the sort

The sort compares only a later element with an earlier one, so a comparison may be replaced by one
that agrees on such pairs (`map_stableSort`), in particular by one that breaks ties by place.
Removing an element with a later tied one removes just that element from the result
(`stableSort_superseded`), and tied elements keep their order (`filter_stableSort`). -/

set_option autoImplicit false

namespace LuaAsset

namespace StableSort

variable {α β : Type} {f : β → α} {lt : α → α → Bool} {lt' : β → β → Bool}

/-! ## Comparisons that agree -/

/-- Two comparisons agree on a later element and an earlier one. -/
def AgreeAfter (f : β → α) (lt : α → α → Bool) (lt' : β → β → Bool) (earlier later : β) : Prop :=
  lt (f later) (f earlier) = lt' later earlier

theorem map_insertReversed {x : β} {ys : List β} (agree : ∀ y ∈ ys, AgreeAfter f lt lt' y x) :
    insertReversed lt (f x) (ys.map f) = (insertReversed lt' x ys).map f := by
  induction ys with
  | nil => rfl
  | cons y ys ih =>
      obtain ⟨first, more⟩ := List.forall_mem_cons.mp agree
      have same : lt (f x) (f y) = lt' x y := first
      rw [List.map_cons, insertReversed, insertReversed, ih more, same]
      split <;> rfl

theorem map_insert {x : β} {ys : List β} (agree : ∀ y ∈ ys, AgreeAfter f lt lt' y x) :
    insert lt (f x) (ys.map f) = (insert lt' x ys).map f := by
  cases ys with
  | nil => rfl
  | cons y ys =>
      have first : lt (f x) (f y) = lt' x y := agree y List.mem_cons_self
      have reversed : insertReversed lt (f x) ((y :: ys).reverse.map f) =
          (insertReversed lt' x (y :: ys).reverse).map f :=
        map_insertReversed fun z member => agree z (List.mem_reverse.mp member)
      rw [List.map_reverse] at reversed
      rw [List.map_cons, insert, insert, first]
      split
      · rfl
      · rw [← List.map_cons, reversed, List.map_reverse]

theorem map_insertAll (xs : List β) : ∀ run : List β, xs.Pairwise (AgreeAfter f lt lt') →
    (∀ y ∈ run, ∀ x ∈ xs, AgreeAfter f lt lt' y x) →
    (xs.map f).foldl (fun run x => insert lt x run) (run.map f) =
      (xs.foldl (fun run x => insert lt' x run) run).map f := by
  induction xs with
  | nil => exact fun _ _ _ => rfl
  | cons x xs ih =>
      intro run agree across
      obtain ⟨first, later⟩ := List.pairwise_cons.mp agree
      rw [List.map_cons, List.foldl_cons, List.foldl_cons,
        map_insert fun y member => across y member x List.mem_cons_self]
      refine ih _ later fun y member z inside => ?_
      obtain rfl | member := List.mem_cons.mp ((insert_perm lt' x run).mem_iff.mp member)
      · exact first z inside
      · exact across y member z (List.mem_cons_of_mem x inside)

theorem map_insertionSort {xs : List β} (agree : xs.Pairwise (AgreeAfter f lt lt')) :
    insertionSort lt (xs.map f) = (insertionSort lt' xs).map f :=
  map_insertAll xs [] agree (by simp)

def AgreeAcross (f : β → α) (lt : α → α → Bool) (lt' : β → β → Bool) (xs ys : List β) : Prop :=
  ∀ x ∈ xs, ∀ y ∈ ys, AgreeAfter f lt lt' x y

theorem map_merge {xs ys : List β} (agree : AgreeAcross f lt lt' xs ys) :
    merge lt (xs.map f) (ys.map f) = (merge lt' xs ys).map f := by
  rw [merge, merge]
  refine (List.map_merge fun x left y right => ?_).symm
  rw [show lt (f y) (f x) = lt' y x from agree x left y right]

theorem map_mergeBack {xs ys : List β} (agree : AgreeAcross f lt lt' xs ys) :
    mergeBack lt (xs.map f) (ys.map f) = (mergeBack lt' xs ys).map f := by
  rw [mergeBack, mergeBack, List.map_reverse, ← List.map_reverse, ← List.map_reverse]
  refine congrArg List.reverse (List.map_merge fun y right x left => ?_).symm
  rw [show lt (f y) (f x) = lt' y x from
    agree x (List.mem_reverse.mp left) y (List.mem_reverse.mp right)]

theorem mem_mergePairs {r : List β} {z : β} {rs : List (List β)} (member : r ∈ mergePairs lt' rs)
    (inside : z ∈ r) : ∃ r ∈ rs, z ∈ r :=
  List.mem_flatten.mp
    ((mergePairs_perm lt' rs).mem_iff.mp (List.mem_flatten.mpr ⟨r, member, inside⟩))

theorem agreeAcross_mergePairs {rs : List (List β)} (agree : rs.Pairwise (AgreeAcross f lt lt')) :
    (mergePairs lt' rs).Pairwise (AgreeAcross f lt lt') := by
  fun_induction mergePairs lt' rs with
  | case1 a b rest ih =>
      obtain ⟨first, more⟩ := List.pairwise_cons.mp agree
      obtain ⟨second, later⟩ := List.pairwise_cons.mp more
      refine List.pairwise_cons.mpr ⟨fun r member x left y right => ?_, ih later⟩
      obtain ⟨run, among, inside⟩ := mem_mergePairs member right
      obtain left | left := List.mem_merge.mp left
      · exact first run (List.mem_cons_of_mem b among) x left y inside
      · exact second run among x left y inside
  | case2 rest => exact agree

theorem map_mergePairs {rs : List (List β)} (agree : rs.Pairwise (AgreeAcross f lt lt')) :
    mergePairs lt (rs.map (List.map f)) = (mergePairs lt' rs).map (List.map f) := by
  fun_induction mergePairs lt' rs with
  | case1 a b rest ih =>
      obtain ⟨first, more⟩ := List.pairwise_cons.mp agree
      rw [List.map_cons, List.map_cons, mergePairs, List.map_cons,
        map_merge (first b List.mem_cons_self), ih (List.pairwise_cons.mp more).2]
  | case2 rest none =>
      obtain _ | ⟨a, _ | ⟨b, rest⟩⟩ := rest
      · rfl
      · rfl
      · exact absurd rfl (none a b rest)

theorem map_mergeRounds (n : Nat) {rs : List (List β)}
    (agree : rs.Pairwise (AgreeAcross f lt lt')) :
    mergeRounds lt n (rs.map (List.map f)) = (mergeRounds lt' n rs).map f := by
  fun_induction mergeRounds lt' n rs with
  | case1 rs => rw [mergeRounds, List.map_flatten]
  | case2 => rfl
  | case3 => rfl
  | case4 n a b rest ih =>
      rw [List.map_cons, List.map_cons, mergeRounds, ← List.map_cons, ← List.map_cons,
        map_mergePairs agree, ih (agreeAcross_mergePairs agree)]

theorem runs_map (xs : List β) : runs (xs.map f) = (runs xs).map (List.map f) := by
  fun_induction runs xs with
  | case1 xs short => rw [runs, List.length_map, if_pos short]; rfl
  | case2 xs long ih =>
      rw [runs, List.length_map, if_neg long, ← List.map_drop, ← List.map_take, ih]
      rfl

theorem map_sortHalf {xs : List β} (agree : xs.Pairwise (AgreeAfter f lt lt')) :
    sortHalf lt (xs.map f) = (sortHalf lt' xs).map f := by
  rw [← flatten_runs xs, List.pairwise_flatten] at agree
  obtain ⟨within, across⟩ := agree
  have runsSorted : ((runs xs).map (List.map f)).map (insertionSort lt) =
      ((runs xs).map (insertionSort lt')).map (List.map f) := by
    rw [List.map_map, List.map_map]
    exact List.map_congr_left fun r member => map_insertionSort (within r member)
  have apart : ((runs xs).map (insertionSort lt')).Pairwise (AgreeAcross f lt lt') := by
    refine List.pairwise_map.mpr (across.imp fun {r r'} agree x left y right => ?_)
    exact agree x ((insertionSort_perm lt' r).mem_iff.mp left) y
      ((insertionSort_perm lt' r').mem_iff.mp right)
  rw [sortHalf, sortHalf, runs_map, runsSorted, List.length_map, map_mergeRounds _ apart]

end StableSort

open StableSort

variable {α β : Type} {f : β → α} {lt : α → α → Bool} {lt' : β → β → Bool}

theorem map_stableSort {xs : List β} (agree : xs.Pairwise (AgreeAfter f lt lt')) :
    stableSort lt (xs.map f) = (stableSort lt' xs).map f := by
  have halves := agree
  rw [← List.take_append_drop ((xs.length + 1) / 2) xs, List.pairwise_append] at halves
  obtain ⟨front, back, across⟩ := halves
  have apart : AgreeAcross f lt lt' (sortHalf lt' (xs.take ((xs.length + 1) / 2)))
      (sortHalf lt' (xs.drop ((xs.length + 1) / 2))) := fun x left y right =>
    across x ((sortHalf_perm lt' _).mem_iff.mp left) y ((sortHalf_perm lt' _).mem_iff.mp right)
  rw [stableSort, stableSort, List.length_map, ← List.map_take, ← List.map_drop,
    map_sortHalf front, map_sortHalf back]
  split
  · exact map_merge apart
  · exact map_mergeBack apart

/-! ## Elements with places -/

variable {before : α → α → Bool}

/-- A comparison with ties broken by place. -/
def tagged (before : α → α → Bool) (a b : α × Nat) : Bool :=
  before a.1 b.1 || (!before b.1 a.1 && a.2 < b.2)

theorem tagged_eq_false {a b : α × Nat} : tagged before a b = false ↔
    before a.1 b.1 = false ∧ (before b.1 a.1 = false → b.2 ≤ a.2) := by
  rw [tagged]
  cases before a.1 b.1 <;> cases before b.1 a.1 <;> simp

theorem weakOrderOn_tagged (order : WeakOrderOn (fun _ => True) before) :
    WeakOrderOn (fun _ => True) (tagged before) where
  asymm {a b} _ _ smaller := by
    have strict : before a.1 b.1 = true → before b.1 a.1 = false := order.asymm trivial trivial
    rw [tagged_eq_false]
    rw [tagged, Bool.or_eq_true, Bool.and_eq_true, Bool.not_eq_true', decide_eq_true_eq] at smaller
    obtain smaller | ⟨tied, first⟩ := smaller
    · refine ⟨strict smaller, fun tied => ?_⟩
      rw [smaller] at tied
      cases tied
    · exact ⟨tied, fun _ => Nat.le_of_lt first⟩
  trans {a b c} _ _ _ first second := by
    have back {x y z : α} : before y x = false → before z y = false → before z x = false :=
      order.trans trivial trivial trivial
    rw [tagged_eq_false] at first second ⊢
    refine ⟨back first.1 second.1, fun tied => ?_⟩
    -- where the ends are tied, so is what stands between them
    exact Nat.le_trans (first.2 (back second.1 tied)) (second.2 (back tied first.1))

theorem eq_of_tagged_tied {zs : List (α × Nat)} (places : (zs.map Prod.snd).Nodup) {a b : α × Nat}
    (left : a ∈ zs) (right : b ∈ zs) (first : tagged before a b = false)
    (second : tagged before b a = false) : a = b := by
  rw [tagged_eq_false] at first second
  exact List.inj_on_of_nodup_map places left right
    (Nat.le_antisymm (second.2 first.1) (first.2 second.1))

theorem agreeAfter_tagged {zs : List (α × Nat)} (places : zs.Pairwise fun a b => a.2 < b.2)
    (agree : (zs.map Prod.fst).Pairwise (AgreeAfter id lt before)) :
    zs.Pairwise (AgreeAfter Prod.fst lt (tagged before)) := by
  refine (List.pairwise_map.mp agree).and places |>.imp fun {a b} both => ?_
  have same : lt b.1 a.1 = before b.1 a.1 := both.1
  have notEarlier : decide (b.2 < a.2) = false := decide_eq_false (Nat.lt_asymm both.2)
  rw [AgreeAfter, same, tagged, notEarlier, Bool.and_false, Bool.or_false]

theorem ascending_zipIdx (xs : List α) : xs.zipIdx.Pairwise fun a b => a.2 < b.2 := by
  rw [← List.pairwise_map, List.zipIdx_map_snd]
  exact List.pairwise_lt_range'

theorem nodup_places {zs : List (α × Nat)} (places : zs.Pairwise fun a b => a.2 < b.2) :
    (zs.map Prod.snd).Nodup :=
  List.pairwise_map.mpr (places.imp fun {_ _} => Nat.ne_of_lt)

theorem stableSort_remove (order : WeakOrderOn (fun _ => True) before)
    {xs ys front back : List (α × Nat)} {e : α × Nat}
    (places : (xs ++ e :: ys).Pairwise fun a b => a.2 < b.2)
    (whole : stableSort (tagged before) (xs ++ e :: ys) = front ++ e :: back) :
    stableSort (tagged before) (xs ++ ys) = front ++ back := by
  have orderTagged := weakOrderOn_tagged order
  have sorted : Sorted (tagged before) (stableSort (tagged before) (xs ++ e :: ys)) :=
    sorted_stableSort orderTagged fun _ _ => trivial
  rw [whole] at sorted
  have perm : (front ++ back).Perm (xs ++ ys) := by
    have kept := stableSort_perm (tagged before) (xs ++ e :: ys)
    rw [whole] at kept
    exact ((List.perm_middle.symm.trans kept).trans List.perm_middle).cons_inv
  have fewer : (xs ++ ys).Sublist (xs ++ e :: ys) := (List.sublist_cons_self e ys).append_left xs
  have distinct := nodup_places (places.sublist fewer)
  refine List.Perm.eq_of_pairwise (fun a b left right after notAfter => ?_)
    (sorted_stableSort orderTagged fun _ _ => trivial)
    (sorted.sublist ((List.sublist_cons_self e back).append_left front))
    ((stableSort_perm _ _).trans perm.symm)
  exact eq_of_tagged_tied distinct ((mem_stableSort _).mp left) (perm.mem_iff.mp right) notAfter
    after

/-- In the sorted list an element with a later tied one is followed by one tied to it. -/
theorem tied_next (order : WeakOrderOn (fun _ => True) before) {zs front rest : List (α × Nat)}
    {e p : α × Nat} (split : stableSort (tagged before) zs = front ++ e :: rest) (among : p ∈ zs)
    (further : e.2 < p.2) (notAfter : before p.1 e.1 = false) (notBefore : before e.1 p.1 = false) :
    ∃ m back, rest = m :: back ∧ before e.1 m.1 = false ∧ before m.1 e.1 = false := by
  have sorted : Sorted (tagged before) (stableSort (tagged before) zs) :=
    sorted_stableSort (weakOrderOn_tagged order) fun _ _ => trivial
  rw [split] at sorted
  obtain ⟨_, following, across⟩ := List.pairwise_append.mp sorted
  have kept : p ∈ front ++ e :: rest := by rwa [← split, mem_stableSort]
  have behind : p ∈ rest := by
    obtain inFront | inRest := List.mem_append.mp kept
    · have misplaced := (tagged_eq_false.mp (across p inFront e List.mem_cons_self)).2 notAfter
      exact absurd misplaced (Nat.not_le.mpr further)
    · obtain rfl | inRest := List.mem_cons.mp inRest
      · exact absurd further (Nat.lt_irrefl _)
      · exact inRest
  cases rest with
  | nil => cases behind
  | cons m back =>
      obtain ⟨first, remaining⟩ := List.pairwise_cons.mp following
      refine ⟨m, back, rfl, ?_, (tagged_eq_false.mp (first m List.mem_cons_self)).1⟩
      obtain rfl | behind := List.mem_cons.mp behind
      · exact notBefore
      · have next := (List.pairwise_cons.mp remaining).1 p behind
        exact order.trans trivial trivial trivial (tagged_eq_false.mp next).1 notBefore

/-- Sorting without an element that has a later tied one removes just that element, and the element
after it is tied to it. -/
theorem stableSort_superseded (order : WeakOrderOn (fun _ => True) before) {xs ys : List α}
    {e d : α} (agree : (xs ++ e :: ys).Pairwise (AgreeAfter id lt before)) (later : d ∈ ys)
    (notAfter : before d e = false) (notBefore : before e d = false) :
    ∃ front m back, stableSort lt (xs ++ e :: ys) = front ++ e :: m :: back ∧
      stableSort lt (xs ++ ys) = front ++ m :: back ∧
      before e m = false ∧ before m e = false := by
  let placedXs := xs.zipIdx
  let placedYs := ys.zipIdx (xs.length + 1)
  let zs := placedXs ++ (e, xs.length) :: placedYs
  have all : (xs ++ e :: ys).zipIdx = zs := by
    rw [List.zipIdx_append, List.zipIdx_cons, Nat.zero_add]
  have elements : zs.map Prod.fst = xs ++ e :: ys := by rw [← all, List.zipIdx_map_fst]
  have elementsLess : (placedXs ++ placedYs).map Prod.fst = xs ++ ys := by
    rw [List.map_append, List.zipIdx_map_fst, List.zipIdx_map_fst]
  have places : zs.Pairwise fun a b => a.2 < b.2 := by
    rw [← all]
    exact ascending_zipIdx _
  have agreeTagged : zs.Pairwise (AgreeAfter Prod.fst lt (tagged before)) :=
    agreeAfter_tagged places (by rwa [elements])
  have fewer : (placedXs ++ placedYs).Sublist zs := (List.sublist_cons_self _ _).append_left _
  obtain ⟨p, among, rfl⟩ : ∃ p ∈ placedYs, p.1 = d := by
    rw [← List.zipIdx_map_fst (xs.length + 1) ys] at later
    exact List.mem_map.mp later
  have further : xs.length < p.2 :=
    (List.pairwise_cons.mp (List.pairwise_append.mp places).2.1).1 p among
  have inside : p ∈ zs := List.mem_append_right _ (List.mem_cons_of_mem _ among)
  have member : (e, xs.length) ∈ stableSort (tagged before) zs :=
    (mem_stableSort zs).mpr (List.mem_append_right _ List.mem_cons_self)
  obtain ⟨front, rest, split⟩ := List.append_of_mem member
  obtain ⟨m, back, rfl, notLarger, notSmaller⟩ :=
    tied_next order split inside further notAfter notBefore
  refine ⟨front.map Prod.fst, m.1, back.map Prod.fst, ?_, ?_, notLarger, notSmaller⟩
  · rw [← elements, map_stableSort agreeTagged, split, List.map_append, List.map_cons,
      List.map_cons]
  · rw [← elementsLess, map_stableSort (agreeTagged.sublist fewer),
      stableSort_remove order places split, List.map_append, List.map_cons]

theorem filter_stableSort (order : WeakOrderOn (fun _ => True) before) {xs : List α}
    (agree : xs.Pairwise (AgreeAfter id lt before)) {p : α → Bool}
    (tied : ∀ a ∈ xs, ∀ b ∈ xs, p a = true → p b = true → before a b = false) :
    (stableSort lt xs).filter p = xs.filter p := by
  let zs := xs.zipIdx
  have elements : zs.map Prod.fst = xs := List.zipIdx_map_fst 0 xs
  have places : zs.Pairwise fun a b => a.2 < b.2 := ascending_zipIdx xs
  have sorted : Sorted (tagged before) (stableSort (tagged before) zs) :=
    sorted_stableSort (weakOrderOn_tagged order) fun _ _ => trivial
  have inside : ∀ z ∈ zs, z.1 ∈ xs := fun z member =>
    elements ▸ List.mem_map_of_mem (f := Prod.fst) member
  have kept : (stableSort (tagged before) zs).filter (p ∘ Prod.fst) =
      zs.filter (p ∘ Prod.fst) := by
    have perm := (stableSort_perm (tagged before) zs).filter (p ∘ Prod.fst)
    -- both lists are in the order of the places
    have left : ((stableSort (tagged before) zs).filter (p ∘ Prod.fst)).Pairwise
        fun a b => a.2 ≤ b.2 := by
      apply (sorted.filter _).imp_of_mem
      intro a b memberA memberB notAfter
      obtain ⟨memberA, classA⟩ := List.mem_filter.mp memberA
      obtain ⟨memberB, classB⟩ := List.mem_filter.mp memberB
      rw [mem_stableSort] at memberA memberB
      exact (tagged_eq_false.mp notAfter).2
        (tied a.1 (inside a memberA) b.1 (inside b memberB) classA classB)
    have right : (zs.filter (p ∘ Prod.fst)).Pairwise fun a b => a.2 ≤ b.2 :=
      (places.filter _).imp Nat.le_of_lt
    refine List.Perm.eq_of_pairwise ?_ left right perm
    intro a b memberA memberB first second
    exact List.inj_on_of_nodup_map (nodup_places places)
      (List.mem_filter.mp (perm.mem_iff.mp memberA)).1 (List.mem_filter.mp memberB).1
      (Nat.le_antisymm first second)
  have agreeTagged : zs.Pairwise (AgreeAfter Prod.fst lt (tagged before)) :=
    agreeAfter_tagged places (by rwa [elements])
  calc
    (stableSort lt xs).filter p = ((stableSort (tagged before) zs).map Prod.fst).filter p := by
      rw [← map_stableSort agreeTagged, elements]
    _ = (zs.filter (p ∘ Prod.fst)).map Prod.fst := by rw [List.filter_map, kept]
    _ = xs.filter p := by rw [← List.filter_map, elements]

theorem stableSort_eq_self {xs : List α} (sorted : xs.Pairwise fun a b => lt b a = false) :
    stableSort lt xs = xs := by
  have order : WeakOrderOn (fun _ => True) fun _ _ : α => false :=
    { asymm := fun _ _ _ => rfl, trans := fun _ _ _ _ _ => rfl }
  have kept := filter_stableSort (p := fun _ => true) order sorted fun _ _ _ _ _ _ => rfl
  rwa [List.filter_true, List.filter_true] at kept

end LuaAsset
