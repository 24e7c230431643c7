import LuaAsset.Table
import Mathlib.Data.List.Nodup

/-! # Fields written in order

Each pair is written under the name of its key.  A name keeps the place of its first write
(`exists_names_written`) and the value of its last (`lookup_written_latest`). -/

set_option autoImplicit false

namespace LuaAsset

def namesOf (pairs : List (Value × Value)) : List Bytes := pairs.map fun pair => pair.1.keyName

/-- The fields of an object after pairs have been written to it. -/
def written (pairs : List (Value × Value)) (fields : List (Bytes × Value)) :
    List (Bytes × Value) :=
  pairs.foldl (fun fields pair => assign pair.1.keyName pair.2 fields) fields

theorem written_append (pairs more : List (Value × Value)) (fields : List (Bytes × Value)) :
    written (pairs ++ more) fields = written more (written pairs fields) :=
  List.foldl_append ..

theorem names_written (pairs : List (Value × Value)) : ∀ fields : List (Bytes × Value),
    (fields.map Prod.fst).Nodup → ((written pairs fields).map Prod.fst).Nodup ∧
      ∀ name, name ∈ (written pairs fields).map Prod.fst ↔
        name ∈ fields.map Prod.fst ∨ name ∈ namesOf pairs := by
  induction pairs with
  | nil => simp [written, namesOf]
  | cons pair pairs ih =>
      intro fields once
      have names := keys_assign pair.1.keyName pair.2 fields
      have onceMore : ((assign pair.1.keyName pair.2 fields).map Prod.fst).Nodup := by
        rw [names]
        split
        · exact once
        · rename_i fresh
          rw [← List.concat_eq_append]
          exact once.concat fresh
      obtain ⟨nodup, members⟩ := ih (assign pair.1.keyName pair.2 fields) onceMore
      refine ⟨nodup, fun name => ?_⟩
      have first : name ∈ (assign pair.1.keyName pair.2 fields).map Prod.fst ↔
          name ∈ fields.map Prod.fst ∨ name = pair.1.keyName := by
        rw [names]
        split
        · rename_i known
          constructor
          · exact .inl
          · rintro (old | rfl)
            · exact old
            · exact known
        · simp
      have shift : written (pair :: pairs) fields =
          written pairs (assign pair.1.keyName pair.2 fields) := rfl
      rw [shift, members name, first, or_assoc]
      simp [namesOf]

theorem exists_names_written (pairs : List (Value × Value)) : ∀ fields : List (Bytes × Value),
    ∃ more, (written pairs fields).map Prod.fst = fields.map Prod.fst ++ more ∧
      more.Sublist (namesOf pairs) := by
  induction pairs with
  | nil =>
      intro fields
      exact ⟨[], (List.append_nil _).symm, List.Sublist.refl []⟩
  | cons pair pairs ih =>
      intro fields
      obtain ⟨more, names, order⟩ := ih (assign pair.1.keyName pair.2 fields)
      have shift : written (pair :: pairs) fields =
          written pairs (assign pair.1.keyName pair.2 fields) := rfl
      rw [keys_assign] at names
      rw [shift, names]
      split
      · exact ⟨more, rfl, order.cons _⟩
      · exact ⟨pair.1.keyName :: more, List.append_assoc _ _ _, order.cons_cons _⟩

/-! ## The last write -/

/-- The value of the last pair whose key satisfies a predicate. -/
def latest (among : Value → Bool) (pairs : List (Value × Value)) : Option Value :=
  (pairs.filter fun pair => among pair.1).getLast?.map Prod.snd

section Latest

variable {among : Value → Bool} {pairs : List (Value × Value)}

theorem latest_append (front back : List (Value × Value)) :
    latest among (front ++ back) = (latest among back).or (latest among front) := by
  rw [latest, List.filter_append, List.getLast?_append, latest, latest]
  cases (back.filter fun pair => among pair.1).getLast? <;> rfl

theorem latest_singleton (pair : Value × Value) :
    latest among [pair] = if among pair.1 then some pair.2 else none := by
  by_cases inside : among pair.1 = true
  · simp [latest, inside]
  · simp [latest, inside]

theorem latest_eq_none : latest among pairs = none ↔ ∀ pair ∈ pairs, among pair.1 = false := by
  simp [latest]

theorem mem_of_latest {value : Value} (found : latest among pairs = some value) :
    ∃ pair ∈ pairs, among pair.1 = true ∧ pair.2 = value := by
  obtain ⟨pair, last, rfl⟩ := Option.map_eq_some_iff.mp found
  obtain ⟨member, inside⟩ := List.mem_filter.mp (List.mem_of_getLast? last)
  exact ⟨pair, member, inside, rfl⟩

theorem exists_latest {pair : Value × Value} (member : pair ∈ pairs)
    (inside : among pair.1 = true) : ∃ value, latest among pairs = some value := by
  apply Option.ne_none_iff_exists'.mp
  intro none
  rw [latest_eq_none.mp none pair member] at inside
  cases inside

theorem latest_congr {among' : Value → Bool}
    (same : ∀ pair ∈ pairs, among pair.1 = among' pair.1) :
    latest among pairs = latest among' pairs := by
  rw [latest, latest, List.filter_congr same]

theorem latest_filter (kept : Value → Bool) :
    latest among (pairs.filter fun pair => kept pair.1) =
      latest (fun key => among key && kept key) pairs := by
  rw [latest, latest, List.filter_filter]

end Latest

/-- A name is found with the value written last. -/
theorem lookup_written_latest (name : Bytes) (pairs : List (Value × Value)) :
    ∀ fields : List (Bytes × Value), (written pairs fields).lookup name =
      (latest (fun key => key.keyName = name) pairs).or (fields.lookup name) := by
  induction pairs with
  | nil =>
      intro fields
      rfl
  | cons pair pairs ih =>
      intro fields
      have shift : written (pair :: pairs) fields =
          written pairs (assign pair.1.keyName pair.2 fields) := rfl
      rw [shift, ih, ← List.singleton_append, latest_append, latest_singleton, Option.or_assoc]
      congr 1
      by_cases here : pair.1.keyName = name
      · rw [here, lookup_assign_self]
        simp
      · rw [lookup_assign_of_ne (Ne.symm here)]
        simp [here]

theorem lookup_written (pairs : List (Value × Value)) {name : Bytes} {value : Value}
    (only : ∀ pair ∈ pairs, pair.1.keyName = name → pair.2 = value)
    (fields : List (Bytes × Value))
    (known : fields.lookup name = some value ∨ name ∈ namesOf pairs) :
    (written pairs fields).lookup name = some value := by
  rw [lookup_written_latest]
  cases last : latest (fun key => key.keyName = name) pairs with
  | none =>
      rcases known with old | new
      · rw [Option.none_or, old]
      · obtain ⟨pair, member, same⟩ := List.mem_map.mp new
        exact absurd same (of_decide_eq_false (latest_eq_none.mp last pair member))
  | some found =>
      obtain ⟨pair, member, same, rfl⟩ := mem_of_latest last
      rw [Option.some_or, only pair member (of_decide_eq_true same)]

end LuaAsset
