import LuaAsset.Proofs.Table.Assignment

/-! # The contents of a draft

A position holds the last value added under a key that addresses it (`mem_placed`); all other pairs
are kept in order of arrival. -/

set_option autoImplicit false

namespace LuaAsset

namespace TableDraft

/-! ## Positions -/

theorem ascending_placed (pairs : List (Value × Value)) :
    Ascending (pairs.foldl placePair []) := by
  induction pairs using List.reverseRecOn with
  | nil => exact List.Pairwise.nil
  | append_singleton pairs pair ih =>
      rw [List.foldl_append, List.foldl_cons, List.foldl_nil, placePair]
      split
      · exact ascending_place _ _ ih
      · exact ih

theorem mem_placed (pairs : List (Value × Value)) (p : Nat × Value) :
    p ∈ pairs.foldl placePair [] ↔
      latest (fun key => key.position? = some p.1) pairs = some p.2 := by
  induction pairs using List.reverseRecOn with
  | nil => simp [latest]
  | append_singleton pairs pair ih =>
      rw [List.foldl_append, List.foldl_cons, List.foldl_nil, latest_append, latest_singleton]
      cases found : pair.1.position? with
      | none =>
          have step : placePair (pairs.foldl placePair []) pair = pairs.foldl placePair [] := by
            rw [placePair, found]
          rw [step, ih]
          simp
      | some index =>
          have step : placePair (pairs.foldl placePair []) pair =
              place index pair.2 (pairs.foldl placePair []) := by
            rw [placePair, found]
          rw [step, mem_place_iff index pair.2 (ascending_placed pairs), ih]
          by_cases here : p.1 = index
          · simp [here, Prod.ext_iff, eq_comm]
          · simp [here, Ne.symm here, Prod.ext_iff]

section Placed

variable {pairs : List (Value × Value)}

theorem position_of_mem_placed {p : Nat × Value} (member : p ∈ pairs.foldl placePair []) :
    ∃ pair ∈ pairs, pair.1.position? = some p.1 := by
  obtain ⟨pair, among, found, _⟩ := mem_of_latest ((mem_placed pairs p).mp member)
  exact ⟨pair, among, of_decide_eq_true found⟩

theorem mem_positions {i : Nat} :
    i ∈ (pairs.foldl placePair []).map Prod.fst ↔ ∃ pair ∈ pairs, pair.1.position? = some i := by
  constructor
  · intro member
    obtain ⟨p, inside, rfl⟩ := List.mem_map.mp member
    exact position_of_mem_placed inside
  · rintro ⟨pair, among, found⟩
    obtain ⟨value, last⟩ : ∃ value, latest (fun key => key.position? = some i) pairs = some value :=
      exists_latest among (decide_eq_true found)
    exact List.mem_map.mpr ⟨(i, value), (mem_placed pairs (i, value)).mpr last, rfl⟩

end Placed

/-! ## Keys and values -/

section Held

variable {pairs : List (Value × Value)} (isKey : ∀ pair ∈ pairs, pair.1.IsKey)
include isKey

theorem mem_keys_held {key : Value} :
    key ∈ (ofPairs pairs).held.map Prod.fst ↔ key ∈ pairs.map Prod.fst := by
  rw [held_eq, List.map_append, List.mem_append, List.map_map]
  constructor
  · rintro (position | beside)
    · obtain ⟨p, inside, rfl⟩ := List.mem_map.mp position
      obtain ⟨pair, member, found⟩ := position_of_mem_placed inside
      exact List.mem_map.mpr ⟨pair, member, (isKey pair member).eq_of_position? found⟩
    · obtain ⟨pair, kept, rfl⟩ := List.mem_map.mp beside
      exact List.mem_map_of_mem (List.mem_filter.mp kept).1
  · intro among
    obtain ⟨pair, member, rfl⟩ := List.mem_map.mp among
    have key := isKey pair member
    cases found : pair.1.position? with
    | none =>
        have beside := isBeside_iff.mpr ⟨key.isNull, found⟩
        exact .inr (List.mem_map_of_mem (List.mem_filter.mpr ⟨member, beside⟩))
    | some index =>
        obtain ⟨p, inside, rfl⟩ := List.mem_map.mp (mem_positions.mpr ⟨pair, member, found⟩)
        exact .inl (List.mem_map.mpr ⟨p, inside, (key.eq_of_position? found).symm⟩)

theorem latest_held_of_beside {among : Value → Bool}
    (beside : ∀ pair ∈ pairs, among pair.1 = true → pair.1.position? = none) :
    latest among (ofPairs pairs).held = latest among pairs := by
  have unplaced : latest among ((pairs.foldl placePair []).map
      fun p => (.integer (Int64.ofNat p.1), p.2)) = none := by
    apply latest_eq_none.mpr
    intro entry placed
    obtain ⟨p, inside, rfl⟩ := List.mem_map.mp placed
    obtain ⟨pair, member, found⟩ := position_of_mem_placed inside
    rw [← (isKey pair member).eq_of_position? found, Bool.eq_false_iff]
    intro chosen
    rw [beside pair member chosen] at found
    cases found
  have kept : (pairs.filter isBeside).filter (fun pair => among pair.1) =
      pairs.filter fun pair => among pair.1 := by
    rw [List.filter_filter]
    apply List.filter_congr
    intro pair member
    cases chosen : among pair.1 with
    | true => exact isBeside_iff.mpr ⟨(isKey pair member).isNull, beside pair member chosen⟩
    | false => rfl
  rw [held_eq, latest_append, unplaced, Option.or_none, latest, kept, latest]

theorem latest_held_of_position {k : Value} (key : k.IsKey) {index : Nat}
    (found : k.position? = some index) :
    latest (fun other => other = k) (ofPairs pairs).held =
      latest (fun other => other = k) pairs := by
  have addressed : latest (fun other => other = k) pairs =
      latest (fun other => other.position? = some index) pairs := by
    apply latest_congr
    intro pair member
    rw [decide_eq_decide]
    constructor
    · rintro rfl
      exact found
    · intro other
      rw [(isKey pair member).eq_of_position? other, key.eq_of_position? found]
  have beside : latest (fun other => other = k) (pairs.filter isBeside) = none := by
    apply latest_eq_none.mpr
    intro pair member
    have unplaced := (isBeside_iff.mp (List.mem_filter.mp member).2).2
    apply decide_eq_false
    rintro rfl
    rw [found] at unplaced
    cases unplaced
  -- the position stands for the key and for no other
  have placed_of_latest : ∀ value, latest (fun other => other = k)
      ((pairs.foldl placePair []).map fun p => (.integer (Int64.ofNat p.1), p.2)) = some value →
        (index, value) ∈ pairs.foldl placePair [] := by
    intro value last
    obtain ⟨entry, placed, chosen, rfl⟩ := mem_of_latest last
    obtain ⟨p, inside, rfl⟩ := List.mem_map.mp placed
    obtain ⟨pair, member, place⟩ := position_of_mem_placed inside
    have same : pair.1 = k :=
      ((isKey pair member).eq_of_position? place).trans (of_decide_eq_true chosen)
    rw [same, found, Option.some_inj] at place
    rwa [place]
  rw [addressed, held_eq, latest_append, beside, Option.none_or]
  apply Option.ext
  intro value
  rw [← mem_placed pairs (index, value)]
  constructor
  · exact placed_of_latest value
  · intro member
    have chosen : decide (.integer (Int64.ofNat index) = k) = true :=
      decide_eq_true (key.eq_of_position? found).symm
    obtain ⟨other, last⟩ : ∃ other, latest (fun other => other = k)
        ((pairs.foldl placePair []).map fun p => (.integer (Int64.ofNat p.1), p.2)) = some other :=
      exists_latest (List.mem_map_of_mem member) chosen
    have both := (mem_placed pairs (index, other)).mp (placed_of_latest other last)
    rw [last, ← both]
    exact (mem_placed pairs (index, value)).mp member

theorem latest_held_of_single {among : Value → Bool}
    (single : ∀ a ∈ pairs, ∀ b ∈ pairs, among a.1 = true → among b.1 = true → a.1 = b.1) :
    latest among (ofPairs pairs).held = latest among pairs := by
  by_cases occurs : ∃ pair ∈ pairs, among pair.1 = true
  · obtain ⟨pair, member, chosen⟩ := occurs
    cases found : pair.1.position? with
    | none =>
        apply latest_held_of_beside isKey
        intro other inside chosenOther
        rw [single other inside pair member chosenOther chosen, found]
    | some index =>
        have classes : ∀ key ∈ pairs.map Prod.fst, among key = decide (key = pair.1) := by
          intro key inside
          obtain ⟨other, memberOther, rfl⟩ := List.mem_map.mp inside
          rw [Bool.eq_iff_iff, decide_eq_true_eq]
          constructor
          · intro chosenOther
            exact single other memberOther pair member chosenOther chosen
          · intro same
            rw [same, chosen]
        calc
          latest among (ofPairs pairs).held
            = latest (fun key => key = pair.1) (ofPairs pairs).held := by
              apply latest_congr
              intro entry inside
              exact classes entry.1 ((mem_keys_held isKey).mp (List.mem_map_of_mem inside))
          _ = latest (fun key => key = pair.1) pairs :=
              latest_held_of_position isKey (isKey pair member) found
          _ = latest among pairs :=
              latest_congr fun other inside => (classes other.1 (List.mem_map_of_mem inside)).symm
  · have absent : ∀ key ∈ pairs.map Prod.fst, among key = false := by
      intro key inside
      obtain ⟨pair, member, rfl⟩ := List.mem_map.mp inside
      exact Bool.eq_false_iff.mpr fun chosen => occurs ⟨pair, member, chosen⟩
    have onPairs : latest among pairs = none :=
      latest_eq_none.mpr fun pair member => absent pair.1 (List.mem_map_of_mem member)
    rw [onPairs]
    apply latest_eq_none.mpr
    intro entry member
    exact absent entry.1 ((mem_keys_held isKey).mp (List.mem_map_of_mem member))

end Held

end TableDraft

end LuaAsset
