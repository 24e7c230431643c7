import LuaAsset.Table

/-! # The contents of a table

Every value in a built table was added: a property of all values added holds of all values in the
result (`TableDraft.Holds.build`). -/

set_option autoImplicit false

namespace LuaAsset

namespace Value

def children : Value → List Value
  | .array items => items
  | .object fields => fields.map Prod.snd
  | _ => []

inductive Occurs (part : Value) : Value → Prop
  | self : Occurs part part
  | inside {child whole : Value} : child ∈ whole.children → Occurs part child → Occurs part whole

end Value

theorem mem_place {α : Type} {index : Nat} {value : α} {positions : List (Nat × α)} {p : Nat × α}
    (member : p ∈ place index value positions) : p.2 = value ∨ p ∈ positions := by
  induction positions with
  | nil =>
      rw [place, List.mem_singleton] at member
      exact .inl (by rw [member])
  | cons first rest ih =>
      obtain ⟨i, v⟩ := first
      rw [place] at member
      split at member
      · obtain same | member := List.mem_cons.mp member
        · exact .inl (by rw [same])
        · exact .inr member
      · split at member
        · obtain same | member := List.mem_cons.mp member
          · exact .inl (by rw [same])
          · exact .inr (List.mem_cons_of_mem _ member)
        · obtain same | member := List.mem_cons.mp member
          · exact .inr (by rw [same]; exact List.mem_cons_self)
          · exact (ih member).imp id (List.mem_cons_of_mem _)

theorem mem_assign {κ α : Type} [DecidableEq κ] {name : κ} {value : α} {fields : List (κ × α)}
    {field : κ × α} (member : field ∈ assign name value fields) :
    field.2 = value ∨ field ∈ fields := by
  induction fields with
  | nil =>
      rw [assign, List.mem_singleton] at member
      exact .inl (by rw [member])
  | cons first rest ih =>
      obtain ⟨k, v⟩ := first
      rw [assign] at member
      split at member
      · obtain same | member := List.mem_cons.mp member
        · exact .inl (by rw [same])
        · exact .inr (List.mem_cons_of_mem _ member)
      · obtain same | member := List.mem_cons.mp member
        · exact .inr (by rw [same]; exact List.mem_cons_self)
        · exact (ih member).imp id (List.mem_cons_of_mem _)

namespace TableDraft

structure Holds (P : Value → Prop) (t : TableDraft) : Prop where
  positional : ∀ p ∈ t.positional, P p.2
  keyed : ∀ entry ∈ t.keyed, P entry.2

theorem holds_empty (P : Value → Prop) : empty.Holds P where
  positional := by simp [empty]
  keyed := by simp [empty]

theorem Holds.add {P : Value → Prop} {t : TableDraft} (holds : t.Holds P) (key value : Value)
    (new : P value) : (t.add key value).Holds P := by
  rw [TableDraft.add]
  split
  · exact holds
  · split
    · refine ⟨fun p member => ?_, holds.keyed⟩
      obtain same | member := mem_place member
      · rw [same]
        exact new
      · exact holds.positional p member
    · refine ⟨holds.positional, fun entry member => ?_⟩
      obtain member | member := List.mem_append.mp member
      · exact holds.keyed entry member
      · rw [List.mem_singleton.mp member]
        exact new

theorem Holds.addAll {P : Value → Prop} (pairs : List (Value × Value))
    (new : ∀ pair ∈ pairs, P pair.2) : ∀ {t : TableDraft}, t.Holds P →
      (pairs.foldl (fun t pair => t.add pair.1 pair.2) t).Holds P := by
  induction pairs with
  | nil => exact id
  | cons pair pairs ih =>
      intro t holds
      exact ih (fun other member => new other (List.mem_cons_of_mem _ member))
        (holds.add pair.1 pair.2 (new pair List.mem_cons_self))

theorem holds_ofPairs {P : Value → Prop} (pairs : List (Value × Value))
    (new : ∀ pair ∈ pairs, P pair.2) : (ofPairs pairs).Holds P :=
  Holds.addAll pairs new (holds_empty P)

theorem Holds.entries {P : Value → Prop} {t : TableDraft} (holds : t.Holds P) :
    ∀ entry ∈ t.entries, P entry.2 := by
  intro entry member
  rw [TableDraft.entries, mem_stableSort, List.mem_append] at member
  obtain member | member := member
  · obtain ⟨p, inside, rfl⟩ := List.mem_map.mp member
    exact holds.positional p inside
  · exact holds.keyed entry member

theorem Holds.fields {P : Value → Prop} {t : TableDraft} (holds : t.Holds P) :
    ∀ field ∈ t.fields, P field.2 := by
  have written : ∀ (entries : List (Value × Value)) (fields : List (Bytes × Value)),
      (∀ entry ∈ entries, P entry.2) → (∀ field ∈ fields, P field.2) →
      ∀ field ∈ entries.foldl (fun fields entry => assign entry.1.keyName entry.2 fields) fields,
        P field.2 := by
    intro entries
    induction entries with
    | nil => exact fun _ _ old => old
    | cons entry entries ih =>
        intro fields new old
        refine ih _ (fun other member => new other (List.mem_cons_of_mem _ member)) ?_
        intro field member
        obtain same | member := mem_assign member
        · rw [same]
          exact new entry List.mem_cons_self
        · exact old field member
  exact written t.entries [] holds.entries (by simp)

theorem Holds.build {P : Value → Prop} {t : TableDraft} (holds : t.Holds P) :
    ∀ child ∈ t.build.children, P child := by
  intro child member
  rw [TableDraft.build] at member
  split at member
  · obtain ⟨p, inside, rfl⟩ := List.mem_map.mp member
    exact holds.positional p inside
  · obtain ⟨field, inside, rfl⟩ := List.mem_map.mp member
    exact holds.fields field inside

theorem build_empty : empty.build = .object [] := by
  have nothing : empty.entries = [] := by
    apply List.eq_nil_iff_forall_not_mem.mpr
    intro entry member
    rw [entries, mem_stableSort] at member
    cases member
  rw [TableDraft.build, if_neg (by decide), TableDraft.fields, nothing]
  rfl

theorem ofPairs_filter (pairs : List (Value × Value)) :
    ofPairs (pairs.filter fun pair => !pair.1.isNull) = ofPairs pairs := by
  rw [ofPairs, ofPairs, List.foldl_filter]
  congr 1
  funext t pair
  cases null : pair.1.isNull with
  | true => simp [TableDraft.add, null]
  | false => simp

end TableDraft

end LuaAsset
