import LuaAsset.Proofs.Literal.Writing

/-! # The spellings of a literal

The choices between fields: a comma or a semicolon, any number of spaces, and an optional separator
at the end.  `Spells` relates a literal to its texts (`spells_written`). -/

set_option autoImplicit false

namespace LuaAsset

namespace Literal

def separators : Bytes := [Ascii.comma, Ascii.semicolon]

inductive FieldTexts (spells : Term → Bytes → Prop) : List (Key × Term) → Bytes → Prop
  | none : FieldTexts spells [] []
  | last (key : Key) {v : Term} {s : Bytes} (value : spells v s) :
      FieldTexts spells [(key, v)] (key.written ++ s)
  | more (key : Key) {v : Term} {s : Bytes} (value : spells v s) {d : UInt8}
      (separator : d ∈ separators) (gap : Nat) {fields : List (Key × Term)} {inner : Bytes}
      (later : FieldTexts spells fields inner) :
      FieldTexts spells ((key, v) :: fields)
        (key.written ++ s ++ d :: (List.replicate gap Ascii.space ++ inner))

/-- The spellings of a literal; the spaces recorded in a table are the canonical writer's choice. -/
inductive Spells : Term → Bytes → Prop
  | nil : Spells .nil (text "nil")
  | scalar (a : Scalar) : Spells (.scalar a) a.written
  | table (gap : Nat) {fields : List (Key × Term)} {inner : Bytes}
      (texts : FieldTexts Spells fields inner) : Spells (.table gap fields) (braced inner)

theorem FieldTexts.length_le {spells : Term → Bytes → Prop} {fields : List (Key × Term)}
    {inner : Bytes} (texts : FieldTexts spells fields inner) :
    fields.length ≤ inner.length + 1 := by
  induction texts with
  | none => exact Nat.zero_le _
  | last key value => exact Nat.le_add_left 1 _
  | more key value separator gap later ih =>
      simp only [List.length_append, List.length_cons] at ih ⊢
      omega

theorem fieldTexts_separated (gap : Nat) {fields : List (Key × Term)}
    (all : ∀ field ∈ fields, Spells field.2 field.2.written) :
    FieldTexts Spells fields (separated gap (writtenFields fields)) := by
  induction fields with
  | nil => exact .none
  | cons field fields ih =>
      obtain ⟨first, later⟩ := List.forall_mem_cons.mp all
      cases fields with
      | nil => exact .last field.1 first
      | cons next fields => exact .more field.1 first (by decide) gap (ih later)

theorem spells_written (v : Term) : Spells v v.written := by
  induction v using Term.induction with
  | nil => exact .nil
  | scalar a => exact .scalar a
  | table gap fields ih => exact .table gap (fieldTexts_separated gap ih)

end Literal

end LuaAsset
