import LuaAsset.Bytes
import LuaAsset.Number.Binary64

/-! # Values

Decoded tables and records.  A table with exactly the keys `1 … N` is an array, any other is an
object with ordered fields; `assign` replaces a field in place or appends it. -/

set_option autoImplicit false

namespace LuaAsset

/-- Decoded values.  `natural` is an integer beyond the signed range, as a dump may write. -/
inductive Value where
  | null
  | bool (b : Bool)
  | integer (n : Int64)
  | natural (n : UInt64)
  | float (x : Binary64)
  | string (s : Bytes)
  | array (items : List Value)
  | object (fields : List (Bytes × Value))
  deriving Repr

namespace Value

instance : Inhabited Value := ⟨.null⟩

mutual

def decEq : (a b : Value) → Decidable (a = b)
  | .null, .null => isTrue rfl
  | .bool a, .bool b => decidable_of_iff (a = b) (by simp)
  | .integer a, .integer b => decidable_of_iff (a = b) (by simp)
  | .natural a, .natural b => decidable_of_iff (a = b) (by simp)
  | .float a, .float b => decidable_of_iff (a = b) (by simp)
  | .string a, .string b => decidable_of_iff (a = b) (by simp)
  | .array a, .array b =>
      match decEqItems a b with
      | isTrue h => isTrue (by rw [h])
      | isFalse h => isFalse (by simpa using h)
  | .object a, .object b =>
      match decEqFields a b with
      | isTrue h => isTrue (by rw [h])
      | isFalse h => isFalse (by simpa using h)
  | .null, .bool _ | .null, .integer _ | .null, .natural _ | .null, .float _
  | .null, .string _ | .null, .array _ | .null, .object _
  | .bool _, .null | .bool _, .integer _ | .bool _, .natural _ | .bool _, .float _
  | .bool _, .string _ | .bool _, .array _ | .bool _, .object _
  | .integer _, .null | .integer _, .bool _ | .integer _, .natural _ | .integer _, .float _
  | .integer _, .string _ | .integer _, .array _ | .integer _, .object _
  | .natural _, .null | .natural _, .bool _ | .natural _, .integer _ | .natural _, .float _
  | .natural _, .string _ | .natural _, .array _ | .natural _, .object _
  | .float _, .null | .float _, .bool _ | .float _, .integer _ | .float _, .natural _
  | .float _, .string _ | .float _, .array _ | .float _, .object _
  | .string _, .null | .string _, .bool _ | .string _, .integer _ | .string _, .natural _
  | .string _, .float _ | .string _, .array _ | .string _, .object _
  | .array _, .null | .array _, .bool _ | .array _, .integer _ | .array _, .natural _
  | .array _, .float _ | .array _, .string _ | .array _, .object _
  | .object _, .null | .object _, .bool _ | .object _, .integer _ | .object _, .natural _
  | .object _, .float _ | .object _, .string _ | .object _, .array _ => isFalse (by simp)

def decEqItems : (a b : List Value) → Decidable (a = b)
  | [], [] => isTrue rfl
  | [], _ :: _ => isFalse (by simp)
  | _ :: _, [] => isFalse (by simp)
  | a :: s, b :: t =>
      match decEq a b, decEqItems s t with
      | isTrue h, isTrue k => isTrue (by rw [h, k])
      | isFalse h, _ => isFalse (by simp [h])
      | _, isFalse k => isFalse (by simp [k])

def decEqFields : (a b : List (Bytes × Value)) → Decidable (a = b)
  | [], [] => isTrue rfl
  | [], _ :: _ => isFalse (by simp)
  | _ :: _, [] => isFalse (by simp)
  | (x, a) :: s, (y, b) :: t =>
      if hk : x = y then
        match decEq a b, decEqFields s t with
        | isTrue h, isTrue k => isTrue (by rw [hk, h, k])
        | isFalse h, _ => isFalse (by simp [h])
        | _, isFalse k => isFalse (by simp [k])
      else isFalse (by simp [hk])

end

instance : DecidableEq Value := decEq

def isNull : Value → Bool
  | .null => true
  | _ => false

end Value

/-! ## Fields in order -/

/-- Writes a field: in place if its name is present, else at the end. -/
def assign {κ α : Type} [DecidableEq κ] (name : κ) (value : α) : List (κ × α) → List (κ × α)
  | [] => [(name, value)]
  | (k, v) :: rest => if k = name then (k, value) :: rest else (k, v) :: assign name value rest

theorem keys_assign {α : Type} (name : Bytes) (value : α) (fields : List (Bytes × α)) :
    (assign name value fields).map Prod.fst =
      if name ∈ fields.map Prod.fst then fields.map Prod.fst
      else fields.map Prod.fst ++ [name] := by
  induction fields with
  | nil => simp [assign]
  | cons field rest ih =>
      obtain ⟨k, v⟩ := field
      by_cases h : k = name
      · simp [assign, h]
      · simp only [assign, h, if_false, List.map_cons, ih, List.mem_cons, Ne.symm h, false_or]
        split <;> simp

theorem lookup_assign_self {α : Type} (name : Bytes) (value : α) (fields : List (Bytes × α)) :
    (assign name value fields).lookup name = some value := by
  induction fields with
  | nil => simp [assign]
  | cons field rest ih =>
      obtain ⟨k, v⟩ := field
      by_cases h : k = name
      · simp [assign, h]
      · have hb : (name == k) = false := beq_eq_false_iff_ne.mpr (Ne.symm h)
        simp [assign, h, List.lookup_cons, hb, ih]

theorem lookup_assign_of_ne {α : Type} {name other : Bytes} (h : other ≠ name) (value : α)
    (fields : List (Bytes × α)) :
    (assign name value fields).lookup other = fields.lookup other := by
  have hb : (other == name) = false := beq_eq_false_iff_ne.mpr h
  induction fields with
  | nil => simp [assign, List.lookup_cons, hb]
  | cons field rest ih =>
      obtain ⟨k, v⟩ := field
      by_cases hk : k = name
      · simp [assign, hk, List.lookup_cons, hb]
      · simp [assign, hk, List.lookup_cons, ih]

end LuaAsset
