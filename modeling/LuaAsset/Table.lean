import LuaAsset.Json.Printer
import LuaAsset.StableSort

/-! # Tables under construction

A `TableDraft` collects the pairs of one table.  Positive integer keys are positions, where a later
write replaces an earlier one; other keys are kept in order of arrival; a key `null` is dropped.
`TableDraft.build` decides the shape: an array if the positions are exactly `1 … N` and there is no
other key (`build_eq_array_iff`), else an object with numbers first, in ascending order, and the
other keys by name. -/

set_option autoImplicit false

namespace LuaAsset

namespace Value

def isNumber : Value → Bool
  | .integer _ | .natural _ | .float _ => true
  | _ => false

/-- The field name of a key.  An unsigned integer is named by the signed integer of its 64 bits. -/
def keyName : Value → Bytes
  | .string s => s
  | .integer n => decimalInt n.toInt
  | .natural n => decimalInt n.toInt64.toInt
  | .float x => numberText x
  | .bool b => if b then text "true" else text "false"
  | v => v.compact

example : keyName (.array [.string [0xff]]) = keyName (.array [.string [0xfe]]) := by decide

def signedBits : Value → Int64
  | .integer n => n
  | .natural n => n.toInt64
  | _ => 0

def nearestFloat : Value → Binary64
  | .integer n => Binary64.ofInt n.toInt
  | .natural n => Binary64.ofInt n.toNat
  | .float x => x
  | _ => default

def isFloat : Value → Bool
  | .float _ => true
  | _ => false

/-- The order of keys in an object: numbers before names; numbers by value, as floats if one of them
is a float; names by their bytes. -/
def keyLt (a b : Value) : Bool :=
  if a.isNumber && b.isNumber then
    if a.isFloat || b.isFloat then a.nearestFloat.lt b.nearestFloat
    else a.signedBits < b.signedBits
  else if a.isNumber != b.isNumber then a.isNumber
  else bytesLt a.keyName b.keyName

/-- The position of a key: a positive integer in the signed range. -/
def position? : Value → Option Nat
  | .integer n => if 1 ≤ n.toInt then some n.toInt.toNat else none
  | .natural n => if 1 ≤ n.toNat ∧ n.toNat < 2 ^ 63 then some n.toNat else none
  | _ => none

end Value

def place {α : Type} (index : Nat) (value : α) : List (Nat × α) → List (Nat × α)
  | [] => [(index, value)]
  | (i, v) :: rest =>
      if index < i then (index, value) :: (i, v) :: rest
      else if index = i then (index, value) :: rest
      else (i, v) :: place index value rest

structure TableDraft where
  /-- The positions written so far, in ascending order. -/
  positional : List (Nat × Value)
  /-- The pairs with other keys, in order of arrival. -/
  keyed : List (Value × Value)
  /-- The number of fields without a key so far. -/
  handedOut : Nat

namespace TableDraft

def empty : TableDraft := ⟨[], [], 0⟩

def isEmpty (t : TableDraft) : Bool := t.positional.isEmpty && t.keyed.isEmpty

def add (t : TableDraft) (key value : Value) : TableDraft :=
  if key.isNull then t
  else match key.position? with
    | some index => { t with positional := place index value t.positional }
    | none => { t with keyed := t.keyed ++ [(key, value)] }

def nextPosition (t : TableDraft) : Nat × TableDraft :=
  (t.handedOut + 1, { t with handedOut := t.handedOut + 1 })

/-- Whether the keys are exactly `1 … N` for a positive `N`. -/
def isArray (t : TableDraft) : Bool :=
  t.keyed.isEmpty && t.positional.getLast?.any fun last => last.1 == t.positional.length

def entries (t : TableDraft) : List (Value × Value) :=
  stableSort (fun a b => a.1.keyLt b.1)
    (t.positional.map (fun p => (.integer (Int64.ofNat p.1), p.2)) ++ t.keyed)

/-- The fields of an object; a later pair of the same name replaces the value in place. -/
def fields (t : TableDraft) : List (Bytes × Value) :=
  t.entries.foldl (fun fields entry => assign entry.1.keyName entry.2 fields) []

def build (t : TableDraft) : Value :=
  if t.isArray then .array (t.positional.map Prod.snd) else .object t.fields

theorem build_eq_array_iff (t : TableDraft) (items : List Value) :
    t.build = .array items ↔ t.isArray = true ∧ items = t.positional.map Prod.snd := by
  unfold build
  split
  · rename_i h
    simp [h, eq_comm]
  · rename_i h
    simp [h]

def ofPairs (pairs : List (Value × Value)) : TableDraft :=
  pairs.foldl (fun t pair => t.add pair.1 pair.2) empty

end TableDraft

end LuaAsset
