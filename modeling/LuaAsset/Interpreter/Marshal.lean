import LuaAsset.Failure
import LuaAsset.Table

/-! # Tables of an interpreter

Tables live in a heap, where they may be shared or cyclic, and are accessed through a stack.
`marshal` converts the table at a stack index to a value: `Thread.next` yields the pair after the
key on top of the stack, `walk` converts the pairs of a table, and `expandWithin` expands nested
tables, where a table that is already being visited becomes `null`. -/

set_option autoImplicit false

namespace LuaAsset

namespace Interpreter

/-- A value on the interpreter's side.  A table is its index in the heap; other objects are a type
number and an identity. -/
inductive Cell where
  | nil
  | bool (b : Bool)
  | integer (n : Int64)
  | float (x : Binary64)
  | string (s : Bytes)
  | table (place : Nat)
  | other (type : Nat) (identity : Nat := 0)
  deriving DecidableEq, Repr

instance : Inhabited Cell := ⟨.nil⟩

abbrev Heap := List (List (Cell × Cell))

def Heap.pairs (heap : Heap) (place : Nat) : List (Cell × Cell) := heap.getD place []

/-- The pairs of a table after a key; all pairs follow `nil`. -/
def following (pairs : List (Cell × Cell)) (key : Cell) : List (Cell × Cell) :=
  if key = .nil then pairs else (pairs.dropWhile fun pair => pair.1 ≠ key).drop 1

/-- A stack, top first, and how often it may still grow; `none` is no limit. -/
structure Thread where
  stack : List Cell
  growths : Option Nat
  deriving DecidableEq, Repr

namespace Thread

def push (t : Thread) (cell : Cell) : Thread := { t with stack := cell :: t.stack }

def pop (t : Thread) (n : Nat) : Thread := { t with stack := t.stack.drop n }

/-- An index from the bottom; a negative one counts from the top. -/
def absolute (t : Thread) (index : Int) : Nat :=
  if 0 < index then index.toNat else (t.stack.length + index + 1).toNat

def cellAt (t : Thread) (index : Nat) : Cell := t.stack.reverse.getD (index - 1) .nil

def grow? (t : Thread) : Option Thread :=
  match t.growths with
  | none => some t
  | some 0 => none
  | some (n + 1) => some { t with growths := some n }

/-- Pops the key on top of the stack and pushes the pair after it in the table at an index, value on
top; pushes nothing after the last pair. -/
def next (t : Thread) (heap : Heap) (index : Nat) : Bool × Thread :=
  match t.cellAt index with
  | .table place =>
      match following (heap.pairs place) (t.stack.headD .nil) with
      | (key, value) :: _ => (true, ((t.pop 1).push key).push value)
      | [] => (false, t.pop 1)
  | _ => (false, t.pop 1)

end Thread

def Cell.plainValue : Cell → Value
  | .bool b => .bool b
  | .integer n => .integer n
  | .float x => .float x
  | .string s => .string s
  | .nil | .table _ | .other _ _ => .null

/-- The value of a field, where a float that is not finite becomes `null`. -/
def fieldValue : Value → Value
  | .float x => if x.isFinite then .float x else .null
  | v => v

structure Visit where
  thread : Thread
  visiting : List Nat

abbrev Expander := Int → Visit → Except Failure (Value × Visit)

def convert (expand : Expander) : Expander := fun index s =>
  match s.thread.cellAt (s.thread.absolute index) with
  | .table _ => expand index s
  | cell => .ok (cell.plainValue, s)

/-- Adds the remaining pairs of the table at an index to a draft, converting the value of a pair
before its key.  The key stays on the stack for `next`.  A table with distinct keys takes at most
one round per pair and a last one. -/
def walk (heap : Heap) (expand : Expander) (index : Nat) :
    Nat → TableDraft → Visit → Except Failure (TableDraft × Visit)
  | 0, draft, s => .ok (draft, s)
  | rounds + 1, draft, s =>
      match s.thread.next heap index with
      | (false, thread) => .ok (draft, { s with thread := thread })
      | (true, thread) => do
          let (value, s) ← convert expand (-1) { s with thread := thread }
          let (key, s) ← convert expand (-2) s
          walk heap expand index rounds (draft.add key (fieldValue value))
            { s with thread := s.thread.pop 1 }

/-- Expands the table at an index unless it is being visited; `levels` bounds the nesting of
expansions. -/
def expandWithin (heap : Heap) : Nat → Expander
  | 0, _, s => .ok (.null, s)
  | levels + 1, index, s =>
      match s.thread.cellAt (s.thread.absolute index) with
      | .table place =>
          if place ∈ s.visiting then .ok (.null, s)
          else match s.thread.grow? with
            | none => .error .stackExhausted
            | some thread => do
                let (draft, s) ← walk heap (expandWithin heap levels)
                  (s.thread.absolute index) ((heap.pairs place).length + 1) .empty
                  ⟨thread.push .nil, place :: s.visiting⟩
                return (draft.build, { s with visiting := s.visiting.erase place })
      | _ => .ok (.null, s)

/-- The value of the table at a stack index, and the stack afterwards. -/
def marshal (heap : Heap) (index : Int) (t : Thread) : Except Failure (Value × Thread) :=
  match expandWithin heap (heap.length + 1) index ⟨t, []⟩ with
  | .error failure => .error failure
  | .ok (value, s) => .ok (value, s.thread)

end Interpreter

end LuaAsset
