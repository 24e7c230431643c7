import LuaAsset.Literal.Reader

/-! # Literals in canonical form

The syntax of literals (`Term`), their canonical text and their value.  The value of a table is what
its pairs build (`Term.value`); a field without a key takes the next position even if its value is
`nil`. -/

set_option autoImplicit false

namespace LuaAsset

namespace Literal

def isName : Bytes → Bool
  | [] => false
  | c :: rest => isNameStart c && rest.all isNameByte

structure Name where
  bytes : Bytes
  proper : isName bytes = true

inductive Scalar where
  | bool (b : Bool)
  | integer (n : Int)
  | string (s : Bytes)

inductive Key where
  | position
  | name (f : Name)
  | bracketed (a : Scalar)

/-- Literals.  A table records how many spaces follow each of its commas. -/
inductive Term where
  | nil
  | scalar (a : Scalar)
  | table (gap : Nat) (fields : List (Key × Term))

/-- Induction on literals, with a hypothesis for the values of the fields of a table. -/
theorem Term.induction {P : Term → Prop} (nil : P .nil) (scalar : ∀ a, P (.scalar a))
    (table : ∀ gap fields, (∀ field ∈ fields, P field.2) → P (.table gap fields)) (v : Term) :
    P v :=
  @Term.rec P (fun fields => ∀ field ∈ fields, P field.2) (fun field => P field.2) nil scalar table
    (by simp) (fun _ _ first rest => List.forall_mem_cons.mpr ⟨first, rest⟩)
    (fun _ _ value => value) v

/-! ## Text -/

/-- A byte inside a string; backslash, quote and line breaks are escaped. -/
def escaped (c : UInt8) : Bytes :=
  if c = Ascii.backslash ∨ c = Ascii.singleQuote then [Ascii.backslash, c]
  else if c = Ascii.lineFeed then [Ascii.backslash, 0x6e]
  else [c]

def quoted (s : Bytes) : Bytes :=
  Ascii.singleQuote :: (s.flatMap escaped ++ [Ascii.singleQuote])

def Scalar.written : Scalar → Bytes
  | .bool b => if b then text "true" else text "false"
  | .integer n => decimalInt n
  | .string s => quoted s

def Key.written : Key → Bytes
  | .position => []
  | .name f => f.bytes ++ [Ascii.equals]
  | .bracketed a => Ascii.openBracket :: (a.written ++ [Ascii.closeBracket, Ascii.equals])

def separated (gap : Nat) : List Bytes → Bytes
  | [] => []
  | [part] => part
  | part :: next :: rest =>
      part ++ Ascii.comma :: (List.replicate gap Ascii.space ++ separated gap (next :: rest))

def braced (inner : Bytes) : Bytes := Ascii.openBrace :: (inner ++ [Ascii.closeBrace])

mutual

def Term.written : Term → Bytes
  | .nil => text "nil"
  | .scalar a => a.written
  | .table gap fields => braced (separated gap (writtenFields fields))

def writtenFields : List (Key × Term) → List Bytes
  | [] => []
  | (key, value) :: rest => (key.written ++ value.written) :: writtenFields rest

end

/-! ## Values -/

/-- An integer beyond the signed range is the float nearest to it. -/
def integerValue (n : Int) : Value :=
  if -2 ^ 63 ≤ n ∧ n < 2 ^ 63 then .integer (Int64.ofInt n) else .float (Binary64.ofInt n)

def Scalar.value : Scalar → Value
  | .bool b => .bool b
  | .integer n => integerValue n
  | .string s => .string s

/-- The key that a field addresses in a table with the given number of positional fields. -/
def Key.address (taken : Nat) : Key → Value
  | .position => .integer (Int64.ofNat (taken + 1))
  | .name f => .string f.bytes
  | .bracketed a => normalKey a.value

def Key.taken (before : Nat) : Key → Nat
  | .position => before + 1
  | .name _ | .bracketed _ => before

/-- The key-value pairs of fields, given the number of positional fields before them. -/
def pairs (before : Nat) : List (Key × Value) → List (Value × Value)
  | [] => []
  | (key, v) :: rest => (key.address before, v) :: pairs (key.taken before) rest

/-- The table of fields, less those with value `nil`. -/
def tableValue (fields : List (Key × Value)) : Value :=
  (TableDraft.ofPairs ((pairs 0 fields).filter fun pair => !pair.2.isNull)).build

mutual

def Term.value : Term → Value
  | .nil => .null
  | .scalar a => a.value
  | .table _ fields => tableValue (fieldValues fields)

def fieldValues : List (Key × Term) → List (Key × Value)
  | [] => []
  | (key, value) :: rest => (key, value.value) :: fieldValues rest

end

mutual

def Term.depth : Term → Nat
  | .nil => 0
  | .scalar _ => 0
  | .table _ fields => deepest fields + 1

def deepest : List (Key × Term) → Nat
  | [] => 0
  | (_, value) :: rest => max value.depth (deepest rest)

end

end Literal

end LuaAsset
