import LuaAsset.Number.Numeral

/-! # Arithmetic in scripts

Expressions over 64-bit integers with C precedence. -/

set_option autoImplicit false

namespace LuaAsset

namespace Shell

inductive BinaryOperator where
  | multiply | divide | remainder
  | add | subtract
  | shiftLeft | shiftRight
  | less | lessEqual | greater | greaterEqual
  | equal | notEqual
  | bitAnd | bitXor | bitOr
  deriving DecidableEq, Repr

inductive Expression where
  | number (n : Int64)
  | named (name : Bytes)
  | negate (e : Expression)
  | complement (e : Expression)
  | not (e : Expression)
  | binary (operator : BinaryOperator) (a b : Expression)
  | and (a b : Expression)
  | or (a b : Expression)
  | choice (condition a b : Expression)
  | assign (name : Bytes) (operator : Option BinaryOperator) (e : Expression)
  deriving Repr

inductive ArithmeticFault where
  | expectingPrimary
  | expectingParenthesis
  | expectingColon
  | expectingEnd
  | divisionByZero
  deriving DecidableEq, Repr

def ArithmeticFault.wording : ArithmeticFault → Bytes
  | .expectingPrimary => text "expecting primary"
  | .expectingParenthesis => text "expecting ')'"
  | .expectingColon => text "expecting ':'"
  | .expectingEnd => text "expecting EOF"
  | .divisionByZero => text "division by zero"

/-! ## Numerals -/

def largest : Nat := 2 ^ 63 - 1

/-- A signed number surrounded by blanks. -/
def signedNumeral? (s : Bytes) : Option Int64 :=
  match Numeral.integer? s with
  | some (n, rest) =>
      if rest.all Ascii.isBlank && n.natAbs ≤ largest then some (Int64.ofInt n) else none
  | none => none

/-! ## Symbols -/

inductive Symbol where
  | number (n : Int64)
  | named (name : Bytes)
  | operator (s : Bytes)
  deriving DecidableEq, Repr

def operators : List Bytes :=
  ["<<=", ">>=", "||", "&&", "<<", ">>", "<=", ">=", "==", "!=", "*=", "/=", "%=", "+=", "-=", "&=",
    "^=", "|=", "=", "<", ">", "+", "-", "*", "/", "%", "&", "|", "^", "~", "!", "?", ":", "(",
    ")"].map text

/-- The tokens of an expression; an unknown byte is an operator that is never expected. -/
def symbolsOf : Nat → Bytes → List Symbol
  | 0, _ => []
  | _, [] => []
  | fuel + 1, c :: rest =>
      if Ascii.isBlank c then symbolsOf fuel rest
      else if Ascii.isDigit c then
        let (n, behind) := Numeral.natural (c :: rest)
        .number (Int64.ofNat (min n largest)) :: symbolsOf fuel behind
      else if Ascii.isLetter c || c == Ascii.underscore then
        let name := (c :: rest).takeWhile fun d =>
          Ascii.isLetter d || Ascii.isDigit d || d == Ascii.underscore
        .named name :: symbolsOf fuel ((c :: rest).drop name.length)
      else match operators.find? (·.isPrefixOf (c :: rest)) with
        | some operator => .operator operator :: symbolsOf fuel ((c :: rest).drop operator.length)
        | none => .operator [c] :: symbolsOf fuel rest

/-- The binary operators with their precedence. -/
def binaryOperators : List (Bytes × BinaryOperator × Nat) :=
  [("*", .multiply, 10), ("/", .divide, 10), ("%", .remainder, 10), ("+", .add, 9),
    ("-", .subtract, 9), ("<<", .shiftLeft, 8), (">>", .shiftRight, 8), ("<", .less, 7),
    ("<=", .lessEqual, 7), (">", .greater, 7), (">=", .greaterEqual, 7), ("==", .equal, 6),
    ("!=", .notEqual, 6), ("&", .bitAnd, 5), ("^", .bitXor, 4), ("|", .bitOr, 3)].map
    fun (s, operator, tightness) => (text s, operator, tightness)

/-- The operator of a compound assignment; `none` for plain assignment. -/
def assignment? (s : Bytes) : Option (Option BinaryOperator) :=
  if s = text "=" then some none
  else match s.reverse with
    | Ascii.equals :: front =>
        let operator := front.reverse
        if (["*", "/", "%", "+", "-", "<<", ">>", "&", "^", "|"].map text).contains operator then
          (binaryOperators.lookup operator).map fun found => some found.1
        else none
    | _ => none

/-! ## Reading -/

namespace Expression

abbrev Rest := List Symbol

abbrev Outcome := Except ArithmeticFault (Expression × Rest)

mutual

def assignment : Nat → Rest → Outcome
  | 0, _ => .error .expectingPrimary
  | fuel + 1, symbols =>
      match symbols with
      | .named name :: .operator s :: rest =>
          match assignment? s with
          | some operator => do
              let (e, rest) ← assignment fuel rest
              return (.assign name operator e, rest)
          | none => conditional fuel symbols
      | symbols => conditional fuel symbols

def conditional : Nat → Rest → Outcome
  | 0, _ => .error .expectingPrimary
  | fuel + 1, symbols => do
      let (condition, rest) ← disjunction fuel symbols
      match rest with
      | .operator [Ascii.question] :: rest =>
          let (a, rest) ← assignment fuel rest
          match rest with
          | .operator [Ascii.colon] :: rest =>
              let (b, rest) ← conditional fuel rest
              return (.choice condition a b, rest)
          | _ => .error .expectingColon
      | rest => return (condition, rest)

def disjunction : Nat → Rest → Outcome
  | 0, _ => .error .expectingPrimary
  | fuel + 1, symbols => do
      let (a, rest) ← conjunction fuel symbols
      match rest with
      | .operator [Ascii.bar, Ascii.bar] :: rest =>
          let (b, rest) ← disjunction fuel rest
          return (.or a b, rest)
      | rest => return (a, rest)

def conjunction : Nat → Rest → Outcome
  | 0, _ => .error .expectingPrimary
  | fuel + 1, symbols => do
      let (a, rest) ← primary fuel symbols
      let (a, rest) ← operands fuel 0 a rest
      match rest with
      | .operator [Ascii.ampersand, Ascii.ampersand] :: rest =>
          let (b, rest) ← conjunction fuel rest
          return (.and a b, rest)
      | rest => return (a, rest)

/-- Extends an operand by the operators of at least a given precedence. -/
def operands : Nat → Nat → Expression → Rest → Outcome
  | 0, _, _, _ => .error .expectingPrimary
  | fuel + 1, least, a, symbols =>
      match symbols with
      | .operator s :: rest =>
          match binaryOperators.lookup s with
          | some (operator, tightness) =>
              if tightness < least then .ok (a, symbols)
              else do
                let (b, rest) ← primary fuel rest
                let (b, rest) ← operands fuel (tightness + 1) b rest
                operands fuel least (.binary operator a b) rest
          | none => .ok (a, symbols)
      | _ => .ok (a, symbols)

def primary : Nat → Rest → Outcome
  | 0, _ => .error .expectingPrimary
  | fuel + 1, symbols =>
      match symbols with
      | .number n :: rest => .ok (.number n, rest)
      | .named name :: rest => .ok (.named name, rest)
      | .operator [Ascii.openParenthesis] :: rest => do
          let (e, rest) ← assignment fuel rest
          match rest with
          | .operator [Ascii.closeParenthesis] :: rest => return (e, rest)
          | _ => .error .expectingParenthesis
      | .operator [Ascii.plus] :: rest => primary fuel rest
      | .operator [Ascii.minus] :: rest => do
          let (e, rest) ← primary fuel rest
          return (.negate e, rest)
      | .operator [Ascii.exclamation] :: rest => do
          let (e, rest) ← primary fuel rest
          return (.not e, rest)
      | .operator [Ascii.tilde] :: rest => do
          let (e, rest) ← primary fuel rest
          return (.complement e, rest)
      | _ => .error .expectingPrimary

end

def ofText (s : Bytes) : Except ArithmeticFault Expression := do
  let symbols := symbolsOf (s.length + 1) s
  let (e, rest) ← assignment (8 * symbols.length + 8) symbols
  if rest.isEmpty then return e else .error .expectingEnd

end Expression

namespace BinaryOperator

def ofBool (b : Bool) : Int64 := if b then 1 else 0

def apply (operator : BinaryOperator) (a b : Int64) : Except ArithmeticFault Int64 :=
  match operator with
  | .multiply => .ok (a * b)
  | .divide => if b = 0 then .error .divisionByZero else .ok (a / b)
  | .remainder => if b = 0 then .error .divisionByZero else .ok (a % b)
  | .add => .ok (a + b)
  | .subtract => .ok (a - b)
  | .shiftLeft => .ok (a <<< b)
  | .shiftRight => .ok (a >>> b)
  | .less => .ok (ofBool (a < b))
  | .lessEqual => .ok (ofBool (a ≤ b))
  | .greater => .ok (ofBool (b < a))
  | .greaterEqual => .ok (ofBool (b ≤ a))
  | .equal => .ok (ofBool (a == b))
  | .notEqual => .ok (ofBool (a != b))
  | .bitAnd => .ok (a &&& b)
  | .bitXor => .ok (a ^^^ b)
  | .bitOr => .ok (a ||| b)

end BinaryOperator

end Shell

end LuaAsset
