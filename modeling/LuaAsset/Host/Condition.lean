import LuaAsset.Host.Files
import LuaAsset.Host.Quotation

/-! # Conditions

Tests of files, texts and integers (`test`).  Scripts parse the words by looking for an operator
before each operand, the program by the number of words. -/

set_option autoImplicit false

namespace LuaAsset

namespace Condition

def hasContents : Node → Bool
  | .file contents _ => !contents.isEmpty
  | .program _ | .directory _ => true
  | .device _ => false

def isExecutable : Node → Bool
  | .file _ executable => executable
  | .program _ | .directory _ => true
  | .device _ => false

def isDevice : Node → Bool
  | .device _ => true
  | _ => false

/-- The unary test of a letter. -/
def unary? (f : Files) (letter : UInt8) (s : Bytes) : Option Bool :=
  let node? := f.node? s
  match Char.ofNat letter.toNat with
  | 'z' => some s.isEmpty
  | 'n' => some !s.isEmpty
  | 'e' | 'r' | 'w' | 'O' | 'G' => some node?.isSome
  | 'f' => some (node?.any Node.isRegular)
  | 'd' => some (node?.any Node.isDirectory)
  | 'x' => some (node?.any isExecutable)
  | 's' => some (node?.any hasContents)
  | 'c' => some (node?.any isDevice)
  | 'b' | 'p' | 'u' | 'g' | 'k' | 'h' | 'L' | 'S' | 't' => some false
  | _ => none

def unaryLetter? (word : Bytes) : Option UInt8 :=
  match word with
  | [Ascii.minus, letter] => some letter
  | _ => none

inductive Comparison where
  | text (holds : Ordering → Bool)
  | number (holds : Ordering → Bool)
  | files (sameOnly : Bool)

/-- The binary tests; `ordered` enables the comparison of texts by order. -/
def comparisons (ordered : Bool) : List (Bytes × Comparison) :=
  [("=", .text Ordering.isEq), ("!=", .text Ordering.isNe), ("-eq", .number Ordering.isEq),
    ("-ne", .number Ordering.isNe), ("-lt", .number Ordering.isLT), ("-le", .number Ordering.isLE),
    ("-gt", .number Ordering.isGT), ("-ge", .number Ordering.isGE), ("-nt", .files false),
    ("-ot", .files false), ("-ef", .files true)].map (fun (word, c) => (text word, c)) ++
  (if ordered then [(text "<", .text Ordering.isLT), (text ">", .text Ordering.isGT)]
    else [(text "==", .text Ordering.isEq)])

def number? (s : Bytes) : Option Int :=
  let s := trim Ascii.isBlank s
  let (negative, digits) := match s with
    | Ascii.minus :: digits => (true, digits)
    | Ascii.plus :: digits => (false, digits)
    | digits => (false, digits)
  if !digits.isEmpty && digits.all Ascii.isDigit then
    some (if negative then -(decimalValue digits : Int) else decimalValue digits)
  else none

/-- The result of a comparison, or the operand that should be a number and is none. -/
def Comparison.holdsFor (c : Comparison) (number? : Bytes → Option Int) (f : Files) (a b : Bytes) :
    Except Bytes Bool :=
  match c with
  | .text holds => .ok (holds (compareOfLessAndEq a b))
  | .number holds =>
      match number? a, number? b with
      | some m, some n => .ok (holds (compare m n))
      | none, _ => .error a
      | _, none => .error b
  | .files sameOnly =>
      .ok (sameOnly && match f.locate a, f.locate b with
        | .ok names, .ok others => names == others
        | _, _ => false)

/-! ## As scripts read them -/

namespace InScripts

def comparison? (word : Bytes) : Option Comparison := (comparisons true).lookup word

def isUnary (word : Bytes) : Bool := (unaryLetter? word).any fun c => (unary? ⟨default, []⟩ c []).isSome

inductive Symbol where
  | finish
  | operand
  | unary (letter : UInt8)
  | binary
  | not | and | or | opening | closing
  deriving DecidableEq

/-- The kind of the first word; an operator without operands is an operand itself. -/
def symbol (words : List Bytes) : Symbol :=
  match words with
  | [] => .finish
  | word :: rest =>
      let standsAlone := match rest with
        | [] => true
        | [_] => false
        | next :: _ :: _ => (comparison? next).isSome
      if isUnary word then
        if standsAlone then .operand else .unary ((unaryLetter? word).getD 0)
      else if (comparison? word).isSome then .binary
      else if word = text "!" then .not
      else if word = text "-a" then .and
      else if word = text "-o" then .or
      else if word = text "(" then if rest.isEmpty then .operand else .opening
      else if word = text ")" then .closing
      else .operand

abbrev Outcome := Except Bytes (Bool × List Bytes)

def boundedNumber? (s : Bytes) : Option Int :=
  (number? s).filter fun n => -(2 ^ 63) ≤ n && n < 2 ^ 63

def illegal (s : Bytes) : Bytes := text "Illegal number: " ++ s

section

variable (f : Files)

-- Every reader starts at the word whose symbol it is given, and comes back with the words from the
-- last one that it has taken.
mutual

def disjunction : Nat → Symbol → List Bytes → Outcome
  | 0, _, words => .ok (false, words)
  | fuel + 1, s, words => do
      let (a, words) ← conjunction fuel s words
      if symbol (words.drop 1) = .or then
        let words := words.drop 2
        let (b, words) ← disjunction fuel (symbol words) words
        return (a || b, words)
      else return (a, words)

def conjunction : Nat → Symbol → List Bytes → Outcome
  | 0, _, words => .ok (false, words)
  | fuel + 1, s, words => do
      let (a, words) ← negation fuel s words
      if symbol (words.drop 1) = .and then
        let words := words.drop 2
        let (b, words) ← conjunction fuel (symbol words) words
        return (a && b, words)
      else return (a, words)

def negation : Nat → Symbol → List Bytes → Outcome
  | 0, _, words => .ok (false, words)
  | fuel + 1, s, words =>
      match s with
      | .not => do
          let next := symbol (words.drop 1)
          let (a, words) ← negation fuel next (if next = .finish then words else words.drop 1)
          return (!a, words)
      | s => primary fuel s words

def primary : Nat → Symbol → List Bytes → Outcome
  | 0, _, words => .ok (false, words)
  | fuel + 1, s, words =>
      match s with
      | .finish => .ok (false, words)
      | .opening => do
          let words := words.drop 1
          if symbol words = .closing then return (false, words)
          let (a, words) ← disjunction fuel (symbol words) words
          let words := words.drop 1
          if symbol words = .closing then return (a, words)
          else .error (text "closing paren expected")
      | .unary letter =>
          match words.drop 1 with
          | [] => .error (words.headD [] ++ text ": argument expected")
          | operand :: rest =>
              if letter = Char.toUInt8 't' && (number? operand).isNone then
                .error (illegal operand)
              else .ok ((unary? f letter operand).getD false, operand :: rest)
      | _ =>
          match words with
          | a :: operator :: rest =>
              match comparison? operator, rest with
              | some c, b :: rest =>
                  match c.holdsFor boundedNumber? f a b with
                  | .ok holds => .ok (holds, b :: rest)
                  | .error s => .error (illegal s)
              | some _, [] => .error (operator ++ text ": argument expected")
              | none, _ => .ok (!a.isEmpty, words)
          | words => .ok (words.any (!·.isEmpty), words)

end

def holds (words : List Bytes) : Except Bytes Bool := do
  let middle? := (words.drop 1).head?.bind comparison?
  let (words, s) : List Bytes × Symbol := match words with
    | [_, _, _] | [_, _, _, _] =>
        if words.length = 3 && middle?.isSome then (words, .operand)
        else if words.head? = some (text "(") ∧ words.getLast? = some (text ")") then
          let inner := (words.drop 1).dropLast
          (inner, symbol inner)
        else if words.head? = some (text "!") then (words, .not)
        else (words, symbol words)
    | words => (words, symbol words)
  if words.isEmpty then return false
  let (a, rest) ← disjunction f (3 * words.length + 3) s words
  match rest with
  | word :: _ :: _ => .error (if word.isEmpty then text "unexpected operator"
      else word ++ text ": unexpected operator")
  | _ => return a

end

end InScripts

/-! ## As the program reads them -/

namespace InProgram

def comparison? (word : Bytes) : Option Comparison := (comparisons false).lookup word

abbrev Outcome := Except Bytes (Bool × List Bytes)

section

variable (f : Files)

-- The word after which one is missing when the words end too early.
variable (last : Bytes)

def missing {α : Type} : Except Bytes α := .error (text "missing argument after " ++ cited last)

def one : List Bytes → Outcome
  | [] => missing last
  | word :: rest => .ok (!word.isEmpty, rest)

def unary (word : Bytes) (rest : List Bytes) : Outcome := do
  match (unaryLetter? word).bind fun c => unary? f c (rest.headD []) with
  | none => .error (cited word ++ text ": unary operator expected")
  | some holds =>
      match rest with
      | [] => missing last
      | operand :: rest =>
          if word = text "-t" && (number? operand).isNone then
            .error (text "invalid integer " ++ cited operand)
          else return (holds, rest)

def binary (a : Bytes) (c : Comparison) (b : Bytes) (rest : List Bytes) : Outcome :=
  match c.holdsFor number? f a b with
  | .ok holds => .ok (holds, rest)
  | .error s => .error (text "invalid integer " ++ cited s)

def two (words : List Bytes) : Outcome := do
  match words with
  | word :: rest =>
      if word = text "!" then
        let (a, rest) ← one last rest
        return (!a, rest)
      else if (unaryLetter? word).isSome then unary f last word rest
      else missing last
  | [] => missing last

def skipped (outcome : Outcome) : Outcome := do
  let (a, rest) ← outcome
  return (a, rest.drop 1)

mutual

def disjunction : Nat → List Bytes → Outcome
  | 0, _ => missing last
  | fuel + 1, words => do
      let (a, words) ← conjunction fuel words
      if words.head? = some (text "-o") then
        let (b, words) ← disjunction fuel (words.drop 1)
        return (a || b, words)
      else return (a, words)

def conjunction : Nat → List Bytes → Outcome
  | 0, _ => missing last
  | fuel + 1, words => do
      let (a, words) ← term fuel words
      if words.head? = some (text "-a") then
        let (b, words) ← conjunction fuel (words.drop 1)
        return (a && b, words)
      else return (a, words)

def term : Nat → List Bytes → Outcome
  | 0, _ => missing last
  | fuel + 1, words =>
      match words with
      | [] => missing last
      | word :: rest =>
          if word = text "!" then do
            let (a, words) ← term fuel rest
            return (!a, words)
          else if word = text "(" then do
            if rest.isEmpty then missing last
            let inner := ((rest.drop 1).takeWhile (· != text ")")).length + 1
            let count := if 4 ≤ inner then rest.length else min inner rest.length
            let (a, words) ← byCount fuel count rest
            match words with
            | [] => .error (cited (text ")") ++ text " expected")
            | found :: words =>
                if found = text ")" then return (a, words)
                else .error (cited (text ")") ++ text " expected, found " ++ cited found)
          else match rest with
            | operator :: b :: rest' =>
                match comparison? operator with
                | some c => binary f word c b rest'
                | none =>
                    if (unaryLetter? word).isSome then unary f last word rest
                    else .ok (!word.isEmpty, rest)
            | rest =>
                if (unaryLetter? word).isSome then unary f last word rest
                else .ok (!word.isEmpty, rest)

def byCount : Nat → Nat → List Bytes → Outcome
  | 0, _, _ => missing last
  | fuel + 1, count, words =>
      match count, words with
      | 1, words => one last words
      | 2, words => two f last words
      | 3, words => three fuel words
      | 4, a :: b :: c :: d :: rest =>
          if a = text "!" then do
            let (holds, rest) ← three fuel (b :: c :: d :: rest)
            return (!holds, rest)
          else if a = text "(" ∧ d = text ")" then
            skipped (two f last (b :: c :: d :: rest))
          else disjunction fuel words
      | _, words => disjunction fuel words

def three : Nat → List Bytes → Outcome
  | 0, _ => missing last
  | fuel + 1, words =>
      match words with
      | a :: operator :: b :: rest =>
          match comparison? operator with
          | some c => binary f a c b rest
          | none =>
              if a = text "!" then do
                let (holds, rest) ← two f last (operator :: b :: rest)
                return (!holds, rest)
              else if a = text "(" ∧ b = text ")" then skipped (one last (operator :: b :: rest))
              else if operator = text "-a" ∨ operator = text "-o" then disjunction fuel words
              else .error (cited operator ++ text ": binary operator expected")
      | _ => missing last

end

end

def holds (f : Files) (words : List Bytes) : Except Bytes Bool := do
  if words.isEmpty then return false
  let (a, rest) ← byCount f (words.getLastD []) (6 * words.length + 6) words.length words
  match rest with
  | [] => return a
  | word :: _ => .error (text "extra argument " ++ cited word)

end InProgram

end Condition

end LuaAsset
