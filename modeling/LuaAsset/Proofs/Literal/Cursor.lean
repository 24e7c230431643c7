import Mathlib.Data.PFun
import LuaAsset.Literal.Snippet
import LuaAsset.Proofs.Literal.Readings

/-! # Reading with a cursor

The reader of literals over a whole text and an offset.  A look ahead after the end gives zero, a
move or a part beyond the end is a stop of its own, and loops are unbounded: a reader is partial and
may have no outcome. -/

set_option autoImplicit false

namespace LuaAsset

namespace Literal

namespace Cursor

noncomputable section

inductive Stop where
  | flaw (fault : LiteralFault) (offset : Nat)
  | outOfRange (position : Nat)

abbrev Reader (α : Type) := ReaderT Bytes (StateT Nat (ExceptT Stop Part)) α

/-- The result of a reader at a position, if it terminates. -/
def outcome {α : Type} (m : Reader α) (t : Bytes) (p : Nat) : Part (Except Stop (α × Nat)) :=
  m t p

def verdict {σ α : Type} : Except Stop ((σ ⊕ α) × Nat) → Except Stop (α × Nat) ⊕ (σ × Nat)
  | .ok (.inl next, p) => .inr (next, p)
  | .ok (.inr a, p) => .inl (.ok (a, p))
  | .error stop => .inl (.error stop)

/-- One round of a loop, from the state that the previous round left. -/
def turn {σ α : Type} (round : σ → Reader (σ ⊕ α)) (t : Bytes) :
    σ × Nat →. Except Stop (α × Nat) ⊕ (σ × Nat) :=
  fun state => (outcome (round state.1) t state.2).map verdict

/-- Rounds of a reader until one of them reports the end. -/
def loop {σ α : Type} (round : σ → Reader (σ ⊕ α)) (first : σ) : Reader α :=
  fun t p => (turn round t).fix (first, p)

/-! ## The cursor -/

def atEnd : Reader Bool := do
  return (← read).length ≤ (← get)

def peek (ahead : Nat) : Reader UInt8 := do
  return ((← read)[(← get) + ahead]?).getD 0

def moveTo (p : Nat) : Reader Unit := do
  if p ≤ (← read).length then set p else throw (.outOfRange p)

def advance (n : Nat) : Reader Unit := do
  moveTo ((← get) + n)

def fail {α : Type} (fault : LiteralFault) : Reader α := do
  throw (.flaw fault (← get))

def part (start stop : Nat) : Reader Bytes := do
  let t ← read
  if start ≤ t.length then return (t.drop start).take (stop - start) else throw (.outOfRange start)

def find (pattern : Bytes) : Reader (Option Nat) := do
  let p ← get
  return (splitAtFirst pattern ((← read).drop p)).map fun cut => p + cut.1.length

def skipWhile (isPassed : UInt8 → Bool) : Reader Unit :=
  loop (fun _ => do
    if ← atEnd then return .inr ()
    else if isPassed (← peek 0) then
      advance 1
      return .inl ()
    else return .inr ()) ()

/-- The number of bytes of a class from a given distance ahead. -/
def reach (isPassed : UInt8 → Bool) : Nat → Reader Nat :=
  loop fun ahead => do
    if (← get) + ahead < (← read).length ∧ isPassed (← peek ahead) then return .inl (ahead + 1)
    else return .inr ahead

/-! ## Blanks and comments -/

def equalsSigns : Nat → Reader Nat :=
  loop fun n => do
    if (← peek (n + 1)) = Ascii.equals then return .inl (n + 1) else return .inr n

def longBracketLevel : Reader (Option Nat) := do
  if (← peek 0) ≠ Ascii.openBracket then return none
  let n ← equalsSigns 0
  if (← peek (n + 1)) = Ascii.openBracket then return keptLevel? n else return none

def isLineBreak (c : UInt8) : Bool := c == Ascii.carriageReturn || c == Ascii.lineFeed

def skipLineBreak : Reader Unit := do
  let first ← peek 0
  if isLineBreak first then
    advance 1
    let second ← peek 0
    if isLineBreak second ∧ second ≠ first then advance 1

def readLongBracket (level : Nat) : Reader Bytes := do
  advance (level + 2)
  skipLineBreak
  let start ← get
  match ← find (closingBracket level) with
  | none => fail .unterminatedLongBracket
  | some stop =>
      let contents ← part start stop
      moveTo (stop + (closingBracket level).length)
      return contents

def skipComment : Reader Unit := do
  match ← longBracketLevel with
  | some level =>
      let _ ← readLongBracket level
      return
  | none => skipWhile (· != Ascii.lineFeed)

def skipSpace : Reader Unit :=
  loop (fun _ => do
    if ← atEnd then return .inr ()
    else
      let c ← peek 0
      if Ascii.isBlank c then
        advance 1
        return .inl ()
      else if c = Ascii.minus ∧ (← peek 1) = Ascii.minus then
        advance 2
        skipComment
        return .inl ()
      else return .inr ()) ()

/-! ## Tokens -/

def readIdentifier : Reader Bytes := do
  let start ← get
  skipWhile isNameByte
  part start (← get)

def readSigns : Bool → Reader Bool :=
  loop fun negative => do
    let c ← peek 0
    if c = Ascii.minus ∨ c = Ascii.plus then
      advance 1
      skipSpace
      return .inl (negative != (c == Ascii.minus))
    else return .inr negative

def skipNumeral (isDigit isMark : UInt8 → Bool) : Reader Unit :=
  loop (fun _ => do
    if ← atEnd then return .inr ()
    else
      let c ← peek 0
      if isDigit c || c == Ascii.dot then
        advance 1
        return .inl ()
      else if isMark c then
        advance 1
        let d ← peek 0
        if d = Ascii.plus ∨ d = Ascii.minus then
          advance 1
          return .inl ()
        else return .inl ()
      else return .inr ()) ()

def signedFloat (negative : Bool) (token : Bytes) : Option Binary64 → Except LiteralFault Value
  | some x => .ok (.float (if negative then x.negate else x))
  | none => .error (.malformedNumber token)

def numberValue (negative hexadecimal : Bool) (token : Bytes) : Except LiteralFault Value :=
  if hexadecimal then
    let digits := token.drop 2
    if digits.isEmpty then .error .emptyNumber
    else if digits.all Ascii.isHexDigit then
      .ok (.integer (hexadecimalInteger negative (hexadecimalValue digits)))
    else signedFloat negative token (Numeral.hexadecimal? digits)
  else if token.isEmpty ∨ token = [Ascii.dot] then .error .emptyNumber
  else if token.all Ascii.isDigit then
    match decimalInteger? negative (decimalValue token) with
    | some n => .ok (.integer n)
    | none => signedFloat negative token (Numeral.decimal? token)
  else signedFloat negative token (Numeral.decimal? token)

def skipToken (hexadecimal : Bool) : Reader Unit := do
  if hexadecimal then
    advance 2
    skipNumeral Ascii.isHexDigit isHexadecimalMark
  else skipNumeral Ascii.isDigit isDecimalMark

def readNumber : Reader Value := do
  let negative ← readSigns false
  let start ← get
  let first ← peek 0
  let second ← peek 1
  let hexadecimal := first == Ascii.zero && (second == 0x78 || second == 0x58)
  skipToken hexadecimal
  let token ← part start (← get)
  match numberValue negative hexadecimal token with
  | .ok v => return v
  | .error fault => fail fault

/-- A code point between braces, with the digits read so far. -/
def readCodePoint : Nat × Bool → Reader Nat :=
  loop fun (point, any) => do
    let c ← peek 0
    if Ascii.isHexDigit c then
      let next := (point * 16 + Ascii.hexValue c) % 2 ^ 32
      if 0x7fffffff < next then fail .codePointTooLarge
      else
        advance 1
        return .inl (next, true)
    else if any ∧ c = Ascii.closeBrace then
      advance 1
      return .inr point
    else fail .malformedCodePoint

def readDigits : Nat → Nat → Reader Nat
  | 0, n => return n
  | most + 1, n => do
      let c ← peek 0
      if Ascii.isDigit c then
        advance 1
        readDigits most (n * 10 + (c.toNat - 48))
      else return n

def skipByte (c : UInt8) : Reader Unit := do
  if (← peek 0) = c then advance 1

def readHexadecimal : Reader Bytes := do
  let high ← peek 0
  let low ← peek 1
  if Ascii.isHexDigit high && Ascii.isHexDigit low then
    advance 2
    return [UInt8.ofNat (Ascii.hexValue high * 16 + Ascii.hexValue low)]
  else fail .hexDigitExpected

def readEscape : Reader Bytes := do
  if ← atEnd then fail .unterminatedEscape
  else
    let c ← peek 0
    advance 1
    match letterEscape? c with
    | some byte => return [byte]
    | none =>
        if c = Ascii.carriageReturn then
          skipByte Ascii.lineFeed
          return [Ascii.lineFeed]
        else if c = 0x78 then readHexadecimal
        else if c = 0x7a then
          skipWhile Ascii.isBlank
          return []
        else if c = 0x75 then
          if (← peek 0) = Ascii.openBrace then
            advance 1
            let point ← readCodePoint (0, false)
            return Utf8.encodeScalar point
          else fail .missingBrace
        else if Ascii.isDigit c then
          let n ← readDigits 2 (decimalValue [c])
          if 255 < n then fail .decimalEscapeTooLarge else return [UInt8.ofNat n]
        else fail (.invalidEscape c)

def readString (quote : UInt8) : Bytes → Reader Bytes :=
  loop fun bytes => do
    if ← atEnd then fail .unterminatedString
    else
      let c ← peek 0
      if c = quote then
        advance 1
        return .inr bytes
      else if c = Ascii.lineFeed then fail .unfinishedString
      else if c = Ascii.backslash then
        advance 1
        let more ← readEscape
        return .inl (bytes ++ more)
      else
        advance 1
        return .inl (bytes ++ [c])

/-! ## Values and tables -/

def expectAssignment : Reader Unit := do
  skipSpace
  if (← peek 0) = Ascii.equals then advance 1 else fail .expectedAssignment

def isNamedField : Reader Bool := do
  let gap ← reach isNameByte 0
  let sign ← reach isNarrow gap
  let c ← peek sign
  let next ← peek (sign + 1)
  return c == Ascii.equals && next != Ascii.equals

def readWith (table : Reader Value) : Reader Value := do
  skipSpace
  if ← atEnd then fail .unexpectedEnd
  else
    let c ← peek 0
    let next ← peek 1
    if c = Ascii.openBrace then table
    else if c = Ascii.doubleQuote ∨ c = Ascii.singleQuote then
      advance 1
      return .string (← readString c [])
    else if c = Ascii.openBracket then
      match ← longBracketLevel with
      | some level => return .string (← readLongBracket level)
      | none => fail .unexpectedBracket
    else if Ascii.isDigit c || c == Ascii.minus || c == Ascii.plus
        || (c == Ascii.dot && Ascii.isDigit next) then
      readNumber
    else if isNameStart c then return wordValue (← readIdentifier)
    else fail (.unexpectedCharacter c)

section

variable (value : Reader Value)

def readField (t : TableDraft) : Reader TableDraft := do
  let c ← peek 0
  let level ← longBracketLevel
  let named ← isNamedField
  if c = Ascii.openBracket ∧ level = none then
    advance 1
    let key ← value
    skipSpace
    if (← peek 0) ≠ Ascii.closeBracket then fail .expectedBracket
    else
      advance 1
      expectAssignment
      let v ← value
      if key.isNull then fail .nilIndex else return addField t (normalKey key) v
  else if isNameStart c ∧ named then
    let name ← readIdentifier
    expectAssignment
    let v ← value
    return addField t (.string name) v
  else
    let (index, t) := t.nextPosition
    let v ← value
    return addField t (.integer (Int64.ofNat index)) v

def readFields : TableDraft → Reader Value :=
  loop fun t => do
    skipSpace
    if ← atEnd then fail .unterminatedTable
    else if (← peek 0) = Ascii.closeBrace then
      advance 1
      return .inr t.build
    else
      let t ← readField value t
      skipSpace
      let d ← peek 0
      if d = Ascii.comma ∨ d = Ascii.semicolon then
        advance 1
        return .inl t
      else if d = Ascii.closeBrace then
        advance 1
        return .inr t.build
      else fail .expectedSeparator

def readTable : Reader Value := do
  advance 1
  readFields value .empty

end

def readValue : Nat → Reader Value
  | 0 => readWith (fail .nestingTooDeep)
  | levels + 1 => readWith (readTable (readValue levels))

def readDocument : Reader Value := do
  let v ← readValue nestingLimit
  skipSpace
  if (← get) = (← read).length then return v else fail .trailingCharacters

def decode (t : Bytes) : Part (Except Stop Value) :=
  (outcome readDocument t 0).map (Except.map Prod.fst)

/-- The records of a text: a flaw drops its snippet, and no other failure is caught. -/
def records (t : Bytes) : Part (Except Stop (List Value)) :=
  (snippets t).foldr
    (fun snippet later => (decode snippet).bind fun
      | .ok v => later.map (Except.map (v :: ·))
      | .error (.flaw _ _) => later
      | .error (.outOfRange p) => .some (.error (.outOfRange p)))
    (.some (.ok []))

end

end Cursor

end Literal

end LuaAsset
