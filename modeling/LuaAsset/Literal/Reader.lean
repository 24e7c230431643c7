import LuaAsset.Failure
import LuaAsset.Number.Token
import LuaAsset.Table
import LuaAsset.Text.Utf8

/-! # Reading literals

A reader maps a text to the value read and the remaining text, or to a `Flaw`: a fault with the
number of bytes that remained.  Tables read their fields with the reader of the next level, so
nesting is the recursion.  Loops take the length of the remaining text as fuel, and every round
consumes a byte. -/

set_option autoImplicit false

namespace LuaAsset

namespace Literal

/-- A fault, and the length of the text that remained. -/
abbrev Flaw := LiteralFault × Nat

abbrev ValueReader := Bytes → Except Flaw (Value × Bytes)

def fail {α : Type} (fault : LiteralFault) (s : Bytes) : Except Flaw α := .error (fault, s.length)

def nestingLimit : Nat := 200

/-! ## Blanks and comments -/

def isNameStart (c : UInt8) : Bool := Ascii.isLetter c || c == Ascii.underscore

def isNameByte (c : UInt8) : Bool := isNameStart c || Ascii.isDigit c

/-- A count of equals signs as a level, which is kept in a signed 32-bit integer; a negative one is
no level. -/
def keptLevel? (count : Nat) : Option Nat :=
  if count % 2 ^ 32 < 2 ^ 31 then some (count % 2 ^ 32) else none

theorem keptLevel?_of_lt {count : Nat} (small : count < 2 ^ 31) :
    keptLevel? count = some count := by
  have whole : count % 2 ^ 32 = count := Nat.mod_eq_of_lt (by omega)
  rw [keptLevel?, whole, if_pos small]

theorem keptLevel?_le {count level : Nat} (kept : keptLevel? count = some level) :
    level < 2 ^ 31 ∧ level ≤ count := by
  rw [keptLevel?] at kept
  split at kept
  · rename_i small
    cases kept
    exact ⟨small, Nat.mod_le _ _⟩
  · cases kept

def longBracketLevel? : Bytes → Option Nat
  | [] => none
  | c :: rest =>
      if c = Ascii.openBracket then
        if (rest.dropWhile (· == Ascii.equals)).head? = some Ascii.openBracket then
          keptLevel? (rest.takeWhile (· == Ascii.equals)).length
        else none
      else none

/-- Drops a line break; two different line break bytes count as one. -/
def dropLineBreak : Bytes → Bytes
  | [] => []
  | c :: rest =>
      if c = Ascii.carriageReturn ∨ c = Ascii.lineFeed then
        match rest with
        | d :: after =>
            if (d = Ascii.carriageReturn ∨ d = Ascii.lineFeed) ∧ d ≠ c then after else rest
        | [] => []
      else c :: rest

def closingBracket (level : Nat) : Bytes :=
  Ascii.closeBracket :: List.replicate level Ascii.equals ++ [Ascii.closeBracket]

def readLongBracket (level : Nat) (s : Bytes) : Except Flaw (Bytes × Bytes) :=
  let inner := dropLineBreak (s.drop (level + 2))
  match splitAtFirst (closingBracket level) inner with
  | some (contents, rest) => .ok (contents, rest)
  | none => fail .unterminatedLongBracket inner

def dropComment (s : Bytes) : Except Flaw Bytes :=
  match longBracketLevel? s with
  | some level => (readLongBracket level s).map Prod.snd
  | none => .ok (s.dropWhile (· != Ascii.lineFeed))

def skipBlanksWithin : Nat → Bytes → Except Flaw Bytes
  | 0, s => .ok s
  | fuel + 1, s =>
      match s with
      | [] => .ok []
      | c :: rest =>
          if Ascii.isBlank c then skipBlanksWithin fuel rest
          else if c = Ascii.minus ∧ rest.head? = some Ascii.minus then
            match dropComment (rest.drop 1) with
            | .ok after => skipBlanksWithin fuel after
            | .error e => .error e
          else .ok (c :: rest)

def skipBlanks (s : Bytes) : Except Flaw Bytes := skipBlanksWithin s.length s

/-! ## Numbers -/

def readSignsWithin : Nat → Bool → Bytes → Except Flaw (Bool × Bytes)
  | 0, negative, s => .ok (negative, s)
  | fuel + 1, negative, s =>
      match s with
      | [] => .ok (negative, [])
      | c :: rest =>
          if c = Ascii.minus ∨ c = Ascii.plus then
            match skipBlanks rest with
            | .ok after => readSignsWithin fuel (negative != (c == Ascii.minus)) after
            | .error e => .error e
          else .ok (negative, c :: rest)

/-- Signs, with blanks and comments after each; the result says whether their number is odd. -/
def readSigns (s : Bytes) : Except Flaw (Bool × Bytes) := readSignsWithin s.length false s

/-- The longest run of digits, points and exponent marks with their signs. -/
def spanNumeral (isDigit isMark : UInt8 → Bool) : Bytes → Bytes × Bytes
  | [] => ([], [])
  | [c] => if isDigit c || c == Ascii.dot || isMark c then ([c], []) else ([], [c])
  | c :: d :: rest =>
      if isDigit c || c == Ascii.dot then
        let (token, after) := spanNumeral isDigit isMark (d :: rest)
        (c :: token, after)
      else if isMark c then
        if d = Ascii.plus ∨ d = Ascii.minus then
          let (token, after) := spanNumeral isDigit isMark rest
          (c :: d :: token, after)
        else
          let (token, after) := spanNumeral isDigit isMark (d :: rest)
          (c :: token, after)
      else ([], c :: d :: rest)

def isDecimalMark (c : UInt8) : Bool := c == 0x65 || c == 0x45

def isHexadecimalMark (c : UInt8) : Bool := c == 0x70 || c == 0x50

def isHexadecimal : Bytes → Bool
  | c :: d :: _ => c == Ascii.zero && (d == 0x78 || d == 0x58)
  | _ => false

/-- A hexadecimal integer, truncated to 64 bits. -/
def hexadecimalInteger (negative : Bool) (n : Nat) : Int64 :=
  let bits := UInt64.ofNat n
  (if negative then 0 - bits else bits).toInt64

def decimalInteger? (negative : Bool) (n : Nat) : Option Int64 :=
  if n < 2 ^ 63 then some (Int64.ofInt (if negative then -(n : Int) else n))
  else if negative ∧ n = 2 ^ 63 then some (Int64.ofInt (-(n : Int)))
  else none

def floatValue (negative : Bool) (read : Option Binary64) (token rest : Bytes) :
    Except Flaw (Value × Bytes) :=
  match read with
  | some x => .ok (.float (if negative then x.negate else x), rest)
  | none => fail (.malformedNumber token) rest

def readUnsigned (negative : Bool) (s : Bytes) : Except Flaw (Value × Bytes) :=
  if isHexadecimal s then
    let (digits, rest) := spanNumeral Ascii.isHexDigit isHexadecimalMark (s.drop 2)
    if digits.isEmpty then fail .emptyNumber rest
    else if digits.all Ascii.isHexDigit then
      .ok (.integer (hexadecimalInteger negative (hexadecimalValue digits)), rest)
    else floatValue negative (Numeral.hexadecimal? digits) (s.take 2 ++ digits) rest
  else
    let (token, rest) := spanNumeral Ascii.isDigit isDecimalMark s
    if token.isEmpty ∨ token = [Ascii.dot] then fail .emptyNumber rest
    else if token.all Ascii.isDigit then
      match decimalInteger? negative (decimalValue token) with
      | some n => .ok (.integer n, rest)
      | none => floatValue negative (Numeral.decimal? token) token rest
    else floatValue negative (Numeral.decimal? token) token rest

def readNumber (s : Bytes) : Except Flaw (Value × Bytes) :=
  match readSigns s with
  | .ok (negative, rest) => readUnsigned negative rest
  | .error e => .error e

/-! ## Strings -/

/-- The digits of a code point, accumulated in 32 bits; `any` says whether there was a digit. -/
def readCodePoint (point : Nat) (any : Bool) : Bytes → Except Flaw (Nat × Bytes)
  | [] => fail .malformedCodePoint []
  | c :: rest =>
      if Ascii.isHexDigit c then
        let next := (point * 16 + Ascii.hexValue c) % 2 ^ 32
        if 0x7fffffff < next then fail .codePointTooLarge (c :: rest)
        else readCodePoint next true rest
      else if any ∧ c = Ascii.closeBrace then .ok (point, rest)
      else fail .malformedCodePoint (c :: rest)

def letterEscape? (c : UInt8) : Option UInt8 :=
  if c = 0x6e then some Ascii.lineFeed
  else if c = 0x74 then some Ascii.tab
  else if c = 0x72 then some Ascii.carriageReturn
  else if c = 0x61 then some 0x07
  else if c = 0x62 then some 0x08
  else if c = 0x66 then some Ascii.formFeed
  else if c = 0x76 then some Ascii.verticalTab
  else if c = Ascii.backslash ∨ c = Ascii.doubleQuote ∨ c = Ascii.singleQuote
      ∨ c = Ascii.lineFeed then some c
  else none

/-- Up to three decimal digits after a backslash; `first` is the first of them. -/
def readDecimalEscape (first : UInt8) (s : Bytes) : Except Flaw (Bytes × Bytes) :=
  let more := (s.take 2).takeWhile Ascii.isDigit
  let n := decimalValue (first :: more)
  let rest := s.drop more.length
  if 255 < n then fail .decimalEscapeTooLarge rest else .ok ([UInt8.ofNat n], rest)

/-- The bytes of an escape; `s` starts after its backslash. -/
def readEscape (s : Bytes) : Except Flaw (Bytes × Bytes) :=
  match s with
  | [] => fail .unterminatedEscape []
  | c :: rest =>
      match letterEscape? c with
      | some byte => .ok ([byte], rest)
      | none =>
          if c = Ascii.carriageReturn then
            .ok ([Ascii.lineFeed], if rest.head? = some Ascii.lineFeed then rest.drop 1 else rest)
          else if c = 0x78 then
            match rest with
            | high :: low :: after =>
                if Ascii.isHexDigit high && Ascii.isHexDigit low then
                  .ok ([UInt8.ofNat (Ascii.hexValue high * 16 + Ascii.hexValue low)], after)
                else fail .hexDigitExpected rest
            | _ => fail .hexDigitExpected rest
          else if c = 0x7a then .ok ([], rest.dropWhile Ascii.isBlank)
          else if c = 0x75 then
            match rest with
            | brace :: digits =>
                if brace = Ascii.openBrace then
                  match readCodePoint 0 false digits with
                  | .ok (point, after) => .ok (Utf8.encodeScalar point, after)
                  | .error e => .error e
                else fail .missingBrace rest
            | [] => fail .missingBrace rest
          else if Ascii.isDigit c then readDecimalEscape c rest
          else fail (.invalidEscape c) rest

def readQuotedWithin (quote : UInt8) : Nat → Bytes → Except Flaw (Bytes × Bytes)
  | 0, s => fail .unterminatedString s
  | fuel + 1, s =>
      match s with
      | [] => fail .unterminatedString []
      | c :: rest =>
          if c = quote then .ok ([], rest)
          else if c = Ascii.lineFeed then fail .unfinishedString (c :: rest)
          else if c = Ascii.backslash then
            match readEscape rest with
            | .ok (bytes, after) =>
                (readQuotedWithin quote fuel after).map fun tail => (bytes ++ tail.1, tail.2)
            | .error e => .error e
          else (readQuotedWithin quote fuel rest).map fun tail => (c :: tail.1, tail.2)

def readQuoted (quote : UInt8) (s : Bytes) : Except Flaw (Bytes × Bytes) :=
  readQuotedWithin quote (s.length + 1) s

/-! ## Values and tables -/

/-- A bare word: a constant, or its own letters as a string. -/
def wordValue (word : Bytes) : Value :=
  if word = text "true" then .bool true
  else if word = text "false" then .bool false
  else if word = text "nil" then .null
  else .string word

/-- A value; `table` reads one that starts with a brace. -/
def readWith (table : ValueReader) : ValueReader := fun s =>
  match skipBlanks s with
  | .error e => .error e
  | .ok [] => fail .unexpectedEnd []
  | .ok (c :: rest) =>
      if c = Ascii.openBrace then table (c :: rest)
      else if c = Ascii.doubleQuote ∨ c = Ascii.singleQuote then
        (readQuoted c rest).map fun read => (.string read.1, read.2)
      else if c = Ascii.openBracket then
        match longBracketLevel? (c :: rest) with
        | some level =>
            (readLongBracket level (c :: rest)).map fun read => (.string read.1, read.2)
        | none => fail .unexpectedBracket (c :: rest)
      else if Ascii.isDigit c || c == Ascii.minus || c == Ascii.plus
          || (c == Ascii.dot && rest.head?.any Ascii.isDigit) then
        readNumber (c :: rest)
      else if isNameStart c then
        .ok (wordValue ((c :: rest).takeWhile isNameByte), (c :: rest).dropWhile isNameByte)
      else fail (.unexpectedCharacter c) (c :: rest)

/-- A key as tables address it: an integral float becomes the integer. -/
def normalKey : Value → Value
  | .float x => match x.toInteger? with
      | some n => .integer n
      | none => .float x
  | key => key

def expectAssignment (s : Bytes) : Except Flaw Bytes :=
  match skipBlanks s with
  | .error e => .error e
  | .ok rest =>
      if rest.head? = some Ascii.equals then .ok (rest.drop 1)
      else .error (.expectedAssignment, rest.length)

def isNamedField (s : Bytes) : Bool :=
  let isGap (c : UInt8) : Bool :=
    c == Ascii.space || c == Ascii.tab || c == Ascii.carriageReturn || c == Ascii.lineFeed
  match (s.dropWhile isNameByte).dropWhile isGap with
  | c :: rest => c == Ascii.equals && rest.head? != some Ascii.equals
  | [] => false

/-- Adds a field, unless its value is `null`. -/
def addField (t : TableDraft) (key value : Value) : TableDraft :=
  if value.isNull then t else t.add key value

def readKeyedField (value : ValueReader) (t : TableDraft) (s : Bytes) :
    Except Flaw (TableDraft × Bytes) := do
  let (key, s) ← value s
  let s ← skipBlanks s
  if s.head? ≠ some Ascii.closeBracket then fail .expectedBracket s
  else
    let s ← expectAssignment (s.drop 1)
    let (v, s) ← value s
    if key.isNull then fail .nilIndex s else return (addField t (normalKey key) v, s)

def readNamedField (value : ValueReader) (t : TableDraft) (s : Bytes) :
    Except Flaw (TableDraft × Bytes) := do
  let name := s.takeWhile isNameByte
  let s ← expectAssignment (s.dropWhile isNameByte)
  let (v, s) ← value s
  return (addField t (.string name) v, s)

/-- A field without a key takes the next position, even if its value is `null`. -/
def readPositionalField (value : ValueReader) (t : TableDraft) (s : Bytes) :
    Except Flaw (TableDraft × Bytes) := do
  let (index, t) := t.nextPosition
  let (v, s) ← value s
  return (addField t (.integer (Int64.ofNat index)) v, s)

def readField (value : ValueReader) (t : TableDraft) (s : Bytes) :
    Except Flaw (TableDraft × Bytes) :=
  if s.head? = some Ascii.openBracket ∧ longBracketLevel? s = none then
    readKeyedField value t (s.drop 1)
  else if s.head?.any isNameStart ∧ isNamedField s then readNamedField value t s
  else readPositionalField value t s

def readFieldsWithin (value : ValueReader) :
    Nat → TableDraft → Bytes → Except Flaw (Value × Bytes)
  | 0, _, s => fail .unterminatedTable s
  | fuel + 1, t, s => do
      let s ← skipBlanks s
      match s with
      | [] => fail .unterminatedTable []
      | c :: rest =>
          if c = Ascii.closeBrace then return (t.build, rest)
          else
            let (t, s) ← readField value t (c :: rest)
            let s ← skipBlanks s
            match s with
            | [] => fail .expectedSeparator []
            | d :: after =>
                if d = Ascii.comma ∨ d = Ascii.semicolon then readFieldsWithin value fuel t after
                else if d = Ascii.closeBrace then return (t.build, after)
                else fail .expectedSeparator (d :: after)

def readTable (value : ValueReader) : ValueReader := fun s =>
  readFieldsWithin value s.length .empty (s.drop 1)

def readValue : Nat → ValueReader
  | 0 => readWith (fail .nestingTooDeep)
  | levels + 1 => readWith (readTable (readValue levels))

/-- A single value, surrounded by blanks and comments only. -/
def readDocument (s : Bytes) : Except Flaw Value := do
  let (value, rest) ← readValue nestingLimit s
  let rest ← skipBlanks rest
  if rest.isEmpty then return value else .error (.trailingCharacters, rest.length)

end Literal

/-- The value of a literal, or a format failure with an offset. -/
def decodeLiteral (s : Bytes) : Except Failure Value :=
  match Literal.readDocument s with
  | .ok value => .ok value
  | .error (fault, left) => .error (.literal fault (s.length - left))

end LuaAsset
