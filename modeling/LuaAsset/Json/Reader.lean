import LuaAsset.Number.Token
import LuaAsset.Text.Utf8
import LuaAsset.Value

/-! # Reading documents

A strict JSON reader: no comments, no trailing commas, nothing after the value, and well-formed
UTF-8 in strings.  Integers that fit 64 bits stay integers, other numbers become the nearest float;
a repeated name keeps its place and takes the later value. -/

set_option autoImplicit false

namespace LuaAsset

namespace Json

def isBlank (c : UInt8) : Bool :=
  c == Ascii.space || c == Ascii.tab || c == Ascii.lineFeed || c == Ascii.carriageReturn

def skipBlanks (s : Bytes) : Bytes := s.dropWhile isBlank

/-! ## Numbers -/

def digits? (s : Bytes) : Option (Bytes × Bytes) :=
  let digits := s.takeWhile Ascii.isDigit
  if digits.isEmpty then none else some (digits, s.dropWhile Ascii.isDigit)

def fraction? : Bytes → Option (Bytes × Bytes)
  | [] => some ([], [])
  | c :: rest =>
      if c = Ascii.dot then (digits? rest).map fun read => (c :: read.1, read.2)
      else some ([], c :: rest)

def exponent? : Bytes → Option (Bytes × Bytes)
  | [] => some ([], [])
  | c :: rest =>
      if c = 0x65 ∨ c = 0x45 then
        let sign := (rest.take 1).takeWhile fun d => d == Ascii.plus || d == Ascii.minus
        (digits? (rest.drop sign.length)).map fun read => (c :: sign ++ read.1, read.2)
      else some ([], c :: rest)

/-- An integer in the signed or unsigned kind that holds it. -/
def integer? (negative : Bool) (n : Nat) : Option Value :=
  if negative then
    if n ≤ 2 ^ 63 then some (.integer (Int64.ofInt (-(n : Int)))) else none
  else if n < 2 ^ 63 then some (.integer (Int64.ofNat n))
  else if n < 2 ^ 64 then some (.natural (UInt64.ofNat n))
  else none

def readUnsigned (negative : Bool) (s : Bytes) : Option (Value × Bytes) := do
  let (whole, rest) ← digits? s
  if whole.head? = some Ascii.zero ∧ 1 < whole.length then none
  else
    let (fraction, rest) ← fraction? rest
    let (exponent, rest) ← exponent? rest
    let float ← Numeral.decimal? (whole ++ fraction ++ exponent)
    let asFloat : Value := .float (if negative then float.negate else float)
    if fraction.isEmpty ∧ exponent.isEmpty then
      return ((integer? negative (decimalValue whole)).getD asFloat, rest)
    else return (asFloat, rest)

/-! ## Strings -/

def unit? (s : Bytes) : Option (Nat × Bytes) :=
  let digits := s.take 4
  if digits.length = 4 ∧ digits.all Ascii.isHexDigit then
    some (hexadecimalValue digits, s.drop 4)
  else none

/-- The character of a `\u` escape after the `u`.  A high surrogate needs the escape of a low one
after it. -/
def escapedCharacter? (s : Bytes) : Option (Bytes × Bytes) := do
  let (high, rest) ← unit? s
  if 0xd800 ≤ high ∧ high < 0xdc00 then
    if rest.take 2 = [Ascii.backslash, 0x75] then
      let (low, rest) ← unit? (rest.drop 2)
      if 0xdc00 ≤ low ∧ low < 0xe000 then
        return (Utf8.encodeScalar (0x10000 + (high - 0xd800) * 1024 + (low - 0xdc00)), rest)
      else none
    else none
  else if 0xdc00 ≤ high ∧ high < 0xe000 then none
  else return (Utf8.encodeScalar high, rest)

def letterEscape? (c : UInt8) : Option UInt8 :=
  if c = Ascii.doubleQuote ∨ c = Ascii.backslash ∨ c = Ascii.slash then some c
  else if c = 0x62 then some 0x08
  else if c = 0x66 then some Ascii.formFeed
  else if c = 0x6e then some Ascii.lineFeed
  else if c = 0x72 then some Ascii.carriageReturn
  else if c = 0x74 then some Ascii.tab
  else none

def readStringWithin : Nat → Bytes → Option (Bytes × Bytes)
  | 0, _ => none
  | fuel + 1, s =>
      match s with
      | [] => none
      | c :: rest =>
          if c = Ascii.doubleQuote then some ([], rest)
          else if c < Ascii.space then none
          else if c = Ascii.backslash then
            match rest with
            | [] => none
            | d :: after => do
                let (bytes, after) ←
                  if d = 0x75 then escapedCharacter? after
                  else (letterEscape? d).map fun byte => ([byte], after)
                let (tail, after) ← readStringWithin fuel after
                return (bytes ++ tail, after)
          else (readStringWithin fuel rest).map fun tail => (c :: tail.1, tail.2)

def readString (s : Bytes) : Option (Bytes × Bytes) := do
  let (contents, rest) ← readStringWithin (s.length + 1) s
  if Utf8.isText contents then return (contents, rest) else none

/-! ## Containers -/

abbrev ValueReader := Bytes → Option (Value × Bytes)

/-- The elements of an array up to its bracket, at least one. -/
def readItemsWithin (value : ValueReader) : Nat → Bytes → Option (List Value × Bytes)
  | 0, _ => none
  | fuel + 1, s => do
      let (item, rest) ← value s
      match skipBlanks rest with
      | [] => none
      | c :: rest =>
          if c = Ascii.comma then
            let (items, rest) ← readItemsWithin value fuel rest
            return (item :: items, rest)
          else if c = Ascii.closeBracket then return ([item], rest)
          else none

def readField (value : ValueReader) (s : Bytes) : Option ((Bytes × Value) × Bytes) :=
  match skipBlanks s with
  | [] => none
  | c :: rest =>
      if c = Ascii.doubleQuote then do
        let (name, rest) ← readString rest
        match skipBlanks rest with
        | [] => none
        | c :: rest =>
            if c = Ascii.colon then
              let (v, rest) ← value rest
              return ((name, v), rest)
            else none
      else none

def readFieldsWithin (value : ValueReader) :
    Nat → List (Bytes × Value) → Bytes → Option (List (Bytes × Value) × Bytes)
  | 0, _, _ => none
  | fuel + 1, fields, s => do
      let (field, rest) ← readField value s
      let fields := assign field.1 field.2 fields
      match skipBlanks rest with
      | [] => none
      | c :: rest =>
          if c = Ascii.comma then readFieldsWithin value fuel fields rest
          else if c = Ascii.closeBrace then return (fields, rest)
          else none

def readWord (word : String) (value : Value) (s : Bytes) : Option (Value × Bytes) :=
  if (text word).isPrefixOf s then some (value, s.drop (text word).length) else none

/-- A value; `inner` reads the elements of a container. -/
def readWith (inner : ValueReader) : ValueReader := fun s =>
  match skipBlanks s with
  | [] => none
  | c :: rest =>
      if c = Ascii.openBracket then
        if (skipBlanks rest).head? = some Ascii.closeBracket then
          some (.array [], (skipBlanks rest).drop 1)
        else (readItemsWithin inner s.length rest).map fun read => (.array read.1, read.2)
      else if c = Ascii.openBrace then
        if (skipBlanks rest).head? = some Ascii.closeBrace then
          some (.object [], (skipBlanks rest).drop 1)
        else (readFieldsWithin inner s.length [] rest).map fun read => (.object read.1, read.2)
      else if c = Ascii.doubleQuote then
        (readString rest).map fun read => (.string read.1, read.2)
      else if c = Ascii.minus then readUnsigned true rest
      else if Ascii.isDigit c then readUnsigned false (c :: rest)
      else if c = 0x74 then readWord "true" (.bool true) (c :: rest)
      else if c = 0x66 then readWord "false" (.bool false) (c :: rest)
      else readWord "null" .null (c :: rest)

def readValue : Nat → ValueReader
  | 0 => readWith fun _ => none
  | levels + 1 => readWith (readValue levels)

def document? (s : Bytes) : Option Value := do
  let (value, rest) ← readValue s.length s
  if (skipBlanks rest).isEmpty then return value else none

end Json

end LuaAsset
