import LuaAsset.Bytes

/-! # Quotation

Quoting of file names and of arguments in diagnostics. -/

set_option autoImplicit false

namespace LuaAsset

def isPlainByte (c : UInt8) : Bool :=
  Ascii.isLetter c || Ascii.isDigit c || (text "%+,-./@_]").contains c

def isPrintable (c : UInt8) : Bool := 0x20 ≤ c && c < 0x7f

/-- The escape letter or digits of a byte that is not printed. -/
def escapeOf (c : UInt8) : Bytes :=
  match c.toNat with
  | 7 => text "a"
  | 8 => text "b"
  | 9 => text "t"
  | 10 => text "n"
  | 11 => text "v"
  | 12 => text "f"
  | 13 => text "r"
  | n => [n / 64, n / 8 % 8, n % 8].map fun d => UInt8.ofNat (48 + d)

/-- The inside of a quoted name, where unprintable bytes are in a quotation of their own. -/
def quotedFrom (escaping : Bool) : Bytes → Bytes
  | [] => if escaping then [] else [Ascii.singleQuote]
  | c :: rest =>
      if c = Ascii.singleQuote then text "'\\''" ++ quotedFrom false rest
      else if isPrintable c then
        (if escaping then text "''" else []) ++ c :: quotedFrom false rest
      else
        (if escaping then [] else text "'$'") ++ Ascii.backslash :: escapeOf c ++
          (if rest.isEmpty then [Ascii.singleQuote] else []) ++ quotedFrom true rest

def alwaysQuoted (name : Bytes) : Bytes :=
  let gentle := name.all fun c => isPlainByte c || (text " :=\x7b\x7d'").contains c
  let hasQuotes := name.contains Ascii.singleQuote
  if hasQuotes && gentle then Ascii.doubleQuote :: name ++ [Ascii.doubleQuote]
  else
    -- Of the two kinds of quotes, a name with both starts with the one that it ends with.
    Ascii.singleQuote :: quotedFrom (hasQuotes && name.getLast?.any (!isPrintable ·)) name

def quotedName (name : Bytes) : Bytes :=
  if !name.isEmpty && name.all isPlainByte then name else alwaysQuoted name

/-- An argument in quotes with the ambiguous bytes escaped. -/
def cited (word : Bytes) : Bytes :=
  let shown (c : UInt8) : Bytes :=
    if c = Ascii.backslash ∨ c = Ascii.singleQuote then [Ascii.backslash, c]
    else if isPrintable c then [c]
    else Ascii.backslash :: escapeOf c
  Ascii.singleQuote :: word.flatMap shown ++ [Ascii.singleQuote]

end LuaAsset
