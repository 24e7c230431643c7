import LuaAsset.Number.Text
import LuaAsset.Text.Utf8
import LuaAsset.Value

/-! # Written documents

A value as a JSON document, either compact (`Value.compact`) or with one element per line
(`Value.indented`).  Strings escape the quote, the backslash and control bytes below the space, and
ill-formed UTF-8 is written as `U+FFFD`. -/

set_option autoImplicit false

namespace LuaAsset

namespace Json

def escapeByte (c : UInt8) : Bytes :=
  if c = Ascii.doubleQuote then text "\\\""
  else if c = Ascii.backslash then text "\\\\"
  else if c = 0x08 then text "\\b"
  else if c = Ascii.formFeed then text "\\f"
  else if c = Ascii.lineFeed then text "\\n"
  else if c = Ascii.carriageReturn then text "\\r"
  else if c = Ascii.tab then text "\\t"
  else if c < Ascii.space then text "\\u00" ++ hexByte c
  else [c]

def quoted (s : Bytes) : Bytes :=
  Ascii.doubleQuote :: (Utf8.decodeReplacing s).flatMap escapeByte ++ [Ascii.doubleQuote]

structure Spacing where
  lead : Nat → Bytes
  afterName : Bytes

def tight : Spacing := ⟨fun _ => [], text ":"⟩

/-- Each element on its own line, indented by two more spaces than its container. -/
def lines : Spacing :=
  ⟨fun depth => Ascii.lineFeed :: List.replicate (2 * depth) Ascii.space, text ": "⟩

end Json

namespace Value

open Json

mutual

def written (spacing : Spacing) (depth : Nat) : Value → Bytes
  | .null => text "null"
  | .bool b => if b then text "true" else text "false"
  | .integer n => decimalInt n.toInt
  | .natural n => decimal n.toNat
  | .float x => documentNumberText x
  | .string s => quoted s
  | .array [] => text "[]"
  | .array (item :: items) =>
      Ascii.openBracket :: spacing.lead (depth + 1) ++ item.written spacing (depth + 1) ++
        writtenItems spacing (depth + 1) items ++ spacing.lead depth ++ [Ascii.closeBracket]
  | .object [] => [Ascii.openBrace, Ascii.closeBrace]
  | .object ((name, value) :: fields) =>
      Ascii.openBrace :: spacing.lead (depth + 1) ++ quoted name ++ spacing.afterName ++
        value.written spacing (depth + 1) ++ writtenFields spacing (depth + 1) fields ++
        spacing.lead depth ++ [Ascii.closeBrace]

def writtenItems (spacing : Spacing) (depth : Nat) : List Value → Bytes
  | [] => []
  | item :: items =>
      Ascii.comma :: spacing.lead depth ++ item.written spacing depth ++
        writtenItems spacing depth items

def writtenFields (spacing : Spacing) (depth : Nat) : List (Bytes × Value) → Bytes
  | [] => []
  | (name, value) :: fields =>
      Ascii.comma :: spacing.lead depth ++ quoted name ++ spacing.afterName ++
        value.written spacing depth ++ writtenFields spacing depth fields

end

def compact (v : Value) : Bytes := v.written tight 0

def indented (v : Value) : Bytes := v.written lines 0

end Value

end LuaAsset
