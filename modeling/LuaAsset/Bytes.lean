/-! # Byte strings

Assets, chunks and texts are lists of bytes, since a script need not be valid UTF-8.  This module
names the bytes of the formats, writes numbers in decimal and hexadecimal, and splits byte strings
at a pattern (`splitAtFirst`). -/

set_option autoImplicit false

-- A power of a whole number is the core one, also where a library brings its own.
attribute [instance (high), default_instance (high + 1)] instPowNat

namespace LuaAsset

abbrev Bytes := List UInt8

theorem forall_byte {p : UInt8 → Prop} (all : ∀ n : Fin 256, p (UInt8.ofNat n)) (c : UInt8) :
    p c := by
  have same := all ⟨c.toNat, UInt8.toNat_lt c⟩
  rwa [UInt8.ofNat_toNat] at same

def text (s : String) : Bytes := s.toUTF8.data.toList

namespace Ascii

@[match_pattern] abbrev tab : UInt8 := 0x09
@[match_pattern] abbrev lineFeed : UInt8 := 0x0a
@[match_pattern] abbrev verticalTab : UInt8 := 0x0b
@[match_pattern] abbrev formFeed : UInt8 := 0x0c
@[match_pattern] abbrev carriageReturn : UInt8 := 0x0d
@[match_pattern] abbrev space : UInt8 := 0x20
@[match_pattern] abbrev exclamation : UInt8 := 0x21
@[match_pattern] abbrev doubleQuote : UInt8 := 0x22
@[match_pattern] abbrev hash : UInt8 := 0x23
@[match_pattern] abbrev dollar : UInt8 := 0x24
@[match_pattern] abbrev percent : UInt8 := 0x25
@[match_pattern] abbrev ampersand : UInt8 := 0x26
@[match_pattern] abbrev singleQuote : UInt8 := 0x27
@[match_pattern] abbrev openParenthesis : UInt8 := 0x28
@[match_pattern] abbrev closeParenthesis : UInt8 := 0x29
@[match_pattern] abbrev star : UInt8 := 0x2a
@[match_pattern] abbrev plus : UInt8 := 0x2b
@[match_pattern] abbrev comma : UInt8 := 0x2c
@[match_pattern] abbrev minus : UInt8 := 0x2d
@[match_pattern] abbrev dot : UInt8 := 0x2e
@[match_pattern] abbrev slash : UInt8 := 0x2f
@[match_pattern] abbrev zero : UInt8 := 0x30
@[match_pattern] abbrev nine : UInt8 := 0x39
@[match_pattern] abbrev colon : UInt8 := 0x3a
@[match_pattern] abbrev semicolon : UInt8 := 0x3b
@[match_pattern] abbrev less : UInt8 := 0x3c
@[match_pattern] abbrev equals : UInt8 := 0x3d
@[match_pattern] abbrev greater : UInt8 := 0x3e
@[match_pattern] abbrev question : UInt8 := 0x3f
@[match_pattern] abbrev atSign : UInt8 := 0x40
@[match_pattern] abbrev openBracket : UInt8 := 0x5b
@[match_pattern] abbrev backslash : UInt8 := 0x5c
@[match_pattern] abbrev closeBracket : UInt8 := 0x5d
@[match_pattern] abbrev caret : UInt8 := 0x5e
@[match_pattern] abbrev underscore : UInt8 := 0x5f
@[match_pattern] abbrev backquote : UInt8 := 0x60
@[match_pattern] abbrev openBrace : UInt8 := 0x7b
@[match_pattern] abbrev bar : UInt8 := 0x7c
@[match_pattern] abbrev closeBrace : UInt8 := 0x7d
@[match_pattern] abbrev tilde : UInt8 := 0x7e

def isDigit (c : UInt8) : Bool := zero ≤ c && c ≤ nine

def isLetter (c : UInt8) : Bool := (0x61 ≤ c && c ≤ 0x7a) || (0x41 ≤ c && c ≤ 0x5a)

def isHexDigit (c : UInt8) : Bool :=
  isDigit c || (0x61 ≤ c && c ≤ 0x66) || (0x41 ≤ c && c ≤ 0x46)

def hexValue (c : UInt8) : Nat :=
  if isDigit c then c.toNat - 48
  else if 0x61 ≤ c && c ≤ 0x66 then c.toNat - 87
  else c.toNat - 55

def isBlank (c : UInt8) : Bool :=
  c == space || c == tab || c == carriageReturn || c == lineFeed || c == formFeed
    || c == verticalTab

/-- ASCII lower case; other bytes are unchanged. -/
def toLower (c : UInt8) : UInt8 := if 0x41 ≤ c && c ≤ 0x5a then c + 0x20 else c

end Ascii

/-! ## Numerals -/

def decimal (n : Nat) : Bytes :=
  if n < 10 then [UInt8.ofNat (48 + n)]
  else decimal (n / 10) ++ [UInt8.ofNat (48 + n % 10)]
termination_by n

def decimalInt : Int → Bytes
  | .ofNat n => decimal n
  | .negSucc n => Ascii.minus :: decimal (n + 1)

def decimalValue (digits : Bytes) : Nat := digits.foldl (fun n c => n * 10 + (c.toNat - 48)) 0

def hexadecimalValue (digits : Bytes) : Nat :=
  digits.foldl (fun n c => n * 16 + Ascii.hexValue c) 0

def hexDigit (n : Nat) : UInt8 := UInt8.ofNat (if n < 10 then 48 + n else 87 + n)

def hexByte (c : UInt8) : Bytes := [hexDigit (c.toNat / 16), hexDigit (c.toNat % 16)]

def hexadecimal (s : Bytes) : Bytes := s.flatMap hexByte

/-! ## Cutting -/

/-- The bytes before the first zero byte. -/
def upToZero (s : Bytes) : Bytes := s.takeWhile (· != 0)

def splitAtFirst (pattern : Bytes) : Bytes → Option (Bytes × Bytes)
  | [] => if pattern.isEmpty then some ([], []) else none
  | c :: rest =>
      if pattern.isPrefixOf (c :: rest) then some ([], (c :: rest).drop pattern.length)
      else (splitAtFirst pattern rest).map fun cut => (c :: cut.1, cut.2)

theorem splitAtFirst_eq (pattern : Bytes) :
    ∀ (s before after : Bytes), splitAtFirst pattern s = some (before, after) →
      s = before ++ pattern ++ after := by
  intro s
  induction s with
  | nil =>
      intro before after h
      unfold splitAtFirst at h
      split at h
      · rename_i hp
        simp only [Option.some.injEq, Prod.mk.injEq] at h
        simp [← h.1, ← h.2, List.isEmpty_iff.mp hp]
      · cases h
  | cons c rest ih =>
      intro before after h
      unfold splitAtFirst at h
      split at h
      · rename_i hp
        simp only [Option.some.injEq, Prod.mk.injEq] at h
        obtain ⟨tail, ht⟩ := List.isPrefixOf_iff_prefix.mp hp
        rw [← h.1, ← h.2, ← ht]
        simp
      · obtain ⟨cut, hc, he⟩ := Option.map_eq_some_iff.mp h
        simp only [Prod.mk.injEq] at he
        rw [ih cut.1 cut.2 hc, ← he.1, ← he.2]
        simp

def trim (isOuter : UInt8 → Bool) (s : Bytes) : Bytes :=
  ((s.dropWhile isOuter).reverse.dropWhile isOuter).reverse

/-- The parts between the occurrences of a byte. -/
def splitOn (separator : UInt8) : Bytes → List Bytes
  | [] => [[]]
  | c :: rest =>
      if c = separator then [] :: splitOn separator rest
      else match splitOn separator rest with
        | [] => [[c]]
        | part :: parts => (c :: part) :: parts

def bytesLt : Bytes → Bytes → Bool
  | _, [] => false
  | [], _ :: _ => true
  | a :: s, b :: t => a < b || (a == b && bytesLt s t)

end LuaAsset
