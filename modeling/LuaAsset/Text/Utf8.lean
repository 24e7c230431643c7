import LuaAsset.Bytes

/-! # UTF-8

`encodeScalar` writes a code point, and `characterLength?` recognises a well-formed character
(shortest form, no surrogate, at most `U+10FFFF`).  `decodeLossy` drops ill-formed bytes;
`decodeReplacing` writes `U+FFFD` for each maximal ill-formed part. -/

set_option autoImplicit false

namespace LuaAsset

namespace Utf8

def continuation (n : Nat) : UInt8 := UInt8.ofNat (128 + n % 64)

/-- A code point in one to four bytes.  The lead byte of four takes all bits above the eighteenth,
even more than three of them. -/
def encodeScalar (n : Nat) : Bytes :=
  if n < 0x80 then [UInt8.ofNat n]
  else if n < 0x800 then [UInt8.ofNat (0xc0 ||| n / 64), continuation n]
  else if n < 0x10000 then
    [UInt8.ofNat (0xe0 ||| n / 4096), continuation (n / 64), continuation n]
  else
    [UInt8.ofNat (0xf0 ||| n / 262144), continuation (n / 4096), continuation (n / 64),
      continuation n]

def isContinuation (c : UInt8) : Bool := c &&& 0xc0 == 0x80

def payload (c : UInt8) : Nat := c.toNat % 64

def isSurrogate (n : Nat) : Bool := 0xd800 ≤ n && n ≤ 0xdfff

def characterLength? : Bytes → Option Nat
  | [] => none
  | a :: rest =>
      if a < 0x80 then some 1
      else if a &&& 0xe0 == 0xc0 then
        match rest with
        | b :: _ =>
            let n := a.toNat % 32 * 64 + payload b
            if isContinuation b && 0x80 ≤ n then some 2 else none
        | _ => none
      else if a &&& 0xf0 == 0xe0 then
        match rest with
        | b :: c :: _ =>
            let n := (a.toNat % 16 * 64 + payload b) * 64 + payload c
            if isContinuation b && isContinuation c && 0x800 ≤ n && !isSurrogate n then some 3
            else none
        | _ => none
      else if a &&& 0xf8 == 0xf0 then
        match rest with
        | b :: c :: d :: _ =>
            let n := ((a.toNat % 8 * 64 + payload b) * 64 + payload c) * 64 + payload d
            if isContinuation b && isContinuation c && isContinuation d && 0x10000 ≤ n
                && n ≤ 0x10ffff then some 4
            else none
        | _ => none
      else none

/-- Keeps well-formed characters and drops other bytes.  The count is the number of bytes of the
current character still to come. -/
def keepCharacters : Nat → Bytes → Bytes
  | _, [] => []
  | owed + 1, c :: rest => c :: keepCharacters owed rest
  | 0, c :: rest =>
      match characterLength? (c :: rest) with
      | some length => c :: keepCharacters (length - 1) rest
      | none => keepCharacters 0 rest

def decodeLossy (s : Bytes) : Bytes := keepCharacters 0 s

/-- Whether `b` may follow the lead byte `a` of three or four bytes: no overlong form, no surrogate,
nothing beyond `U+10FFFF`. -/
def secondFits (a b : UInt8) : Bool :=
  if a = 0xe0 then 0xa0 ≤ b && b ≤ 0xbf
  else if a = 0xed then 0x80 ≤ b && b ≤ 0x9f
  else if a = 0xf0 then 0x90 ≤ b && b ≤ 0xbf
  else if a = 0xf4 then 0x80 ≤ b && b ≤ 0x8f
  else isContinuation b

/-- The length of the maximal ill-formed part at the front: the longest prefix of a character, or
one byte. -/
def brokenLength : Bytes → Nat
  | a :: b :: rest =>
      if 0xe0 ≤ a && a ≤ 0xf4 && secondFits a b then
        match rest with
        | c :: _ => if 0xf0 ≤ a && isContinuation c then 3 else 2
        | [] => 2
      else 1
  | _ => 1

def replacement : Bytes := [0xef, 0xbf, 0xbd]

/-- Keeps well-formed characters and writes `U+FFFD` for each maximal ill-formed part.  The counts
are the remaining bytes of the current character and of the current ill-formed part. -/
def replaceBroken : Nat → Nat → Bytes → Bytes
  | _, _, [] => []
  | owed + 1, broken, c :: rest => c :: replaceBroken owed broken rest
  | 0, broken + 1, _ :: rest => replaceBroken 0 broken rest
  | 0, 0, c :: rest =>
      match characterLength? (c :: rest) with
      | some length => c :: replaceBroken (length - 1) 0 rest
      | none => replacement ++ replaceBroken 0 (brokenLength (c :: rest) - 1) rest

def decodeReplacing (s : Bytes) : Bytes := replaceBroken 0 0 s

example : decodeReplacing [0xe2, 0x82, 0x41, 0xed, 0xa0, 0xc3, 0xa4, 0xf0, 0x90] =
    replacement ++ [0x41] ++ replacement ++ replacement ++ [0xc3, 0xa4] ++ replacement := by
  decide

def IsCharacter (c : Bytes) : Prop := characterLength? c = some c.length

instance (c : Bytes) : Decidable (IsCharacter c) :=
  inferInstanceAs (Decidable (characterLength? c = some c.length))

inductive IsText : Bytes → Prop where
  | nil : IsText []
  | append {c rest : Bytes} : IsCharacter c → IsText rest → IsText (c ++ rest)

def isText (s : Bytes) : Bool := decodeLossy s == s

end Utf8

end LuaAsset
