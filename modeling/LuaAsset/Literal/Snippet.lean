import LuaAsset.Bytes

/-! # Snippets of records

Records are located in script text by the bytes `id=` inside a table, without parsing the script.
One pass keeps the braces that are open outside single-quoted strings and notes the innermost one at
every anchor.  Such a brace starts a snippet, up to its closing brace, unless its table is assigned
to a name; anchors before the end of a reported snippet are skipped. -/

set_option autoImplicit false

namespace LuaAsset

inductive Quoting where
  | outside
  | inside
  | escaped
  deriving DecidableEq, Repr

def Quoting.next : Quoting → UInt8 → Quoting
  | .outside, c => if c = Ascii.singleQuote then .inside else .outside
  | .inside, c =>
      if c = Ascii.backslash then .escaped
      else if c = Ascii.singleQuote then .outside
      else .inside
  | .escaped, _ => .inside

namespace Snippet

def anchorText : Bytes := [0x69, 0x64, 0x3d]

structure Brace where
  start : Nat
  assigned : Bool
  text : Bytes
  deriving DecidableEq, Repr

structure Anchor where
  position : Nat
  brace : Option Brace
  deriving DecidableEq, Repr

/-- Whether a brace after the reversed text opens a table that is assigned to a name, or the first
element of one. -/
def isAssignment : Bytes → Bool
  | c :: rest =>
      c == Ascii.equals || (c == Ascii.openBrace && rest.head? == some Ascii.equals)
  | [] => false

structure Progress where
  quoting : Quoting
  braces : List Brace
  /-- The bytes passed, reversed. -/
  passed : Bytes
  position : Nat

def Progress.start : Progress := ⟨.outside, [], [], 0⟩

def Progress.step (p : Progress) (c : UInt8) (rest : Bytes) : Progress :=
  let braces :=
    if p.quoting = .outside then
      if c = Ascii.openBrace then
        ⟨p.position, isAssignment p.passed, c :: rest⟩ :: p.braces
      else if c = Ascii.closeBrace then p.braces.drop 1
      else p.braces
    else p.braces
  ⟨p.quoting.next c, braces, c :: p.passed, p.position + 1⟩

/-- The anchors of a text from the current state of the pass. -/
def anchorsFrom (p : Progress) : Bytes → List Anchor
  | [] => []
  | c :: rest =>
      let later := anchorsFrom (p.step c rest) rest
      if anchorText.isPrefixOf (c :: rest) then ⟨p.position, p.braces.head?⟩ :: later else later

def anchors (s : Bytes) : List Anchor := anchorsFrom .start s

/-- The number of bytes up to the brace that closes the outermost of `depth` tables.  The depth is a
natural number, which agrees with a signed 32-bit count in texts of fewer than `2 ^ 31` braces. -/
def closingFrom (quoting : Quoting) (depth : Nat) : Bytes → Option Nat
  | [] => none
  | c :: rest =>
      if quoting = .outside ∧ c = Ascii.closeBrace ∧ depth = 1 then some 1
      else
        let inner :=
          if quoting = .outside then
            if c = Ascii.openBrace then depth + 1
            else if c = Ascii.closeBrace then depth - 1
            else depth
          else depth
        (closingFrom (quoting.next c) inner rest).map (· + 1)

def blockLength? (s : Bytes) : Option Nat := closingFrom .outside 0 s

/-- The snippets of anchors in order; anchors before the cursor are skipped. -/
def report (cursor : Nat) : List Anchor → List (Nat × Bytes)
  | [] => []
  | anchor :: later =>
      if anchor.position < cursor then report cursor later
      else match anchor.brace with
        | none => report cursor later
        | some brace =>
            if brace.assigned then report cursor later
            else match blockLength? brace.text with
              | none => report cursor later
              | some length =>
                  (brace.start, brace.text.take length) :: report (brace.start + length) later

def located (s : Bytes) : List (Nat × Bytes) := report 0 (anchors s)

end Snippet

def snippets (s : Bytes) : List Bytes := (Snippet.located s).map Prod.snd

end LuaAsset
