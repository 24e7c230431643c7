import LuaAsset.Host.Pattern

/-! # Regular expressions

Basic and extended regular expressions, matched by backtracking with the leftmost longest match.  A
repetition visits each place once, so that without back-references the cost is quadratic in the
text. -/

set_option autoImplicit false

namespace LuaAsset

inductive Anchor where
  | start
  | finish
  | wordStart
  | wordEnd
  | wordEdge
  | insideWord
  | lineStart
  | lineEnd
  deriving DecidableEq, Repr

inductive Regex where
  | empty
  | oneOf (set : UInt8 → Bool)
  | anchor (a : Anchor)
  | sequence (a b : Regex)
  | either (a b : Regex)
  | repeated (a : Regex) (least : Nat) (most : Option Nat)
  | group (index : Nat) (a : Regex)
  | reference (index : Nat)

namespace Regex

/-! ## Matching -/

/-- A position in a text with the groups matched so far, last first. -/
structure Place where
  index : Nat
  groups : List (Nat × Nat × Nat)

def isWordByte (c : UInt8) : Bool := Ascii.isLetter c || Ascii.isDigit c || c == Ascii.underscore

/-- Whether an anchor holds at a place; `ignoreStart` says that the text continues to the left. -/
def Anchor.holds (s : Array UInt8) (ignoreStart : Bool) (a : Anchor) (i : Nat) : Bool :=
  let before := i != 0 && s[i - 1]?.any isWordByte
  let behind := s[i]?.any isWordByte
  match a with
  | .start => i == 0 && !ignoreStart
  | .finish => i == s.size
  | .wordStart => !before && behind
  | .wordEnd => before && !behind
  | .wordEdge => before != behind
  | .insideWord => before == behind
  | .lineStart => (i == 0 && !ignoreStart) || (i != 0 && s[i - 1]? == some Ascii.lineFeed)
  | .lineEnd => i == s.size || s[i]? == some Ascii.lineFeed

def distinct (size : Nat) (places : List Place) : List Place :=
  (places.foldl (fun (acc : Array Bool × List Place) p =>
    if acc.1.getD p.index false then acc
    else (acc.1.setIfInBounds p.index true, p :: acc.2))
    (Array.replicate (size + 1) false, [])).2.reverse

/-- The places where a repetition may end, those after most rounds first. -/
def rounds (step : Place → List Place) (least : Nat) (most : Option Nat) :
    Nat → Nat → Place → List Place
  | 0, _, p => [p]
  | fuel + 1, done, p =>
      let further :=
        if most.any (· ≤ done) then []
        else (step p).flatMap fun q =>
          if q.index = p.index ∧ least ≤ done then [] else rounds step least most fuel (done + 1) q
      if least ≤ done then further ++ [p] else further

def ends (s : Array UInt8) (fold ignoreStart : Bool) : Regex → Place → List Place
  | .empty, p => [p]
  | .oneOf set, p =>
      match s[p.index]? with
      | some c =>
          let isIn :=
            set c || (fold && (set (Ascii.toLower c) ||
              (0x61 ≤ c && c ≤ 0x7a && set (c - 0x20))))
          if isIn then [{ p with index := p.index + 1 }] else []
      | none => []
  | .anchor a, p => if Anchor.holds s ignoreStart a p.index then [p] else []
  | .sequence a b, p =>
      distinct s.size ((ends s fold ignoreStart a p).flatMap (ends s fold ignoreStart b))
  | .either a b, p => ends s fold ignoreStart a p ++ ends s fold ignoreStart b p
  | .repeated (.oneOf set) least most, p =>
      -- Bytes of one set are counted at once.
      let matching (c : UInt8) : Bool :=
        set c || (fold && (set (Ascii.toLower c) || (0x61 ≤ c && c ≤ 0x7a && set (c - 0x20))))
      let available := ((s.toList.drop p.index).takeWhile matching).length
      let highest := match most with
        | some n => min n available
        | none => available
      ((List.range (highest + 1)).drop least).reverse.map fun n => { p with index := p.index + n }
  | .repeated a least most, p =>
      distinct s.size
        (rounds (ends s fold ignoreStart a) least most (s.size + least + 1) 0 p)
  | .group index a, p =>
      (ends s fold ignoreStart a p).map fun q =>
        { q with groups := (index, p.index, q.index) :: q.groups }
  | .reference index, p =>
      match p.groups.lookup index with
      | some (i, j) =>
          let part := (s.extract i j).toList
          if (s.extract p.index (p.index + part.length)).toList = part then
            [{ p with index := p.index + part.length }]
          else []
      | none => []

structure Found where
  start : Nat
  finish : Nat
  groups : List (Nat × Nat × Nat)

def matchAt (r : Regex) (s : Array UInt8) (fold ignoreStart : Bool) (i : Nat) : Option Found :=
  let best := (ends s fold ignoreStart r ⟨i, []⟩).foldl (fun (best : Option Place) p =>
    match best with
    | some b => if b.index < p.index then some p else best
    | none => some p) none
  best.map fun p => ⟨i, p.index, p.groups⟩

/-- The first of the longest matches at the leftmost place. -/
def search (r : Regex) (s : Array UInt8) (fold ignoreStart : Bool) (start : Nat) : Option Found :=
  ((List.range (s.size + 1 - start)).findSome? fun n =>
    r.matchAt s fold ignoreStart (start + n))

/-! ## Notation -/

inductive Fault where
  | unmatchedBracket
  | unmatchedOpening
  | unmatchedClosing
  | unmatchedBrace
  | badRange
  | badContent
  | nothingRepeated
  | trailingBackslash
  | badReference
  | badClass
  | malformed
  deriving DecidableEq, Repr

def Fault.wording : Fault → Bytes
  | .unmatchedBracket => text "Unmatched [, [^, [:, [., or [="
  | .unmatchedOpening => text "Unmatched ( or \\("
  | .unmatchedClosing => text "Unmatched ) or \\)"
  | .unmatchedBrace => text "Unmatched \\\x7b"
  | .badRange => text "Invalid range end"
  | .badContent => text "Invalid content of \\\x7b\\\x7d"
  | .nothingRepeated => text "Invalid preceding regular expression"
  | .trailingBackslash => text "Trailing backslash"
  | .badReference => text "Invalid back reference"
  | .badClass => text "Invalid character class name"
  | .malformed => text "Invalid regular expression"

inductive Style where
  | plain
  | extended
  | plainStrict
  | extendedStrict
  deriving DecidableEq, Repr

namespace Style

def isExtended : Style → Bool
  | .extended | .extendedStrict => true
  | _ => false

def isStrict : Style → Bool
  | .plainStrict | .extendedStrict => true
  | _ => false

end Style

inductive Symbol where
  | set (set : UInt8 → Bool)
  | anchor (a : Anchor)
  | opening
  | closing
  | bar
  | repetition (least : Nat) (most : Option Nat)
  | reference (index : Nat)

def bracket : Nat → Bool → Bytes → Except Fault ((UInt8 → Bool) × Bytes)
  | 0, _, _ => .error .unmatchedBracket
  | _, first, [] => .error (if first then .malformed else .unmatchedBracket)
  | fuel + 1, first, c :: rest =>
      if c = Ascii.closeBracket && !first then .ok (fun _ => false, rest)
      else if c = Ascii.openBracket && rest.head? == some Ascii.colon then
        match splitAtFirst (text ":]") (rest.drop 1) with
        | none => .error .unmatchedBracket
        | some (name, behind) =>
            match characterClass? name with
            | none => .error .badClass
            | some isIn => do
                let (set, behind) ← bracket fuel false behind
                return (fun d => isIn d || set d, behind)
      else match rest with
        | Ascii.minus :: d :: behind =>
            if d = Ascii.closeBracket then do
              let (set, behind) ← bracket fuel false rest
              return (fun e => e == c || set e, behind)
            else if d < c then .error .badRange
            else do
              let (set, behind) ← bracket fuel false behind
              return (fun e => (c ≤ e && e ≤ d) || set e, behind)
        | _ => do
            let (set, behind) ← bracket fuel false rest
            return (fun e => e == c || set e, behind)

def bracketSet (s : Bytes) : Except Fault ((UInt8 → Bool) × Bytes) :=
  match s with
  | Ascii.caret :: rest => do
      let (set, behind) ← bracket (rest.length + 1) true rest
      return (fun c => !set c, behind)
  | rest => bracket (rest.length + 1) true rest

/-- The bounds of a repetition and the rest after the brace. -/
def bounds (extended : Bool) (s : Bytes) : Except Fault (Symbol × Bytes) :=
  let closing := if extended then [Ascii.closeBrace] else [Ascii.backslash, Ascii.closeBrace]
  match splitAtFirst closing s with
  | none => .error .unmatchedBrace
  | some (inside, behind) =>
      let number? (t : Bytes) : Option Nat :=
        if !t.isEmpty && t.all Ascii.isDigit then some (decimalValue t) else none
      match splitOn Ascii.comma inside with
      | [n] => match number? n with
          | some n => .ok (.repetition n (some n), behind)
          | none => .error .badContent
      | [n, m] =>
          match (if n.isEmpty then some 0 else number? n), m.isEmpty, number? m with
          | some n, true, _ => .ok (.repetition n none, behind)
          | some n, false, some m =>
              if m < n then .error .badContent else .ok (.repetition n (some m), behind)
          | _, _, _ => .error .badContent
      | _ => .error .badContent

/-- The meaning of a letter after a backslash in both notations. -/
def letter? (c : UInt8) : Option Symbol :=
  match Char.ofNat c.toNat with
  | 'w' => some (.set isWordByte)
  | 'W' => some (.set fun c => !isWordByte c)
  | 's' => some (.set Ascii.isBlank)
  | 'S' => some (.set fun c => !Ascii.isBlank c)
  | '<' => some (.anchor .wordStart)
  | '>' => some (.anchor .wordEnd)
  | 'b' => some (.anchor .wordEdge)
  | 'B' => some (.anchor .insideWord)
  | _ => none

/-- The operator of a byte in the notation where it needs no backslash. -/
def operator? (c : UInt8) : Option Symbol :=
  match Char.ofNat c.toNat with
  | '(' => some .opening
  | ')' => some .closing
  | '|' => some .bar
  | '+' => some (.repetition 1 none)
  | '?' => some (.repetition 0 (some 1))
  | _ => none

/-- Whether a symbol may be followed by the start of an expression. -/
def startsAnew (last : Option Symbol) : Bool :=
  match last with
  | none | some .opening | some .bar => true
  | _ => false

def symbols (style : Style) : Nat → Option Symbol → Bytes → Except Fault (List Symbol)
  | 0, _, _ => .ok []
  | _, _, [] => .ok []
  | fuel + 1, last, c :: rest =>
      let extended := style.isExtended
      let goOn (symbol : Symbol) (rest : Bytes) : Except Fault (List Symbol) := do
        return symbol :: (← symbols style fuel (some symbol) rest)
      let anew := startsAnew last || (match last with
        | some (.anchor .start) => !extended
        | _ => false)
      let byte (c : UInt8) : Symbol := .set fun d => d == c
      let isDoubled := style == .plainStrict && (match last with
        | some (.repetition _ _) => true
        | _ => false)
      let lacksOperand := style == .extendedStrict && (startsAnew last || (match last with
        | some (.anchor .start) => true
        | _ => false))
      if c = Ascii.backslash then
        match rest with
        | [] => .error .trailingBackslash
        | d :: behind =>
            if d = Ascii.openBrace then
              if extended then goOn (byte d) behind
              else if isDoubled then .error .nothingRepeated
              else do
                let (symbol, behind) ← bounds false behind
                goOn symbol behind
            else if Ascii.isDigit d && d != Ascii.zero then goOn (.reference (d.toNat - 48)) behind
            else if d = Ascii.backquote then goOn (.anchor .start) behind
            else if d = Ascii.singleQuote then goOn (.anchor .finish) behind
            else match letter? d, (if extended then none else operator? d) with
              | some symbol, _ => goOn symbol behind
              | none, some (.repetition least most) =>
                  if anew then goOn (byte d) behind else goOn (.repetition least most) behind
              | none, some symbol => goOn symbol behind
              | none, none => goOn (byte d) behind
      else if c = Ascii.dot then goOn (.set fun _ => true) rest
      else if c = Ascii.openBracket then do
        let (set, behind) ← bracketSet rest
        goOn (.set set) behind
      else if c = Ascii.star then
        if isDoubled || lacksOperand then .error .nothingRepeated
        else if anew then goOn (byte c) rest
        else goOn (.repetition 0 none) rest
      else if c = Ascii.caret then
        if extended || startsAnew last then goOn (.anchor .start) rest else goOn (byte c) rest
      else if c = Ascii.dollar then
        let isLast := rest.isEmpty || (text "\\)").isPrefixOf rest || (text "\\|").isPrefixOf rest
        if extended || isLast then goOn (.anchor .finish) rest else goOn (byte c) rest
      else if extended && c == Ascii.openBrace then
        if lacksOperand then .error .nothingRepeated
        else if anew then goOn (byte c) rest
        else match bounds true rest with
          | .ok (symbol, behind) => goOn symbol behind
          | .error fault => if style.isStrict then .error fault else goOn (byte c) rest
      else match (if extended then operator? c else none) with
        | some (.repetition least most) =>
            if lacksOperand then .error .nothingRepeated
            else if anew then goOn (byte c) rest
            else goOn (.repetition least most) rest
        | some symbol => goOn symbol rest
        | none => goOn (byte c) rest

def repetitions (a : Regex) : List Symbol → Regex × List Symbol
  | .repetition least most :: rest => repetitions (.repeated a least most) rest
  | rest => (a, rest)

mutual

/-- Alternatives and the number of groups so far; `fuel` bounds the symbols. -/
def alternatives : Nat → Nat → List Symbol → Except Fault (Regex × Nat × List Symbol)
  | 0, groups, rest => .ok (.empty, groups, rest)
  | fuel + 1, groups, rest => do
      let (a, groups, rest) ← branch fuel .empty groups rest
      match rest with
      | .bar :: rest =>
          let (b, groups, rest) ← alternatives fuel groups rest
          return (.either a b, groups, rest)
      | rest => return (a, groups, rest)

def branch : Nat → Regex → Nat → List Symbol → Except Fault (Regex × Nat × List Symbol)
  | 0, before, groups, rest => .ok (before, groups, rest)
  | fuel + 1, before, groups, symbols =>
      let behind (a : Regex) : Regex := match before with
        | .empty => a
        | before => .sequence before a
      match symbols with
      | [] => .ok (before, groups, [])
      | .bar :: _ | .closing :: _ => .ok (before, groups, symbols)
      | .opening :: rest => do
          let (a, count, rest) ← alternatives fuel (groups + 1) rest
          match rest with
          | .closing :: rest =>
              let (a, rest) := repetitions (.group (groups + 1) a) rest
              branch fuel (behind a) count rest
          | _ => .error .unmatchedOpening
      | .set set :: rest =>
          let (a, rest) := repetitions (.oneOf set) rest
          branch fuel (behind a) groups rest
      | .anchor a :: rest => branch fuel (behind (.anchor a)) groups rest
      | .reference n :: rest =>
          if groups < n then .error .badReference
          else
            let (a, rest) := repetitions (.reference n) rest
            branch fuel (behind a) groups rest
      | .repetition _ _ :: _ => .error .nothingRepeated

end

/-- Makes unmatched closing parentheses ordinary bytes. -/
def withPlainClosing : Nat → List Symbol → List Symbol
  | _, [] => []
  | 0, .closing :: rest =>
      .set (fun c => c == Ascii.closeParenthesis) :: withPlainClosing 0 rest
  | depth + 1, .closing :: rest => .closing :: withPlainClosing depth rest
  | depth, .opening :: rest => .opening :: withPlainClosing (depth + 1) rest
  | depth, symbol :: rest => symbol :: withPlainClosing depth rest

/-- The expression and the number of its groups. -/
def ofBytes (style : Style) (s : Bytes) : Except Fault (Regex × Nat) := do
  let symbols ← symbols style (s.length + 1) none s
  let symbols := if style = .extended then withPlainClosing 0 symbols else symbols
  let (r, groups, rest) ← alternatives (2 * symbols.length + 2) 0 symbols
  if rest.isEmpty then return (r, groups) else .error .unmatchedClosing

def literal (s : Bytes) : Regex :=
  s.foldr (fun c r => .sequence (.oneOf fun d => d == c) r) .empty

/-- The expression with text anchors that also match at lines. -/
def byLines : Regex → Regex
  | .anchor .start => .anchor .lineStart
  | .anchor .finish => .anchor .lineEnd
  | .sequence a b => .sequence a.byLines b.byLines
  | .either a b => .either a.byLines b.byLines
  | .repeated a least most => .repeated a.byLines least most
  | .group index a => .group index a.byLines
  | r => r

end Regex

end LuaAsset
