import LuaAsset.Host.Regex

/-! # Scripts of the line editor

A script is a flat list of commands with addresses; blocks are pairs of opening and closing
commands.  It is read from several pieces, and the text of a command may continue in the next piece.
-/

set_option autoImplicit false

namespace LuaAsset

namespace Editor

/-! ## Commands -/

structure Matcher where
  regex : Regex
  groups : Nat
  fold : Bool

/-- The lines a command applies to; no matcher stands for the last one used. -/
inductive Address where
  | line (number : Nat)
  | every (first step : Nat)
  | last
  | found (matcher : Option Matcher)

inductive Limit where
  | line (number : Nat)
  | last
  | found (matcher : Option Matcher)
  | further (count : Nat)
  | multiple (of : Nat)

inductive Letters where
  | asTheyAre
  | upper
  | lower
  deriving DecidableEq, Repr

structure Part where
  letters : Letters
  first : Option Letters
  bytes : Bytes
  group : Option Nat
  deriving Repr

structure Substitution where
  matcher : Option Matcher
  replacement : List Part
  number : Nat
  everywhere : Bool
  shown : Bool
  file : Option Bytes

inductive JumpTime where
  | always
  | replaced
  | unreplaced
  deriving DecidableEq, Repr

inductive Action where
  | openBlock
  | closeBlock
  | label (name : Bytes)
  | jump (time : JumpTime) (label : Bytes)
  | append (lines : Bytes)
  | insert (lines : Bytes)
  | change (lines : Bytes)
  | delete
  | deleteFirst
  | print
  | printFirst
  | next
  | nextAppended
  | lineNumber
  | fileName
  | listing (width : Option Nat)
  | hold
  | holdAppended
  | fetch
  | fetchAppended
  | exchange
  | clear
  | translate (pairs : List (UInt8 × UInt8))
  | substitute (s : Substitution)
  | readFile (name : Bytes)
  | readLine (name : Bytes)
  | writeFile (name : Bytes)
  | writeFirst (name : Bytes)
  | quit (code : Nat)
  | quitSilently (code : Nat)
  | nothing

structure Command where
  index : Nat
  start : Option Address
  limit : Option Limit
  negated : Bool
  action : Action

inductive Origin where
  | argument (number : Nat)
  | file (name : Bytes)
  deriving Repr

structure Script where
  commands : List Command
  quiet : Bool

/-! ## Reading bytes -/

structure Cursor where
  rest : Bytes
  taken : Nat
  line : Nat

abbrev Reader := EStateM Bytes Cursor

namespace Reader

def fail {α : Type} (what : String) : Reader α := throw (text what)

def next : Reader (Option UInt8) :=
  modifyGet fun s => match s.rest with
    | [] => (none, s)
    | c :: rest => (some c, ⟨rest, s.taken + 1, if c = Ascii.lineFeed then s.line + 1 else s.line⟩)

def back (c : Option UInt8) : Reader Unit :=
  modify fun s => match c with
    | none => s
    | some c => ⟨c :: s.rest, s.taken - 1, if c = Ascii.lineFeed then s.line - 1 else s.line⟩

def skip (count : Nat) : Reader Unit :=
  modify fun s =>
    ⟨s.rest.drop count, s.taken + count, s.line + (s.rest.take count).count Ascii.lineFeed⟩

def takeWhile (isIn : UInt8 → Bool) : Reader Bytes := do
  let taken := (← get).rest.takeWhile isIn
  skip taken.length
  return taken

def isGap (c : UInt8) : Bool := c == Ascii.space || c == Ascii.tab

def nextFilled : Reader (Option UInt8) := do
  let _ ← takeWhile isGap
  next

def number (first : Option UInt8) : Reader Nat := do
  back first
  return decimalValue (← takeWhile Ascii.isDigit)

def endOfCommand : Reader Unit := do
  match ← nextFilled with
  | none | some Ascii.lineFeed | some Ascii.semicolon => pure ()
  | some c =>
      if c = Ascii.closeBrace ∨ c = Ascii.hash then back (some c)
      else fail "extra characters after command"

def labelName : Reader Bytes := do
  let _ ← takeWhile isGap
  takeWhile fun c => !Ascii.isBlank c && !(text ";#\x7d").contains c

def fileName : Reader Bytes := do
  let _ ← takeWhile isGap
  let name ← takeWhile (· != Ascii.lineFeed)
  if name.isEmpty then fail "missing filename in r/R/w/W commands"
  let _ ← next
  return name

/-! ## Escapes -/

def byteOf (base : Nat) (digits : Bytes) : UInt8 :=
  UInt8.ofNat (digits.foldl (fun n c => n * base + Ascii.hexValue c) 0)

/-- The byte of an escape, and the rest. -/
def escaped? (s : Bytes) : Option (UInt8 × Bytes) :=
  let numeral (base most : Nat) (rest : Bytes) : Option (UInt8 × Bytes) :=
    let digits := (rest.take most).takeWhile fun c =>
      Ascii.isHexDigit c && Ascii.hexValue c < base
    if digits.isEmpty then none else some (byteOf base digits, rest.drop digits.length)
  match s with
  | [] => none
  | c :: rest =>
      match Char.ofNat c.toNat with
      | 'a' => some (7, rest)
      | 'f' => some (Ascii.formFeed, rest)
      | 'n' => some (Ascii.lineFeed, rest)
      | 'r' => some (Ascii.carriageReturn, rest)
      | 't' => some (Ascii.tab, rest)
      | 'v' => some (Ascii.verticalTab, rest)
      | 'c' => match rest with
          | d :: rest => some ((if 0x61 ≤ d && d ≤ 0x7a then d - 0x20 else d) ^^^ 0x40, rest)
          | [] => none
      | 'd' => numeral 10 3 rest
      | 'o' => numeral 8 3 rest
      | 'x' => numeral 16 2 rest
      | _ => none

/-- A text with escapes replaced; other backslashes are kept iff `kept`.  `fuel` bounds the bytes.
-/
def unescaped (kept : Bool) : Nat → Bytes → Bytes
  | 0, s => s
  | _, [] => []
  | fuel + 1, c :: rest =>
      if c = Ascii.backslash then
        match escaped? rest, rest with
        | some (d, rest), _ => d :: unescaped kept fuel rest
        | none, d :: rest => (if kept then [c, d] else [d]) ++ unescaped kept fuel rest
        | none, [] => if kept then [c] else []
      else c :: unescaped kept fuel rest

/-! ## Text between delimiters -/

/-- Whether a place of an expression lies within a bracket. -/
inductive Depth where
  | outside
  | opened
  | negated
  | inside
  | named (mark : UInt8)
  deriving DecidableEq

/-- The text before a delimiter, the number of bytes consumed, and whether the delimiter was found.
A backslash escapes it, and it is plain within brackets. -/
def delimited (delimiter : UInt8) (isExpression : Bool) : Depth → Bytes → Bytes × Nat × Bool
  | _, [] => ([], 0, false)
  | depth, c :: rest =>
      let goOn (depth : Depth) : Bytes × Nat × Bool :=
        let (s, taken, found) := delimited delimiter isExpression depth rest
        (c :: s, taken + 1, found)
      if c = Ascii.lineFeed then ([], 0, false)
      else match depth with
        | .outside =>
            if c = delimiter then ([], 1, true)
            else if c = Ascii.backslash then
              match rest with
              | [] => ([], 1, false)
              | d :: rest =>
                  let (s, taken, found) := delimited delimiter isExpression .outside rest
                  let isEnd := d == delimiter && (isExpression || d != Ascii.ampersand)
                  let kept :=
                    if d = Char.toUInt8 'n' && isExpression then [Ascii.lineFeed]
                    else if d = Ascii.lineFeed || isEnd then [d]
                    else [c, d]
                  (kept ++ s, taken + 2, found)
            else if c = Ascii.openBracket && isExpression then goOn .opened
            else goOn .outside
        | .named mark =>
            if c = mark && rest.head? == some Ascii.closeBracket then
              match rest with
              | d :: rest =>
                  let (s, taken, found) := delimited delimiter isExpression .inside rest
                  (c :: d :: s, taken + 2, found)
              | [] => ([], 1, false)
            else goOn (.named mark)
        | depth =>
            if c = Ascii.caret ∧ depth = .opened then goOn .negated
            else if c = Ascii.closeBracket then
              goOn (if depth = .inside then .outside else .inside)
            else match c, rest with
              | Ascii.openBracket, Ascii.colon :: _ => goOn (.named Ascii.colon)
              | Ascii.openBracket, Ascii.dot :: _ => goOn (.named Ascii.dot)
              | Ascii.openBracket, Ascii.equals :: _ => goOn (.named Ascii.equals)
              | Ascii.backslash, d :: rest =>
                  if d = Char.toUInt8 'n' then
                    let (s, taken, found) := delimited delimiter isExpression .inside rest
                    (Ascii.lineFeed :: s, taken + 2, found)
                  else goOn .inside
              | _, _ => goOn .inside

/-- The text up to a delimiter, or the fault `missing`. -/
def upTo (delimiter : Option UInt8) (isExpression : Bool) (missing : String) : Reader Bytes := do
  match delimiter with
  | none => fail missing
  | some delimiter =>
      let (s, taken, found) := delimited delimiter isExpression .outside (← get).rest
      skip taken
      if found then return s else fail missing

/-- The matcher of an expression; an empty one stands for the last used. -/
def matcher (extended : Bool) (s : Bytes) (fold byLines : Bool) : Reader (Option Matcher) := do
  if s.isEmpty then
    if fold || byLines then fail "cannot specify modifiers on empty regexp"
    return none
  match Regex.ofBytes (if extended then .extendedStrict else .plainStrict)
      (unescaped true (s.length + 1) s) with
  | .ok (regex, groups) => return some ⟨if byLines then regex.byLines else regex, groups, fold⟩
  | .error fault => throw fault.wording

/-! ## Addresses -/

/-- The flags after an expression: ignore case, and match at lines. -/
def matcherLetters : Nat → Bool → Bool → Reader (Bool × Bool)
  | 0, fold, byLines => return (fold, byLines)
  | fuel + 1, fold, byLines => do
      let c ← nextFilled
      if c = some (Char.toUInt8 'I') then matcherLetters fuel true byLines
      else if c = some (Char.toUInt8 'M') then matcherLetters fuel fold true
      else
        back c
        return (fold, byLines)

def addressMatcher (extended : Bool) (c : UInt8) : Reader (Option Matcher) := do
  let delimiter ← if c = Ascii.backslash then next else pure (some c)
  let s ← upTo delimiter true "unterminated address regex"
  let (fold, byLines) ← matcherLetters ((← get).rest.length + 1) false false
  matcher extended s fold byLines

def address (extended : Bool) (first : Option UInt8) : Reader (Option Address) := do
  match first with
  | none => return none
  | some c =>
      if c = Ascii.slash ∨ c = Ascii.backslash then
        return some (.found (← addressMatcher extended c))
      else if Ascii.isDigit c then
        let n ← number first
        let c ← nextFilled
        if c = some Ascii.tilde then
          let step ← number (← nextFilled)
          return some (if step = 0 then .line n else .every n step)
        else
          back c
          return some (.line n)
      else if c = Ascii.dollar then return some .last
      else if c = Ascii.plus ∨ c = Ascii.tilde then
        let _ ← number (← nextFilled)
        fail "invalid usage of +N or ~N as first address"
      else return none

def limit (extended : Bool) (first : Option UInt8) : Reader Limit := do
  if first = some Ascii.plus then return .further (← number (← nextFilled))
  else if first = some Ascii.tilde then return .multiple (← number (← nextFilled))
  else match ← address extended first with
    | some (.line n) => return .line n
    | some (.every n _) => return .line n
    | some .last => return .last
    | some (.found m) => return .found m
    | none => fail "unexpected `,'"

/-! ## Commands with arguments -/

/-- The number of bytes before the line feed that ends a text. -/
def textLength : Bytes → Nat
  | [] => 0
  | [c] => if c = Ascii.lineFeed then 0 else 1
  | c :: d :: rest =>
      if c = Ascii.lineFeed then 0
      else if c = Ascii.backslash then 2 + textLength rest
      else 1 + textLength (d :: rest)

/-- The text of a command, and whether it continues in the next piece. -/
def textLines : Reader (Bytes × Bool) := do
  let rest := (← get).rest
  let length := textLength rest
  let raw := rest.take length
  skip (length + 1)
  let continued := length = rest.length &&
    ((raw.reverse.takeWhile (· == Ascii.backslash)).length % 2 == 1)
  return (unescaped false (raw.length + 1) raw ++ [Ascii.lineFeed], continued)

/-- The text argument of a command, and whether it continues in the next piece. -/
def commandText : Reader (Bytes × Bool) := do
  match ← nextFilled with
  | none => fail "expected \\ after `a', `c' or `i'"
  | some Ascii.lineFeed => return ([], false)
  | some Ascii.backslash =>
      let gaps := (← get).rest.takeWhile isGap
      match (← get).rest.drop gaps.length with
      | [] => return ([], true)
      | Ascii.lineFeed :: _ =>
          skip (gaps.length + 1)
          if gaps.isEmpty then textLines else return ([], false)
      | _ => textLines
  | some c =>
      back (some c)
      textLines

/-- The parts of a replacement.  `letters` and `first` are the current case, `before` is the current
part reversed; `fuel` bounds the bytes. -/
def parts : Nat → Letters → Option Letters → Bytes → Bytes → List Part
  | 0, letters, first, before, _ => [⟨letters, first, before.reverse, none⟩]
  | _, letters, first, before, [] => [⟨letters, first, before.reverse, none⟩]
  | fuel + 1, letters, first, before, c :: rest =>
      let part (group : Option Nat) : Part := ⟨letters, first, before.reverse, group⟩
      if c = Ascii.ampersand then part (some 0) :: parts fuel letters none [] rest
      else if c ≠ Ascii.backslash then parts fuel letters first (c :: before) rest
      else match escaped? rest, rest with
        | some (d, rest), _ => parts fuel letters first (d :: before) rest
        | none, [] => [⟨letters, first, (c :: before).reverse, none⟩]
        | none, d :: rest =>
            if Ascii.isDigit d then part (some (d.toNat - 48)) :: parts fuel letters none [] rest
            else match Char.ofNat d.toNat with
              | 'L' => part none :: parts fuel .lower none [] rest
              | 'U' => part none :: parts fuel .upper none [] rest
              | 'E' => part none :: parts fuel .asTheyAre none [] rest
              | 'l' => part none :: parts fuel letters (some .lower) [] rest
              | 'u' => part none :: parts fuel letters (some .upper) [] rest
              | _ => parts fuel letters first (d :: before) rest

structure Flags where
  number : Option Nat
  everywhere : Bool
  shown : Bool
  fold : Bool
  byLines : Bool
  file : Option Bytes

def flags : Nat → Flags → Reader Flags
  | 0, f => return f
  | fuel + 1, f => do
      match ← next with
      | none | some Ascii.lineFeed | some Ascii.semicolon => return f
      | some c =>
          if isGap c then flags fuel f
          else if c = Ascii.closeBrace ∨ c = Ascii.hash then
            back (some c)
            return f
          else if Ascii.isDigit c then
            if f.number.isSome then fail "multiple number options to `s' command"
            let n ← number (some c)
            if n = 0 then fail "number option to `s' command may not be zero"
            flags fuel { f with number := some n }
          else match Char.ofNat c.toNat with
            | 'i' | 'I' => flags fuel { f with fold := true }
            | 'm' | 'M' => flags fuel { f with byLines := true }
            | 'g' =>
                if f.everywhere then fail "multiple `g' options to `s' command"
                flags fuel { f with everywhere := true }
            | 'p' =>
                if f.shown then fail "multiple `p' options to `s' command"
                flags fuel { f with shown := true }
            | 'w' => return { f with file := some (← fileName) }
            | _ => fail "unknown option to `s'"

def substitution (extended : Bool) : Reader Action := do
  let missing := "unterminated `s' command"
  let delimiter ← next
  let pattern ← upTo delimiter true missing
  let replacement ← upTo delimiter false missing
  let f ← flags ((← get).rest.length + 1) ⟨none, false, false, false, false, none⟩
  let parts := parts (replacement.length + 1) .asTheyAre none [] replacement
  let m ← matcher extended pattern f.fold f.byLines
  let highest := (parts.filterMap Part.group).foldl max 0
  if m.any fun m => m.groups < highest then
    throw (text "invalid reference \\" ++ decimal highest ++ text " on `s' command's RHS")
  return .substitute ⟨m, parts, f.number.getD 1, f.everywhere, f.shown, f.file⟩

def letterExchange : Reader Action := do
  let missing := "unterminated `y' command"
  let delimiter ← next
  let before ← upTo delimiter false missing
  let behind ← upTo delimiter false missing
  let before := unescaped false (before.length + 1) before
  let behind := unescaped false (behind.length + 1) behind
  if before.length ≠ behind.length then
    fail "strings for `y' command are different lengths"
  endOfCommand
  return .translate (before.zip behind)

def optionalNumber : Reader (Option Nat) := do
  let c ← nextFilled
  if c.any Ascii.isDigit then
    let n ← number c
    endOfCommand
    return some n
  else
    back c
    endOfCommand
    return none

def plain? (letter : Char) : Option Action :=
  match letter with
  | '=' => some .lineNumber
  | 'd' => some .delete
  | 'D' => some .deleteFirst
  | 'F' => some .fileName
  | 'g' => some .fetch
  | 'G' => some .fetchAppended
  | 'h' => some .hold
  | 'H' => some .holdAppended
  | 'n' => some .next
  | 'N' => some .nextAppended
  | 'p' => some .print
  | 'P' => some .printFirst
  | 'x' => some .exchange
  | 'z' => some .clear
  | _ => none

/-- The action after the addresses, and whether its text continues in the next piece. -/
def action (extended : Bool) (isRange : Bool) (c : UInt8) : Reader (Action × Bool) := do
  let onlyOne : Reader Unit := if isRange then fail "command only uses one address" else pure ()
  match Char.ofNat c.toNat with
  | 'a' => do
      let (lines, continued) ← commandText
      return (.append lines, continued)
  | 'i' => do
      let (lines, continued) ← commandText
      return (.insert lines, continued)
  | 'c' => do
      let (lines, continued) ← commandText
      return (.change lines, continued)
  | 's' => return (← substitution extended, false)
  | 'y' => return (← letterExchange, false)
  | 'b' => return (.jump .always (← labelName), false)
  | 't' => return (.jump .replaced (← labelName), false)
  | 'T' => return (.jump .unreplaced (← labelName), false)
  | 'v' => do
      let _ ← labelName
      return (.nothing, false)
  | 'l' => return (.listing (← optionalNumber), false)
  | 'q' => do
      onlyOne
      return (.quit ((← optionalNumber).getD 0), false)
  | 'Q' => do
      onlyOne
      return (.quitSilently ((← optionalNumber).getD 0), false)
  | 'r' => return (.readFile (← fileName), false)
  | 'R' => return (.readLine (← fileName), false)
  | 'w' => return (.writeFile (← fileName), false)
  | 'W' => return (.writeFirst (← fileName), false)
  | letter =>
      match plain? letter with
      | some action =>
          endOfCommand
          return (action, false)
      | none => throw (text "unknown command: `" ++ [c, Ascii.singleQuote])

/-! ## Scripts -/

structure Draft where
  commands : List Command
  blocks : List (Origin × Nat)
  continued : Bool

def withText (lines : Bytes) : Action → Action
  | .append before => .append (before ++ lines)
  | .insert before => .insert (before ++ lines)
  | .change before => .change (before ++ lines)
  | action => action

/-- The two addresses of a command, and the byte after them. -/
def addresses (extended : Bool) (first : Option UInt8) :
    Reader (Option Address × Option Limit × Option UInt8) := do
  match ← address extended first with
  | none => return (none, none, first)
  | some start =>
      let c ← nextFilled
      let (ending, c) ← if c = some Ascii.comma then do
          let ending ← limit extended (← nextFilled)
          pure (some ending, ← nextFilled)
        else pure (none, c)
      let isZero := match start with
        | .line 0 => true
        | _ => false
      let isSearched := match ending with
        | some (.found _) => true
        | _ => false
      if isZero && !isSearched then fail "invalid usage of line address 0"
      return (some start, ending, c)

def command (extended : Bool) (origin : Origin) (d : Draft) (first : Option UInt8) :
    Reader Draft := do
  let (start, ending, c) ← addresses extended first
  let (negated, c) ← if c = some Ascii.exclamation then do
      let c ← nextFilled
      if c = some Ascii.exclamation then fail "multiple `!'s"
      pure (true, c)
    else pure (false, c)
  let keep (d : Draft) (action : Action) : Draft :=
    { d with commands := ⟨d.commands.length, start, ending, negated, action⟩ :: d.commands }
  match c with
  | none => fail "missing command"
  | some Ascii.hash =>
      if start.isSome then fail "comments don't accept any addresses"
      let _ ← takeWhile (· != Ascii.lineFeed)
      return d
  | some Ascii.colon =>
      if start.isSome then fail ": doesn't want any addresses"
      let name ← labelName
      if name.isEmpty then fail "\":\" lacks a label"
      return keep d (.label name)
  | some Ascii.openBrace =>
      let d := keep d .openBlock
      return { d with blocks := (origin, (← get).line) :: d.blocks }
  | some Ascii.closeBrace =>
      match d.blocks with
      | [] => fail "unexpected `\x7d'"
      | _ :: blocks =>
          if start.isSome then fail "`\x7d' doesn't want any addresses"
          endOfCommand
          return { keep d .closeBlock with blocks }
  | some c =>
      let (action, continued) ← action extended ending.isSome c
      return { keep d action with continued }

/-- Reads the commands of a piece; `fuel` bounds their number. -/
def commands (extended : Bool) (origin : Origin) : Nat → Draft → Reader Draft
  | 0, d => return d
  | fuel + 1, d => do
      let _ ← takeWhile fun c => Ascii.isBlank c || c == Ascii.semicolon
      match ← next with
      | none => return d
      | some c => commands extended origin fuel (← command extended origin d (some c))

def piece (extended : Bool) (origin : Origin) (d : Draft) : Reader Draft := do
  let d ← match d.continued, d.commands with
    | true, last :: before => do
        let (lines, continued) ← textLines
        let last := { last with action := withText lines last.action }
        pure { d with commands := last :: before, continued }
    | _, _ => pure { d with continued := false }
  commands extended origin ((← get).rest.length + 1) d

end Reader

namespace Script

def complaint (origin : Origin) (taken line : Nat) (what : Bytes) : Bytes :=
  match origin with
  | .argument n =>
      text "-e expression #" ++ decimal n ++ text ", char " ++ decimal taken ++ text ": " ++ what
  | .file name => text "file " ++ name ++ text " line " ++ decimal line ++ text ": " ++ what

def missingLabels (commands : List Command) : List Bytes :=
  let labels := commands.filterMap fun c => match c.action with
    | .label name => some name
    | _ => none
  commands.filterMap fun c => match c.action with
    | .jump _ name => if name.isEmpty || labels.contains name then none else some name
    | _ => none

/-- Reads a script from its pieces; a fault carries the exit code. -/
def ofPieces (extended : Bool) (pieces : List (Origin × Bytes)) : Except (Bytes × Nat) Script := do
  let draft ← pieces.foldlM (fun (d : Reader.Draft) (origin, s) =>
    match (Reader.piece extended origin d).run ⟨s, 0, 1⟩ with
    | .ok d _ => Except.ok d
    | .error what place => .error (complaint origin place.taken place.line what, 1))
    ⟨[], [], false⟩
  match draft.blocks with
  | (origin, line) :: _ => .error (complaint origin 0 line (text "unmatched `\x7b'"), 1)
  | [] =>
      let commands := draft.commands.reverse
      match missingLabels commands with
      | name :: _ =>
          .error (text "can't find label for jump to `" ++ name ++ [Ascii.singleQuote], 4)
      | [] => return ⟨commands, pieces.head?.any fun piece => (text "#n").isPrefixOf piece.2⟩

end Script

end Editor

end LuaAsset
