import LuaAsset.Host.Shell.Syntax

/-! # Reading command scripts

A script is read line by line, and each line is run before the next is read.  The readers of lists
and commands take the length of the text as fuel. -/

set_option autoImplicit false

namespace LuaAsset

namespace Shell

inductive Token where
  | finish
  | newline
  | operator (symbol : Bytes)
  | redirection (descriptor : Nat) (direction : Direction) (tabless : Bool)
  | word (w : Word)

structure Replacement where
  name : Bytes
  behind : Nat
  opensNext : Bool

structure Cursor where
  rest : Bytes
  line : Nat
  skipped : Nat
  held : Option Token
  aliases : List (Bytes × Bytes)
  /-- The aliases being expanded. -/
  replaced : List Replacement

def Cursor.ofBytes (script : Bytes) (line : Nat) : Cursor := ⟨script, line, 0, none, [], []⟩

abbrev Reader := EStateM SyntaxFault Cursor

/-! ## Words of the language -/

def reservedWords : List Bytes :=
  [text "!", text "\x7b", text "\x7d", text "case", text "do", text "done", text "elif", text "else",
    text "esac", text "fi", text "for", text "if", text "in", text "then", text "until",
    text "while"]

namespace Token

def reserved? : Token → Option Bytes
  | .word w => w.bare?.filter reservedWords.contains
  | _ => none

def isReserved (t : Token) (word : String) : Bool := t.reserved? == some (text word)

def isOperator (t : Token) (symbol : String) : Bool :=
  match t with
  | .operator s => s == text symbol
  | _ => false

def inQuotes (s : Bytes) : Bytes := Ascii.doubleQuote :: s ++ [Ascii.doubleQuote]

def wording : Token → Bytes
  | .finish => text "end of file"
  | .newline => text "newline"
  | .operator s => inQuotes s
  | .redirection _ _ _ => text "redirection"
  | .word w => match (Token.word w).reserved? with
      | some s => inQuotes s
      | none => text "word"

def endsList (t : Token) : Bool :=
  t.isOperator ")" || t.isOperator ";;" ||
    ["do", "done", "elif", "else", "esac", "fi", "then", "\x7d"].any t.isReserved

end Token

/-! ## Bytes -/

namespace Reader

def uncontinued : Bytes → Nat → Bytes × Nat
  | Ascii.backslash :: Ascii.lineFeed :: rest, n => uncontinued rest (n + 1)
  | rest, n => (rest, n)

/-- The next byte, after joining continued lines. -/
def peek : Reader (Option UInt8) := do
  modify fun c =>
    let (rest, continued) := uncontinued c.rest 0
    { c with rest, line := c.line + continued }
  return (← get).rest.head?

def takeWhile (p : UInt8 → Bool) : Reader Bytes :=
  modifyGet fun c =>
    let taken := c.rest.takeWhile p
    let ends := taken.count Ascii.lineFeed
    (taken, { c with
      rest := c.rest.drop taken.length
      line := c.line + ends + (if ends = 0 then 0 else c.skipped)
      skipped := if ends = 0 then c.skipped else 0 })

def advance : Reader Unit :=
  modify fun c =>
    if c.rest.head? = some Ascii.lineFeed then
      { c with rest := c.rest.drop 1, line := c.line + 1 + c.skipped, skipped := 0 }
    else { c with rest := c.rest.drop 1 }

def skip? (c : UInt8) : Reader Bool := do
  if (← peek) = some c then
    advance
    return true
  else return false

def withoutBlanks : Bytes → Nat → Bytes × Nat
  | Ascii.space :: rest, n => withoutBlanks rest n
  | Ascii.tab :: rest, n => withoutBlanks rest n
  | Ascii.backslash :: Ascii.lineFeed :: rest, n => withoutBlanks rest (n + 1)
  | Ascii.hash :: rest, n => (rest.dropWhile (· != Ascii.lineFeed), n)
  | rest, n => (rest, n)

def skipBlanks : Reader Unit :=
  modify fun c =>
    let (rest, continued) := withoutBlanks c.rest 0
    { c with rest, line := c.line + continued }

def onText {α : Type} (reader : Reader α) (s : Bytes) (line : Nat) : Reader α := do
  let outer ← get
  set { Cursor.ofBytes s line with aliases := outer.aliases }
  let a ← reader
  set outer
  return a

/-! ## Words -/

inductive Context where
  | bare
  | quoted
  | braced (quoted : Bool)
  | arithmetic (nested : Bool)
  | document
  deriving DecidableEq, Repr

namespace Context

def isQuoted : Context → Bool
  | .bare | .braced false => false
  | _ => true

def metacharacters : Bytes := text " \t\n;&|<>()"

def special : Context → Bytes
  | .bare => metacharacters ++ text "\\$`'\""
  | .quoted => text "\\$`\""
  | .braced false => text "\\$`'\"\x7d"
  | .braced true => text "\\$`\"\x7d"
  | .arithmetic _ => text "\\$`()"
  | .document => text "\\$`"

/-- The bytes that a backslash escapes; all bytes if `none`. -/
def escapable : Context → Option Bytes
  | .bare | .braced false => none
  | .quoted | .arithmetic _ => some (text "\\$`\"")
  | .braced true => some (text "\\$`\"\x7d")
  | .document => some (text "\\$`")

/-- Whether a part of a word ends at the given bytes. -/
def endsAt (context : Context) (c : UInt8) (rest : Bytes) : Bool :=
  match context with
  | .bare => metacharacters.contains c
  | .quoted => c == Ascii.doubleQuote
  | .braced _ => c == Ascii.closeBrace
  | .arithmetic true => c == Ascii.closeParenthesis
  | .arithmetic false =>
      c == Ascii.closeParenthesis && rest.head? == some Ascii.closeParenthesis
  | .document => false

def fault? : Context → Option SyntaxFault
  | .bare | .document => none
  | .quoted | .braced true => some .unterminatedQuote
  | .braced false => some .braceMissing
  | .arithmetic _ => some .parenthesesMissing

end Context

def special? (c : UInt8) : Option Parameter :=
  if Ascii.isDigit c then some (.position (c.toNat - 48))
  else if c = Ascii.hash then some .count
  else if c = Ascii.atSign then some (.all false)
  else if c = Ascii.star then some (.all true)
  else if c = Ascii.dollar then some .self
  else if c = Ascii.question then some .last
  else if c = Ascii.exclamation then some .background
  else if c = Ascii.minus then some .flags
  else none

def parameter? : Reader (Option Parameter) := do
  match ← peek with
  | none => return none
  | some c =>
      if Ascii.isDigit c then return some (.position (decimalValue (← takeWhile Ascii.isDigit)))
      else if isNameByte c then return some (.named (← takeWhile isNameByte))
      else match special? c with
        | some parameter => do
            advance
            return some parameter
        | none => return none

/-- Whether `#` after an opening brace asks for a length. -/
def asksForLength : Bytes → Bool
  | Ascii.hash :: c :: rest =>
      isNameByte c ||
        ((special? c).isSome && rest.head? == some Ascii.closeBrace)
  | _ => false

def operation? : Reader (Option (Word → Operation)) := do
  match ← peek with
  | none => return none
  | some c =>
      if c = Ascii.closeBrace then return some fun _ => .value
      else if c = Ascii.hash ∨ c = Ascii.percent then
        advance
        let longest ← skip? c
        return some (.strip (c == Ascii.percent) longest)
      else
        let emptyToo ← skip? Ascii.colon
        let substitute? : Option Substitute := match ← peek with
          | some Ascii.minus => some .use
          | some Ascii.equals => some .assign
          | some Ascii.question => some .complain
          | some Ascii.plus => some .alternative
          | _ => none
        match substitute? with
        | some substitute =>
            advance
            return some (.orElse substitute emptyToo)
        | none => return none

/-- The text between backquotes with one level of backslashes removed, and the rest. -/
def betweenBackquotes (quoted : Bool) : Bytes → Option (Bytes × Bytes)
  | [] => none
  | Ascii.backquote :: rest => some ([], rest)
  | Ascii.backslash :: c :: rest =>
      let taken :=
        if c = Ascii.lineFeed then []
        else if (text "\\$`").contains c || (quoted && c == Ascii.doubleQuote) then [c]
        else [Ascii.backslash, c]
      (betweenBackquotes quoted rest).map fun (inner, after) => (taken ++ inner, after)
  | c :: rest => (betweenBackquotes quoted rest).map fun (inner, after) => (c :: inner, after)

section Words

-- The commands of a substitution, up to the token that ends them.
variable (commands : Reader Command)

def takeHeld : Reader Token :=
  modifyGet fun c => (c.held.getD .finish, { c with held := none })

def backquotes (quoted : Bool) : Reader Word := do
  let c ← get
  match betweenBackquotes quoted c.rest with
  | none => throw .backquoteMissing
  | some (inner, rest) =>
      let lines := (c.rest.take (c.rest.length - rest.length)).count Ascii.lineFeed
      -- What stands after a token that ends a list is not looked at.
      let body ← onText commands inner 1
      set { c with rest, line := c.line + lines }
      return [.substitution body quoted]

def escape (context : Context) : Reader Word := do
  advance
  match (← get).rest.head? with
  | none => return [.literal [Ascii.backslash] true]
  | some c =>
      advance
      match context.escapable with
      | none => return [.literal [c] true]
      | some bytes =>
          return [.literal (if bytes.contains c then [c] else [Ascii.backslash, c]) true]

def singleQuotes : Reader Word := do
  advance
  let inner ← takeWhile (· != Ascii.singleQuote)
  if (← get).rest.isEmpty then throw .unterminatedQuote
  advance
  return [.literal inner true]

mutual

/-- The pieces of a word part, up to the byte that ends it. -/
def pieces : Nat → Context → Reader Word
  | 0, _ => return []
  | fuel + 1, context => do
      match ← peek with
      | none => match context.fault? with
          | some fault => throw fault
          | none => return []
      | some c =>
          if context.endsAt c ((← get).rest.drop 1) then return []
          else
            let first ← piece fuel context c
            let rest ← pieces fuel context
            return first ++ rest

def piece : Nat → Context → UInt8 → Reader Word
  | 0, _, _ => return []
  | fuel + 1, context, c => do
      if c = Ascii.backslash then escape context
      else if c = Ascii.dollar then
        advance
        afterDollar fuel context
      else if c = Ascii.backquote then
        advance
        backquotes commands context.isQuoted
      else if !context.special.contains c then
        let special := context.special
        return [.literal (← takeWhile fun c => !special.contains c) context.isQuoted]
      else if c = Ascii.singleQuote then singleQuotes
      else if c = Ascii.doubleQuote then
        advance
        let inner ← pieces fuel .quoted
        advance
        return if inner.isEmpty then [.literal [] true] else inner
      else
        advance
        if c = Ascii.openParenthesis then
          let inner ← pieces fuel (.arithmetic true)
          advance
          return .literal [c] true :: inner ++ [.literal [Ascii.closeParenthesis] true]
        else return [.literal [c] true]

def afterDollar : Nat → Context → Reader Word
  | 0, _ => return []
  | fuel + 1, context => do
      let quoted := context.isQuoted
      match ← peek with
      | none => return [.literal [Ascii.dollar] quoted]
      | some c =>
          if c = Ascii.openParenthesis then
            advance
            if ← skip? Ascii.openParenthesis then
              let inner ← pieces fuel (.arithmetic false)
              advance
              advance
              return [.arithmetic inner quoted]
            else
              let body ← commands
              match ← takeHeld with
              | .operator [Ascii.closeParenthesis] => return [.substitution body quoted]
              | t => throw (.unexpected t.wording (some (text "\")\"")))
          else if c = Ascii.openBrace then
            advance
            braces fuel quoted
          else if isNameByte c && !Ascii.isDigit c then
            return [.expansion (.named (← takeWhile isNameByte)) .value quoted]
          else match special? c with
            | some parameter =>
                advance
                return [.expansion parameter .value quoted]
            | none => return [.literal [Ascii.dollar] quoted]

def braces : Nat → Bool → Reader Word
  | 0, _ => return []
  | fuel + 1, quoted => do
      let measured := asksForLength (← get).rest
      if measured then advance
      match ← parameter? with
      | none =>
          let _ ← pieces fuel (.braced quoted)
          advance
          return [.expansion .count .malformed quoted]
      | some parameter =>
          let operation ← if measured then pure (some fun _ => .length) else operation?
          let inside := match operation.map fun build => build [] with
            | some (.strip _ _ _) => Context.braced false
            | _ => Context.braced quoted
          let word ← pieces fuel inside
          advance
          let operation := match operation with
            | some build => build (Word.joined word)
            | none => .malformed
          return [.expansion parameter operation quoted]

end

/-! ## Tokens -/

def word : Reader Word := do
  return Word.joined (← pieces commands (3 * (← get).rest.length + 3) .bare)

def redirection (descriptor : Option Nat) (outward : Bool) : Reader Token := do
  if outward then
    let direction ←
      if ← skip? Ascii.greater then pure Direction.append
      else if ← skip? Ascii.ampersand then pure .duplicate
      else if ← skip? Ascii.bar then pure .overwrite
      else pure .write
    return .redirection (descriptor.getD 1) direction false
  else
    let n := descriptor.getD 0
    if ← skip? Ascii.less then return .redirection n .document (← skip? Ascii.minus)
    else if ← skip? Ascii.ampersand then return .redirection n .duplicate false
    else if ← skip? Ascii.greater then return .redirection n .readWrite false
    else return .redirection n .read false

def operator (c : UInt8) (doubles : Bool) : Reader Token := do
  advance
  if doubles then
    if ← skip? c then return .operator [c, c]
  return .operator [c]

def written : Reader Token := do
  match (← get).rest with
  | [] => return .finish
  | c :: rest =>
      if c = Ascii.lineFeed then
        advance
        return .newline
      else if (text ";&|").contains c then operator c true
      else if (text "()").contains c then operator c false
      else if (text "<>").contains c then
        advance
        redirection none (c == Ascii.greater)
      else match rest with
        | d :: _ =>
            if Ascii.isDigit c && (text "<>").contains d then
              advance
              advance
              redirection (some (c.toNat - 48)) (d == Ascii.greater)
            else return .word (← word commands)
        | [] => return .word (← word commands)

/-- Drops exhausted aliases, and says whether the next word may be an alias too. -/
def leaveAliases : Reader Bool :=
  modifyGet fun c =>
    let (inside, left) := c.replaced.partition fun r => r.behind < c.rest.length
    (left.any Replacement.opensNext, { c with replaced := inside })

/-- The alias of a token, unless it is being expanded. -/
def alias? (t : Token) : Reader (Option (Bytes × Bytes)) := do
  let c ← get
  let found : Option (Bytes × Bytes) := do
    let name ← match t with
      | .word w => w.bare?
      | _ => none
    if reservedWords.contains name || c.replaced.any (fun r => r.name == name) then none
    return (name, ← c.aliases.lookup name)
  return found

def replaceBy (name value : Bytes) : Reader Unit :=
  modify fun c =>
    let opensNext := value.getLast?.any fun d => d == Ascii.space || d == Ascii.tab
    { c with rest := value ++ c.rest, replaced := ⟨name, c.rest.length, opensNext⟩ :: c.replaced }

/-- The next token after alias expansion; `fuel` bounds the expansions. -/
def nextWithin : Nat → Bool → Reader Token
  | 0, _ => return .finish
  | fuel + 1, mayBeAlias => do
      skipBlanks
      let opened ← leaveAliases
      let t ← written commands
      if mayBeAlias || opened then
        match ← alias? t with
        | some (name, value) =>
            replaceBy name value
            nextWithin fuel true
        | none => return t
      else return t

def budget : Reader Nat := do
  let c ← get
  let added := (c.aliases.map fun a => a.2.length + 1).foldl (· + ·) 1
  return (c.rest.length + 2) * added

def next (mayBeAlias : Bool) : Reader Token := do
  match (← get).held with
  | some token =>
      modify fun c => { c with held := none }
      return token
  | none => nextWithin commands (← budget) mayBeAlias

def hold (t : Token) : Reader Unit := modify fun c => { c with held := some t }

/-- The next token after line feeds; `fuel` bounds their number. -/
def nextBeyond (mayBeAlias : Bool) : Nat → Reader Token
  | 0 => return .finish
  | fuel + 1 => do
      match ← next commands mayBeAlias with
      | .newline => nextBeyond mayBeAlias fuel
      | t => return t

def unexpected {α : Type} (t : Token) : Reader α := throw (.unexpected t.wording none)

def expecting {α : Type} (t : Token) (expected : String) : Reader α :=
  throw (.unexpected t.wording (some (Token.inQuotes (text expected))))

def demand (t : Token) (expected : String) : Reader Unit :=
  if t.isReserved expected then return () else expecting t expected

end Words

/-! ## Documents -/

def untilLine (tabless : Bool) (ending : Bytes) : List Bytes → List Bytes × Option (List Bytes)
  | [] => ([], none)
  | line :: rest =>
      let line := if tabless then line.dropWhile (· == Ascii.tab) else line
      if line = ending then ([], some rest)
      else
        let (before, behind) := untilLine tabless ending rest
        (line :: before, behind)

def joinLines (lines : List Bytes) : Bytes := (lines.intersperse [Ascii.lineFeed]).flatten

def cutDocument (tabless : Bool) (ending : Bytes) : Reader Bytes :=
  modifyGet fun c =>
    let front := c.rest.takeWhile (· != Ascii.lineFeed)
    let lines := splitOn Ascii.lineFeed (c.rest.drop (front.length + 1))
    let (body, behind) := untilLine tabless ending lines
    match behind with
    | some rest =>
        (body.flatMap fun line => line ++ [Ascii.lineFeed],
          { c with
            rest := front ++ Ascii.lineFeed :: joinLines rest
            skipped := c.skipped + body.length + 1 })
    | none =>
        let ended := c.rest.drop front.length
        (joinLines body,
          { c with
            rest := front ++ ended.take 1
            skipped := c.skipped + (ended.drop 1).count Ascii.lineFeed })

def document (commands : Reader Command) (tabless : Bool) (ending : Word) : Reader Word := do
  let body ← cutDocument tabless ending.literalText
  if ending.isQuoted then return [.literal body true]
  else
    let line := (← get).line + 1
    return Word.joined (← onText (pieces commands (3 * body.length + 3) .document) body line)

/-! ## Commands -/

structure Inner where
  list : Bool → Reader Command
  command : Reader Command

section Grammar

variable (inner : Inner)

def commands : Reader Command := inner.list true

def token : Reader Token := next (commands inner) false

def commandToken : Reader Token := next (commands inner) true

def commandTokenBeyondNewlines : Reader Token := do
  nextBeyond (commands inner) true (← budget)

def patternToken : Reader Token := do nextBeyond (commands inner) false (← budget)

def target (descriptor : Nat) (direction : Direction) (tabless : Bool) : Reader Redirection := do
  match ← token inner with
  | .word w =>
      match direction with
      | .document => return ⟨descriptor, direction, ← document (commands inner) tabless w⟩
      | _ => return ⟨descriptor, direction, w⟩
  | t => unexpected t

def redirections : Nat → Reader (List Redirection)
  | 0 => return []
  | fuel + 1 => do
      match ← token inner with
      | .redirection descriptor direction tabless =>
          let first ← target inner descriptor direction tabless
          return first :: (← redirections fuel)
      | t =>
          hold t
          return []

/-- The words from a given one up to a token that is no word. -/
def wordsFrom : Nat → Reader (List Word × Token)
  | 0 => return ([], .finish)
  | fuel + 1 => do
      match ← token inner with
      | .word w =>
          let (rest, t) ← wordsFrom fuel
          return (w :: rest, t)
      | t => return ([], t)

def specialNames : List Bytes :=
  [text ".", text ":", text "break", text "continue", text "eval", text "exec", text "exit",
    text "export", text "readonly", text "return", text "set", text "shift", text "times",
    text "trap", text "unset"]

def definition (name : Word) : Reader Command := do
  match ← token inner with
  | .operator [Ascii.closeParenthesis] => pure ()
  | .word _ => throw (.unexpected (text "word") (some (Token.inQuotes (text ")"))))
  | t => expecting t ")"
  match name.bare? with
  | some name =>
      if !isName name || specialNames.contains name then throw .badFunctionName
      hold (← commandTokenBeyondNewlines inner)
      let line := (← get).line
      return .define line name (← inner.command)
  | none => throw .badFunctionName

/-- The parts of a simple command, each list reversed. -/
def simpleParts (line : Nat) : Nat → List (Bytes × Word) → List Word → List Redirection →
    Reader Command
  | 0, assignments, words, redirections =>
      return .simple line assignments.reverse words.reverse redirections.reverse
  | fuel + 1, assignments, words, redirections => do
      match ← next (commands inner) words.isEmpty with
      | .word w =>
          match (if words.isEmpty then w.assignment? else none) with
          | some assignment => simpleParts line fuel (assignment :: assignments) words redirections
          | none => simpleParts line fuel assignments (w :: words) redirections
      | .redirection descriptor direction tabless =>
          let r ← target inner descriptor direction tabless
          simpleParts line fuel assignments words (r :: redirections)
      | t =>
          match t.isOperator "(", assignments, words, redirections with
          | true, [], [name], [] => definition inner name
          | _, _, _, _ =>
              hold t
              return .simple line assignments.reverse words.reverse redirections.reverse

def choice : Nat → Reader Command
  | 0 => return .nothing
  | fuel + 1 => do
      let condition ← inner.list false
      demand (← takeHeld) "then"
      let consequence ← inner.list false
      let t ← takeHeld
      if t.isReserved "elif" then return .choice condition consequence (← choice fuel)
      else if t.isReserved "else" then
        let otherwise ← inner.list false
        return .choice condition consequence otherwise
      else
        hold t
        return .choice condition consequence .nothing

def loop (whileFailing : Bool) : Reader Command := do
  let condition ← inner.list false
  demand (← takeHeld) "do"
  return .loop whileFailing condition (← inner.list false)

def each : Reader Command := do
  let line := (← get).line
  let name? : Option Bytes := match ← token inner with
    | .word w => w.bare?.filter isName
    | _ => none
  match name? with
  | none => throw .badLoopVariable
  | some name =>
      let t ← commandTokenBeyondNewlines inner
      let values ←
        if t.isReserved "in" then do
          let (values, t) ← wordsFrom inner (← budget)
          match t with
          | .newline | .operator [Ascii.semicolon] => pure values
          | t => unexpected t
        else do
          if !t.isOperator ";" then hold t
          pure [[.expansion (.all false) .value true]]
      demand (← commandTokenBeyondNewlines inner) "do"
      return .each line name values (← inner.list false)

/-- The patterns of a `case` branch from a given token on. -/
def patterns (first : Token) : Nat → Reader (List Word)
  | 0 => return []
  | fuel + 1 => do
      let w := match first with
        | .word w => w
        | _ => []
      let t ← token inner
      if t.isOperator "|" then
        let next ← token inner
        return w :: (← patterns next fuel)
      else if t.isOperator ")" then return [w]
      else expecting t ")"

def branches : Nat → Reader (List (List Word × Command))
  | 0 => return []
  | fuel + 1 => do
      let t ← patternToken inner
      if t.isReserved "esac" then return []
      else
        let first ← if t.isOperator "(" then token inner else pure t
        let words ← patterns inner first (← budget)
        let body ← inner.list true
        let t ← takeHeld
        if t.isOperator ";;" then return (words, body) :: (← branches fuel)
        else if t.isReserved "esac" then return [(words, body)]
        else expecting t ";;"

def selection : Reader Command := do
  let line := (← get).line
  match ← token inner with
  | .word subject =>
      demand (← commandTokenBeyondNewlines inner) "in"
      return .select line subject (← branches inner (← budget))
  | t => throw (.unexpected t.wording (some (text "word")))

def closed (ending : String) (command : Command) : Reader Command := do
  let t ← takeHeld
  if t.isReserved ending || t.isOperator ending then return command
  else expecting t ending

def compound? (t : Token) : Option (Reader Command) :=
  if t.isReserved "if" then some do closed "fi" (← choice inner (← budget))
  else if t.isReserved "while" then some do closed "done" (← loop inner false)
  else if t.isReserved "until" then some do closed "done" (← loop inner true)
  else if t.isReserved "for" then some do closed "done" (← each inner)
  else if t.isReserved "case" then some (selection inner)
  else if t.isReserved "\x7b" then some do closed "\x7d" (← inner.list false)
  else if t.isOperator "(" then some do
    let line := (← get).line
    closed ")" (.subshell line (← inner.list false) [])
  else none

def command : Reader Command := do
  let t ← commandToken inner
  let line := (← get).line
  match compound? inner t with
  | some reader =>
      let body ← reader
      match ← redirections inner (← budget), body with
      | [], body => return body
      | redirections, .subshell line body _ => return .subshell line body redirections
      | redirections, body => return .redirected line body redirections
  | none =>
      match t with
      | .word _ =>
          if t.reserved?.isSome then unexpected t
          hold t
          simpleParts inner line (← budget) [] [] []
      | .redirection _ _ _ =>
          hold t
          simpleParts inner line (← budget) [] [] []
      | t => unexpected t

def furtherParts : Nat → Reader (List Command)
  | 0 => return []
  | fuel + 1 => do
      let t ← token inner
      if t.isOperator "|" then
        hold (← commandTokenBeyondNewlines inner)
        let part ← command inner
        return part :: (← furtherParts fuel)
      else
        hold t
        return []

def pipeline : Reader Command := do
  let t ← commandToken inner
  let negated := t.isReserved "!"
  if !negated then hold t
  let first ← command inner
  let rest ← furtherParts inner (← budget)
  let whole := if rest.isEmpty then first else .pipeline (first :: rest)
  return if negated then .negation whole else whole

def furtherPipelines : Nat → Command → Reader Command
  | 0, before => return before
  | fuel + 1, before => do
      let t ← token inner
      if t.isOperator "&&" ∨ t.isOperator "||" then
        hold (← commandTokenBeyondNewlines inner)
        let next ← pipeline inner
        furtherPipelines fuel (if t.isOperator "&&" then .both before next else .either before next)
      else
        hold t
        return before

/-- The commands of a list over several lines, last first. -/
def listed (mayBeEmpty : Bool) : Nat → List Command → Reader Command
  | 0, done => return .ofList done.reverse
  | fuel + 1, done => do
      let t ← commandTokenBeyondNewlines inner
      hold t
      if t.endsList && (mayBeEmpty || !done.isEmpty) then return .ofList done.reverse
      match t with
      | .finish => return .ofList done.reverse
      | _ =>
          let first ← pipeline inner
          let command ← furtherPipelines inner (← budget) first
          let t ← token inner
          if t.isOperator "&" then listed mayBeEmpty fuel (.background command :: done)
          else
            match t with
            | .newline | .operator [Ascii.semicolon] =>
                listed mayBeEmpty fuel (command :: done)
            | t =>
                hold t
                return .ofList (command :: done).reverse

def ofLine : Nat → List Command → Reader (List Command)
  | 0, done => return done
  | fuel + 1, done => do
      match ← commandToken inner with
      | .newline => return done
      | .finish =>
          hold .finish
          return done
      | t =>
          hold t
          let first ← pipeline inner
          let command ← furtherPipelines inner (← budget) first
          let t ← token inner
          if t.isOperator "&" then ofLine fuel (.background command :: done)
          else
            match t with
            | .operator [Ascii.semicolon] => ofLine fuel (command :: done)
            | .newline | .finish =>
                hold t
                ofLine fuel (command :: done)
            | t => unexpected t

end Grammar

mutual

def nestedList : Nat → Bool → Reader Command
  | 0, _ => return .nothing
  | fuel + 1, mayBeEmpty => do
      listed ⟨nestedList fuel, nestedCommand fuel⟩ mayBeEmpty (← budget) []

def nestedCommand : Nat → Reader Command
  | 0 => return .nothing
  | fuel + 1 => command ⟨nestedList fuel, nestedCommand fuel⟩

end

def line : Reader Command := do
  let fuel ← budget
  let commands ← ofLine ⟨nestedList fuel, nestedCommand fuel⟩ (fuel + 1) []
  return .ofList commands.reverse

end Reader

def Cursor.isAtEnd (c : Cursor) : Bool :=
  match c.held with
  | some .finish => true
  | some _ => false
  | none => c.rest.isEmpty

end Shell

end LuaAsset
