import LuaAsset.Host.Program.Answers

/-! # Programs that start others

Programs that prepare an environment or arguments and then run another program. -/

set_option autoImplicit false

namespace LuaAsset

namespace Program

/-! ## Splitting -/

/-- The state of splitting a text into arguments; the current one is reversed. -/
structure Splitting where
  done : List Bytes
  current : Option Bytes
  quote : Option UInt8

namespace Splitting

def add (s : Splitting) (bytes : Bytes) : Splitting :=
  { s with current := some (bytes.reverse ++ s.current.getD []) }

def close (s : Splitting) : Splitting :=
  match s.current with
  | some argument => { s with done := argument.reverse :: s.done, current := none }
  | none => s

def run (environment : Environment) : Nat → Splitting → Bytes → Except Bytes (List Bytes)
  | 0, s, _ => .ok s.close.done.reverse
  | _, s, [] =>
      if s.quote.isSome then .error (text "no terminating quote in -S string")
      else .ok s.close.done.reverse
  | fuel + 1, s, c :: rest =>
      let inSingle := s.quote == some Ascii.singleQuote
      if s.quote = some c then run environment fuel { s with quote := none } rest
      else if s.quote.isNone && (c == Ascii.singleQuote || c == Ascii.doubleQuote) then
        run environment fuel { s.add [] with quote := some c } rest
      else if s.quote.isNone && Ascii.isBlank c then run environment fuel s.close rest
      else if s.current.isNone && c == Ascii.hash then .ok s.close.done.reverse
      else if c = Ascii.backslash then
        match rest with
        | [] => .error (text "invalid backslash at end of string in -S")
        | d :: behind =>
            if inSingle && d != Ascii.backslash && d != Ascii.singleQuote then
              run environment fuel (s.add [c]) rest
            else if (text "\"#$'\\").contains d then run environment fuel (s.add [d]) behind
            else if d = Ascii.underscore then
              run environment fuel (if s.quote.isSome then s.add [Ascii.space] else s.close) behind
            else if d = Char.toUInt8 'c' then
              if s.quote.isSome then
                .error (text "'\\c' must not appear in double-quoted -S string")
              else .ok s.close.done.reverse
            else match (text "fnrtv").idxOf? d with
              | some i => run environment fuel (s.add [(text "\x0c\n\r\t\x0b").getD i 0]) behind
              | none => .error (text "invalid sequence '\\" ++ d :: text "' in -S")
      else if c = Ascii.dollar && !inSingle then
        match rest with
        | Ascii.openBrace :: inner =>
            let name := inner.takeWhile fun d =>
              Ascii.isLetter d || Ascii.isDigit d || d == Ascii.underscore
            match inner.drop name.length with
            | Ascii.closeBrace :: behind =>
                match environment.lookup name with
                | some value => run environment fuel (s.add value) behind
                | none => run environment fuel s behind
            | _ => .error (text "only $\x7bVARNAME\x7d expansion is supported, error at: " ++ c :: rest)
        | _ => .error (text "only $\x7bVARNAME\x7d expansion is supported, error at: " ++ c :: rest)
      else run environment fuel (s.add [c]) rest

end Splitting

/-! ## Options before a command -/

/-- Options up to the first operand, also from a text to split. -/
def readLeading (known : Options) (code : Nat) (split : Bytes → Step (List Bytes)) :
    Nat → List Bytes → Step Given
  | 0, rest => return ⟨[], rest⟩
  | _, [] => return ⟨[], []⟩
  | fuel + 1, argument :: rest => do
      let further (options : List (UInt8 × Bytes)) (rest : List Bytes) : Step Given := do
        let inserted ← match options.getLast? with
          | some (0x53, s) => split s
          | _ => pure []
        let g ← readLeading known code split fuel (inserted ++ rest)
        return { g with options := options ++ g.options }
      match argument with
      | [Ascii.minus, Ascii.minus] => return ⟨[], rest⟩
      | Ascii.minus :: Ascii.minus :: _ => do
          let (option, rest) ← readLong known code argument rest
          further [option] rest
      | Ascii.minus :: c :: letters => do
          let (options, rest) ← readLetters known code (c :: letters) rest
          further options rest
      | _ => return ⟨[], argument :: rest⟩

def mostOptions : Nat := 1000

def setting? (argument : Bytes) : Option (Bytes × Bytes) :=
  if argument.contains Ascii.equals then
    let name := argument.takeWhile (· != Ascii.equals)
    some (name, argument.drop (name.length + 1))
  else none

/-- Runs a program in a modified environment, or prints the environment. -/
def env : Program := do
  let blanks := " \t\n\x0b\x0c\r"
  let known : Options := ⟨"i0v" ++ blanks, "uCS" ++ blanks, [("ignore-environment", 'i'), ("null", '0'),
    ("unset", 'u'), ("chdir", 'C'), ("split-string", 'S'), ("debug", 'v')]⟩
  let environment := (← read).environment
  let split (s : Bytes) : Step (List Bytes) := do
    match Splitting.run environment (s.length + 1) ⟨[], none, none⟩ s with
    | .ok arguments => return arguments
    | .error what => fail what 125
  let g ← readLeading known 125 split mostOptions (← read).arguments
  let advice := text "use -[v]S to pass options in shebang lines"
  if let some (blank, _) := g.options.find? fun o => (text blanks).contains o.1 then
    complain (text "invalid option -- '" ++ [blank, Ascii.singleQuote])
    misused advice 125
  let (cleared, operands) := match g.operands with
    | [Ascii.minus] :: rest => (true, rest)
    | operands => (g.has 'i', operands)
  let start := if cleared then [] else environment
  let removed ← (g.options.filter fun o => o.1 == Char.toUInt8 'u').mapM fun (_, name) => do
    if name.isEmpty || name.contains Ascii.equals then
      fail (text "cannot unset " ++ cited name ++ text ": Invalid argument") 125
    return name
  let kept := start.filter fun (name, _) => !removed.contains name
  let settings := (operands.takeWhile fun a => (setting? a).isSome).filterMap setting?
  let changed := settings.foldl (fun e (name, value) => assign name value e) kept
  match operands.dropWhile fun a => (setting? a).isSome with
  | [] =>
      if (g.value? 'C').isSome then
        misused (text "must specify command with --chdir (-C)") 125
      let finish : Bytes := if g.has '0' then [0] else [Ascii.lineFeed]
      changed.forM fun (name, value) => write (name ++ Ascii.equals :: value ++ finish)
  | command :: arguments =>
      if g.has '0' then misused (text "cannot specify --null (-0) with command") 125
      if let some directory := g.value? 'C' then
        let files := (← get).files
        match files.locate directory, files.node directory with
        | .ok names, .ok (.directory _) =>
            modify fun p => { p with files := { p.files with working := names } }
        | found, _ =>
            let refusal := match found with
              | .ok _ => Refusal.notDirectory
              | .error refusal => refusal
            fail (text "cannot change directory to " ++ alwaysQuoted directory ++ text ": " ++
              refusal.wording) 125
      become ⟨command :: arguments, changed, cited command,
        if command.any (text blanks).contains then advice else [], none⟩

/-- Runs a command in place of the current program. -/
def runInstead (command : List Bytes) : Program := do
  become ⟨command, (← read).environment,
    text "failed to run command " ++ alwaysQuoted (command.headD []), [], none⟩

def nohup : Program := do
  let g ← readLeading ⟨"", "", []⟩ 125 (fun _ => pure []) mostOptions (← read).arguments
  if g.operands.isEmpty then misused (text "missing operand") 125
  runInstead g.operands

/-- Rewrites `-N` before the first operand as an option with a value. -/
def withAdjustments : List Bytes → List Bytes
  | (Ascii.minus :: number) :: rest =>
      let bare := if number.head? = some Ascii.minus then number.drop 1 else number
      if (natural? bare).isSome then text "-n" :: number :: withAdjustments rest
      else (Ascii.minus :: number) :: rest
  | arguments => arguments

/-- Runs a command at another priority, which has no effect here. -/
def nice : Program := do
  let g ← readLeading ⟨"", "n", [("adjustment", 'n')]⟩ 125 (fun _ => pure []) mostOptions
    (withAdjustments (← read).arguments)
  if let some adjustment := g.value? 'n' then
    if (integer? adjustment).isNone then
      fail (text "invalid adjustment " ++ cited adjustment) 125
  match g.operands with
  | [] =>
      if (g.value? 'n').isSome then misused (text "a command must be given with an adjustment") 125
      writeLine (text "0")
  | command :: _ =>
      become ⟨g.operands, (← read).environment, cited command, [], none⟩

def endingSignals : List (Bytes × Nat) :=
  [("HUP", 1), ("INT", 2), ("QUIT", 3), ("ABRT", 6), ("KILL", 9), ("USR1", 10), ("USR2", 12),
    ("PIPE", 13), ("ALRM", 14), ("TERM", 15)].map fun (name, n) => (text name, n)

def endingSignal? (s : Bytes) : Option Nat :=
  let name := Formatted.Layout.toUpper s
  let name := if (text "SIG").isPrefixOf name then name.drop 3 else name
  (natural? s).or (endingSignals.lookup name)

/-! ## Arguments from the input -/

/-- The arguments in a text with quotes and backslashes; an open quote is an error. -/
def quotedArguments (onlyLines : Bool) : Nat → Option Bytes → Bytes → Except UInt8 (List Bytes)
  | 0, current, _ => .ok current.toList
  | _, current, [] => .ok (current.map List.reverse).toList
  | fuel + 1, current, c :: rest =>
      let add (s : Bytes) : Option Bytes := some (s.reverse ++ current.getD [])
      let isBetween := if onlyLines then c == Ascii.lineFeed || (current.isNone && Ascii.isBlank c)
        else Ascii.isBlank c
      if isBetween then do
        return (current.map List.reverse).toList ++ (← quotedArguments onlyLines fuel none rest)
      else if c = Ascii.backslash then
        quotedArguments onlyLines fuel (add (rest.take 1)) (rest.drop 1)
      else if c = Ascii.singleQuote ∨ c = Ascii.doubleQuote then
        let inside := rest.takeWhile fun d => d != c && d != Ascii.lineFeed
        match rest.drop inside.length with
        | d :: behind =>
            if d = c then quotedArguments onlyLines fuel (add inside) behind else .error c
        | [] => .error c
      else quotedArguments onlyLines fuel (add [c]) rest

def inGroups {α : Type} (most : Nat) : Nat → List α → List (List α)
  | 0, _ => []
  | _, [] => []
  | fuel + 1, xs => xs.take (max 1 most) :: inGroups most fuel (xs.drop (max 1 most))

/-- Replaces every occurrence in a text; `fuel` bounds the occurrences. -/
def withReplaced (part new : Bytes) : Nat → Bytes → Bytes
  | 0, s => s
  | fuel + 1, s =>
      if part.isEmpty then s
      else match splitAtFirst part s with
        | none => s
        | some (before, behind) => before ++ new ++ withReplaced part new fuel behind

def judgeArguments (command : Bytes) (ended : Ended) : Judgement :=
  match ended with
  | .code 0 => ⟨none, 0, true⟩
  | .code 255 => ⟨some (command ++ text ": exited with status 255; aborting"), 124, false⟩
  | .code _ => ⟨none, 123, true⟩
  | .signal n => ⟨some (command ++ text ": terminated by signal " ++ decimal n), 125, false⟩
  | .refused refusal =>
      ⟨some (command ++ text ": " ++ refusal.wording),
        if refusal = .noEntry then 127 else 126, false⟩

def argumentSeparator? (g : Given) : Option UInt8 :=
  if g.has '0' then some 0
  else (g.value? 'd').bind fun s => match s with
    | [Ascii.backslash, 0x6e] => some Ascii.lineFeed
    | [Ascii.backslash, 0x74] => some Ascii.tab
    | [Ascii.backslash, 0x30] => some 0
    | s => s.head?

def argumentsIn (g : Given) (onlyLines : Bool) (s : Bytes) : Step (List Bytes) := do
  match argumentSeparator? g with
  | some separator =>
      let parts := splitOn separator s
      return if parts.getLast? = some [] then parts.dropLast else parts
  | none =>
      match quotedArguments onlyLines (s.length + 1) none s with
      | .ok arguments =>
          match g.value? 'E' with
          | some last => return arguments.takeWhile (· != last)
          | none => return arguments
      | .error quote =>
          fail (text "unmatched " ++
            text (if quote = Ascii.singleQuote then "single" else "double") ++
            text " quote; by default quotes are special to xargs unless you use the -0 option") 1

def argumentNumber? (g : Given) (letter : Char) : Step (Option Nat) := do
  match g.value? letter with
  | none => return none
  | some s =>
      match natural? s with
      | some n => return some n
      | none => misused (text "invalid number \"" ++ s ++ text "\" for -" ++
          [letter.toUInt8] ++ text " option") 1

def xargs : Program := do
  let known : Options := ⟨"0rtxpi", "nLIdPsEa", [("null", '0'), ("no-run-if-empty", 'r'),
    ("verbose", 't'), ("exit", 'x'), ("max-args", 'n'), ("max-lines", 'L'), ("replace", 'I'),
    ("delimiter", 'd'), ("max-procs", 'P'), ("max-chars", 's'), ("eof", 'E'), ("arg-file", 'a')]⟩
  let g ← readLeading known 1 (fun _ => pure []) mostOptions (← read).arguments
  let place? := (g.value? 'I').or (if g.has 'i' then some (text "\x7b\x7d") else none)
  let perCommand ← argumentNumber? g 'n'
  let perLines ← argumentNumber? g 'L'
  let source ← contentsOf ((g.value? 'a').getD [Ascii.minus])
  let bytes ← match source with
    | .ok s => pure s.known
    | .error refusal =>
        fail (text "Cannot open input file " ++ alwaysQuoted ((g.value? 'a').getD []) ++
          text ": " ++ refusal.wording) 1
  let command := if g.operands.isEmpty then [text "echo"] else g.operands
  let whole (s : Bytes) : Step (List Bytes) := argumentsIn g place?.isSome s
  let commands ← match place?, perLines with
    | some place, _ => do
        let found ← whole bytes
        pure (found.map fun a => command.take 1 ++
          (command.drop 1).map fun s => withReplaced place a (s.length + 1) s)
    | none, some n => do
        let lines := (bareLines bytes).filter fun l => !l.all Ascii.isBlank
        (inGroups n (lines.length + 1) lines).mapM fun group => do
          return command ++ (← group.mapM whole).flatten
    | none, none => do
        let found ← whole bytes
        let groups := match perCommand with
          | some n => inGroups n (found.length + 1) found
          | none => if found.isEmpty then [] else [found]
        pure (groups.map (command ++ ·))
  let commands := if commands.isEmpty && !g.has 'r' && place?.isNone then [command] else commands
  let shown (arguments : List Bytes) : Bytes :=
    if g.has 't' then ((arguments.map quotedName).intersperse [Ascii.space]).flatten else []
  followWith ⟨commands.map fun arguments => (shown arguments, arguments), judgeArguments⟩

/-! ## Time -/

def timeout : Program := do
  let known : Options := ⟨"v", "ks", [("foreground", 'f'), ("preserve-status", 'p'),
    ("kill-after", 'k'), ("signal", 's'), ("verbose", 'v')]⟩
  let g ← readLeading known 125 (fun _ => pure []) mostOptions (← read).arguments
  match g.operands with
  | limit :: first :: rest =>
      let wanted := (g.value? 's').getD (text "TERM")
      if let some s := g.value? 'k' then
        if (interval? s).isNone then
          misused (text "invalid time interval " ++ cited s) 125
      match interval? limit, endingSignal? wanted with
      | none, _ => misused (text "invalid time interval " ++ cited limit) 125
      | _, none => misused (cited wanted ++ text ": invalid signal") 125
      | some time, some signal =>
          become ⟨first :: rest, (← read).environment,
            text "failed to run command " ++ cited first, [],
            if time = 0 then none
            else some ⟨time, signal, if g.has 'p' then none else some 124⟩⟩
  | _ => do
      writeErrors (text "Try '" ++ (← read).name ++ text " --help' for more information.\n")
      stop 125

end Program

end LuaAsset
