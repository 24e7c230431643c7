import LuaAsset.Host.Condition
import LuaAsset.Host.Program.Formatted
import LuaAsset.Host.Shell.Children
import LuaAsset.Host.Shell.Expansion

/-! # Built-in utilities

Built-in commands that write, test, read, and handle signals and settings. -/

set_option autoImplicit false

namespace LuaAsset

namespace Shell

structure Reply where
  said : Bytes
  code : Nat

abbrev Utility := List Bytes → Step Reply

namespace Reply

def code? (n : Nat) : Step Reply := return ⟨[], n⟩

def done : Step Reply := return ⟨[], 0⟩

def saying (s : Bytes) : Step Reply := return ⟨s, 0⟩

end Reply

namespace Utility

/-! ## Arguments -/

structure Given where
  options : List (UInt8 × Bytes)
  operands : List Bytes

def Given.has (g : Given) (letter : Char) : Bool := g.options.any fun o => o.1 == letter.toUInt8

def Given.value? (g : Given) (letter : Char) : Option Bytes :=
  (g.options.reverse.find? fun o => o.1 == letter.toUInt8).map Prod.snd

/-- The letters of one argument; the last one may take the next argument. -/
def letters (plain valued : String) : Bytes → List Bytes →
    Step (List (UInt8 × Bytes) × List Bytes)
  | [], rest => return ([], rest)
  | c :: more, rest => do
      if (text plain).contains c then
        let (options, rest) ← letters plain valued more rest
        return ((c, []) :: options, rest)
      else if (text valued).contains c then
        match more, rest with
        | [], [] => Step.fail (text "No arg for -" ++ c :: text " option") 2
        | [], value :: rest => return ([(c, value)], rest)
        | value, rest => return ([(c, value)], rest)
      else Step.fail (text "Illegal option -" ++ [c]) 2

/-- Options up to the first operand; `fuel` bounds the arguments. -/
def optionsFrom (plain valued : String) : Nat → List Bytes → Step Given
  | 0, rest => return ⟨[], rest⟩
  | fuel + 1, arguments => do
      match arguments with
      | [Ascii.minus, Ascii.minus] :: rest => return ⟨[], rest⟩
      | (Ascii.minus :: c :: more) :: rest =>
          let (options, rest) ← letters plain valued (c :: more) rest
          let g ← optionsFrom plain valued fuel rest
          return { g with options := options ++ g.options }
      | rest => return ⟨[], rest⟩

def options (plain valued : String) (arguments : List Bytes) : Step Given :=
  optionsFrom plain valued (arguments.length + 1) arguments

/-- The end of a quoted word inside a quotation. -/
def quotedRest : Bool → Bytes → Bytes
  | true, [] => [Ascii.doubleQuote]
  | true, c :: rest =>
      if c = Ascii.singleQuote then c :: quotedRest true rest
      else text "\"'" ++ c :: quotedRest false rest
  | false, [] => [Ascii.singleQuote]
  | false, c :: rest =>
      if c = Ascii.singleQuote then text "'\"'" ++ quotedRest true rest
      else c :: quotedRest false rest

/-- Quotes bytes so that a script reads them as one word. -/
def quoted (s : Bytes) : Bytes := Ascii.singleQuote :: quotedRest false s

def line (s : Bytes) : Bytes := s ++ [Ascii.lineFeed]

/-! ## Writing -/

def echo : Utility := fun arguments => do
  let bare := arguments.head? = some (text "-n")
  let words := ((if bare then arguments.drop 1 else arguments).intersperse [Ascii.space]).flatten
  let (said, stopped) := Formatted.unescaped false (words.length + 1) words
  return ⟨said ++ (if bare || stopped then [] else [Ascii.lineFeed]), 0⟩

/-- The diagnostic for a format, and its exit code. -/
def formatComplaint (c : Formatted.Complaint) : Bytes × Nat :=
  match c with
  | .notNumeric s => (s ++ text ": expected numeric value", 1)
  | .incomplete s => (s ++ text ": not completely converted", 1)
  | .outOfRange s => (s ++ text ": Numerical result out of range", 1)
  | .formatMissing => (text "missing format character", 2)
  | .invalid directive => (directive ++ text ": invalid directive", 2)
  | .hexMissing | .badCharacter _ => ([], 1)
  | .excess _ => ([], 0)
  | .ignored _ => ([], 0)

def printf : Utility := fun arguments => do
  match (← options "" "" arguments).operands with
  | [] => Step.fail (text "usage: printf format [arg ...]") 2
  | format :: rest =>
      (Formatted.write .ofScripts format rest).foldlM (fun (r : Reply) part => do
        match part with
        | .ok s => return { r with said := r.said ++ s }
        | .error c =>
            let (what, code) := formatComplaint c
            Step.complain what
            return { r with code := max r.code code }) ⟨[], 0⟩

/-! ## Conditions -/

def condition (words : List Bytes) : Step Reply := do
  match Condition.InScripts.holds (← Step.files) words with
  | .ok holds => Reply.code? (if holds then 0 else 1)
  | .error what => Step.fail what 2

def bracket : Utility := fun arguments => do
  if arguments.getLast? = some (text "]") then condition arguments.dropLast
  else Step.fail (text "missing ]") 2

/-! ## Reading -/

/-- Splits marked bytes into a number of fields; the last one takes the rest. -/
def fieldsOfLine (separators : Bytes) : Nat → Marked → List Bytes
  | 0, _ => []
  | n + 1, m =>
      let separates (c : UInt8 × Bool) : Bool := !c.2 && separators.contains c.1
      let isGap (c : UInt8 × Bool) : Bool := separates c && (text " \t\n").contains c.1
      let m := m.dropWhile isGap
      if m.isEmpty then []
      else
        let field := m.takeWhile fun c => !separates c
        let rest := m.drop field.length
        let rest := match rest with
          | c :: behind =>
              if isGap c then
                match rest.dropWhile isGap with
                | d :: behind => if separates d then behind else d :: behind
                | [] => []
              else behind
          | [] => []
        if 0 < n then Marked.toBytes field :: fieldsOfLine separators n rest
        else if (rest.dropWhile isGap).isEmpty then [Marked.toBytes field]
        else [Marked.toBytes (m.reverse.dropWhile isGap).reverse]

/-- The line at the front, unescaped unless raw, with its length and whether it was terminated. -/
def lineFrom (raw : Bool) : Bytes → Marked × Nat × Bool
  | [] => ([], 0, false)
  | Ascii.lineFeed :: _ => ([], 1, true)
  | c :: rest =>
      if c = Ascii.backslash && !raw then
        match rest with
        | [] => ([], 1, false)
        | d :: behind =>
            let (m, n, ended) := lineFrom raw behind
            (if d = Ascii.lineFeed then m else (d, true) :: m, n + 2, ended)
      else
        let (m, n, ended) := lineFrom raw rest
        (if c = 0 then m else (c, false) :: m, n + 1, ended)

def horizon : Nat := 65536

def read : Utility := fun arguments => do
  let g ← options "r" "p" arguments
  if g.operands.isEmpty then Step.fail (text "arg count") 2
  let source ← match ← Step.input 0 with
    | .ok s => pure s
    | .error _ => pure .empty
  let (m, taken, ended) := lineFrom (g.has 'r') (source.take (source.once.length + horizon))
  Step.setInput 0 (source.drop taken)
  let fields := fieldsOfLine (← separators) g.operands.length m
  g.operands.zipIdx.forM fun (name, i) => do
    if !isName name then Step.fail (name ++ text ": bad variable name") 2
    Step.setVariable name (fields.getD i [])
  Reply.code? (if ended then 0 else 1)

/-! ## Options of scripts -/

def setOrUnset (name : Bytes) (value : Option Bytes) : Step Unit :=
  Step.changeVariable name fun v => { v with value }

/-- The known options from a letter on. -/
def knownFrom (letter : UInt8) : Bytes → Bytes
  | [] => []
  | c :: Ascii.colon :: rest =>
      if c = letter then c :: Ascii.colon :: rest else knownFrom letter rest
  | c :: rest => if c = letter then c :: rest else knownFrom letter rest

def argument? (arguments : List Bytes) (n : Nat) : Option Bytes :=
  if n = 0 then none else arguments[n - 1]?

/-- The next option of the arguments, stored in a variable. -/
def getopts : Utility := fun operands => do
  match operands with
  | known :: name :: given =>
      let s ← get
      let arguments := if given.isEmpty then s.arguments else given
      let (index, offset) :=
        if arguments.length + 1 < s.optionPlace.1 then (1, 0) else s.optionPlace
      let silent := known.head? = some Ascii.colon
      let finish (index offset : Nat) (option : Bytes) (value : Option Bytes) (code : Nat) :
          Step Reply := do
        modify fun s => { s with optionPlace := (index, offset) }
        setOrUnset (text "OPTARG") value
        setOrUnset (text "OPTIND") (some (decimal index))
        if !isName name then Step.fail (name ++ text ": bad variable name") 2
        Step.setVariable name option
        Reply.code? code
      let current :=
        if offset = 0 then [] else ((argument? arguments (index - 1)).getD []).drop offset
      let (letters, index, offset, ended) :=
        if !current.isEmpty then (current, index, offset, false)
        else match argument? arguments index with
          | some [Ascii.minus, Ascii.minus] => ([], index + 1, 0, true)
          | some (Ascii.minus :: c :: more) => (c :: more, index + 1, 1, false)
          | _ => ([], index, 0, true)
      match ended, letters with
      | true, _ | _, [] =>
          let value ← Step.value? (text "OPTARG")
          finish index 0 [Ascii.question] value 1
      | false, c :: more =>
          let behind := if more.isEmpty then 0 else offset + 1
          let place := knownFrom c known
          if place.isEmpty then
            if silent then finish index behind [Ascii.question] (some [c]) 0
            else
              Step.writeBytes 2 (text "Illegal option -" ++ [c, Ascii.lineFeed])
              finish index behind [Ascii.question] none 0
          else if place[1]? = some Ascii.colon then
            if !more.isEmpty then finish index 0 [c] (some more) 0
            else match argument? arguments index with
              | some value => finish (index + 1) 0 [c] (some value) 0
              | none =>
                  if silent then finish index 0 [Ascii.colon] (some [c]) 0
                  else
                    Step.writeBytes 2 (text "No arg for -" ++ c :: text " option\n")
                    finish index 0 [Ascii.question] none 0
          else finish index behind [c] (some []) 0
  | _ => Step.fail (text "Usage: getopts optstring var [arg...]") 2

/-! ## Aliases -/

def aliasLine (name value : Bytes) : Bytes := line (name ++ Ascii.equals :: quoted value)

def setAlias : Utility := fun arguments => do
  if arguments.isEmpty then
    Reply.saying ((Step.inTableOrder (← get).aliases).flatMap fun (name, value) => aliasLine name value)
  else
    arguments.foldlM (fun (r : Reply) argument => do
      let name := argument.take 1 ++ (argument.drop 1).takeWhile (· != Ascii.equals)
      match argument.drop name.length with
      | _ :: value =>
          modify fun s => { s with aliases := assign name value s.aliases }
          return r
      | [] =>
          match (← get).aliases.lookup name with
          | some value => return { r with said := r.said ++ aliasLine name value }
          | none =>
              Step.writeBytes 2 (text "alias: " ++ name ++ text " not found\n")
              return { r with code := 1 }) ⟨[], 0⟩

def unalias : Utility := fun arguments => do
  let g ← options "a" "" arguments
  if g.has 'a' then
    modify fun s => { s with aliases := [] }
    Reply.done
  else
    g.operands.foldlM (fun (r : Reply) name => do
      if ((← get).aliases.lookup name).isSome then
        modify fun s => { s with aliases := s.aliases.filter fun a => a.1 != name }
        return r
      else
        Step.writeBytes 2 (text "unalias: " ++ name ++ text " not found\n")
        return { r with code := 1 }) ⟨[], 0⟩

/-! ## Signals -/

/-- A signal by name or number. -/
def signalNumber? (s : Bytes) : Option Nat :=
  if !s.isEmpty && s.all Ascii.isDigit then
    let n := decimalValue s
    if n ≤ lastRealTime then some n else none
  else
    let upper := Formatted.Layout.toUpper s
    if upper = text "EXIT" then some 0 else signals.lookup upper

def signalName (n : Nat) : Bytes :=
  if n = 0 then text "EXIT"
  else match signals.find? fun s => s.2 == n with
    | some (name, _) => name
    | none => decimal n

def killUsage {α : Type} : Step α :=
  Step.fail (text "Usage: kill [-s sigspec | -signum | -sigspec] [pid | job]... or\n" ++
    text "kill -l [exitstatus]") 2

/-- The process of an operand: a process number or a job. -/
def processOf (operand : Bytes) : Step (Option Nat) := do
  let s ← get
  let own := s.session.jobs.filter fun j => j.parent == s.number && !j.awaited
  match operand with
  | Ascii.percent :: which =>
      if which.isEmpty || which = text "%" || which = text "+" then
        return own.getLast?.map Job.number
      else match Program.natural? which with
        | some (n + 1) => return own[n]?.map Job.number
        | _ => return none
  | Ascii.minus :: digits => return some (← Step.natural digits)
  | digits => return some (← Step.natural digits)

/-- Sends a signal; `false` if the process does not exist. -/
def send (signal number : Nat) : Step Bool := do
  let s ← get
  if number = s.number ∨ s.ancestors.contains number ∨ number = s.ownNumber then
    if signal ≠ 0 then
      Step.modifySession fun session =>
        { session with signals := session.signals ++ [(number, signal)] }
    return true
  else match s.session.jobs.find? fun j => j.number == number && !j.awaited with
    | none => return false
    | some job =>
        let now := s.session.clock
        if !harmless.contains signal && job.outcome.all (fun o => now < o.2) then
          -- What the process would have written later is not written.
          let finish (j : Job) : Job :=
            if j.number = number then { j with outcome := some (.signal signal, now) } else j
          Step.modifySession fun session =>
            { session with
              jobs := session.jobs.map finish
              log := session.log.filter fun w => !(w.process == number && now < w.time) }
        return true

def sendAll (signal : Nat) (operands : List Bytes) : Step Reply := do
  let failures ← operands.filterM fun operand => do
    match ← processOf operand with
    | some number =>
        if ← send signal number then return false
    | none => pure ()
    Step.complain (text "No such process\n")
    return true
  Reply.code? (if failures.isEmpty then 0 else 1)

def kill : Utility := fun arguments => do
  let named : Option Nat := match arguments with
    | (Ascii.minus :: name) :: _ => signalNumber? name
    | _ => none
  match named, arguments with
  | _, [] => killUsage
  | some signal, _ :: operands => if operands.isEmpty then killUsage else sendAll signal operands
  | none, arguments =>
      let g ← options "l" "s" arguments
      if g.has 'l' then
        match g.operands with
        | [] =>
            let others := (List.range lastRealTime).flatMap fun n => line (signalName (n + 1))
            Reply.saying (line (text "0") ++ others)
        | operand :: _ =>
            let n ← Step.natural operand
            let n := if 128 < n then n - 128 else n
            if 0 < n ∧ n ≤ lastRealTime then Reply.saying (line (signalName n))
            else Step.fail (text "invalid signal number or exit status: " ++ operand) 2
      else
        let signal ← match g.value? 's' with
          | none => pure 15
          | some name => match signalNumber? name with
              | some n => pure n
              | none => Step.fail (text "invalid signal number or name: " ++ name) 2
        if g.operands.isEmpty then killUsage else sendAll signal g.operands

def trap : Utility := fun arguments => do
  let set (action : Option Bytes) (names : List Bytes) : Step Reply := do
    names.foldlM (fun (r : Reply) name => do
      match signalNumber? name with
      | some n =>
          modify fun s =>
            let others := s.traps.filter fun t => t.1 != n
            { s with traps := match action with
              | some action => (n, action) :: others
              | none => others }
          return r
      | none =>
          Step.writeBytes 2 (text "trap: " ++ name ++ text ": bad trap\n")
          return { r with code := 1 }) ⟨[], 0⟩
  match (← options "" "" arguments).operands with
  | [] =>
      let traps := (← get).traps
      Reply.saying ((List.range (lastRealTime + 1)).flatMap fun n => match traps.lookup n with
        | some action =>
            line (text "trap -- " ++ quoted action ++ Ascii.space :: signalName n)
        | none => [])
  | [name] => set none [name]
  | action :: names =>
      if action = [Ascii.minus] then set none names
      else if !action.isEmpty && action.all Ascii.isDigit then set none (action :: names)
      else set (some action) names

/-! ## Other settings -/

/-- Shows the file mode mask; setting it has no effect. -/
def umask : Utility := fun arguments => do
  let g ← options "S" "" arguments
  match g.operands with
  | [] => Reply.saying (line (text (if g.has 'S' then "u=rwx,g=rx,o=rx" else "0022")))
  | mode :: _ =>
      if mode.head?.any Ascii.isDigit && !mode.all Formatted.isOctal then Step.illegalNumber mode
      else Reply.done

def ulimit : Utility := fun arguments => do
  let g ← options "HSatfdscmlpnvwr" "" arguments
  if g.operands.isEmpty then
    Reply.saying (line (text (if g.has 'c' then "0" else "unlimited")))
  else Reply.done

def times : Utility := fun _ =>
  let zero := text "0m0.000000s 0m0.000000s\n"
  Reply.saying (zero ++ zero)

def workingPath : Step Bytes := do return Files.absoluteOf (← get).working

def pwd : Utility := fun arguments => do
  let _ ← options "LP" "" arguments
  Reply.saying (line (← workingPath))

def directories : Step (List Bytes) := do
  match ← Step.value? (text "PATH") with
  | none => return []
  | some path => return splitOn Ascii.colon path

def isAnchored (path : Bytes) : Bool :=
  match path.takeWhile (· != Ascii.slash) with
  | [] => !path.isEmpty
  | first => first == Path.dotName || first == Path.dotDotName

/-- The target directory, and whether it was found through `CDPATH`. -/
def destination (path : Bytes) : Step (Bytes × Bool) := do
  let f ← Step.files
  let places := match ← Step.value? (text "CDPATH") with
    | some places => splitOn Ascii.colon places
    | none => []
  if isAnchored path then return (path, false)
  else
    let found := places.find? fun place => f.isDirectory (Path.join place path)
    return match found with
      | some place => (Path.join place path, !place.isEmpty)
      | none => (path, false)

def cd : Utility := fun arguments => do
  let g ← options "LP" "" arguments
  let back := g.operands.head? = some [Ascii.minus]
  let target ←
    if back then Step.value? (text "OLDPWD")
    else match g.operands with
      | directory :: _ => pure (some directory)
      | [] => Step.value? (text "HOME")
  let directory := match target with
    | none | some [] => Path.dotName
    | some directory => directory
  let (path, apart) ← destination directory
  let f ← Step.files
  match f.locate path, f.isDirectory path with
  | .ok names, true =>
      let before ← workingPath
      modify fun s => { s with working := names }
      let now ← workingPath
      let put (name value : Bytes) : Step Unit :=
        Step.changeVariable name fun v => { v with value := some value, exported := true }
      put (text "OLDPWD") before
      put (text "PWD") now
      Reply.saying (if back || apart then line now else [])
  | _, _ => Step.fail (text "can't cd to " ++ directory) 2

end Utility

end Shell

end LuaAsset
