import LuaAsset.Host.Program.Editor.Script
import LuaAsset.Host.Program.Whole

/-! # The line editor

`sed`: each cycle takes a line, runs the script over it and prints the result. -/

set_option autoImplicit false

namespace LuaAsset

namespace Editor

/-! ## Replacing -/

def Letters.apply (letters : Letters) (s : Bytes) : Bytes :=
  match letters with
  | .asTheyAre => s
  | .lower => s.map Ascii.toLower
  | .upper => s.map fun c => if 0x61 ≤ c && c ≤ 0x7a then c - 0x20 else c

def cased (letters : Letters) (first : Option Letters) (s : Bytes) : Bytes :=
  match first, s with
  | some first, c :: rest => first.apply [c] ++ letters.apply rest
  | _, s => letters.apply s

def groupOf (line : Array UInt8) (found : Regex.Found) (index : Nat) : Bytes :=
  if index = 0 then (line.extract found.start found.finish).toList
  else match found.groups.lookup index with
    | some (i, j) => (line.extract i j).toList
    | none => []

/-- The replacement text of a match.  A case for one letter carries over to the next part. -/
def expanded (line : Array UInt8) (found : Regex.Found) :
    Option Letters → List Part → Bytes
  | _, [] => []
  | kept, p :: rest =>
      let first := p.first.or kept
      let before := cased p.letters first p.bytes
      let first := if p.bytes.isEmpty then first else none
      match p.group.map (groupOf line found) with
      | none => before ++ expanded line found none rest
      | some [] => before ++ expanded line found (if p.first.isSome then first else none) rest
      | some s => before ++ cased p.letters first s ++ expanded line found none rest

/-- The line from a place on after substitution, and whether something was replaced.  `count` is the
number of earlier occurrences and `previous` the end of the last one; `fuel` bounds the places. -/
def Substitution.from (s : Substitution) (m : Matcher) (line : Array UInt8) :
    Nat → Nat → Nat → Option Nat → Bytes × Bool
  | 0, start, _, _ => ((line.extract start line.size).toList, false)
  | fuel + 1, start, count, previous =>
      let rest (i : Nat) : Bytes := (line.extract i line.size).toList
      match m.regex.search line m.fold false start with
      | none => (rest start, false)
      | some found =>
          let before := (line.extract start found.start).toList
          -- After an empty match one byte is passed over.
          let isEmpty := found.start = found.finish
          let passed := if isEmpty then (line.extract found.finish (found.finish + 1)).toList else []
          let next := if isEmpty then found.finish + 1 else found.finish
          let goOn (count : Nat) : Bytes × Bool :=
            if line.size < next then ([], false)
            else s.from m line fuel next count (if isEmpty then none else some found.finish)
          if isEmpty ∧ previous = some found.finish then
            let (after, replaced) := goOn count
            (before ++ passed ++ after, replaced)
          else if count + 1 < s.number then
            let (after, replaced) := goOn (count + 1)
            (before ++ groupOf line found 0 ++ passed ++ after, replaced)
          else
            let new := expanded line found none s.replacement
            let after := if s.everywhere then passed ++ (goOn (count + 1)).1 else rest found.finish
            (before ++ new ++ after, true)

/-! ## The state of a run -/

structure Line where
  bytes : Bytes
  ended : Bool
  deriving Repr

inductive Pending where
  | lines (s : Bytes)
  | line (l : Line)
  | file (name : Bytes)
  deriving Repr

inductive Range where
  | outside
  | upToLine (number : Nat)
  | upToLimit
  deriving DecidableEq, Repr

structure State where
  line : Line
  held : Line
  number : Nat
  lines : List Line
  files : List Bytes
  fileName : Bytes
  pending : List Pending
  replaced : Bool
  matcher : Option Matcher
  ranges : List (Nat × Range)
  sources : List (Bytes × List Line)
  unended : List (Option Bytes)
  edited : Bytes

structure Manner where
  script : Script
  quiet : Bool
  separate : Bool
  inPlace : Option Bytes
  terminator : UInt8
  width : Nat

abbrev Run := ReaderT Manner (StateT State Program.Step)

inductive Verdict where
  | finished
  | deleted
  | again
  | stopped (code : Nat) (shown : Bool)
  deriving DecidableEq, Repr

namespace Run

def within {α : Type} (step : Program.Step α) : Run α := fun _ s => do return (← step, s)

/-! ## Writing -/

def standardOutput : Bytes := text "/dev/stdout"

def standardErrors : Bytes := text "/dev/stderr"

/-- Writes bytes to an output. -/
def put (target : Option Bytes) (s : Bytes) : Run Unit := do
  match target with
  | some name =>
      if name = standardOutput then within (Program.write s)
      else if name = standardErrors then within (Program.writeErrors s)
      else within do
        let f := (← get).files
        match f.node name with
        | .ok (.file before _) =>
            modify fun p => { p with files := (f.store name (before ++ s)).getD f }
        | _ => pure ()
  | none =>
      if (← read).inPlace.isSome then modify fun e => { e with edited := e.edited ++ s }
      else within (Program.write s)

/-- Writes bytes to an output, after a line feed that is still missing there. -/
def emit (target : Option Bytes) (s : Bytes) : Run Unit := do
  if (← get).unended.contains target then
    modify fun e => { e with unended := e.unended.filter (· != target) }
    put target ((← read).terminator :: s)
  else put target s

def emitLine (target : Option Bytes) (l : Line) : Run Unit := do
  let terminator := (← read).terminator
  emit target (l.bytes ++ if l.ended then [terminator] else [])
  if !l.ended then modify fun e => { e with unended := target :: e.unended }

def fail {α : Type} (what : Bytes) (code : Nat) : Run α := within (Program.fail what code)

/-! ## Taking lines -/

def linesOf (terminator : UInt8) (s : Bytes) : List Line :=
  let pieces := splitOn terminator s
  pieces.dropLast.map (fun bytes => ⟨bytes, true⟩) ++
    match pieces.getLast? with
    | some [] | none => []
    | some bytes => [⟨bytes, false⟩]

/-- Finishes the current file, which the edited text replaces. -/
def leaveFile : Run Unit := do
  match (← read).inPlace with
  | none => pure ()
  | some suffix =>
      let e ← get
      if !e.fileName.isEmpty then
        within (modify fun p =>
          let kept := match suffix, p.files.node e.fileName with
            | _ :: _, .ok (.file before _) =>
                (p.files.store (e.fileName ++ suffix) before).getD p.files
            | _, _ => p.files
          { p with files := (kept.store e.fileName e.edited).getD kept })
      set { e with edited := [], fileName := [], unended := e.unended.filter (· != none) }

def openFile (name : Bytes) : Run Unit := do
  leaveFile
  let manner ← read
  let isDirectory := (← within get).files.isDirectory name
  if manner.inPlace.isSome ∧ isDirectory then
    fail (text "couldn't edit " ++ name ++ text ": not a regular file") 4
  match ← within (Program.contentsOf name) with
  | .ok s =>
      modify fun e => { e with lines := linesOf manner.terminator s.known, fileName := name }
      if manner.separate then modify fun e => { e with number := 0, ranges := [] }
  | .error .isDirectory =>
      fail (text "read error on " ++ name ++ text ": " ++ Refusal.isDirectory.wording) 4
  | .error .badDescriptor =>
      fail (text "read error on stdin: " ++ Refusal.badDescriptor.wording) 4
  | .error refusal =>
      within (Program.warn (text "can't read " ++ name ++ text ": " ++ refusal.wording) 2)

/-- Opens files up to the first one with lines; `fuel` bounds their number. -/
def advance : Nat → Run Unit
  | 0 => return ()
  | fuel + 1 => do
      let e ← get
      match e.lines, e.files with
      | [], name :: files =>
          set { e with files }
          openFile name
          advance fuel
      | _, _ => pure ()

def isLast : Run Bool := do
  if !(← get).lines.isEmpty then return false
  else if (← read).separate then return true
  else
    advance ((← get).files.length + 1)
    return (← get).lines.isEmpty

def showPending : Run Unit := do
  let pending := (← get).pending
  modify fun e => { e with pending := [] }
  pending.forM fun p => do
    match p with
    | .lines s => emit none s
    | .line l => emitLine none l
    | .file name =>
        emit none []
        let name := if name = text "/dev/stdin" then [Ascii.minus] else name
        match ← within (Program.contentsOf name) with
        | .ok s => put none s.known
        | .error .isDirectory =>
            fail (text "read error on " ++ name ++ text ": " ++ Refusal.isDirectory.wording) 4
        | .error _ => pure ()

/-- Takes the next line, replacing the current one or appended to it. -/
def takeLine (appended : Bool) : Run Bool := do
  showPending
  modify fun e => { e with replaced := false }
  advance ((← get).files.length + 1)
  let e ← get
  match e.lines with
  | [] => return false
  | l :: lines =>
      let terminator := (← read).terminator
      let bytes := if appended then e.line.bytes ++ terminator :: l.bytes else l.bytes
      set { e with line := ⟨bytes, l.ended⟩, lines, number := e.number + 1 }
      return true

/-! ## Choosing lines -/

def matcherOf (m : Option Matcher) : Run Matcher := do
  match m.or (← get).matcher with
  | some m =>
      modify fun e => { e with matcher := some m }
      return m
  | none => fail (text "-e expression #1, char 0: no previous regular expression") 1

def isFound (m : Option Matcher) : Run Bool := do
  let m ← matcherOf m
  return (m.regex.search (← get).line.bytes.toArray m.fold false 0).isSome

def isAt (a : Address) : Run Bool := do
  match a with
  | .line n => return (← get).number == n
  | .every first step =>
      let n := (← get).number
      return first ≤ n && (n - first) % step == 0
  | .last => isLast
  | .found m => isFound m

def setRange (index : Nat) (r : Range) : Run Unit :=
  modify fun e => { e with ranges := assign index r e.ranges }

/-- The range of a command; one that starts before the first line is active. -/
def rangeOf (c : Command) : Run Range := do
  let atFirst := match c.start with
    | some (.line 0) => Range.upToLimit
    | _ => .outside
  return ((← get).ranges.lookup c.index).getD atFirst

def isChosen (c : Command) : Run Bool := do
  match c.start, c.limit with
  | none, _ => return true
  | some start, none => isAt start
  | some start, some limit =>
      let n := (← get).number
      match ← rangeOf c with
      | .outside =>
          if !(← isAt start) then return false
          let upTo (last : Nat) : Run Unit :=
            if n < last then setRange c.index (.upToLine last) else pure ()
          match limit with
          | .line last => upTo last
          | .further count => upTo (n + count)
          | .multiple of => upTo (if of = 0 then n else (n / of + 1) * of)
          | .last => if !(← isLast) then setRange c.index .upToLimit
          | .found _ => setRange c.index .upToLimit
          return true
      | .upToLine last =>
          if last ≤ n then setRange c.index .outside
          return n ≤ last
      | .upToLimit =>
          let isEnd ← match limit with
            | .found m => isFound m
            | .last => isLast
            | _ => pure true
          if isEnd then setRange c.index .outside
          return true

/-! ## Commands -/

/-- The commands after the end of the current block. -/
def behindBlock : Nat → List Command → List Command
  | _, [] => []
  | depth, c :: rest =>
      match c.action, depth with
      | .closeBlock, 0 => rest
      | .closeBlock, depth + 1 => behindBlock depth rest
      | .openBlock, depth => behindBlock (depth + 1) rest
      | _, depth => behindBlock depth rest

def behindLabel (script : Script) (name : Bytes) : List Command :=
  (script.commands.dropWhile fun c => match c.action with
    | .label other => name.isEmpty || other != name
    | _ => true).drop 1

def listed (c : UInt8) : Bytes :=
  if c = Ascii.backslash then [c, c]
  else if isPrintable c then [c]
  else Ascii.backslash :: escapeOf c

/-- A line with escapes for unprintable bytes, wrapped to a width. -/
def listing (terminator : UInt8) (width : Nat) (s : Bytes) : Bytes :=
  (s.foldl (fun (acc : Bytes × Nat) c =>
    let shown := listed c
    if 0 < width ∧ width < acc.2 + shown.length + 1 then
      (acc.1 ++ [Ascii.backslash, terminator] ++ shown, shown.length)
    else (acc.1 ++ shown, acc.2 + shown.length)) ([], 0)).1 ++ [Ascii.dollar, terminator]

def firstLine (terminator : UInt8) (l : Line) : Line :=
  if l.bytes.contains terminator then ⟨l.bytes.takeWhile (· != terminator), true⟩ else l

/-- The text of a command, with a terminator after its last line. -/
def endedBy (terminator : UInt8) (lines : Bytes) : Bytes :=
  if lines.getLast? = some Ascii.lineFeed then lines.dropLast ++ [terminator] else lines

def joined (terminator : UInt8) (a b : Line) : Line :=
  ⟨a.bytes ++ terminator :: b.bytes, b.ended⟩

def substitute (s : Substitution) : Run Unit := do
  let m ← matcherOf s.matcher
  let e ← get
  let line := e.line.bytes.toArray
  let (bytes, replaced) := s.from m line (line.size + 2) 0 0 none
  if replaced then
    set { e with line := ⟨bytes, e.line.ended⟩, replaced := true }
    if s.shown then emitLine none (← get).line
    match s.file with
    | some name => emitLine (some name) (← get).line
    | none => pure ()

def readOneLine (name : Bytes) : Run Unit := do
  let lines ← match (← get).sources.lookup name with
    | some lines => pure lines
    | none => match ← within (Program.contentsOf name) with
        | .ok s => pure (linesOf (← read).terminator s.known)
        | .error _ => pure []
  match lines with
  | [] => modify fun e => { e with sources := assign name [] e.sources }
  | l :: lines =>
      modify fun e =>
        { e with sources := assign name lines e.sources, pending := e.pending ++ [Pending.line l] }

/-- Commands that affect neither the control flow nor the cycle. -/
def act (c : Command) : Run Unit := do
  let e ← get
  let terminator := (← read).terminator
  match c.action with
  | .append lines => set { e with pending := e.pending ++ [Pending.lines lines] }
  | .insert lines => emit none (endedBy terminator lines)
  | .print => emitLine none e.line
  | .printFirst => emitLine none (firstLine terminator e.line)
  | .lineNumber => emit none (decimal e.number ++ [terminator])
  | .fileName => emit none (e.fileName ++ [terminator])
  | .listing width => emit none (listing terminator (width.getD (← read).width) e.line.bytes)
  | .hold => set { e with held := e.line }
  | .holdAppended => set { e with held := joined terminator e.held e.line }
  | .fetch => set { e with line := e.held }
  | .fetchAppended => set { e with line := joined terminator e.line e.held }
  | .exchange => set { e with line := e.held, held := e.line }
  | .clear => set { e with line := ⟨[], e.line.ended⟩ }
  | .translate pairs =>
      -- Of a byte that is named twice the last place counts.
      let pairs := pairs.reverse
      let bytes := e.line.bytes.map fun c => (pairs.lookup c).getD c
      set { e with line := ⟨bytes, e.line.ended⟩ }
  | .substitute s => substitute s
  | .readFile name => set { e with pending := e.pending ++ [Pending.file name] }
  | .readLine name => readOneLine name
  | .writeFile name => emitLine (some name) e.line
  | .writeFirst name => emitLine (some name) (firstLine terminator e.line)
  | _ => pure ()

/-- Runs commands on the current line; `fuel` bounds their number. -/
def follow : Nat → List Command → Run Verdict
  | 0, _ => return .finished
  | _, [] => return .finished
  | fuel + 1, c :: rest => do
      if (← isChosen c) == c.negated then
        match c.action with
        | .openBlock => follow fuel (behindBlock 0 rest)
        | _ => follow fuel rest
      else match c.action with
        | .jump time name =>
            let replaced := (← get).replaced
            let isTaken := match time with
              | .always => true
              | .replaced => replaced
              | .unreplaced => !replaced
            if time != .always then modify fun e => { e with replaced := false }
            if isTaken then follow fuel (behindLabel (← read).script name) else follow fuel rest
        | .change lines =>
            if (← rangeOf c) = .outside || c.limit.isNone then
              emit none (endedBy (← read).terminator lines)
            return .deleted
        | .delete => return .deleted
        | .deleteFirst =>
            let e ← get
            match splitAtFirst [(← read).terminator] e.line.bytes with
            | none => return .deleted
            | some (_, bytes) =>
                set { e with line := ⟨bytes, e.line.ended⟩ }
                return .again
        | .next =>
            if ← isLast then return .finished
            if !(← read).quiet then emitLine none (← get).line
            let _ ← takeLine false
            follow fuel rest
        | .nextAppended =>
            if ← isLast then return .finished
            let _ ← takeLine true
            follow fuel rest
        | .quit code => return .stopped code true
        | .quitSilently code => return .stopped code false
        | _ =>
            act c
            follow fuel rest

def bound : Nat := 1000000

/-- Runs the script on the current line and all further ones; `fuel` bounds the cycles. -/
def cycles : Nat → Run Nat
  | 0 => return 0
  | fuel + 1 => do
      let manner ← read
      let showLine : Run Unit := if manner.quiet then pure () else do emitLine none (← get).line
      match ← follow bound manner.script.commands with
      | .stopped code shown =>
          if shown then
            showLine
            showPending
            emit none []
          return code
      | .again =>
          showPending
          cycles fuel
      | verdict =>
          if verdict = .finished then showLine
          if ← takeLine false then cycles fuel else return 0

def makeOutputs : Run Unit := do
  let names := (← read).script.commands.filterMap fun c => match c.action with
    | .writeFile name | .writeFirst name => some name
    | .substitute s => s.file
    | _ => none
  names.forM fun name => do
    if name ≠ standardOutput ∧ name ≠ standardErrors then
      let f := (← within get).files
      match f.store name [] with
      | some files => within (modify fun p => { p with files })
      | none =>
          let reason := match f.node name with
            | .ok _ => Refusal.isDirectory
            | .error refusal => refusal
          fail (text "couldn't open file " ++ name ++ text ": " ++ reason.wording) 4

def all : Run Unit := do
  makeOutputs
  let code ← if ← takeLine false then cycles bound else pure 0
  leaveFile
  within (Program.mark (code % 256))

end Run

/-! ## Calling the editor -/

/-- Splits the backup suffix off the in-place option. -/
def withoutSuffix : List Bytes → List Bytes × Option Bytes
  | [] => ([], none)
  | argument :: rest =>
      let (others, suffix) := withoutSuffix rest
      let long := text "--in-place"
      let letters := (argument.drop 1).takeWhile fun c => (text "nErsuz").contains c
      let behind := argument.drop (1 + letters.length)
      if argument = text "--" then (argument :: rest, none)
      else if long.isPrefixOf argument then
        (long :: others, suffix.or (some (argument.drop (long.length + 1))))
      else if argument.head? == some Ascii.minus && behind.head? == some (Char.toUInt8 'i') then
        ((Ascii.minus :: letters ++ text "i") :: others, suffix.or (some (behind.drop 1)))
      else (argument :: others, suffix)

/-- The pieces of the script and the remaining operands. -/
def pieces (g : Program.Given) : Program.Step (List (Origin × Bytes) × List Bytes) := do
  let given := g.options.filter fun o => o.1 == Char.toUInt8 'e' || o.1 == Char.toUInt8 'f'
  match given, g.operands with
  | [], [] => do
      Program.writeErrors
        (text "Usage: sed [OPTION]... \x7bscript-only-if-no-other-script\x7d [input-file]...\n\n")
      Program.stop 1
  | [], script :: names => return ([(.argument 1, script)], names)
  | given, names => do
      let found ← given.zipIdx.mapM fun ((letter, s), i) => do
        if letter == Char.toUInt8 'e' then
          let before := (given.take i).filter fun o => o.1 == Char.toUInt8 'e'
          return (Origin.argument (before.length + 1), s)
        else match ← Program.contentsOf s with
          | .ok contents =>
              let bytes := contents.known
              let bytes := if bytes.getLast? = some Ascii.lineFeed then bytes.dropLast else bytes
              return (Origin.file s, bytes)
          | .error refusal =>
              Program.fail (text "couldn't open file " ++ s ++ text ": " ++ refusal.wording) 4
      return (found, names)

end Editor

namespace Program

open Editor in
def sed : Program := do
  let (arguments, suffix) := withoutSuffix (← read).arguments
  let known : Options := ⟨"nErsuzi", "efl", [("quiet", 'n'), ("silent", 'n'), ("expression", 'e'),
    ("file", 'f'), ("regexp-extended", 'E'), ("separate", 's'), ("unbuffered", 'u'),
    ("null-data", 'z'), ("line-length", 'l'), ("in-place", 'i')]⟩
  let g ← givenIn known 1 (fun _ => false) arguments
  let (pieces, names) ← pieces g
  match Script.ofPieces (g.has 'E' || g.has 'r') pieces with
  | .error (what, code) => fail what code
  | .ok script =>
      let inPlace := if g.has 'i' then some (suffix.getD []) else none
      if inPlace.isSome && names.isEmpty then fail (text "no input files") 4
      let manner : Manner :=
        { script
          quiet := g.has 'n' || script.quiet
          separate := g.has 's' || g.has 'i'
          inPlace
          terminator := if g.has 'z' then 0 else Ascii.lineFeed
          width := ((g.value? 'l').bind natural?).getD 70 }
      let state : State :=
        { line := ⟨[], true⟩
          held := ⟨[], true⟩
          number := 0
          lines := []
          files := orInput names
          fileName := []
          pending := []
          replaced := false
          matcher := none
          ranges := []
          sources := []
          unended := []
          edited := [] }
      let _ ← (Run.all.run manner).run state

end Program

end LuaAsset
