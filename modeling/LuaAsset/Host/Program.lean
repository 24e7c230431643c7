import LuaAsset.Environment
import LuaAsset.Host.Files
import LuaAsset.Host.Quotation
import LuaAsset.Host.Stream

/-! # Programs

A `Program` reads its arguments, its input and the files, and writes on two channels.  It may exit
early with a code; otherwise its code is the largest one marked during the run. -/

set_option autoImplicit false

namespace LuaAsset

inductive Channel where
  | output
  | errors
  deriving DecidableEq, Repr

namespace Program

structure Setting where
  name : Bytes
  arguments : List Bytes
  environment : Environment
  /-- The size of the input if it is a file. -/
  inputSize : Option Nat
  outputOpen : Bool
  /-- The hint after a usage error, if not the usual one. -/
  advice : Option Bytes := none
  deriving Repr

structure Allowance where
  microseconds : Nat
  signal : Nat
  code : Option Nat
  deriving Repr

structure Successor where
  arguments : List Bytes
  environment : Environment
  complaint : Bytes
  advice : Bytes
  allowance : Option Allowance
  deriving Repr

/-- How a started program ended. -/
inductive Ended where
  | code (n : Nat)
  | signal (n : Nat)
  | refused (refusal : Refusal)
  deriving Repr

structure Judgement where
  said : Option Bytes
  code : Nat
  goesOn : Bool

structure Sequel where
  commands : List (Bytes × List Bytes)
  judge : Bytes → Ended → Judgement

structure Progress where
  writes : List (Channel × Stream)
  code : Nat
  input : Except Refusal Stream
  files : Files
  waited : Nat
  successor : Option Successor
  sequel : Option Sequel

inductive Ending where
  | stopped (code : Nat)
  | succeeded (successor : Successor)
  | followed (sequel : Sequel)

abbrev Step := ReaderT Setting (EStateM Ending Progress)

end Program

abbrev Program := Program.Step Unit

namespace Program

def run (program : Program) (setting : Setting) (input : Except Refusal Stream) (files : Files) :
    Progress :=
  match program setting ⟨[], 0, input, files, 0, none, none⟩ with
  | .ok () progress => progress
  | .error (.stopped code) progress => { progress with code }
  | .error (.succeeded next) progress => { progress with successor := some next }
  | .error (.followed sequel) progress => { progress with sequel := some sequel }

/-! ## Writing -/

def writeStream (s : Stream) : Program := do
  modify fun p => { p with writes := (.output, s) :: p.writes }

def write (s : Bytes) : Program := writeStream (.ofBytes s)

def writeLine (s : Bytes) : Program := write (s ++ [Ascii.lineFeed])

def writeErrors (s : Bytes) : Program := do
  modify fun p => { p with writes := (.errors, .ofBytes s) :: p.writes }

def mark (code : Nat) : Program := do modify fun p => { p with code := max p.code code }

def stop {α : Type} (code : Nat) : Step α := throw (.stopped code)

def become {α : Type} (successor : Successor) : Step α := throw (.succeeded successor)

def followWith {α : Type} (sequel : Sequel) : Step α := throw (.followed sequel)

def complain (what : Bytes) : Program := do
  writeErrors ((← read).name ++ text ": " ++ what ++ [Ascii.lineFeed])

def warn (what : Bytes) (code : Nat) : Program := do
  complain what
  mark code

def fail {α : Type} (what : Bytes) (code : Nat) : Step α := do
  complain what
  stop code

def advise {α : Type} (code : Nat) : Step α := do
  let setting ← read
  writeErrors (setting.advice.getD
    (text "Try '" ++ setting.name ++ text " --help' for more information.\n"))
  stop code

def misused {α : Type} (what : Bytes) (code : Nat) : Step α := do
  complain what
  advise code

def missing {α : Type} (what : Bytes) : Step α := misused (text "missing " ++ what) 1

/-! ## Options -/

/-- The options of a program: letters, letters with a value, and long names.  A letter of both kinds
takes its value from the same argument only. -/
structure Options where
  letters : String
  valued : String
  long : List (String × Char)

structure Given where
  options : List (UInt8 × Bytes)
  operands : List Bytes

namespace Given

def has (g : Given) (letter : Char) : Bool := g.options.any fun o => o.1 == letter.toUInt8

def value? (g : Given) (letter : Char) : Option Bytes :=
  (g.options.reverse.find? fun o => o.1 == letter.toUInt8).map Prod.snd

end Given

def longOption (argument : Bytes) : Bytes × Option Bytes :=
  let name := (argument.drop 2).takeWhile (· != Ascii.equals)
  match argument.drop (2 + name.length) with
  | _ :: value => (name, some value)
  | [] => (name, none)

/-- The letters of one argument; the last one may take the next argument. -/
def readLetters (known : Options) (code : Nat) : Bytes → List Bytes →
    Step (List (UInt8 × Bytes) × List Bytes)
  | [], rest => return ([], rest)
  | c :: letters, rest => do
      let isBare := (text known.letters).contains c
      let isValued := (text known.valued).contains c
      if isBare && isValued then return ([(c, letters)], rest)
      else if isBare then
        let (options, rest) ← readLetters known code letters rest
        return ((c, []) :: options, rest)
      else if isValued then
        match letters, rest with
        | [], [] =>
            misused (text "option requires an argument -- '" ++ [c, Ascii.singleQuote]) code
        | [], value :: rest => return ([(c, value)], rest)
        | value, rest => return ([(c, value)], rest)
      else misused (text "invalid option -- '" ++ [c, Ascii.singleQuote]) code

def longNames (known : Options) (name : Bytes) : List (String × Char) :=
  match known.long.filter fun l => text l.1 == name with
  | [] => known.long.filter fun l => name.isPrefixOf (text l.1)
  | whole => whole

def readLong (known : Options) (code : Nat) (argument : Bytes) (rest : List Bytes) :
    Step ((UInt8 × Bytes) × List Bytes) := do
  let (name, value) := longOption argument
  match longNames known name with
  | [(full, letter)] =>
      let c := letter.toUInt8
      let isBare := (text known.letters).contains c
      match (text known.valued).contains c, value, rest with
      | true, some value, rest => return ((c, value), rest)
      | true, none, value :: behind =>
          return if isBare then ((c, []), value :: behind) else ((c, value), behind)
      | true, none, [] =>
          if isBare then return ((c, []), [])
          misused (text "option '--" ++ text full ++ text "' requires an argument") code
      | false, none, rest => return ((c, []), rest)
      | false, some _, _ =>
          misused (text "option '--" ++ text full ++ text "' doesn't allow an argument") code
  | [] => misused (text "unrecognized option '" ++ argument ++ text "'") code
  | several =>
      misused (text "option '" ++ argument ++ text "' is ambiguous; possibilities:" ++
        several.flatMap fun (full, _) => text " '--" ++ text full ++ [Ascii.singleQuote]) code

/-- Options and operands in any order, up to `--` or a stopping argument; `fuel` bounds the
arguments. -/
def readArguments (known : Options) (code : Nat) (ends : Bytes → Bool) :
    Nat → List Bytes → Step Given
  | 0, rest => return ⟨[], rest⟩
  | _, [] => return ⟨[], []⟩
  | fuel + 1, argument :: rest => do
      if ends argument then return ⟨[], argument :: rest⟩
      match argument with
      | [Ascii.minus, Ascii.minus] => return ⟨[], rest⟩
      | Ascii.minus :: Ascii.minus :: _ =>
          let (option, rest) ← readLong known code argument rest
          let given ← readArguments known code ends fuel rest
          return { given with options := option :: given.options }
      | Ascii.minus :: c :: letters =>
          let (options, rest) ← readLetters known code (c :: letters) rest
          let given ← readArguments known code ends fuel rest
          return { given with options := options ++ given.options }
      | _ =>
          let given ← readArguments known code ends fuel rest
          return { given with operands := argument :: given.operands }

def isOperand (argument : Bytes) : Bool :=
  match argument with
  | Ascii.minus :: _ :: _ => false
  | _ => true

/-- The options and operands of the arguments; a wrong one ends the run. -/
def givenIn (known : Options) (code : Nat) (ends : Bytes → Bool) (arguments : List Bytes) :
    Step Given :=
  readArguments known code ends (arguments.length + 1) arguments

def given (known : Options) (code : Nat) : Step Given := do
  givenIn known code (fun _ => false) (← read).arguments

def operands (code : Nat) : Step (List Bytes) := do
  return (← given ⟨"", "", []⟩ code).operands

/-- The word given to an option, where an unambiguous prefix is enough. -/
def oneOf (option : String) (words : List (List String)) (s : Bytes) : Step Bytes := do
  let first (spellings : List String) : Bytes := text (spellings.headD "")
  match words.find? fun w => w.any fun spelling => text spelling == s with
  | some spellings => return first spellings
  | none =>
      let started := words.filter fun w => w.any fun spelling => s.isPrefixOf (text spelling)
      match started with
      | [spellings] => return first spellings
      | _ =>
          complain (text (if started.isEmpty then "invalid" else "ambiguous") ++
            text " argument " ++ cited s ++ text " for '--" ++ text option ++ [Ascii.singleQuote])
          writeErrors (text "Valid arguments are:\n" ++ words.flatMap fun w =>
            text "  - '" ++ text ("', '".intercalate w) ++ text "'\n")
          advise 1

/-! ## Reading -/

def takeInput : Step (Except Refusal Stream) := do
  modifyGet fun p => match p.input with
    | .ok s => (.ok s, { p with input := .ok .empty })
    | .error refusal => (.error refusal, p)

def takeLine : Step Bytes := do
  match (← get).input with
  | .error _ => return []
  | .ok s =>
      let line := s.known.takeWhile (· != Ascii.lineFeed)
      modify fun p => { p with input := .ok (s.drop (line.length + 1)) }
      return line

def agreed (question : Bytes) : Step Bool := do
  writeErrors ((← read).name ++ text ": " ++ question ++ text "? ")
  let answer ← takeLine
  return answer.head?.any (text "yY").contains

def contentsOf (name : Bytes) : Step (Except Refusal Stream) := do
  if name = [Ascii.minus] then takeInput
  else match (← get).files.node name with
    | .ok (.file bytes _) => return .ok (.ofBytes bytes)
    | .ok (.program _) => return .ok .empty
    | .ok (.device .null) => return .ok .empty
    | .ok (.device .zero) | .ok (.device .full) => return .ok (.endless [0])
    | .ok (.device (.descriptor 0)) => takeInput
    | .ok (.device (.descriptor _)) => return .ok .empty
    | .ok (.directory _) => return .error .isDirectory
    | .error refusal => return .error refusal

def refused (name : Bytes) (refusal : Refusal) : Program :=
  warn (quotedName name ++ text ": " ++ refusal.wording) 1

def orInput (names : List Bytes) : List Bytes := if names.isEmpty then [[Ascii.minus]] else names

/-- Processes the contents of each file; `failed` handles the others. -/
def overFiles (names : List Bytes) (failed : Bytes → Refusal → Program)
    (f : Bytes → Stream → Program) : Program := do
  (orInput names).forM fun name => do
    match ← contentsOf name with
    | .ok source => f name source
    | .error refusal => failed name refusal

def concatenated (names : List Bytes) (failed : Bytes → Refusal → Program) : Step Stream := do
  (orInput names).foldlM (fun all name => do
    match ← contentsOf name with
    | .ok source => return all ++ source
    | .error refusal =>
        failed name refusal
        return all) Stream.empty

def change (f : Files → Except Refusal Files) : Step (Option Refusal) := do
  modifyGet fun p => match f p.files with
    | .ok files => (none, { p with files })
    | .error refusal => (some refusal, p)

/-! ## Lines -/

/-- The records of a byte string with their terminators; the last may have none. -/
def records (finish : UInt8) (s : Bytes) : List Bytes :=
  let parts := splitOn finish s
  parts.dropLast.map (· ++ [finish]) ++
    match parts.getLast? with
    | some [] | none => []
    | some last => [last]

def bareRecords (finish : UInt8) (s : Bytes) : List Bytes :=
  let parts := splitOn finish s
  if parts.getLast? = some [] then parts.dropLast else parts

/-- The lines of a byte string with their line feeds; the last may have none. -/
def linesOf (s : Bytes) : List Bytes := records Ascii.lineFeed s

def bareLines (s : Bytes) : List Bytes := bareRecords Ascii.lineFeed s

def Given.finish (g : Given) : UInt8 := if g.has 'z' then 0 else Ascii.lineFeed

/-! ## Numbers -/

def integer? (s : Bytes) : Option Int :=
  let natural? (digits : Bytes) : Option Nat :=
    if !digits.isEmpty && digits.all Ascii.isDigit then some (decimalValue digits) else none
  match s with
  | Ascii.minus :: digits => (natural? digits).map fun n => -(n : Int)
  | Ascii.plus :: digits => (natural? digits).map fun n => (n : Int)
  | digits => (natural? digits).map fun n => (n : Int)

def natural? (s : Bytes) : Option Nat :=
  if !s.isEmpty && s.all Ascii.isDigit then some (decimalValue s) else none

/-- The size of a unit such as `K`, `kB` or `KiB`. -/
def unit? (s : Bytes) : Option Nat :=
  match s with
  | [] => some 1
  | [0x62] => some 512
  | letter :: rest =>
      let power := (text "KMGTPEZYRQ").idxOf (if (text "km").contains letter then letter - 0x20
        else letter) + 1
      if 10 < power then none
      else if rest.isEmpty ∨ rest = text "iB" then some (1024 ^ power)
      else if rest = text "B" then some (1000 ^ power)
      else none

def measured? (s : Bytes) : Option Nat := do
  let s := s.dropWhile Ascii.isBlank
  let s := if s.head? = some Ascii.plus then s.drop 1 else s
  let digits := s.takeWhile Ascii.isDigit
  if digits.isEmpty then none
  else return decimalValue digits * (← unit? (s.drop digits.length))

def padded (width : Nat) (s : Bytes) : Bytes := List.replicate (width - s.length) Ascii.space ++ s

end Program

end LuaAsset
