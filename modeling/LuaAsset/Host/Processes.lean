import LuaAsset.Host.Programs
import LuaAsset.Host.Shell.Evaluation

/-! # Processes

A process runs an installed program or a script on shared files.  `engine` ties scripts and programs
together, up to a depth. -/

set_option autoImplicit false

namespace LuaAsset

namespace Process

open Shell

/-! ## Programs -/

/-- The size of the input if it is a file. -/
def inputSize : Shell.Step (Option Nat) := do
  match ← Step.opening? 0 with
  | some (_, .file names _ _) => return some (← Step.fileBytes names).length
  | _ => return none

/-- Writes the output of a program, up to the first refused write. -/
def passOn (writes : List (Channel × Stream)) : Shell.Step (Option Refusal) :=
  writes.foldlM (fun (refused : Option Refusal) (channel, s) => do
    match channel with
    | .errors =>
        let _ ← Step.write 2 s
        return refused
    | .output =>
        if s.isEmpty then return refused
        else return refused.or (← Step.write 1 s)) none

/-- The search path of an environment. -/
def directoriesOf (environment : Environment) : List Bytes :=
  match environment.lookup (text "PATH") with
  | some path => splitOn Ascii.colon path
  | none => [text "/bin", text "/usr/bin"]

/-- Lets time pass, up to the first deadline on the way, which sends its signal to the process and
to those between it and its watcher. -/
def pass (microseconds : Nat) : Shell.Step (Option Status) := do
  let s ← get
  let start := s.session.clock
  let finish := start + microseconds
  let isIgnored (d : Deadline) : Bool := s.traps.lookup d.signal == some []
  match s.session.deadline.filter fun d => start ≤ d.time && d.time < finish && !isIgnored d with
  | none =>
      Step.modifySession fun session => { session with clock := finish }
      return none
  | some d =>
      let reached := (s.number :: s.ancestors).takeWhile (· != d.watcher)
      Step.modifySession fun session =>
        { session with
          clock := d.time
          deadline := none
          signals := session.signals ++ reached.map fun number => (number, d.signal) }
      -- What is ended itself says nothing about what it has started.
      let isSilent := !reached.isEmpty && (s.traps.lookup d.signal).isNone
      return some (if isSilent then .code (128 + d.signal) else .signal d.signal)

def within (allowance : Option Program.Allowance)
    (body : Shell.Step (Except Refusal Status)) : Shell.Step (Except Refusal Status) := do
  match allowance with
  | none => body
  | some a =>
      let before ← Step.session
      let time := before.clock + a.microseconds
      let own : Deadline := ⟨time, a.signal, (← get).number⟩
      let deadline := match before.deadline with
        | some d => if d.time ≤ time then d else own
        | none => own
      Step.modifySession fun session => { session with deadline := some deadline }
      let outcome ← body
      Step.modifySession fun session => { session with deadline := before.deadline }
      match outcome, a.code with
      | .ok status, code =>
          if (← Step.session).clock < time then return .ok status
          else if a.signal = 9 then return .ok (.signal a.signal)
          else return .ok (.code (code.getD status.value))
      | refused, _ => return refused

/-- Starts programs one after another and combines their codes. -/
def runSequel (engine : Engine) (name : Bytes) (environment : Environment)
    (sequel : Program.Sequel) : Shell.Step Nat := do
  let say (s : Bytes) : Shell.Step Unit :=
    if s.isEmpty then pure () else Step.writeBytes 2 (s ++ [Ascii.lineFeed])
  let (code, _) ← sequel.commands.foldlM (fun (acc : Nat × Bool) (said, arguments) => do
    if !acc.2 then return acc
    say said
    let ended ← match ← start engine (directoriesOf environment) arguments environment with
      | .ok (.code n) => pure (Program.Ended.code n)
      | .ok (.signal n) => pure (.signal n)
      | .error refusal => pure (.refused refusal)
    let judgement := sequel.judge (arguments.headD []) ended
    if let some s := judgement.said then say (name ++ text ": " ++ s)
    return (max acc.1 judgement.code, judgement.goesOn)) (0, true)
  return code

def runInstalled (engine : Engine) (program : Program) (arguments : List Bytes)
    (environment : Environment) : Shell.Step Status := do
  let own := (← get).working
  let setting : Program.Setting :=
    { name := arguments.headD []
      arguments := arguments.drop 1
      environment
      inputSize := ← inputSize
      outputOpen := (← Step.opening? 1).isSome }
  let progress := Program.run program setting (← Step.input 0) (← Step.files)
  Step.setFiles progress.files
  if let .ok rest := progress.input then Step.setInput 0 rest
  let cut ← pass progress.waited
  let refused ← passOn progress.writes.reverse
  if 0 < progress.waited then letJobsRun engine
  match cut, refused, progress.successor with
  | some status, _, _ => return status
  | none, some refusal, _ => do
      Step.writeBytes 2 (setting.name ++ text ": write error: " ++ refusal.wording ++
        [Ascii.lineFeed])
      return .code (max 1 progress.code)
  | none, none, none => do
      let code ← match progress.sequel with
        | some sequel => runSequel engine setting.name environment sequel
        | none => pure 0
      return .code (max code progress.code)
  | none, none, some next => do
      modify fun s => { s with working := progress.files.working }
      let outcome ← within next.allowance
        (start engine (directoriesOf next.environment) next.arguments next.environment)
      modify fun s => { s with working := own }
      match outcome with
      | .ok status => return status
      | .error refusal => do
          let say (s : Bytes) : Shell.Step Unit :=
            Step.writeBytes 2 (setting.name ++ text ": " ++ s ++ [Ascii.lineFeed])
          say (next.complaint ++ text ": " ++ refusal.wording)
          if refusal = .noEntry ∧ !next.advice.isEmpty then say next.advice
          return .code (if refusal = .noEntry then 127 else 126)

/-! ## Scripts -/

inductive Origin where
  | text (script : Bytes)
  | file (path : Bytes)
  | input
  deriving DecidableEq, Repr

/-- The arguments of the shell; `fuel` bounds the groups of options.  The result says whether a text
and whether the input is to be run. -/
def optionsFrom : Nat → Bool → Bool → List Bytes → Shell.Step (Bool × Bool × List Bytes)
  | 0, texts, input, rest => return (texts, input, rest)
  | fuel + 1, texts, input, arguments => do
      match arguments with
      | [Ascii.minus, Ascii.minus] :: rest => return (texts, input, rest)
      | [Ascii.minus] :: rest => return (texts, input, rest)
      | (Ascii.minus :: letters) :: rest => do
          let texts := texts || letters.contains (Char.toUInt8 'c')
          let input := input || letters.contains (Char.toUInt8 's')
          let (said, rest) ←
            Utility.optionGroup true (letters.filter fun c => !(text "cl").contains c) rest
          Step.writeBytes 1 said
          optionsFrom fuel texts input rest
      | (Ascii.plus :: letters) :: rest => do
          let (said, rest) ← Utility.optionGroup false letters rest
          Step.writeBytes 1 said
          optionsFrom fuel texts input rest
      | rest => return (texts, input, rest)

/-- The source of the script that the arguments select. -/
def originOf (arguments : List Bytes) : Shell.Step Origin := do
  let (texts, input, rest) ← optionsFrom (arguments.length + 1) false false arguments
  if ← Step.hasOption 'i' then Utility.uncontrolled
  match texts, rest with
  | true, [] => Step.fail (text "-c requires an argument") 2
  | true, script :: rest => do
      if let name :: arguments := rest then modify fun s => { s with name, arguments }
      return .text script
  | false, [] => do
      Utility.setOption (Char.toUInt8 's') true
      return .input
  | false, first :: others =>
      if input then
        modify fun s => { s with arguments := rest }
        return .input
      else
        modify fun s => { s with arguments := others }
        return .file first

def scriptOf (origin : Origin) : Shell.Step Bytes := do
  match origin with
  | .text script => return script
  | .input =>
      match ← Step.input 0 with
      | .ok s => do
          Step.setInput 0 (s.drop s.known.length)
          return s.known
      | .error _ => return []
  | .file path =>
      match (← Step.files).node path with
      | .ok (.file contents _) => do
          modify fun s => { s with name := path }
          return contents
      | .ok _ => return []
      | .error refusal =>
          let reason := match refusal with
            | .noEntry | .notDirectory => text "No such file"
            | refusal => refusal.wording
          Step.fail (text "cannot open " ++ path ++ text ": " ++ reason) 2

def runScript (engine : Engine) (arguments : List Bytes) : Shell.Step Unit := do
  let script ← scriptOf (← originOf arguments)
  runText engine .plain script

def usualPath : Bytes :=
  text "/usr/local/sbin:/usr/local/bin:/usr/sbin:/usr/bin:/sbin:/bin"

def variablesOf (environment : Environment) (working : List Bytes) (parent : Nat) :
    List (Bytes × Variable) :=
  let usual : List (Bytes × Variable) :=
    [("IFS", usualSeparators), ("OPTIND", text "1"), ("PATH", usualPath),
      ("PPID", decimal parent), ("PS1", text "# "), ("PS2", text "> "), ("PS4", text "+ ")].map
      fun (name, value) => (text name, ⟨some value, false, false⟩)
  let given := (environment.filter fun (name, _) => isName name && name != text "IFS").foldl
    (fun bindings (name, value) => assign name (Variable.mk (some value) true false) bindings)
    usual
  assign (text "PWD") ⟨some (Files.absoluteOf working), true, false⟩ given

/-- The initial state of a script; ignored signals stay ignored. -/
def newLocal (name : Bytes) (environment : Environment) (descriptors : List (Nat × Nat))
    (working : List Bytes) (number : Nat) (ancestors : List Nat) (traps : List (Nat × Bytes)) :
    Local where
  name
  arguments := []
  bindings := variablesOf environment working (ancestors.headD 1)
  functions := []
  aliases := []
  descriptors
  working
  number
  ancestors
  ownNumber := number
  status := 0
  substitutionStatus := 0
  background := none
  options := []
  traps := traps.filter fun t => t.1 != 0 && t.2.isEmpty
  line := 0
  command := none
  loops := 0
  calls := 0
  scopes := []
  optionPlace := (1, 0)
  remembered := []

def runShell (engine : Engine) (arguments : List Bytes) (environment : Environment) :
    Shell.Step Status := do
  let outer ← get
  let number ← newNumber
  let own := newLocal (arguments.headD []) environment outer.descriptors outer.working number
    (outer.number :: outer.ancestors) outer.traps
  modify fun s => { own with session := s.session }
  let status ← settled (runScript engine (arguments.drop 1))
  let status ← atExit engine status
  letJobsRun engine
  let session ← Step.session
  set { outer with session }
  takeSignals engine
  return match status with
    | .code n => .code (n % 256)
    | status => status

def launch (engine : Engine) (path : Bytes) (arguments : List Bytes) (environment : Environment) :
    Shell.Step (Except Refusal Status) := do
  match Search.load (← Step.files) path arguments with
  | .error refusal => return .error refusal
  | .ok (name, arguments) =>
      match Program.table.lookup name with
      | some program => return .ok (← runInstalled engine program arguments environment)
      | none => return .ok (← runShell engine arguments environment)

/-- The engine for nested commands and programs up to a depth; deeper ones are killed. -/
def engine : Nat → Engine
  | 0 => ⟨fun _ _ => throw (.killed 11), fun _ _ _ => throw (.killed 11)⟩
  | depth + 1 => ⟨execute (engine depth), launch (engine depth)⟩

def depth : Nat := 20000

end Process

end LuaAsset
