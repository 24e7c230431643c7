import LuaAsset.Host.Program
import LuaAsset.Host.Shell.Syntax

/-! # The state of running scripts

A `State` is the local state of a script and the state shared by its session: files, open files, and
writes.  A step continues or unwinds (`Unwinding`).  Time is counted, so that concurrent writes are
ordered. -/

set_option autoImplicit false

namespace LuaAsset

namespace Shell

inductive Status where
  | code (n : Nat)
  | signal (n : Nat)
  deriving DecidableEq, Repr

/-- The exit status; signals count from 128. -/
def Status.value : Status → Nat
  | .code n => n
  | .signal n => 128 + n

structure Variable where
  value : Option Bytes
  exported : Bool
  readOnly : Bool
  deriving DecidableEq, Repr

inductive Opening where
  | source (rest : Stream)
  | sink
  | file (names : List Bytes) (offset : Nat) (appending : Bool)
  | device (device : Device)

structure Local where
  name : Bytes
  arguments : List Bytes
  bindings : List (Bytes × Variable)
  functions : List (Bytes × Command)
  aliases : List (Bytes × Bytes)
  descriptors : List (Nat × Nat)
  working : List Bytes
  number : Nat
  ancestors : List Nat
  /-- The process number of the script, also in subshells. -/
  ownNumber : Nat
  status : Nat
  substitutionStatus : Nat
  background : Option Nat
  options : Bytes
  traps : List (Nat × Bytes)
  line : Nat
  command : Option Bytes
  loops : Nat
  calls : Nat
  /-- The saved values of local variables, innermost scope first. -/
  scopes : List (List (Bytes × Option Variable))
  /-- The position of `getopts`. -/
  optionPlace : Nat × Nat
  remembered : List Bytes

structure Job where
  number : Nat
  parent : Nat
  start : Nat
  own : Local
  body : Command
  outcome : Option (Status × Nat)
  awaited : Bool

structure Written where
  time : Nat
  process : Nat
  opening : Nat
  contents : Stream

/-- A time at which a process and its children get a signal. -/
structure Deadline where
  time : Nat
  signal : Nat
  watcher : Nat

structure Session where
  files : Files
  openings : Array Opening
  log : List Written
  clock : Nat
  processes : Nat
  signals : List (Nat × Nat)
  jobs : List Job
  deadline : Option Deadline

structure State extends Local where
  session : Session

/-- Why a script does not continue with the next command. -/
inductive Unwinding where
  | leaveLoop (levels : Nat)
  | nextRound (levels : Nat)
  | leaveFunction
  | exit
  /-- A fault that ends the script, unless it occurs in a plain built-in. -/
  | fault
  | killed (signal : Nat)
  deriving DecidableEq, Repr

abbrev Step := EStateM Unwinding State

namespace Step

def session : Step Session := do return (← get).session

def modifySession (f : Session → Session) : Step Unit :=
  modify fun s => { s with session := f s.session }

def setStatus (code : Nat) : Step Unit := modify fun s => { s with status := code }

def files : Step Files := do
  let s ← get
  return { s.session.files with working := s.working }

def setFiles (files : Files) : Step Unit := modifySession fun session => { session with files }

def hasOption (letter : Char) : Step Bool := do
  return (← get).options.contains letter.toUInt8

/-! ## What is open -/

def addOpening (o : Opening) : Step Nat :=
  modifyGet fun s =>
    (s.session.openings.size,
      { s with session := { s.session with openings := s.session.openings.push o } })

def setOpening (index : Nat) (o : Opening) : Step Unit :=
  modifySession fun session =>
    { session with openings := session.openings.setIfInBounds index o }

def opening? (descriptor : Nat) : Step (Option (Nat × Opening)) := do
  let s ← get
  return do
    let index ← s.descriptors.lookup descriptor
    return (index, ← s.session.openings[index]?)

def fileBytes (names : List Bytes) : Step Bytes := do
  match (← session).files.root.find? names with
  | some (.file contents _) => return contents
  | _ => return []

def input (descriptor : Nat) : Step (Except Refusal Stream) := do
  match ← opening? descriptor with
  | some (_, .source rest) => return .ok rest
  | some (_, .file names offset _) =>
      match (← session).files.root.find? names with
      | some (.directory _) => return .error .isDirectory
      | _ => return .ok (.ofBytes ((← fileBytes names).drop offset))
  | some (_, .device .null) => return .ok .empty
  | some (_, .device _) => return .ok (.endless [0])
  | some (_, .sink) | none => return .error .badDescriptor

def setInput (descriptor : Nat) (rest : Stream) : Step Unit := do
  match ← opening? descriptor with
  | some (index, .source _) => setOpening index (.source rest)
  | some (index, .file names _ appending) =>
      setOpening index
        (.file names ((← fileBytes names).length - rest.once.length) appending)
  | _ => return ()

/-- Writes into a file at an offset; gaps are filled with zeros. -/
def overwritten (before : Bytes) (offset : Nat) (bytes : Bytes) : Bytes :=
  before.take offset ++ List.replicate (offset - before.length) 0 ++ bytes ++
    before.drop (offset + bytes.length)

def write (descriptor : Nat) (s : Stream) : Step (Option Refusal) := do
  match ← opening? descriptor with
  | some (index, .sink) =>
      let process := (← get).number
      modifySession fun session =>
        { session with log := ⟨session.clock, process, index, s⟩ :: session.log }
      return none
  | some (index, .file names offset appending) =>
      let before ← fileBytes names
      let bytes := s.known
      let start := if appending then before.length else offset
      match (← session).files.root.find? names with
      | some (.file _ executable) =>
          modifySession fun session =>
            let files := session.files
            let node := Node.file (overwritten before start bytes) executable
            { session with files := { files with root := files.root.put names node } }
      | _ => pure ()
      setOpening index (.file names (start + bytes.length) appending)
      return none
  | some (_, .device .full) => return some .noSpace
  | some (_, .device _) => return none
  | some (_, .source _) | none => return some .badDescriptor

def writeBytes (descriptor : Nat) (s : Bytes) : Step Unit := do
  let _ ← write descriptor (.ofBytes s)

def collect (index : Nat) : Step Stream := do
  let (taken, rest) := (← session).log.partition fun w => w.opening == index
  modifySession fun session => { session with log := rest }
  return .concat ((stableSort (fun a b => a.time < b.time) taken.reverse).map Written.contents)

/-! ## Complaints -/

def heading (s : State) : Bytes :=
  s.name ++ text ": " ++ decimal s.line ++ text ": " ++
    (match s.command with
      | some command => command ++ text ": "
      | none => [])

def complain (what : Bytes) : Step Unit := do
  writeBytes 2 (heading (← get) ++ what ++ [Ascii.lineFeed])

def fail {α : Type} (what : Bytes) (code : Nat) : Step α := do
  complain what
  setStatus code
  throw .fault

def illegalNumber {α : Type} (s : Bytes) : Step α := fail (text "Illegal number: " ++ s) 2

def natural (s : Bytes) : Step Nat :=
  if !s.isEmpty && s.all Ascii.isDigit then return decimalValue s else illegalNumber s

/-! ## Variables -/

def lookup? (name : Bytes) : Step (Option Variable) := do
  return (← get).bindings.lookup name

def value? (name : Bytes) : Step (Option Bytes) := do
  return (← lookup? name).bind Variable.value

def putVariable (name : Bytes) (v : Variable) : Step Unit :=
  modify fun s => { s with bindings := assign name v s.bindings }

def changeVariable (name : Bytes) (f : Variable → Variable) : Step Unit := do
  let v := (← lookup? name).getD ⟨none, false, false⟩
  if v.readOnly then fail (name ++ text ": is read only") 2
  let all ← hasOption 'a'
  putVariable name (f { v with exported := v.exported || all })

/-- Updates the state that depends on a variable: remembered programs and `getopts`. -/
def follow (name value : Bytes) : Step Unit := do
  if name = text "PATH" then modify fun s => { s with remembered := [] }
  else if name = text "OPTIND" then
    let index ← natural value
    modify fun s => { s with optionPlace := (max 1 index, 0) }

def setVariable (name value : Bytes) : Step Unit := do
  changeVariable name fun v => { v with value := some value }
  follow name value

/-- The hash of a name in the variable table. -/
def bucket (size : Nat) (name : Bytes) : Nat :=
  (name.foldl (fun n c => n + c.toNat) ((name.headD 0).toNat * 16)) % size

/-- Names in the order of the variable table. -/
def inTableOrder {α : Type} (entries : List (Bytes × α)) : List (Bytes × α) :=
  stableSort (fun a b => bucket 39 a.1 < bucket 39 b.1) entries

def exported (s : State) : Environment :=
  inTableOrder (s.bindings.filterMap fun (name, v) =>
    if v.exported then v.value.map fun value => (name, value) else none)

end Step

end Shell

end LuaAsset
