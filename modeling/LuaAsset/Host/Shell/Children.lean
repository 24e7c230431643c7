import LuaAsset.Host.Shell.Reader
import LuaAsset.Host.Shell.State

/-! # Processes of a script

A subshell gets a copy of the local state and shares files, writes and time.  A background job runs
when its script next waits.  Commands are run by an `Engine`, so that this module is plain
recursion. -/

set_option autoImplicit false

namespace LuaAsset

namespace Shell

structure Position where
  tested : Bool
  final : Bool
  deriving DecidableEq, Repr

namespace Position

def plain : Position := ⟨false, false⟩

def last : Position := ⟨false, true⟩

/-- The position of the last command of a process. -/
def atEnd (p : Position) : Position := { p with final := true }

def inside (p : Position) : Position := { p with final := false }

def condition (p : Position) : Position := { p with tested := true, final := false }

end Position

structure Engine where
  run : Position → Command → Step Unit
  launch : Bytes → List Bytes → Environment → Step (Except Refusal Status)

/-! ## Signals -/

def purposefulSignals : List (Bytes × Nat) :=
  [("HUP", 1), ("INT", 2), ("QUIT", 3), ("ILL", 4), ("TRAP", 5), ("ABRT", 6), ("BUS", 7),
    ("FPE", 8), ("KILL", 9), ("USR1", 10), ("SEGV", 11), ("USR2", 12), ("PIPE", 13), ("ALRM", 14),
    ("TERM", 15), ("CHLD", 17), ("CONT", 18), ("STOP", 19), ("TSTP", 20), ("TTIN", 21),
    ("TTOU", 22), ("URG", 23), ("XCPU", 24), ("XFSZ", 25), ("VTALRM", 26), ("PROF", 27),
    ("WINCH", 28), ("IO", 29), ("PWR", 30), ("SYS", 31)].map fun (name, n) => (text name, n)

def firstRealTime : Nat := 34

def lastRealTime : Nat := 64

/-- The real-time signals; the second half is named from the last. -/
def realTimeSignals : List (Bytes × Nat) :=
  let half := (lastRealTime - firstRealTime) / 2 + 1
  let distance (n : Nat) (sign : UInt8) : Bytes := if n = 0 then [] else sign :: decimal n
  (List.range (lastRealTime - firstRealTime + 1)).map fun i =>
    let n := firstRealTime + i
    (if i < half then text "RTMIN" ++ distance i Ascii.plus
      else text "RTMAX" ++ distance (lastRealTime - n) Ascii.minus, n)

def signals : List (Bytes × Nat) := purposefulSignals ++ realTimeSignals

def harmless : List Nat := [0, 17, 18, 23, 28]

def signalWording (n : Nat) : Bytes :=
  match n with
  | 1 => text "Hangup"
  | 2 => text "Interrupt"
  | 3 => text "Quit"
  | 4 => text "Illegal instruction"
  | 5 => text "Trace/breakpoint trap"
  | 6 => text "Aborted"
  | 7 => text "Bus error"
  | 8 => text "Floating point exception"
  | 9 => text "Killed"
  | 10 => text "User defined signal 1"
  | 11 => text "Segmentation fault"
  | 12 => text "User defined signal 2"
  | 13 => text "Broken pipe"
  | 14 => text "Alarm clock"
  | 15 => text "Terminated"
  | 16 => text "Stack fault"
  | 24 => text "CPU time limit exceeded"
  | 25 => text "File size limit exceeded"
  | 26 => text "Virtual timer expired"
  | 27 => text "Profiling timer expired"
  | 29 => text "I/O possible"
  | 30 => text "Power failure"
  | 31 => text "Bad system call"
  | n =>
      if firstRealTime ≤ n then text "Real-time signal " ++ decimal (n - firstRealTime)
      else text "Unknown signal " ++ decimal n

/-- Reports the signal that ended an awaited process. -/
def announce (status : Status) : Step Unit :=
  match status with
  | .signal 2 | .signal 13 | .code _ => return ()
  | .signal n => Step.writeBytes 2 (signalWording n ++ [Ascii.lineFeed])

/-! ## Running texts -/

section Running

variable (engine : Engine)

/-- Reads and runs lines at one position; `fuel` bounds the lines. -/
def runLines (p : Position) : Nat → Cursor → Step Unit
  | 0, _ => return ()
  | fuel + 1, cursor => do
      match Reader.line { cursor with aliases := (← get).aliases } with
      | .ok command cursor => do
          engine.run p command
          if cursor.isAtEnd then return () else runLines p fuel cursor
      | .error fault cursor => do
          modify fun s => { s with line := cursor.line }
          Step.fail (text "Syntax error: " ++ fault.wording) 2

def runText (p : Position) (script : Bytes) : Step Unit :=
  runLines engine p (script.length + 1) (.ofBytes script 1)

def settled (body : Step Unit) : Step Status := do
  try
    body
    return .code (← get).status
  catch
    | .killed n => return .signal n
    | _ => return .code (← get).status

def runTrap (action : Bytes) : Step Unit := do
  let status := (← get).status
  runText engine .plain action
  Step.setStatus status

def atExit (status : Status) : Step Status := do
  match status, (← get).traps.lookup 0 with
  | .code n, some action =>
      modify fun s => { s with traps := s.traps.filter (·.1 != 0), status := n }
      settled (runTrap engine action)
  | status, _ => return status

def runJob (job : Job) : Step Unit := do
  let outer ← get
  set ({ job.own with session := { outer.session with clock := job.start } } : State)
  let status ← settled (engine.run .last job.body)
  let status ← atExit engine status
  let session ← Step.session
  let finish (j : Job) : Job :=
    if j.number = job.number ∧ j.outcome.isNone then
      { j with outcome := some (status, session.clock) }
    else j
  set { outer with session :=
    { session with clock := outer.session.clock, jobs := session.jobs.map finish } }

/-- Runs the jobs of a process; `fuel` bounds how often jobs start more jobs. -/
def runJobs : Nat → Nat → Step Unit
  | 0, _ => return ()
  | fuel + 1, parent => do
      let due := (← Step.session).jobs.filter fun j => j.parent == parent && j.outcome.isNone
      due.forM fun job => do
        -- A job that ran before this one may have ended it.
        if (← Step.session).jobs.any fun j => j.number == job.number && j.outcome.isNone then
          runJob engine job
          runJobs fuel job.number

def jobDepth : Nat := 8

def letJobsRun : Step Unit := do runJobs engine jobDepth (← get).number

def takeSignals : Step Unit := do
  let s ← get
  let (own, others) := s.session.signals.partition fun (number, _) => number == s.number
  if own.isEmpty then return ()
  Step.modifySession fun session => { session with signals := others }
  own.reverse.forM fun (_, signal) => do
    match (← get).traps.lookup signal with
    | some [] => if signal = 9 then throw (.killed signal)
    | some action =>
        if signal = 9 then throw (.killed signal)
        runTrap engine action
    | none => if !harmless.contains signal then throw (.killed signal)

def isDoomed : Step Bool := do
  let s ← get
  return s.session.signals.any fun (number, signal) =>
    number == s.number && !harmless.contains signal &&
      (signal == 9 || (s.traps.lookup signal).isNone)

def newNumber : Step Nat :=
  modifyGet fun s =>
    let n := s.session.processes + 1
    (n, { s with session := { s.session with processes := n } })

def copied (own : Local) (number : Nat) : Local :=
  { own with
    number
    ancestors := own.number :: own.ancestors
    traps := own.traps.filter fun t => t.2.isEmpty }

/-- Runs a subshell with other open descriptors, leaving pending signals. -/
def besides (descriptors : List (Nat × Nat)) (body : Step Unit) : Step Status := do
  let outer ← get
  let number ← newNumber
  modify fun s =>
    { copied { s.toLocal with descriptors } number with session := s.session }
  let status ← settled body
  let status ← atExit engine status
  letJobsRun engine
  let session ← Step.session
  set { outer with session }
  return status

/-- Runs a subshell with other open descriptors and waits for it. -/
def inChild (descriptors : List (Nat × Nat)) (body : Step Unit) : Step Status := do
  let status ← besides engine descriptors body
  takeSignals engine
  return status

end Running

end Shell

end LuaAsset
