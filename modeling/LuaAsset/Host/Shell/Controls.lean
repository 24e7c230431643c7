import LuaAsset.Host.Search
import LuaAsset.Host.Shell.Utilities

/-! # Built-in commands for control

Built-in commands that leave loops, functions and scripts, run other texts and programs, and set
variables, arguments and options. -/

set_option autoImplicit false

namespace LuaAsset

namespace Shell

/-! ## Starting programs -/

def startWording (refusal : Refusal) : Bytes :=
  match refusal with
  | .noEntry | .notDirectory => text "not found"
  | refusal => refusal.wording

def startCode (refusal : Refusal) : Nat :=
  match refusal with
  | .noEntry | .notDirectory | .nameTooLong | .tooManyLinks => 127
  | _ => 126

def scriptProgram : Bytes := text "/bin/sh"

/-- Looks up a program and runs it; a file that is no program is run as a script. -/
def start (engine : Engine) (directories : List Bytes) (arguments : List Bytes)
    (environment : Environment) : Step (Except Refusal Status) := do
  match Search.find (← Step.files) directories (arguments.headD []) with
  | .error refusal => return .error refusal
  | .ok path =>
      match ← engine.launch path arguments environment with
      | .error .notExecutable =>
          engine.launch scriptProgram (scriptProgram :: path :: arguments.drop 1) environment
      | outcome => return outcome

def endAs {α : Type} (status : Status) : Step α := do
  match status with
  | .code n =>
      Step.setStatus n
      modify fun s => { s with traps := [] }
      throw .exit
  | .signal n => throw (.killed n)

namespace Utility

/-! ## Leaving -/

/-- The code given as an argument, or else the current status. -/
def codeOrStatus (arguments : List Bytes) : Step Nat := do
  match arguments with
  | [] => return (← get).status
  | s :: _ => Step.natural s

def exit : Utility := fun arguments => do
  Step.setStatus (← codeOrStatus arguments)
  throw .exit

def leaveFunction : Utility := fun arguments => do
  Step.setStatus (← codeOrStatus arguments)
  throw .leaveFunction

def levels (arguments : List Bytes) : Step Nat := do
  let n ← match arguments with
    | [] => pure 1
    | s :: _ => do
        let n ← Step.natural s
        if n = 0 then Step.illegalNumber s
        pure n
  return min n (← get).loops

def leaveLoop : Utility := fun arguments => do
  match ← levels arguments with
  | 0 => Reply.done
  | n =>
      Step.setStatus 0
      throw (.leaveLoop n)

def nextRound : Utility := fun arguments => do
  match ← levels arguments with
  | 0 => Reply.done
  | n =>
      Step.setStatus 0
      throw (.nextRound n)

/-! ## Other texts -/

def runFresh (engine : Engine) (p : Position) (script : Bytes) : Step Unit := do
  if script.all Ascii.isBlank then Step.setStatus 0 else runText engine p script

/-- Runs its arguments as a text at the current position. -/
def eval (engine : Engine) (p : Position) : Utility := fun arguments => do
  runFresh engine p.inside (arguments.intersperse [Ascii.space]).flatten
  Reply.code? (← get).status

def scriptPath (name : Bytes) : Step Bytes := do
  if name.contains Ascii.slash then return name
  let f ← Step.files
  let paths := (← directories).map fun d => Path.join d name
  match paths.find? fun path => (f.node? path).any Node.isRegular with
  | some path => return path
  | none => Step.fail (name ++ text ": not found") 2

def source (engine : Engine) : Utility := fun arguments => do
  match (← options "" "" arguments).operands with
  | [] => Reply.done
  | name :: _ =>
      let path ← scriptPath name
      let contents ← match (← Step.files).node path with
        | .ok (.file contents _) => pure contents
        | .ok _ => pure []
        | .error refusal =>
            let reason := match refusal with
              | .noEntry | .notDirectory => text "No such file"
              | refusal => refusal.wording
            Step.fail (text "cannot open " ++ path ++ text ": " ++ reason) 2
      modify fun s => { s with command := some path }
      try runFresh engine .plain contents
      catch
        | .leaveFunction => pure ()
        | other => throw other
      Reply.code? (← get).status

def exec (engine : Engine) : Utility := fun arguments => do
  match arguments with
  | [] => Reply.done
  | name :: _ =>
      match ← start engine (← directories) arguments (Step.exported (← get)) with
      | .ok status => endAs status
      | .error refusal =>
          Step.complain (name ++ text ": " ++ startWording refusal)
          Step.setStatus (startCode refusal)
          throw .exit

/-! ## Variables -/

/-- Assignments of the variables of a kind, ordered by name. -/
def listing (start : Bytes) (isShown : Variable → Bool) : Step Bytes := do
  let shown := (← get).bindings.filter fun v => isShown v.2
  return (stableSort (fun a b => bytesLt a.1 b.1) shown).flatMap fun (name, v) =>
    line (start ++ name ++ match v.value with
      | some value => Ascii.equals :: quoted value
      | none => [])

def named (argument : Bytes) : Step (Bytes × Option Bytes) := do
  let name := argument.takeWhile (· != Ascii.equals)
  if !isName name then Step.fail (name ++ text ": bad variable name") 2
  return (name, (argument.drop name.length).tail?)

/-- Marks and sets variables; without names it lists the marked ones. -/
def marking (word : String) (isMarked : Variable → Bool) (mark : Variable → Variable) : Utility :=
  fun arguments => do
    let g ← options "p" "" arguments
    if g.has 'p' || g.operands.isEmpty then
      Reply.saying (← listing (text word ++ [Ascii.space]) isMarked)
    else
      g.operands.forM fun argument => do
        let (name, value) ← named argument
        if let some value := value then Step.setVariable name value
        let v := (← Step.lookup? name).getD ⟨none, false, false⟩
        Step.putVariable name (mark v)
      Reply.done

def «export» : Utility :=
  marking "export" Variable.exported fun v => { v with exported := true }

def readonly : Utility :=
  marking "readonly" Variable.readOnly fun v => { v with readOnly := true }

def unset : Utility := fun arguments => do
  let g ← options "vf" "" arguments
  g.operands.forM fun name => do
    if g.has 'f' then
      modify fun s => { s with functions := s.functions.filter fun f => f.1 != name }
    else
      if !isName name then Step.fail (name ++ text ": bad variable name") 2
      if (← Step.lookup? name).any Variable.readOnly then
        Step.fail (name ++ text ": is read only") 2
      modify fun s => { s with bindings := s.bindings.filter fun v => v.1 != name }
      Step.follow name []
  Reply.done

def keepForScope (name : Bytes) : Step Unit := do
  let before ← Step.lookup? name
  modify fun s => match s.scopes with
    | scope :: outer =>
        if (scope.lookup name).isSome then s
        else { s with scopes := ((name, before) :: scope) :: outer }
    | [] => s

def «local» : Utility := fun arguments => do
  if (← get).calls = 0 then Step.fail (text "not in a function") 2
  arguments.forM fun argument => do
    let (name, value) ← named argument
    keepForScope name
    if let some value := value then Step.setVariable name value
  Reply.done

/-! ## Arguments and options -/

def shift : Utility := fun arguments => do
  let n ← match arguments with
    | [] => pure 1
    | s :: _ => Step.natural s
  if (← get).arguments.length < n then Step.fail (text "can't shift that many") 2
  modify fun s => { s with arguments := s.arguments.drop n, optionPlace := (1, 0) }
  Reply.done

/-- The script options with their long names, in listing order. -/
def scriptOptions : List (String × Option Char) :=
  [("errexit", some 'e'), ("noglob", some 'f'), ("ignoreeof", some 'I'), ("interactive", some 'i'),
    ("monitor", some 'm'), ("noexec", some 'n'), ("stdin", some 's'), ("xtrace", some 'x'),
    ("verbose", some 'v'), ("vi", some 'V'), ("emacs", some 'E'), ("noclobber", some 'C'),
    ("allexport", some 'a'), ("notify", some 'b'), ("nounset", some 'u'), ("privileged", some 'p'),
    ("nolog", none), ("debug", none)]

/-- The option letters in the order of `$-`. -/
def optionLetters : Bytes := text "pubaCEVvxsnmiIfe"

def isOptionLetter (c : UInt8) : Bool := optionLetters.contains c

def setOption (letter : UInt8) (on : Bool) : Step Unit :=
  modify fun s => { s with options := optionLetters.filter fun c =>
    if c = letter then on else s.options.contains c }

/-- The diagnostic for job control without a terminal. -/
def uncontrolled : Step Unit :=
  Step.complain (text "can't access tty; job control turned off")

def putOption (letter : UInt8) (on : Bool) : Step Unit := do
  if letter = Char.toUInt8 'm' ∧ on then uncontrolled
  else if isOptionLetter letter then setOption letter on
  else Step.fail (text "Illegal option -" ++ [letter]) 2

/-- Sets the option named after `-o`; without a name it lists all options. -/
def namedOption (on : Bool) : Option Bytes → Step Bytes
  | some name => do
      match scriptOptions.find? fun o => text o.1 == name with
      | some (_, letter) =>
          if let some letter := letter then putOption letter.toUInt8 on
          return []
      | none => Step.fail (text "Illegal option -o " ++ name) 2
  | none => do
      let isOn (letter : Option Char) : Step Bool := match letter with
        | some letter => Step.hasOption letter
        | none => return false
      let lines ← scriptOptions.mapM fun (name, letter) => do
        let set ← isOn letter
        return line (if on then
          text name ++ List.replicate (16 - name.length) Ascii.space ++ text (if set then "on" else "off")
        else text (if set then "set -o " else "set +o ") ++ text name)
      return (if on then line (text "Current option settings") else []) ++ lines.flatten

/-- The letters of a group of options; `-o` takes the argument after the group. -/
def optionGroup (on : Bool) : Bytes → List Bytes → Step (Bytes × List Bytes)
  | [], rest => return ([], rest)
  | c :: letters, rest => do
      if c = Char.toUInt8 'o' then
        let said ← namedOption on rest.head?
        let (more, rest) ← optionGroup on letters (rest.drop 1)
        return (said ++ more, rest)
      else
        putOption c on
        optionGroup on letters rest

/-- The leading options.  The arguments are `none` if the current ones stay; `fuel` bounds the
groups. -/
def optionGroups : Nat → List Bytes → Step (Bytes × Option (List Bytes))
  | 0, rest => return ([], some rest)
  | fuel + 1, arguments => do
      match arguments with
      | [Ascii.minus, Ascii.minus] :: rest => return ([], some rest)
      | [Ascii.minus] :: rest =>
          setOption (Char.toUInt8 'x') false
          setOption (Char.toUInt8 'v') false
          return ([], if rest.isEmpty then none else some rest)
      | (Ascii.minus :: letters) :: rest => group fuel true letters rest
      | (Ascii.plus :: letters) :: rest => group fuel false letters rest
      | [] => return ([], none)
      | rest => return ([], some rest)
where
  group (fuel : Nat) (on : Bool) (letters : Bytes) (rest : List Bytes) :
      Step (Bytes × Option (List Bytes)) := do
    let (said, rest) ← optionGroup on letters rest
    let (more, arguments) ← optionGroups fuel rest
    return (said ++ more, arguments)

def set : Utility := fun arguments => do
  if arguments.isEmpty then Reply.saying (← listing [] fun v => v.value.isSome)
  else
    let (said, arguments) ← optionGroups (arguments.length + 1) arguments
    if let some arguments := arguments then
      modify fun s => { s with arguments, optionPlace := (1, 0) }
    Reply.saying said

/-! ## Waiting -/

def waitUntil (time : Nat) : Step Unit :=
  Step.modifySession fun session => { session with clock := max session.clock time }

def markAwaited (which : Job → Bool) : Step Unit :=
  let mark (j : Job) : Job := if which j then { j with awaited := true } else j
  Step.modifySession fun session => { session with jobs := session.jobs.map mark }

def waitFor (operand : Bytes) : Step Nat := do
  let number ← match operand with
    | Ascii.percent :: _ => match ← processOf operand with
        | some number => pure number
        | none => Step.fail (text "No such job: " ++ operand) 2
    | operand => Step.natural operand
  let s ← get
  match s.session.jobs.find? fun j => j.number == number && j.parent == s.number with
  | some { outcome := some (status, time), awaited, .. } =>
      waitUntil time
      if !awaited then announce status
      markAwaited fun j => j.number == number
      return status.value
  | _ => return 127

def wait (engine : Engine) : Utility := fun arguments => do
  let operands := (← options "" "" arguments).operands
  letJobsRun engine
  if operands.isEmpty then
    let s ← get
    (s.session.jobs.filter fun j => j.parent == s.number).forM fun j => do
      if let some (_, time) := j.outcome then waitUntil time
    markAwaited fun j => j.parent == s.number
    Reply.done
  else Reply.code? (← operands.foldlM (fun _ operand => waitFor operand) 0)

end Utility

end Shell

end LuaAsset
