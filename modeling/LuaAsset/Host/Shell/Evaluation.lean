import LuaAsset.Host.Shell.Controls
import LuaAsset.Host.Shell.Redirection

/-! # Running commands

`execute` runs a command of a script; nested commands and programs are left to an engine. -/

set_option autoImplicit false

namespace LuaAsset

namespace Shell

/-! ## Built-in commands -/

structure Builtin where
  /-- Whether it is a special built-in. -/
  special : Bool
  run : Engine → Position → Utility

def plainBuiltins : List (Bytes × Builtin) :=
  let regular (f : Utility) : Builtin := ⟨false, fun _ _ => f⟩
  let special (f : Utility) : Builtin := ⟨true, fun _ _ => f⟩
  let nothing : Utility := fun _ => Reply.done
  let uncontrolled : Utility := fun _ =>
    Step.fail (text "job (null) not created under job control") 2
  [(".", ⟨true, fun engine _ => Utility.source engine⟩), (":", special nothing), ("[", regular Utility.bracket),
    ("alias", regular Utility.setAlias), ("bg", regular uncontrolled),
    ("break", special Utility.leaveLoop), ("cd", regular Utility.cd), ("chdir", regular Utility.cd),
    ("continue", special Utility.nextRound), ("echo", regular Utility.echo),
    ("eval", ⟨true, Utility.eval⟩), ("exec", ⟨true, fun engine _ => Utility.exec engine⟩),
    ("exit", special Utility.exit), ("export", special Utility.export),
    ("false", regular fun _ => Reply.code? 1), ("fg", regular uncontrolled),
    ("getopts", regular Utility.getopts), ("jobs", regular nothing),
    ("kill", regular Utility.kill), ("local", special Utility.local),
    ("printf", regular Utility.printf), ("pwd", regular Utility.pwd),
    ("read", regular Utility.read), ("readonly", special Utility.readonly),
    ("return", special Utility.leaveFunction), ("set", special Utility.set),
    ("shift", special Utility.shift), ("test", regular Utility.condition),
    ("times", special Utility.times), ("trap", special Utility.trap),
    ("true", regular nothing), ("ulimit", regular Utility.ulimit),
    ("umask", regular Utility.umask), ("unalias", regular Utility.unalias),
    ("unset", special Utility.unset), ("wait", ⟨false, fun engine _ => Utility.wait engine⟩)].map
    fun (name, builtin) => (text name, builtin)

inductive Meaning where
  | keyword
  | aliased (value : Bytes)
  | special
  | own
  | function
  | program (path : Bytes) (remembered : Bool)

def askingNames : List Bytes := [text "command", text "hash", text "type"]

def commandMeaning? (name : Bytes) : Step (Option Meaning) := do
  match plainBuiltins.lookup name with
    | some builtin =>
        if builtin.special then return some .special
        else if ((← get).functions.lookup name).isSome then return some .function
        else return some .own
    | none =>
        let files ← Step.files
        if ((← get).functions.lookup name).isSome then return some .function
        else if askingNames.contains name then return some .own
        else if name.contains Ascii.slash then
          return if files.pathExists name then some (.program name false) else none
        else match Search.find files (← Utility.directories) name with
          | .ok path =>
              let remembered := (← get).remembered
              let known := remembered.contains name
              if !known then modify fun s => { s with remembered := remembered ++ [name] }
              return some (.program path known)
          | .error _ => return none

def meaning? (name : Bytes) : Step (Option Meaning) := do
  if reservedWords.contains name then return some .keyword
  else if let some value := (← get).aliases.lookup name then return some (.aliased value)
  else commandMeaning? name

namespace Utility

def type : Utility := fun names => do
  names.foldlM (fun (r : Reply) name => do
    let say (s : Bytes) : Step Reply := return { r with said := r.said ++ line (name ++ s) }
    match ← meaning? name with
    | some .keyword => say (text " is a shell keyword")
    | some (.aliased value) => say (text " is an alias for " ++ value)
    | some .special => say (text " is a special shell builtin")
    | some .own => say (text " is a shell builtin")
    | some .function => say (text " is a shell function")
    | some (.program path remembered) =>
        say (text (if remembered then " is a tracked alias for " else " is ") ++ path)
    | none => return ⟨r.said ++ line (name ++ text ": not found"), 127⟩) ⟨[], 0⟩

/-- What runs for the first of the names; `long` asks for a description. -/
def command (long : Bool) : Utility := fun names => do
  match names with
  | [] => Reply.done
  | name :: _ =>
      if long then type [name]
      else match ← meaning? name with
        | some (.program path _) => Reply.saying (line path)
        | some (.aliased value) => Reply.saying (text "alias " ++ aliasLine name value)
        | some _ => Reply.saying (line name)
        | none => Reply.code? 127

/-- The paths of remembered programs, in table order. -/
def rememberedPaths : Step (List Bytes) := do
  let files ← Step.files
  let directories ← Utility.directories
  let names := stableSort (fun a b => Step.bucket 31 a < Step.bucket 31 b) (← get).remembered
  return names.filterMap fun name => (Search.find files directories name).toOption

def hash : Utility := fun arguments => do
  let g ← options "r" "" arguments
  if g.has 'r' then
    modify fun s => { s with remembered := [] }
    Reply.done
  else if g.operands.isEmpty then Reply.saying ((← rememberedPaths).flatMap line)
  else
    g.operands.foldlM (fun (r : Reply) name => do
      modify fun s => { s with remembered := s.remembered.filter (· != name) }
      if (← commandMeaning? name).isSome then return r
      else
        Step.complain (name ++ text ": not found")
        return { r with code := 1 }) ⟨[], 0⟩

end Utility

def builtins : List (Bytes × Builtin) :=
  (text "hash", ⟨false, fun _ _ => Utility.hash⟩) ::
    (text "type", ⟨false, fun _ _ => Utility.type⟩) :: plainBuiltins

/-! ## Simple commands -/

section Executing

variable (engine : Engine)

/-- The commands whose assignment arguments are not split. -/
def assigningNames : List Bytes := [text "export", text "readonly", text "local"]

def argumentsOf (words : List Word) : Step (List Bytes) :=
  words.foldlM (fun (fields : List Bytes) w => do
    let assigning := (fields.find? (· != text "command")).any assigningNames.contains
    if assigning && w.assignment?.isSome then return fields ++ [← textOf engine w]
    else return fields ++ (← fieldsOf engine w)) []

/-- Traces a command on the standard error outside its redirections. -/
def traced (descriptors : List (Nat × Nat)) (settings : List (Bytes × Bytes))
    (arguments : List Bytes) : Step Unit := do
  if ← Step.hasOption 'x' then
    let parts := settings.map (fun (name, value) => name ++ Ascii.equals :: value) ++ arguments
    let start := (← Step.value? (text "PS4")).getD []
    restoringDescriptors do
      modify fun s => { s with descriptors }
      Step.writeBytes 2 (start ++ joinedBy [Ascii.space] parts ++ [Ascii.lineFeed])

def restoreVariable (name : Bytes) (before : Option Variable) : Step Unit := do
  modify fun s => { s with bindings := match before with
    | some v => assign name v s.bindings
    | none => s.bindings.filter fun v => v.1 != name }
  if name = text "PATH" then modify fun s => { s with remembered := [] }

def withSettings {α : Type} (settings : List (Bytes × Bytes)) (body : Step α) : Step α := do
  let before ← settings.mapM fun (name, _) => do return (name, ← Step.lookup? name)
  let restore : Step Unit := before.reverse.forM fun (name, v) => restoreVariable name v
  try
    settings.forM fun (name, value) => do
      Step.changeVariable name fun v => { v with value := some value, exported := true }
      Step.follow name value
    let a ← body
    restore
    return a
  catch unwinding =>
    restore
    throw unwinding

def runBuiltin (p : Position) (name : Bytes) (builtin : Builtin) (arguments : List Bytes) :
    Step Unit := do
  let outer := (← get).command
  let restore : Step Unit := modify fun s => { s with command := outer }
  modify fun s => { s with command := some name }
  try
    let reply ← builtin.run engine p arguments
    Step.setStatus reply.code
    if !reply.said.isEmpty then
      if (← Step.write 1 (.ofBytes reply.said)).isSome then
        Step.complain (name ++ text ": I/O error")
        Step.setStatus (max 1 reply.code)
    restore
  catch unwinding =>
    restore
    if unwinding ≠ .fault ∨ builtin.special then throw unwinding

def mostCalls : Nat := 1000

def callFunction (p : Position) (body : Command) (arguments : List Bytes) : Step Unit := do
  let outer ← get
  if mostCalls ≤ outer.calls then
    Step.fail (text "Maximum function recursion depth (" ++ decimal mostCalls ++
      text ") reached") 2
  modify fun s =>
    { s with
      arguments
      loops := 0
      calls := s.calls + 1
      scopes := [] :: s.scopes
      optionPlace := (1, 0) }
  let restore : Step Unit := do
    let scope := ((← get).scopes.headD [])
    scope.forM fun (name, before) => restoreVariable name before
    modify fun s =>
      { s with
        arguments := outer.arguments
        loops := outer.loops
        calls := outer.calls
        scopes := outer.scopes
        optionPlace := outer.optionPlace }
  try
    engine.run p.inside body
    restore
  catch
    | .leaveFunction => restore
    | other =>
        restore
        throw other

def concluded (p : Position) (status : Status) : Step Unit := do
  match p.final && (← get).traps.isEmpty, status with
  | true, .signal n => throw (.killed n)
  | _, status => do
      announce status
      Step.setStatus status.value

def runProgram (p : Position) (arguments : List Bytes) : Step Unit := do
  let name := arguments.headD []
  match ← start engine (← Utility.directories) arguments (Step.exported (← get)) with
  | .ok status => concluded p status
  | .error refusal =>
      let wording := if name.isEmpty then Refusal.permission.wording else startWording refusal
      Step.complain (name ++ text ": " ++ wording)
      Step.setStatus (if name.contains Ascii.slash then startCode refusal else 127)

/-- The command after prefixes such as `command`; `none` without a prefix. -/
def plainCommand? : Nat → List Bytes → Option (List Bytes)
  | 0, _ => none
  | fuel + 1, arguments =>
      match arguments with
      | first :: rest =>
          if first = text "command" then
            let rest := if rest.head? = some (text "-p") then rest.drop 1 else rest
            let rest := if rest.head? = some (text "--") then rest.drop 1 else rest
            if rest.head?.any fun s => s.head? == some Ascii.minus then none
            else some ((plainCommand? fuel rest).getD rest)
          else none
      | [] => none

def runCommandQuery (p : Position) (arguments : List Bytes) : Step Unit :=
  runBuiltin engine p (text "command") ⟨false, fun _ _ arguments => do
    let g ← Utility.options "pvV" "" arguments
    if g.has 'v' || g.has 'V' then Utility.command (g.has 'V') g.operands
    else Reply.done⟩ (arguments.drop 1)

def remember (name : Bytes) : Step Unit := do
  if !name.contains Ascii.slash && !(← get).remembered.contains name then
    if (Search.find (← Step.files) (← Utility.directories) name).toOption.isSome then
      modify fun s => { s with remembered := s.remembered ++ [name] }

/-- Remembers the program of a pipeline part before it is run in a child. -/
def rememberPart : Command → Step Unit
  | .simple _ _ ((w : Word) :: _) _ =>
      match Word.bare? w with
      | some name => do
          let own := (builtins.lookup name).isSome || askingNames.contains name
          if isName name && !own && ((← get).functions.lookup name).isNone then remember name
      | none => return ()
  | _ => return ()

/-- Runs a command with expanded words and its own variables. -/
def dispatch (p : Position) (settings : List (Bytes × Bytes)) (arguments : List Bytes) :
    Step Unit := do
  let inner? := plainCommand? arguments.length arguments
  let plain := inner?.isSome
  let arguments := inner?.getD arguments
  let name := arguments.headD []
  let known := (← get).functions
  let function? := if plain then none else known.lookup name
  match builtins.lookup name, function? with
  | some builtin, function? =>
      if builtin.special && !plain then
        settings.forM fun (name, value) => Step.setVariable name value
        runBuiltin engine p name builtin (arguments.drop 1)
      else match function? with
        | some body => withSettings settings (callFunction engine p body (arguments.drop 1))
        | none =>
            withSettings settings
              (runBuiltin engine p name { builtin with special := false } (arguments.drop 1))
  | none, some body => withSettings settings (callFunction engine p body (arguments.drop 1))
  | none, none =>
      if arguments.isEmpty then Step.setStatus 0
      else if name = text "command" then withSettings settings (runCommandQuery engine p arguments)
      else
        -- Other directories for this command alone are no reason to forget, nor to remember.
        if !settings.any fun s => s.1 == text "PATH" then remember name
        let remembered := (← get).remembered
        withSettings settings (runProgram engine p arguments)
        modify fun s => { s with remembered }

/-- Whether a redirection error of the command ends the script. -/
def isSpecial (arguments : List Bytes) : Bool :=
  match arguments with
  | name :: _ => (builtins.lookup name).any Builtin.special
  | [] => false

/-- Performs assignments in order; later values may use earlier ones. -/
def assigned (assignments : List (Bytes × Word)) : Step (List (Bytes × Bytes)) :=
  assignments.mapM fun (name, w) => do
    let value ← settingText engine w
    Step.setVariable name value
    return (name, value)

def settingsOf (assignments : List (Bytes × Word)) : Step (List (Bytes × Bytes)) := do
  let before ← assignments.mapM fun (name, _) => do return (name, ← Step.lookup? name)
  let remembered := (← get).remembered
  let settings ← assigned engine assignments
  before.reverse.forM fun (name, v) => restoreVariable name v
  modify fun s => { s with remembered }
  return settings

/-- Runs a simple command after expansion and redirection. -/
def simpleBody (p : Position) (assignments : List (Bytes × Word)) (arguments : List Bytes)
    (redirected : List Redirected) : Step Unit := do
  let before := (← get).descriptors
  match ← performAll engine redirected, arguments with
  | false, arguments => do
      Step.setStatus 2
      if isSpecial arguments then throw .fault
  | true, [] => do
      let settings ← assigned engine assignments
      if !settings.isEmpty then traced before settings []
      Step.setStatus (← get).substitutionStatus
  | true, arguments => do
      let settings ← settingsOf engine assignments
      traced before settings arguments
      dispatch engine p settings arguments

def simple (p : Position) (assignments : List (Bytes × Word)) (words : List Word)
    (redirections : List Redirection) : Step Unit := do
  modify fun s => { s with substitutionStatus := 0 }
  let arguments ← argumentsOf engine words
  let redirected ← expandRedirections engine redirections
  let body := simpleBody engine p assignments arguments redirected
  -- What a script opens for itself stays open.
  if arguments = [text "exec"] then body else restoringDescriptors body

/-! ## Compound commands -/

inductive Round where
  | whole
  | cut
  | last
  deriving DecidableEq

def inRound (body : Step Unit) : Step Round := do
  try
    body
    return .whole
  catch
    | .leaveLoop n => if n ≤ 1 then return .last else throw (.leaveLoop (n - 1))
    | .nextRound n => if n ≤ 1 then return .cut else throw (.nextRound (n - 1))
    | other => throw other

def inLoop (body : Step Unit) : Step Unit := do
  modify fun s => { s with loops := s.loops + 1 }
  let restore : Step Unit := modify fun s => { s with loops := s.loops - 1 }
  try
    body
    restore
  catch unwinding =>
    restore
    throw unwinding

/-- The number of rounds after which a loop counts as endless. -/
def mostRounds : Nat := 100000

def rounds (p : Position) (whileFailing : Bool) (condition body : Command) : Nat → Nat → Step Unit
  | 0, _ => throw (.killed 13)
  | fuel + 1, status => do
      match ← inRound (engine.run p.condition condition) with
      | .last => Step.setStatus 0
      | .cut => rounds p whileFailing condition body fuel 0
      | .whole =>
          if ((← get).status = 0) = (whileFailing = true) then Step.setStatus status
          else match ← inRound (engine.run p.inside body) with
            | .last => Step.setStatus 0
            | .cut => rounds p whileFailing condition body fuel 0
            | .whole => rounds p whileFailing condition body fuel (← get).status

def eachRound (p : Position) (name : Bytes) (body : Command) : List Bytes → Step Unit
  | [] => return ()
  | value :: rest => do
      Step.setVariable name value
      match ← inRound (engine.run p.inside body) with
      | .last => return ()
      | .cut | .whole => eachRound p name body rest

def branch (p : Position) (subject : Bytes) : List (List Word × Command) → Step Unit
  | [] => Step.setStatus 0
  | (patterns, body) :: rest => do
      let matching ← patterns.findM? fun w => do
        return Pattern.isMatch (← patternOf engine w) subject
      if matching.isSome then
        match body with
        | .sequence [] => Step.setStatus 0
        | body => engine.run p body
      else branch p subject rest

/-- Runs the parts of a pipeline, each on the output of the one before. -/
def pipeline (p : Position) : List Command → Option Stream → Step Unit
  | [], _ => return ()
  | part :: rest, source => do
      rememberPart part
      let base := (← get).descriptors
      let fed ← match source with
        | some s => do pure (assign 0 (← Step.addOpening (.source s)) base)
        | none => pure base
      match rest with
      | [] => do
          let status ← inChild engine fed (engine.run p.atEnd part)
          concluded p status
      | rest => do
          let sink ← Step.addOpening .sink
          let status ← besides engine (assign 1 sink fed) (engine.run p.atEnd part)
          if !(← isDoomed) then announce status
          let written ← Step.collect sink
          pipeline p rest (some written)

def leaveRunning (body : Command) : Step Unit := do
  let null ← Step.addOpening (.device .null)
  let number ← newNumber
  modify fun s =>
    let own := copied { s.toLocal with descriptors := assign 0 null s.descriptors } number
    let job : Job := ⟨number, s.number, s.session.clock, own, body, none, false⟩
    { s with
      background := some number
      status := 0
      session := { s.session with jobs := s.session.jobs ++ [job] } }

/-- Ends the script after a failure under `set -e`. -/
def mindFailure (p : Position) : Step Unit := do
  if !p.tested && (← get).status ≠ 0 then
    if ← Step.hasOption 'e' then throw .exit

def inRedirections (p : Position) (redirections : List Redirection) (body : Step Unit) :
    Step Unit := do
  let redirected ← expandRedirections engine redirections
  restoringDescriptors do
    if ← performAll engine redirected then body
    else
      Step.setStatus 2
      mindFailure p

def setLine (line : Nat) : Step Unit := modify fun s => { s with line }

def perform (p : Position) : Command → Step Unit
  | .simple line assignments words redirections => do
      setLine line
      simple engine p assignments words redirections
  | .negation body => do
      engine.run p.condition body
      let status := (← get).status
      Step.setStatus (if status = 0 then 1 else 0)
  | .pipeline parts => pipeline engine p parts none
  | .both first second => do
      engine.run p.condition first
      if (← get).status = 0 then engine.run p second
  | .either first second => do
      engine.run p.condition first
      if (← get).status ≠ 0 then engine.run p second
  | .sequence commands => inOrder p commands
  | .background body => leaveRunning body
  | .subshell line body redirections => do
      setLine line
      let redirected ← expandRedirections engine redirections
      let status ← inChild engine (← get).descriptors do
        if ← performAll engine redirected then engine.run p.atEnd body
        else
          Step.setStatus 2
          throw .fault
      concluded p status
  | .redirected line body redirections => do
      setLine line
      inRedirections engine p redirections (engine.run p.inside body)
  | .choice condition consequence otherwise => do
      engine.run p.condition condition
      if (← get).status = 0 then engine.run p consequence
      else match otherwise with
        | .sequence [] => Step.setStatus 0
        | otherwise => engine.run p otherwise
  | .loop whileFailing condition body =>
      inLoop (rounds engine p whileFailing condition body mostRounds 0)
  | .each line name values body => do
      setLine line
      let fields ← values.flatMapM (fieldsOf engine)
      Step.setStatus 0
      inLoop (eachRound engine p name body fields)
  | .select line subject branches => do
      setLine line
      let subject ← textOf engine subject
      branch engine p subject branches
  | .define _ name body => do
      modify fun s => { s with
        functions := assign name body s.functions
        remembered := s.remembered.filter (· != name)
        status := 0 }
where
  inOrder (p : Position) : List Command → Step Unit
    | [] => return ()
    | [command] => engine.run p command
    | command :: rest => do
        engine.run p.inside command
        inOrder p rest

/-- Whether a failure of the command counts under `set -e`. -/
def endsOnFailure : Command → Bool
  | .simple _ _ _ _ | .pipeline _ | .subshell _ _ _ => true
  | _ => false

def execute (p : Position) (command : Command) : Step Unit := do
  if ← Step.hasOption 'n' then return ()
  perform engine p command
  takeSignals engine
  if endsOnFailure command then mindFailure p

end Executing

end Shell

end LuaAsset
