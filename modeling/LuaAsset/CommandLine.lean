import LuaAsset.Decoder.World
import LuaAsset.Json.Printer

/-! # The command line

A run names a file or a directory, and options that select source text, records or one table.
`request` reads the arguments, `checked` validates what they name, and `run` decodes one script
after another; a script that fails is reported and the run continues. -/

set_option autoImplicit false

namespace LuaAsset

namespace CommandLine

structure Settings where
  table : Option Bytes := none
  records : Bool := false
  companion : Option Bytes := none
  config : Config := {}
  deriving DecidableEq, Repr

structure Request where
  input : Bytes
  settings : Settings
  deriving DecidableEq, Repr

/-! ## Arguments -/

inductive Complaint where
  | optionFirst
  | valueMissing (option : Bytes)
  | optionUnknown (option : Bytes)
  | tableAndRecords
  | inputMissing (path : Bytes)
  | companionOfDirectory
  deriving DecidableEq, Repr

def Complaint.wording : Complaint → Bytes
  | .optionFirst => text "First argument must be a file or folder."
  | .valueMissing option => text "Missing value for " ++ Log.shown option
  | .optionUnknown option => text "Unknown option: " ++ Log.shown option
  | .tableAndRecords => text "--table and --records are mutually exclusive."
  | .inputMissing path => text "Input does not exist: " ++ Log.shown path
  | .companionOfDirectory => text "--companion requires a single input file."

def usage : Bytes :=
  [text "Usage:",
    text "    romc_decoder <file-or-dir> [--table NAME] [--records] [--companion PATH] " ++
      text "[--runtime PATH] [--unluac PATH] [--lua PATH] [--debug]",
    [],
    text "Options:",
    text "    First argument must be a file or directory",
    text "    --table NAME      runs the script and writes global table NAME as .json",
    text "    --records         writes every \x7bid=...\x7d record found in the decoded text as " ++
      text ".json",
    text "    --companion PATH  secondary raw copy of the asset (single file input only)",
    text "    --runtime PATH    Lua shared library with luaRO_loadbufferx (env SLUA_LIB)",
    text "    --unluac PATH     unluac jar (env ROMC_UNLUAC_JAR)",
    text "    --lua PATH        Lua 5.3 interpreter (env ROMC_LUA_PATH)",
    text "    --debug           enables extra logging"].flatMap fun line => line ++ [Ascii.lineFeed]

def valued? (option : Bytes) : Option (Bytes → Settings → Settings) :=
  if option = text "--table" then some fun value s => { s with table := some value }
  else if option = text "--companion" then some fun value s => { s with companion := some value }
  else if option = text "--runtime" then
    some fun value s => { s with config := { s.config with runtimeLibrary := some value } }
  else if option = text "--unluac" then
    some fun value s => { s with config := { s.config with decompilerJar := some value } }
  else if option = text "--lua" then
    some fun value s => { s with config := { s.config with lua := some value } }
  else none

def readOptions : List Bytes → Settings → Except Complaint Settings
  | [], s => .ok s
  | option :: rest, s =>
      if option = text "--records" then readOptions rest { s with records := true }
      else if option = text "--debug" then
        readOptions rest { s with config := { s.config with debug := true } }
      else match valued? option with
        | none => .error (.optionUnknown option)
        | some set => match rest with
            | value :: rest => readOptions rest (set value s)
            | [] => .error (.valueMissing option)

def request (input : Bytes) (options : List Bytes) : Except Complaint Request :=
  if input.head? = some Ascii.minus then .error .optionFirst
  else match readOptions options {} with
    | .error complaint => .error complaint
    | .ok settings =>
        if settings.table.isSome && settings.records then .error .tableAndRecords
        else .ok ⟨input, settings⟩

/-- A request whose input exists and fits the settings. -/
def checked (files : Files) (r : Request) : Except Complaint Request :=
  if !files.pathExists r.input then .error (.inputMissing r.input)
  else if r.settings.companion.isSome && files.isDirectory r.input then
    .error .companionOfDirectory
  else .ok r

/-! ## Products -/

structure Product where
  directory : Bytes
  extension : Bytes
  contents : Bytes
  records : Option Nat
  deriving DecidableEq, Repr

def Product.ofText (source : Bytes) : Product := ⟨text "lua", text ".lua", source, none⟩

def Product.ofTable (value : Value) : Product :=
  ⟨text "json", text ".json", value.indented, none⟩

def Product.ofRecords (values : List Value) : Product :=
  ⟨text "records", text ".json", (Value.array values).indented, some values.length⟩

abbrev Session := Decoder.Session Decoder.World

variable (w : Workplace)

/-- Decodes an asset according to the settings.  An asset may be sixteen-bit text after a byte order
mark. -/
def product (s : Settings) (asset companion : Bytes) (session : Session) :
    Except Failure Product × Session :=
  let c := Decoder.onMachine w
  let debug := s.config.debug
  let units := (Utf16.marked? asset).map Utf16.scriptBytes
  match s.table with
  | some name =>
      let (value, session) := Decoder.dumpTable c debug asset name session
      (value.map .ofTable, session)
  | none =>
      if s.records then
        let (values, session) := Decoder.parseRecords c debug (units.getD asset) companion session
        (values.map .ofRecords, session)
      else
        let (source, session) := match units with
          | some bytes => Decoder.textFromAsset c debug bytes companion session
          | none => Decoder.decodeToText c debug asset companion session
        (source.map .ofText, session)

/-! ## Single scripts -/

def onFiles (session : Session) (files : Files) : Session :=
  { session with world :=
      { session.world with machine := { session.world.machine with files } } }

def filesOf (session : Session) : Files := session.world.machine.files

def deliver (s : Settings) (output label stem : Bytes) (p : Product) (session : Session) :
    Except Failure Unit × Session :=
  let directory := Path.join output p.directory
  let path := Path.join directory (stem ++ p.extension)
  let (written, files) := match (filesOf session).ensureDirectory directory with
    | (.ok (), files) => files.write path p.contents
    | refused => refused
  let session := onFiles session files
  match written with
  | .error failure => (.error failure, session)
  | .ok () =>
      let debug := s.config.debug
      let session := match p.records with
        | some count =>
            session.debug debug (text "Records " ++ label ++ text ": " ++ decimal count)
        | none => session
      let session := session.debug debug
        (text "Processed " ++ label ++ text " in " ++ Log.elapsed)
      (.ok (), session.log (text "Wrote: " ++ Log.shown path))

def process (s : Settings) (output label path : Bytes) (session : Session) :
    Except Failure Unit × Session :=
  let files := filesOf session
  match files.read path with
  | .error failure => (.error failure, session)
  | .ok asset =>
      let companion := match s.companion with
        | some companion => files.read companion
        | none => .ok []
      match companion with
      | .error failure => (.error failure, session)
      | .ok companion =>
          if asset.isEmpty then
            (.ok (), session.log (text "Skipped: " ++ label ++ text " (empty file)"))
          else match product w s asset companion session with
            | (.error failure, session) => (.error failure, session)
            | (.ok p, session) => deliver s output label (Path.stem path) p session

def processOrReport (s : Settings) (output base path : Bytes) (session : Session) : Session :=
  let label := Log.shown ((filesOf session).shown path base)
  match process w s output label path session with
  | (.ok (), session) => session
  | (.error failure, session) =>
      let line : Log.Line :=
        ⟨.error, text "Failed: " ++ label ++ text " (" ++ failure.message ++ text ")"⟩
      { session with lines := session.lines ++ [line] }

/-! ## Runs -/

structure Report where
  exit : Nat
  lines : List Log.Line
  machine : Machine

def outputDirectory : Bytes := Path.join w.executableDirectory (text "output")

def decodeAll (r : Request) (machine : Machine) : Except Failure Session := do
  let output := outputDirectory w
  let (prepared, files) := machine.files.ensureDirectory output
  prepared
  let session : Session :=
    .ofWorld (.ofConfig r.settings.config { machine with files })
  let (base, paths) ← if files.isDirectory r.input then do
      pure (r.input, ← files.scripts r.input)
    else pure (Path.parent r.input, [r.input])
  return paths.foldl (fun session path =>
    processOrReport w r.settings output base path session) session

/-- The exit code of a run whose output could not be prepared. -/
def brokenExit : Nat := 134

def run (environment : Environment) (arguments : List Bytes) (machine : Machine) : Report :=
  match arguments with
  | [] => ⟨1, [⟨.info, usage⟩], machine⟩
  | input :: options =>
      match request input options >>= checked machine.files with
      | .error complaint =>
          let lines : List Log.Line := [⟨.error, complaint.wording⟩]
          ⟨2, if complaint = .optionFirst then lines ++ [⟨.info, usage⟩] else lines, machine⟩
      | .ok r =>
          let settings := { r.settings with
            config := r.settings.config.ofEnvironment environment }
          match decodeAll w { r with settings } machine with
          | .ok session => ⟨0, session.lines, session.world.machine⟩
          | .error failure => ⟨brokenExit, [⟨.error, failure.message⟩], machine⟩

end CommandLine

end LuaAsset
