import LuaAsset.Host.Commands
import LuaAsset.Host.Scratch
import LuaAsset.Interpreter.Library
import LuaAsset.Log
import LuaAsset.Resolved
import LuaAsset.TableDump
import LuaAsset.Tools.DumpProgram

/-! # External tools

A decompiler and a stock interpreter run as programs on files in a temporary directory.  A missing
program is unavailable; one that runs and fails is a failure of the tool (`judged`).  The paths of
the programs are looked up once. -/

set_option autoImplicit false

namespace LuaAsset

structure ToolOptions where
  decompilerCommand : List Bytes := []
  decompilerJar : Option Bytes := none
  java : Bytes := text "java"
  lua : Option Bytes := none
  debug : Bool := false

/-- The native libraries of a machine, and the effect of scripts that run in them. -/
structure Interpreter.Loader where
  find : Files → Bytes → Library
  /-- The answers of the interpreter in a run on a script. -/
  behaviour : Files → Bytes → Behaviour
  /-- The files after a run. -/
  after : List Call → Files → Files

/-- The environment of a decoder: the directory of the running program, the runner of commands, and
the loader of native libraries. -/
structure Workplace where
  executableDirectory : Bytes
  run : Commands.Runner
  loader : Interpreter.Loader

structure Tools where
  options : ToolOptions
  jarPath : Resolved Bytes
  luaPath : Resolved Bytes

namespace Tools

def ofOptions (options : ToolOptions) : Tools := ⟨options, .empty, .empty⟩

def reset (t : Tools) : Tools := ofOptions t.options

/-! ## Commands -/

def jar (t : Tools) (w : Workplace) : Except Failure Bytes × Tools :=
  let usual := Path.join w.executableDirectory (text "unluac.jar")
  let (path, _, slot) := t.jarPath.get (.ok (t.options.decompilerJar.getD usual))
  (path, { t with jarPath := slot })

/-- The command line of the decompiler, without the path of the chunk. -/
def decompilerArguments (t : Tools) (w : Workplace) (files : Files) :
    Except Failure (List Bytes) × Tools :=
  if !t.options.decompilerCommand.isEmpty then (.ok t.options.decompilerCommand, t)
  else match t.jar w with
    | (.error failure, t) => (.error failure, t)
    | (.ok path, t) =>
        if files.pathExists path then (.ok [t.options.java, text "-jar", path], t)
        else (.error (.decompilerMissing path), t)

def lua (t : Tools) : Bytes × Tools :=
  let usual := t.options.lua.getD (text "lua5.3")
  match t.luaPath.get (.ok usual) with
  | (.ok path, _, slot) => (path, { t with luaPath := slot })
  | (.error _, _, slot) => (usual, { t with luaPath := slot })

/-- Whether an interpreter is given by a path instead of a name to look up. -/
def isGivenByPath (path : Bytes) : Bool := !(Path.parent path).isEmpty

/-! ## Outcomes -/

def commandNotFoundExit : Int := 127

/-- The result of a tool: its output on success; `failed` maps the other exit codes. -/
def judged (tool : ToolName) (failed : Int → Bytes → Failure) : Commands.Result →
    Except Failure Bytes
  | .notStarted reason => .error (.notStarted tool reason)
  | .ended code output errors =>
      let said := TableDump.trimmed errors
      if code = commandNotFoundExit then .error (.notFound tool said)
      else if code = 0 then .ok output
      else .error (failed code said)

/-- The failure of an interpreter run, where one exit code means a missing table. -/
def interpreterFailure (code : Int) (said : Bytes) : Failure :=
  if code = TableDump.tableMissingExit then .tableMissing said else .interpreterFailed code said

structure Outcome (α : Type) where
  result : Except Failure α
  lines : List Log.Line
  tools : Tools
  machine : Machine

def debugLine (t : Tools) (message : Bytes) : List Log.Line :=
  if t.options.debug then [⟨.info, message⟩] else []

def summary (result : Commands.Result) : Bytes :=
  text "exit=" ++ decimalInt result.code ++ text " stdout=" ++ decimal result.output.length ++
    text " bytes"

/-! ## Runs -/

def chunkName : Bytes := text "chunk.luac"

def programName : Bytes := text "dump.lua"

def runWithFiles (w : Workplace) (beginning : Bytes) (m : Machine)
    (contents : List (Bytes × Bytes)) (command : Bytes → List Bytes) :
    Except Failure Commands.Result × Machine :=
  Scratch.within beginning m fun directory files =>
    match files.writeEach (contents.map fun (name, bytes) => (Path.join directory name, bytes)) with
    | (.error failure, files) => (.error failure, files)
    | (.ok (), files) =>
        let (result, files) := w.run (command directory) files
        (.ok result, files)

def decompile (t : Tools) (w : Workplace) (m : Machine) (chunk : Bytes) : Outcome Bytes :=
  match t.decompilerArguments w m.files with
  | (.error failure, t) => ⟨.error failure, [], t, m⟩
  | (.ok arguments, t) =>
      let program := arguments.headD []
      match runWithFiles w (text "romc_unluac_") m [(chunkName, chunk)] fun directory =>
          arguments ++ [Path.join directory chunkName] with
      | (.error failure, m) => ⟨.error failure, [], t, m⟩
      | (.ok result, m) =>
          ⟨judged (.decompiler program) .decompilerFailed result,
            t.debugLine (text "Decompiler " ++ Log.shown program ++ text ": " ++ summary result ++
              text " " ++ Log.elapsed), t, m⟩

def dumpTable (t : Tools) (w : Workplace) (m : Machine) (chunk name : Bytes) : Outcome Value :=
  let (lua, t) := t.lua
  if isGivenByPath lua && !m.files.pathExists lua then
    ⟨.error (.interpreterMissing lua), [], t, m⟩
  else match runWithFiles w (text "romc_lua_") m
      [(chunkName, chunk), (programName, TableDump.program)] fun directory =>
        [lua, Path.join directory programName, Path.join directory chunkName, name] with
    | (.error failure, m) => ⟨.error failure, [], t, m⟩
    | (.ok result, m) =>
        ⟨judged (.interpreter lua) interpreterFailure result >>= TableDump.parse,
          t.debugLine (text "Lua dump '" ++ Log.shown name ++ text "': " ++ summary result), t, m⟩

end Tools

end LuaAsset
