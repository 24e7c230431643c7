import LuaAsset.Chunk
import LuaAsset.Interpreter.Marshal
import LuaAsset.Log
import LuaAsset.Resolved

/-! # Interpreter libraries

A native interpreter is a shared library, whose `Behaviour` is a parameter.  `obtain` looks the
library up once and keeps the result, also a failure, until a reset; an unusable library is warned
about when it is first tried.  `usingState` is the only place where interpreter states are opened
and closed, and the list of each `Call` that the interpreter received is part of the outcome. -/

set_option autoImplicit false

namespace LuaAsset

namespace Interpreter

/-- The answers of an interpreter to the calls of one run. -/
structure Behaviour where
  opens : Bool
  loadCode : Int
  /-- The stack after a failed load. -/
  loadError : Cell
  /-- The pieces written by a dump. -/
  dumped : List Bytes
  dumpCode : Int
  callCode : Int
  /-- The stack after a failed call. -/
  callError : Cell
  globals : List (Bytes × Cell)
  growths : Option Nat
  heap : Heap
  deriving Inhabited

inductive Call where
  | newState
  | close
  | openLibraries
  | load (encoded : Bool) (buffer name : Bytes)
  | dump (strip : Nat)
  | call
  | getGlobal (name : Bytes)
  deriving DecidableEq, Repr

/-! ## Loading a library -/

inductive Library where
  | missing
  | refused (reason : Bytes)
  | loaded (exports : List Bytes)
  deriving DecidableEq, Repr

def encodedLoader : Bytes := text "luaRO_loadbufferx"

def plainLoader : Bytes := text "luaL_loadbufferx"

def exportsBefore : List Bytes := [text "luaL_newstate", text "lua_close", text "luaL_openlibs"]

def exportsBehind : List Bytes :=
  [text "lua_dump", text "lua_pcallk", text "lua_getglobal", text "lua_type", text "lua_next",
    text "lua_pushnil", text "lua_gettop", text "lua_checkstack", text "lua_settop",
    text "lua_tointegerx", text "lua_tonumberx", text "lua_tolstring", text "lua_toboolean",
    text "lua_isinteger", text "lua_topointer"]

structure Binding where
  loadsEncoded : Bool
  deriving DecidableEq, Repr

/-- The required exports in look-up order; the plain loader is required only without a loader of
encoded scripts. -/
def needed (exports : List Bytes) : List Bytes :=
  exportsBefore ++ (if exports.contains encodedLoader then [] else [plainLoader]) ++ exportsBehind

def bind (exports : List Bytes) : Except LibraryFault Binding :=
  match (needed exports).find? fun name => !exports.contains name with
  | some name => .error (.exportMissing name)
  | none => .ok ⟨exports.contains encodedLoader⟩

/-! ## Runs -/

def chunkName : Bytes := text "romc"

def said (cell : Cell) (otherwise : Bytes) : Bytes :=
  match cell with
  | .string s => s
  | _ => otherwise

/-- Loads a script; a library without a loader for encoded scripts is never passed one. -/
def load (b : Behaviour) (binding : Binding) (blob : Bytes) : Except Failure Unit × List Call :=
  if !binding.loadsEncoded && Chunk.hasMarker blob then (.error .encodedChunkRefused, [])
  else
    let calls := [.openLibraries, .load binding.loadsEncoded blob chunkName]
    if b.loadCode = 0 then (.ok (), calls)
    else (.error (.loadFailed b.loadCode (said b.loadError (text "no message"))), calls)

/-- Work on a loaded script in a state of its own. -/
def usingState {α : Type} (b : Behaviour) (binding : Binding) (blob : Bytes)
    (work : Except Failure α × List Call) : Except Failure α × List Call :=
  if b.opens then
    match load b binding blob with
    | (.error failure, calls) => (.error failure, .newState :: calls ++ [.close])
    | (.ok (), calls) => (work.1, .newState :: calls ++ work.2 ++ [.close])
  else (.error .noState, [.newState])

def dump (b : Behaviour) : Except Failure Bytes × List Call :=
  (if b.dumpCode = 0 then .ok b.dumped.flatten else .error (.dumpFailed b.dumpCode), [.dump 0])

/-- Runs the loaded script and marshals a global, which has to be a table. -/
def extract (b : Behaviour) (name : Bytes) : Except Failure Value × List Call :=
  if b.callCode = 0 then
    let calls := [.call, .getGlobal (upToZero name)]
    match (b.globals.lookup (upToZero name)).getD .nil with
    | .table place =>
        ((marshal b.heap (-1) ⟨[.table place], b.growths⟩).map Prod.fst, calls)
    | _ => (.error (.globalMissing name), calls)
  else (.error (.scriptFailed (said b.callError (text "lua runtime error"))), [.call])

/-! ## The runtime -/

structure Runtime where
  configured : Option Bytes
  path : Resolved Bytes
  binding : Option (Except Failure Binding)

namespace Runtime

def ofPath (configured : Option Bytes) : Runtime := ⟨configured, .empty, none⟩

structure Place where
  defaultPath : Bytes
  find : Bytes → Library

def libraryPath (r : Runtime) (place : Place) : Bytes × Runtime :=
  match r.path.get (.ok (r.configured.getD place.defaultPath)) with
  | (.ok path, _, slot) => (path, { r with path := slot })
  | (.error _, _, slot) => (place.defaultPath, { r with path := slot })

def reset (r : Runtime) : Runtime := ofPath r.configured

def unusable (path : Bytes) (fault : LibraryFault) : Except Failure Binding × List Log.Line :=
  (.error (.libraryUnusable fault),
    [⟨.warning, text "Failed to load Lua runtime from " ++ Log.shown path ++ text ": " ++
      Log.shown fault.wording⟩])

def lookUp (place : Place) (path : Bytes) : Except Failure Binding × List Log.Line :=
  match place.find path with
  | .missing => (.error (.libraryMissing path), [])
  | .refused reason => unusable path (.refused path reason)
  | .loaded exports => match bind exports with
      | .ok binding => (.ok binding, [])
      | .error fault => unusable path fault

/-- The library, looked up once; a failure is kept as well. -/
def obtain (r : Runtime) (place : Place) : Except Failure Binding × List Log.Line × Runtime :=
  let (path, r) := r.libraryPath place
  match r.binding with
  | some known => (known, [], r)
  | none =>
      let (found, lines) := lookUp place path
      (found, lines, { r with binding := some found })

structure Outcome (α : Type) where
  result : Except Failure α
  calls : List Call
  lines : List Log.Line

def runOn {α : Type} (r : Runtime) (place : Place) (b : Behaviour) (blob : Bytes)
    (work : Except Failure α × List Call) : Outcome α × Runtime :=
  let (found, lines, r) := r.obtain place
  match found with
  | .error failure => (⟨.error failure, [], lines⟩, r)
  | .ok binding =>
      let (result, calls) := usingState b binding blob work
      (⟨result, calls, lines⟩, r)

/-- The compiled form of a script; an empty script has none. -/
def compile (r : Runtime) (place : Place) (b : Behaviour) (blob : Bytes) :
    Outcome Bytes × Runtime :=
  if blob.isEmpty then (⟨.ok [], [], []⟩, r) else r.runOn place b blob (dump b)

def extractTable (r : Runtime) (place : Place) (b : Behaviour) (blob name : Bytes) :
    Outcome Value × Runtime :=
  if blob.isEmpty then (⟨.ok (.object []), [], []⟩, r)
  else r.runOn place b blob (extract b name)

end Runtime

def unavailable {α : Type} (reason : Bytes) : Except Failure α := .error (.notConfigured reason)

def defaultReason : Bytes := text "native Lua runtime not configured"

end Interpreter

end LuaAsset
