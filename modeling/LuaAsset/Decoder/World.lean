import LuaAsset.Config
import LuaAsset.Decoder
import LuaAsset.Interpreter.Library
import LuaAsset.Tools

/-! # A decoder on a machine

`onMachine` instantiates the collaborators of a decoder with the files of a machine: the configured
native library and the external tools.  The `Workplace` that runs libraries and commands is a
parameter, and may change the files. -/

set_option autoImplicit false

namespace LuaAsset

namespace Decoder

structure World where
  runtime : Interpreter.Runtime
  tools : Tools
  machine : Machine

def toolOptions (config : Config) : ToolOptions where
  decompilerCommand := config.decompilerCommand
  decompilerJar := config.decompilerJar
  java := if config.java.isEmpty then text "java" else config.java
  lua := config.lua
  debug := config.debug

namespace World

def ofConfig (config : Config) (machine : Machine) : World :=
  ⟨.ofPath config.runtimeLibrary, .ofOptions (toolOptions config), machine⟩

def place (w : Workplace) (world : World) : Interpreter.Runtime.Place :=
  ⟨Path.join w.executableDirectory (text "libslua.so"),
    w.loader.find world.machine.files⟩

def behaviour (w : Workplace) (world : World) (blob : Bytes) : Interpreter.Behaviour :=
  w.loader.behaviour world.machine.files blob

def ofRuntime {α : Type} (w : Workplace) (world : World)
    (answer : Interpreter.Runtime.Outcome α × Interpreter.Runtime) : Reply World α :=
  let files := w.loader.after answer.1.calls world.machine.files
  ⟨answer.1.result,
    { world with runtime := answer.2, machine := { world.machine with files } }, answer.1.lines⟩

def ofTools {α : Type} (world : World) (answer : Tools.Outcome α) : Reply World α :=
  ⟨answer.result, { world with tools := answer.tools, machine := answer.machine }, answer.lines⟩

end World

/-- The collaborators of a decoder that works on a machine. -/
def onMachine (w : Workplace) : Collaborators World where
  compile blob world :=
    world.ofRuntime w (world.runtime.compile (world.place w) (world.behaviour w blob) blob)
  extract blob name world :=
    world.ofRuntime w
      (world.runtime.extractTable (world.place w) (world.behaviour w blob) blob name)
  decompile chunk world := world.ofTools (world.tools.decompile w world.machine chunk)
  dump chunk name world := world.ofTools (world.tools.dumpTable w world.machine chunk name)

end Decoder

end LuaAsset
