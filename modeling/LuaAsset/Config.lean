import LuaAsset.Environment

/-! # Configuration

The settings of a decoder.  `Config.ofEnvironment` fills an open setting from the environment, where
an empty variable counts as unset. -/

set_option autoImplicit false

namespace LuaAsset

structure Config where
  runtimeLibrary : Option Bytes := none
  /-- A command that decompiles a chunk; empty for the default. -/
  decompilerCommand : List Bytes := []
  decompilerJar : Option Bytes := none
  java : Bytes := []
  lua : Option Bytes := none
  debug : Bool := false
  deriving DecidableEq, Repr

namespace Config

def ofEnvironment (base : Config) (environment : Environment) : Config :=
  let look (name : String) := environment.value? (text name)
  { base with
    runtimeLibrary :=
      base.runtimeLibrary.or ((look "SLUA_LIB").or (look "SLUA_DLL"))
    decompilerJar := base.decompilerJar.or (look "ROMC_UNLUAC_JAR")
    java := if base.java.isEmpty then (look "ROMC_JAVA").getD [] else base.java
    lua := base.lua.or (look "ROMC_LUA_PATH") }

end Config

end LuaAsset
