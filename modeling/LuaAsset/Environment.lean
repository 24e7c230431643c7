import LuaAsset.Bytes

/-! # Environments

The variables that a program is started with. -/

set_option autoImplicit false

namespace LuaAsset

abbrev Environment := List (Bytes × Bytes)

/-- The value of a variable, unless it is empty. -/
def Environment.value? (environment : Environment) (name : Bytes) : Option Bytes :=
  (environment.lookup name).filter fun value => !value.isEmpty

end LuaAsset
