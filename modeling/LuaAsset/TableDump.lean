import LuaAsset.Failure
import LuaAsset.Json.Reader

/-! # Dumps of tables

The document that an external interpreter prints for a table; a blank one stands for an empty table.
-/

set_option autoImplicit false

namespace LuaAsset

namespace TableDump

def isOuter (c : UInt8) : Bool :=
  c == Ascii.space || c == Ascii.tab || c == Ascii.carriageReturn || c == Ascii.lineFeed

def trimmed (output : Bytes) : Bytes := trim isOuter output

def parse (output : Bytes) : Except Failure Value :=
  let contents := trimmed output
  if contents.isEmpty then .ok (.object [])
  else match Json.document? contents with
    | some value => .ok value
    | none => .error .dumpUnreadable

end TableDump

end LuaAsset
