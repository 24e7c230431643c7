import LuaAsset.Bytes

/-! # Log lines

Information goes to standard output; warnings and errors go to standard error after a tag. -/

set_option autoImplicit false

namespace LuaAsset

namespace Log

inductive Level where
  | info
  | warning
  | error
  deriving DecidableEq, Repr

structure Line where
  level : Level
  message : Bytes
  deriving DecidableEq, Repr

def Level.tag : Level → Bytes
  | .info => []
  | .warning => text "[WARN] "
  | .error => text "[ERROR] "

def Line.toBytes (line : Line) : Bytes :=
  line.level.tag ++ line.message ++ [Ascii.lineFeed]

def shown (argument : Bytes) : Bytes := upToZero argument

/-- The duration of a run; always zero, as a run is a function of its input. -/
def elapsed : Bytes := text "0ms"

def output (lines : List Line) : Bytes :=
  (lines.filter fun line => line.level == .info).flatMap Line.toBytes

def errorOutput (lines : List Line) : Bytes :=
  (lines.filter fun line => line.level != .info).flatMap Line.toBytes

end Log

end LuaAsset
