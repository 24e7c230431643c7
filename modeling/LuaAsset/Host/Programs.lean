import LuaAsset.Host.Program.Answers
import LuaAsset.Host.Program.Changes
import LuaAsset.Host.Program.Dumps
import LuaAsset.Host.Program.Editor
import LuaAsset.Host.Program.Filters
import LuaAsset.Host.Program.Lines
import LuaAsset.Host.Program.Listing
import LuaAsset.Host.Program.Names
import LuaAsset.Host.Program.Order
import LuaAsset.Host.Program.Sequences
import LuaAsset.Host.Program.Successors
import LuaAsset.Host.Program.Whole

/-! # Installed programs

The programs that a machine has, by their names. -/

set_option autoImplicit false

namespace LuaAsset

namespace Program

def scriptName : Bytes := text "sh"

def table : List (Bytes × Program) :=
  [("[", bracket), ("base64", base64), ("basename", basename), ("cat", cat), ("chmod", chmod),
    ("cmp", cmp), ("cp", cp), ("cut", cut), ("dd", dd), ("dirname", dirname), ("echo", echo),
    ("egrep", grep (some 'E')), ("env", env), ("expr", expr), ("false", failPlainly),
    ("fgrep", grep (some 'F')), ("fold", fold), ("grep", grep none), ("head", head), ("ls", ls),
    ("mkdir", mkdir), ("mv", mv), ("nice", nice), ("nl", nl), ("nohup", nohup), ("od", od),
    ("paste", paste), ("printenv", printenv), ("printf", printf), ("pwd", pwd),
    ("realpath", realpath), ("rev", rev), ("rm", rm), ("rmdir", rmdir), ("sed", sed),
    ("seq", seq), ("sleep", sleep), ("sort", sort), ("tac", tac), ("tail", tail), ("tee", tee),
    ("test", test), ("timeout", timeout), ("touch", touch), ("tr", tr), ("true", succeed),
    ("tty", tty), ("uname", uname), ("uniq", uniq), ("unlink", unlink), ("wc", wc), ("which", which),
    ("xargs", xargs), ("yes", yes)].map
    fun (name, program) => (text name, program)

def names : List Bytes := scriptName :: text "dash" :: table.map Prod.fst

end Program

end LuaAsset
