import LuaAsset.Literal.Reader
import LuaAsset.Literal.Snippet

/-! # Records of a text

The snippets of a text, each read as a literal; snippets that are no literals are dropped. -/

set_option autoImplicit false

namespace LuaAsset

def records (s : Bytes) : List Value :=
  (snippets s).filterMap fun snippet => (decodeLiteral snippet).toOption

end LuaAsset
