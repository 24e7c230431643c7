import LuaAsset.Bytes

/-! # Failures

The causes for which decoding can fail.  The kind of a cause selects the next strategy: an
unavailable interpreter or tool moves on to another strategy, any other failure of a script ends the
current one.  `Failure.message` words a cause. -/

set_option autoImplicit false

namespace LuaAsset

inductive Kind where
  | format
  | cipher
  | unavailable
  | fault
  | tool
  | general
  | argument
  | logic
  | listing
  deriving DecidableEq, Repr

namespace Kind

/-- Whether a failure of this kind concerns the current script. -/
def isScript : Kind → Bool
  | .format | .cipher | .unavailable | .fault | .tool => true
  | _ => false

/-- Whether a failure of this kind falls back to raw text. -/
def isSurvivable : Kind → Bool
  | .argument | .logic => false
  | _ => true

end Kind

inductive LiteralFault where
  | trailingCharacters
  | unterminatedLongBracket
  | unexpectedEnd
  | unexpectedBracket
  | unexpectedCharacter (c : UInt8)
  | emptyNumber
  | malformedNumber (token : Bytes)
  | unterminatedString
  | unfinishedString
  | unterminatedEscape
  | hexDigitExpected
  | missingBrace
  | codePointTooLarge
  | malformedCodePoint
  | decimalEscapeTooLarge
  | invalidEscape (c : UInt8)
  | nestingTooDeep
  | unterminatedTable
  | expectedBracket
  | expectedAssignment
  | nilIndex
  | expectedSeparator
  deriving DecidableEq, Repr

namespace LiteralFault

def wording : LiteralFault → Bytes
  | .trailingCharacters => text "trailing characters"
  | .unterminatedLongBracket => text "unterminated long bracket"
  | .unexpectedEnd => text "unexpected end of input"
  | .unexpectedBracket => text "unexpected '['"
  | .unexpectedCharacter c => text "unexpected character '" ++ [c] ++ text "'"
  | .emptyNumber => text "malformed number"
  | .malformedNumber token => text "malformed number '" ++ token ++ text "'"
  | .unterminatedString => text "unterminated string"
  | .unfinishedString => text "unfinished string"
  | .unterminatedEscape => text "unterminated escape"
  | .hexDigitExpected => text "hexadecimal digit expected"
  | .missingBrace => text "missing '\x7b' in \\u\x7bxxxx\x7d"
  | .codePointTooLarge => text "UTF-8 value too large"
  | .malformedCodePoint => text "malformed \\u\x7bxxxx\x7d escape"
  | .decimalEscapeTooLarge => text "decimal escape too large"
  | .invalidEscape c => text "invalid escape sequence '\\" ++ [c] ++ text "'"
  | .nestingTooDeep => text "table nesting too deep"
  | .unterminatedTable => text "unterminated table"
  | .expectedBracket => text "expected ']'"
  | .expectedAssignment => text "expected '='"
  | .nilIndex => text "table index is nil"
  | .expectedSeparator => text "expected ',' or '\x7d'"

end LiteralFault

inductive LibraryFault where
  | refused (path reason : Bytes)
  | exportMissing (name : Bytes)
  deriving DecidableEq, Repr

def LibraryFault.wording : LibraryFault → Bytes
  | .refused path reason => text "Failed to load Lua library " ++ path ++ text ": " ++ reason
  | .exportMissing name => text "Missing Lua export: " ++ name

inductive ToolName where
  | decompiler (program : Bytes)
  | interpreter (program : Bytes)
  deriving DecidableEq, Repr

def ToolName.wording : ToolName → Bytes
  | .decompiler program => text "Decompiler '" ++ program ++ text "'"
  | .interpreter program => text "Lua interpreter '" ++ program ++ text "'"

inductive Failure where
  | literal (fault : LiteralFault) (offset : Nat)
  | unsupportedBlob
  | missingTerminator
  | payloadTooLarge
  | nestingExceeded (levels : Nat)
  | keyLength (length : Nat)
  | dataLength (length : Nat)
  | libraryMissing (path : Bytes)
  | libraryUnusable (fault : LibraryFault)
  | encodedChunkRefused
  | notConfigured (reason : Bytes)
  | decompilerMissing (path : Bytes)
  | interpreterMissing (path : Bytes)
  | notStarted (tool : ToolName) (reason : Bytes)
  | notFound (tool : ToolName) (output : Bytes)
  | noState
  | loadFailed (code : Int) (said : Bytes)
  | dumpFailed (code : Int)
  | scriptFailed (said : Bytes)
  | globalMissing (name : Bytes)
  | stackExhausted
  | tableMissing (output : Bytes)
  | decompilerFailed (code : Int) (output : Bytes)
  | interpreterFailed (code : Int) (output : Bytes)
  | dumpUnreadable
  | statFailed (path reason : Bytes)
  | writeFailed (path : Bytes)
  | directoryFailed (path reason : Bytes)
  | temporaryFailed (parent : Bytes)
  | listingFailed (path : Bytes)
  | toolsMissing
  | reported (kind : Kind) (message : Bytes)
  deriving DecidableEq, Repr

namespace Failure

def kind : Failure → Kind
  | .literal _ _ | .unsupportedBlob | .missingTerminator | .nestingExceeded _ => .format
  | .keyLength _ | .dataLength _ => .cipher
  | .libraryMissing _ | .libraryUnusable _ | .encodedChunkRefused | .notConfigured _
  | .decompilerMissing _ | .interpreterMissing _ | .notStarted _ _ | .notFound _ _ => .unavailable
  | .noState | .loadFailed _ _ | .dumpFailed _ | .scriptFailed _ | .globalMissing _
  | .stackExhausted | .tableMissing _ => .fault
  | .decompilerFailed _ _ | .interpreterFailed _ _ | .dumpUnreadable => .tool
  | .statFailed _ _ | .writeFailed _ | .directoryFailed _ _ | .temporaryFailed _ => .general
  | .listingFailed _ => .listing
  | .toolsMissing => .argument
  | .payloadTooLarge => .logic
  | .reported kind _ => kind

def withCode (code : Int) (output : Bytes) : Bytes :=
  text "(code " ++ decimalInt code ++ text "): " ++ output

def wording : Failure → Bytes
  | .literal fault offset =>
      text "Lua literal: " ++ fault.wording ++ text " at offset " ++ decimal offset
  | .unsupportedBlob => text "Unsupported Lua blob format"
  | .missingTerminator => text "Malformed Lua payload (missing null terminator)"
  | .payloadTooLarge => text "ROM payload too large"
  | .nestingExceeded levels =>
      text "Nested script payload exceeds " ++ decimal levels ++ text " unwrap levels"
  | .keyLength length =>
      text "DES key must be 8 bytes long (got " ++ decimal length ++ text ")"
  | .dataLength length =>
      text "Data length must be a multiple of 8 bytes (got " ++ decimal length ++ text ")"
  | .libraryMissing path => text "Lua runtime library not found at " ++ path
  | .libraryUnusable fault => fault.wording
  | .encodedChunkRefused =>
      text "Lua library has no luaRO_loadbufferx; cannot load encoded chunk"
  | .notConfigured reason => reason
  | .decompilerMissing path =>
      text "unluac jar missing at " ++ path ++
        text ". Build it from https://github.com/viruscamp/unluac and place it there."
  | .interpreterMissing path =>
      text "Lua interpreter not found at " ++ path ++
        text ". Build Lua 5.3.x (32-bit) and set ROMC_LUA_PATH."
  | .notStarted tool reason => tool.wording ++ text " could not be started: " ++ reason
  | .notFound tool output => tool.wording ++ text " not found (exit code 127): " ++ output
  | .noState => text "Failed to create Lua state"
  | .loadFailed code said =>
      text "Lua load failed with code " ++ decimalInt code ++ text ": " ++ said
  | .dumpFailed code => text "lua_dump failed with code " ++ decimalInt code
  | .scriptFailed said => said
  | .globalMissing name => text "table '" ++ name ++ text "' not found"
  | .stackExhausted => text "Lua stack exhausted while marshalling nested tables"
  | .tableMissing output => output
  | .decompilerFailed code output => text "unluac failed " ++ withCode code output
  | .interpreterFailed code output => text "Lua execution failed " ++ withCode code output
  | .dumpUnreadable => text "Lua table dump produced invalid JSON: json parse error"
  | .statFailed path reason => text "Failed to stat " ++ path ++ text ": " ++ reason
  | .writeFailed path => text "Failed to open file for writing: " ++ path
  | .directoryFailed path reason =>
      text "Failed to create directory " ++ path ++ text ": " ++ reason
  | .temporaryFailed parent => text "Failed to create temporary directory under " ++ parent
  | .listingFailed path => text "cannot list " ++ path
  | .toolsMissing => text "ScriptDecoder requires an ExternalTools instance"
  | .reported _ message => message

/-- The message as shown, up to its first zero byte. -/
def message (f : Failure) : Bytes := upToZero f.wording

end Failure

end LuaAsset
