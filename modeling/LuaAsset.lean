import LuaAsset.Main
import LuaAsset.Proofs.Cipher.Refinement
import LuaAsset.Proofs.Payload.RoundTrip
import LuaAsset.Proofs.Decoder.Arrangement
import LuaAsset.Proofs.Decoder.LatestFailure
import LuaAsset.Proofs.Decoder.Nesting
import LuaAsset.Proofs.Interpreter.Unfolding
import LuaAsset.Proofs.Literal.Listing
import LuaAsset.Proofs.Literal.Spans
import LuaAsset.Proofs.Table.Sorting
import LuaAsset.Proofs.Interpreter.Rearrangement
import LuaAsset.Proofs.Literal.NestingLimit
import LuaAsset.Proofs.Interpreter.Transcript
import LuaAsset.Proofs.Table.Entries
import LuaAsset.Proofs.Literal.Blocks
import LuaAsset.Proofs.Literal.Concatenation
import LuaAsset.Proofs.Interpreter.Sessions
import LuaAsset.Proofs.Literal.Coverage
import LuaAsset.Proofs.Text.Utf16
import LuaAsset.Proofs.Decoder.AssetText
import LuaAsset.Proofs.Decoder.Dumping
import LuaAsset.Proofs.Literal.Agreement
import LuaAsset.Proofs.Literal.Spacing
import LuaAsset.Proofs.Literal.Cursor.InBounds
import LuaAsset.Proofs.Literal.Numerals
import LuaAsset.Proofs.Literal.CodePoints
import LuaAsset.Proofs.Literal.Assignments
import LuaAsset.Proofs.Literal.LongStrings
import LuaAsset.Proofs.Literal.Quoting
import LuaAsset.Proofs.Table.Shape
import LuaAsset.Proofs.Table.Fields
import LuaAsset.Proofs.Table.Ties
import LuaAsset.Proofs.Table.Integers
import LuaAsset.Proofs.Payload.Unwrapping
import LuaAsset.Proofs.Payload.Rewrapping
import LuaAsset.Proofs.Chunk.Decomposition
import LuaAsset.Proofs.Interpreter.Histories
import LuaAsset.Proofs.Decoder.NativeDump
import LuaAsset.Proofs.CommandLine.Outputs
import LuaAsset.Proofs.Interpreter.Limits
import LuaAsset.Proofs.Cipher.Lengths
import LuaAsset.Proofs.Cipher.EffectiveKey
import LuaAsset.Proofs.Cipher.Complement
import LuaAsset.Proofs.Resolved.FirstFound
