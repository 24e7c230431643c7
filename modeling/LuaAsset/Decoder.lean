import LuaAsset.Chunk
import LuaAsset.Log
import LuaAsset.Payload
import LuaAsset.Records
import LuaAsset.Text.Utf16

/-! # Decoding assets

A decoder turns an encoded script back into source text.  It compiles the script natively, or puts a
plain header on it where no interpreter is available, and decompiles the chunk.  If that fails, it
continues with a payload wrapped in the script or in its companion, up to `maxDepth` levels.  The
collaborators are a parameter over a world `σ`; a `Session` records the world, the calls and the
log. -/

set_option autoImplicit false

namespace LuaAsset

structure Reply (σ α : Type) where
  outcome : Except Failure α
  world : σ
  lines : List Log.Line

/-- The interpreter and the tools of a decoder, over a world of type `σ`. -/
structure Collaborators (σ : Type) where
  compile : Bytes → σ → Reply σ Bytes
  extract : Bytes → Bytes → σ → Reply σ Value
  decompile : Bytes → σ → Reply σ Bytes
  dump : Bytes → Bytes → σ → Reply σ Value

namespace Decoder

inductive Call where
  | compile (blob : Bytes)
  | extract (blob name : Bytes)
  | decompile (chunk : Bytes)
  | dump (chunk name : Bytes)
  deriving DecidableEq, Repr

structure Session (σ : Type) where
  world : σ
  calls : List Call
  lines : List Log.Line

variable {σ : Type}

namespace Session

def ofWorld (world : σ) : Session σ := ⟨world, [], []⟩

def ask {α : Type} (s : Session σ) (call : Call) (answer : σ → Reply σ α) :
    Except Failure α × Session σ :=
  let reply := answer s.world
  (reply.outcome, ⟨reply.world, s.calls ++ [call], s.lines ++ reply.lines⟩)

def log (s : Session σ) (message : Bytes) : Session σ :=
  { s with lines := s.lines ++ [⟨.info, message⟩] }

def debug (s : Session σ) (enabled : Bool) (message : Bytes) : Session σ :=
  if enabled then s.log message else s

end Session

/-- The number of levels of wrapped scripts below the first. -/
def maxDepth : Nat := 2

/-! ## From a compilation to a chunk -/

inductive Compiled where
  | chunk (chunk : Bytes)
  | nothing (failure : Failure)
  | aborted (failure : Failure)
  deriving DecidableEq, Repr

/-- The chunk of a script: an unavailable interpreter falls back to a plain header, another failure
of the script leaves no chunk. -/
def compiled (blob : Bytes) : Except Failure Bytes → Compiled
  | .ok chunk => .chunk chunk
  | .error failure =>
      if failure.kind = .unavailable then
        match Chunk.synthesize blob with
        | .ok chunk => .chunk chunk
        | .error _ => .nothing failure
      else if failure.kind.isScript then .nothing failure
      else .aborted failure

def compiledLines (depth : Nat) (blob : Bytes) : Except Failure Bytes → List Bytes
  | .ok _ => []
  | .error failure =>
      let at_ := text " (depth " ++ decimal depth ++ text "): " ++ failure.message
      if failure.kind = .unavailable then
        (text "Native compile unavailable" ++ at_) ::
          match Chunk.synthesize blob with
          | .ok _ => []
          | .error refusal => [text "Header synthesis failed: " ++ refusal.message]
      else if failure.kind.isScript then [text "Native compile failed" ++ at_]
      else []

/-! ## Wrapped payloads -/

/-- The first nonempty payload among the candidates, and the candidate that holds it. -/
def payload? (candidates : List Bytes) : Option (Bytes × Bytes) :=
  candidates.findSome? fun candidate =>
    match Payload.unwrap candidate with
    | some plain => if plain.isEmpty then none else some (candidate, plain)
    | none => none

/-! ## The levels -/

def depthOf (levels : Nat) : Nat := maxDepth - levels

/-- Continues with a wrapped payload after a failure of the script; `inner` decodes at the next
level, if there is one. -/
def unwrapping (debug : Bool) (depth : Nat) (blob companion : Bytes) (failure : Failure)
    (inner : Option (Bytes → Session σ → Except Failure Bytes × Session σ)) (s : Session σ) :
    Except Failure Bytes × Session σ :=
  match payload? [blob, companion] with
  | none => (.error failure, s)
  | some (candidate, plain) =>
      let s := s.debug debug
        (text "Unwrapped payload (depth " ++ decimal depth ++ text "): " ++
          decimal candidate.length ++ text " -> " ++ decimal plain.length ++ text " bytes")
      if Chunk.hasMarker plain then
        match inner with
        | some decode => decode plain s
        | none => (.error (.nestingExceeded maxDepth), s)
      else (.ok (Utf8.decodeLossy plain), s)

/-- Decodes an encoded script at one level: compiles, decompiles, and falls back to `unwrap`. -/
def decodeMarked (c : Collaborators σ) (debug : Bool) (depth : Nat) (blob : Bytes)
    (unwrap : Failure → Session σ → Except Failure Bytes × Session σ) (s : Session σ) :
    Except Failure Bytes × Session σ :=
  let (answer, s) := s.ask (.compile blob) (c.compile blob)
  let s := (compiledLines depth blob answer).foldl (fun s line => s.debug debug line) s
  match compiled blob answer with
  | .aborted failure => (.error failure, s)
  | .nothing failure => unwrap failure s
  | .chunk chunk =>
      match s.ask (.decompile chunk) (c.decompile chunk) with
      | (.ok source, s) =>
          (.ok source, s.debug debug
            (text "Decoded marker blob: bytes=" ++ decimal blob.length ++ text " chunk=" ++
              decimal chunk.length ++ text " compile=" ++ Log.elapsed ++ text " decompile=" ++
              Log.elapsed))
      | (.error failure, s) =>
          if failure.kind.isScript then
            unwrap failure (s.debug debug
              (text "Decompile failed (depth " ++ decimal depth ++ text "): " ++
                failure.message))
          else (.error failure, s)

/-- Decodes a script with `levels` further levels left. -/
def decodeLevel (c : Collaborators σ) (debug : Bool) :
    Nat → Bytes → Bytes → Session σ → Except Failure Bytes × Session σ
  | levels, blob, companion, s =>
      if blob.isEmpty then (.ok [], s)
      else if !Chunk.hasMarker blob then (.ok (Utf8.decodeLossy blob), s)
      else
        let inner : Option (Bytes → Session σ → Except Failure Bytes × Session σ) :=
          match levels with
          | 0 => none
          | levels + 1 => some fun plain s => decodeLevel c debug levels plain [] s
        decodeMarked c debug (depthOf levels) blob
          (fun failure s =>
            unwrapping debug (depthOf levels) blob companion failure inner s) s

def decodeToText (c : Collaborators σ) (debug : Bool) (blob companion : Bytes) (s : Session σ) :
    Except Failure Bytes × Session σ :=
  decodeLevel c debug maxDepth blob companion s

/-- The text of an asset: the source of an encoded script, or else its bytes. -/
def textFromAsset (c : Collaborators σ) (debug : Bool) (blob companion : Bytes)
    (s : Session σ) : Except Failure Bytes × Session σ :=
  if Chunk.hasMarker blob then
    match decodeToText c debug blob companion s with
    | (.ok source, s) => (.ok source, s)
    | (.error failure, s) =>
        if failure.kind.isSurvivable then
          (.ok (Utf8.decodeLossy blob),
            s.debug debug (text "Falling back to raw text: " ++ failure.message))
        else (.error failure, s)
  else (.ok (Utf8.decodeLossy blob), s)

def parseRecords (c : Collaborators σ) (debug : Bool) (blob companion : Bytes)
    (s : Session σ) : Except Failure (List Value) × Session σ :=
  let (source, s) := textFromAsset c debug blob companion s
  (source.map records, s)

/-! ## Tables -/

/-- The chunk for the external interpreter when the native one is unavailable. -/
def chunkForDump (blob : Bytes) : Except Failure Bytes → Except Failure Bytes
  | .ok chunk => .ok chunk
  | .error failure =>
      if failure.kind = .unavailable then
        if Chunk.hasMarker blob then Chunk.synthesize blob else .ok blob
      else .error failure

def dumpExternally (c : Collaborators σ) (debug : Bool) (blob name : Bytes) (s : Session σ) :
    Except Failure Value × Session σ :=
  let (answer, s) := s.ask (.compile blob) (c.compile blob)
  match chunkForDump blob answer with
  | .error failure => (.error failure, s)
  | .ok chunk =>
      match s.ask (.dump chunk name) (c.dump chunk name) with
      | (.ok value, s) =>
          (.ok value, s.debug debug
            (text "External dump '" ++ Log.shown name ++ text "': chunk=" ++
              decimal chunk.length ++ text " " ++ Log.elapsed))
      | (.error failure, s) => (.error failure, s)

/-- A global table of a script; the external interpreter is used only if the native one is
unavailable. -/
def dumpTable (c : Collaborators σ) (debug : Bool) (blob name : Bytes) (s : Session σ) :
    Except Failure Value × Session σ :=
  if blob.isEmpty then (.ok (.object []), s)
  else match s.ask (.extract blob name) (c.extract blob name) with
    | (.ok value, s) =>
        (.ok value, s.debug debug
          (text "Native dump '" ++ Log.shown name ++ text "': " ++ Log.elapsed))
    | (.error failure, s) =>
        if failure.kind = .unavailable then
          dumpExternally c debug blob name (s.debug debug
            (text "Native runtime unavailable, using external interpreter: " ++
              failure.message))
        else (.error failure, s)

end Decoder

end LuaAsset
